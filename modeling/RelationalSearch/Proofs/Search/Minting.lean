import RelationalSearch.Proofs.Search.Follow
import RelationalSearch.Proofs.Stream.Round

/-!
# Numbers of variables are not given back

A session only ever makes more variables.  So whatever one part of a search
does, the variables that it mints are no others than those which the rest of
the search mints later (`Search.Keeps`).
-/

namespace RelationalSearch

/-- The computation does not lower the number of the next variable. -/
def Search.Keeps {α : Type} (search : Search α) : Prop :=
  ∀ session, session.supply ≤ (search.run session).2.supply

namespace Search

variable {α β : Type}

theorem keeps_pure (value : α) : Keeps (pure value) :=
  fun session => Nat.le_refl session.supply

theorem Keeps.bind
    {search : Search α}
    {next : α → Search β}
    (keeps : Keeps search)
    (later : ∀ value, Keeps (next value)) :
    Keeps (search >>= next) :=
  fun session => (keeps session).trans (later _ _)

theorem keeps_fresh (name : String) : Keeps (Session.fresh name) := by
  intro session
  change session.names.size ≤ (session.names.push name).size
  rw [Array.size_push]
  exact Nat.le_succ _

theorem keeps_note (event : String) : Keeps (Session.note event) :=
  fun session => Nat.le_refl session.supply

theorem keeps_recipe (recipe : Recipe α) : Keeps recipe.run := by
  induction recipe with
  | done value => exact keeps_pure value
  | mint name next ih => exact (keeps_fresh name).bind ih
  | note event next ih => exact (keeps_note event).bind fun _ => ih

end Search

/-! ## Streams -/

namespace Stream

open Search

variable {Later Next Result : Type} {engine : Engine Search Later Next Result}

theorem keeps_andThen
    {feed : Result → Search (Stream Later Next Result)}
    (feeds : ∀ result, Keeps (feed result))
    (next : Next)
    (stream : Stream Later Next Result) :
    Keeps (andThen feed next stream) := by
  induction stream with
  | empty => exact keeps_pure _
  | ready result rest ih =>
    exact (feeds result).bind fun _ => ih.bind fun _ => keeps_pure _
  | suspended | merge | bind | append => exact keeps_pure _

theorem keeps_followedBy
    {force : Later → Search (Stream Later Next Result)}
    (forces : ∀ work, Keeps (force work))
    (stream : Stream Later Next Result)
    (queue : Queue Later) :
    Keeps (followedBy force stream queue) := by
  induction counted : queue.size using Nat.strongRecOn
    generalizing stream queue with
  | _ size ih =>
    by_cases ended : stream = empty
    · subst ended
      rcases taken : queue.take with ⟨work, _ | rest⟩
      · rw [followedBy_empty_of_last _ taken]
        exact forces work
      · rw [followedBy_empty_of_more _ taken]
        have smaller : rest.size < size :=
          counted ▸ Queue.size_lt_of_take taken
        exact (forces work).bind fun later =>
          ih rest.size smaller later rest rfl
    · rw [followedBy_of_ne_empty _ ended]
      exact keeps_pure _

theorem keeps_before
    {force : Search (Stream Later Next Result)}
    (forces : Keeps force)
    (work : Later)
    (stream : Stream Later Next Result) :
    Keeps (before force work stream) := by
  rw [← followedBy_one fun _ => force]
  exact keeps_followedBy (fun _ => forces) stream _

/-- The work of the engine gives no numbers back. -/
structure KeptBy (engine : Engine Search Later Next Result) : Prop where
  forces : ∀ work, Keeps (engine.force work)
  feeds : ∀ next result, Keeps (engine.feed next result)

theorem KeptBy.advance
    (kept : KeptBy engine)
    (stream : Stream Later Next Result) :
    Keeps (advance engine stream) := by
  induction stream with
  | empty =>
    rw [advance_empty]
    exact keeps_pure _
  | ready result rest =>
    rw [advance_ready]
    exact keeps_pure _
  | suspended work =>
    rw [advance_suspended]
    exact kept.forces work
  | merge left right leftIH _ =>
    rw [advance_merge]
    exact leftIH.bind fun _ => keeps_pure _
  | bind inner next ih =>
    rw [advance_bind]
    exact ih.bind fun stream => keeps_andThen (kept.feeds next) next stream
  | append inner queue ih =>
    rcases worked : inner.isReady with _ | _
    · rw [advance_append_of_pending engine worked]
      exact ih.bind fun stream => keeps_followedBy kept.forces stream queue
    · rw [advance_append_of_isReady engine worked]
      exact keeps_followedBy kept.forces inner queue

theorem KeptBy.nextRound
    (kept : KeptBy engine)
    (stream : Stream Later Next Result) :
    Keeps (nextRound engine stream) :=
  kept.advance stream.behind

theorem KeptBy.supply_le_iterate
    (kept : KeptBy engine)
    (moment : Moment Later Next Result)
    (time : Nat) :
    moment.2.supply ≤ ((nextMoment engine)^[time] moment).2.supply := by
  have step (moment : Moment Later Next Result) :
      moment.2.supply ≤ (nextMoment engine moment).2.supply := by
    rcases moment with ⟨stream, session⟩
    cases stream with
    | ready result rest => exact Nat.le_refl _
    | empty | suspended | merge | bind | append => exact kept.advance _ session
  induction time with
  | zero => exact Nat.le_refl _
  | succ time ih =>
    rw [Function.iterate_succ_apply']
    exact ih.trans (step _)

end Stream

/-! ## Goals and plans -/

section Goals

open Search

variable {Code : Type}

theorem Goal.keeps_apply (goal : Goal Code) (subst : Subst) :
    Keeps (goal.apply subst) := by
  induction goal using Goal.induction generalizing subst with
  | eq left right =>
    rw [Goal.apply]
    split
    · exact keeps_pure _
    · exact keeps_pure _
  | succeed => exact keeps_pure _
  | fail => exact keeps_pure _
  | both first second firstIH secondIH =>
    rw [Goal.apply]
    exact (firstIH subst).bind fun stream =>
      Stream.keeps_andThen secondIH second stream
  | either left right leftIH rightIH =>
    rw [Goal.apply]
    exact (rightIH subst).bind fun _ =>
      (leftIH subst).bind fun _ => keeps_pure _
  | ordered left right leftIH rightIH =>
    rw [Goal.apply]
    exact (leftIH subst).bind fun stream =>
      Stream.keeps_before (rightIH subst) _ stream
  | defer code => exact keeps_pure _
  | dynamic builder parts =>
    rw [Goal.apply, applyRecipe_eq]
    intro session
    rcases (builder subst).run_eq_made session with ⟨made, _⟩
    have built := keeps_recipe (builder subst) session
    refine built.trans ?_
    change _ ≤ (((((builder subst).run.run session).1).apply subst).run
      ((builder subst).run.run session).2).2.supply
    rw [made]
    exact parts subst _ subst _

theorem keeps_applyRecipe (recipe : Recipe (Goal Code)) (subst : Subst) :
    Keeps (applyRecipe recipe subst) := by
  rw [applyRecipe_eq]
  exact (keeps_recipe recipe).bind fun goal => goal.keeps_apply subst

theorem Plan.keeps_build
    (goalOf : Code → Recipe (Goal Code))
    (plan : Plan Code) :
    Keeps (plan.build goalOf) := by
  induction plan with
  | empty => exact keeps_pure _
  | unit subst => exact keeps_pure _
  | apply goal subst => exact goal.keeps_apply subst
  | make recipe subst => exact keeps_applyRecipe recipe subst
  | deferred code subst => exact keeps_applyRecipe (goalOf code) subst
  | note event plan ih => exact (keeps_note event).bind fun _ => ih
  | later plan ih => exact ih ()
  | suspend plan => exact keeps_pure _
  | merge left right leftIH rightIH =>
    exact leftIH.bind fun _ => rightIH.bind fun _ => keeps_pure _
  | append first second firstIH secondIH =>
    exact firstIH.bind fun stream => Stream.keeps_before secondIH _ stream
  | bind plan recipe ih =>
    exact ih.bind fun stream => (keeps_recipe recipe).bind fun goal =>
      Stream.keeps_andThen goal.keeps_apply goal stream

theorem keptBy_searchEngine (goalOf : Code → Recipe (Goal Code)) :
    Stream.KeptBy (searchEngine goalOf) where
  forces := Plan.keeps_build goalOf
  feeds := Goal.keeps_apply

end Goals

end RelationalSearch
