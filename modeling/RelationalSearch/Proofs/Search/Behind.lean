import RelationalSearch.Proofs.Search.Arrangement
import RelationalSearch.Proofs.Search.Contents
import RelationalSearch.Proofs.Search.Fairness
import RelationalSearch.Proofs.Stream.Trailing

/-!
# What comes behind in a located search

Behind an ordered branch comes the next one, if the search of the branch ends
(`Goal.locates_ordered_iff`).  A located search has no session, but it may be
run in one and leave it alone (`Engine.detached`), so work waits behind it as it
does in the search of the library.

Behind each result of the first goal of a conjunction comes what the second goal
delivers from there.  All of it is delivered, in its order, between what comes
behind other results (`Goal.Finds.exists_sublist_both`), and nothing comes
behind two of them (`Goal.Finds.existsUnique_of_both`).
-/

namespace RelationalSearch

/-! ## Engines without a session -/

section Detached

variable {Later Next Result : Type}

/-- The engine in a session that it leaves alone. -/
def Engine.detached (engine : Engine Id Later Next Result) :
    Engine Search Later Next Result where
  force work := pure (engine.force work)
  feed next result := pure (engine.feed next result)

namespace Stream

theorem andThen_pure
    (feed : Result → Stream Later Next Result)
    (next : Next)
    (stream : Stream Later Next Result) :
    andThen (m := Search) (fun result => pure (feed result)) next stream =
      pure (andThen (m := Id) feed next stream) := by
  induction stream with
  | ready result rest ih =>
    rw [andThen, ih]
    rfl
  | _ => rfl

theorem followedBy_pure
    (force : Later → Stream Later Next Result)
    (stream : Stream Later Next Result)
    (queue : Queue Later) :
    followedBy (m := Search) (fun work => pure (force work)) stream queue =
      pure (followedBy (m := Id) force stream queue) := by
  induction counted : queue.size using Nat.strongRecOn
    generalizing stream queue with
  | _ size ih =>
    by_cases ended : stream = empty
    · subst ended
      rcases taken : queue.take with ⟨work, _ | rest⟩
      · rw [followedBy_empty_of_last _ taken, followedBy_empty_of_last _ taken]
      · rw [followedBy_empty_of_more _ taken, followedBy_empty_of_more _ taken]
        have smaller : rest.size < size :=
          counted ▸ Queue.size_lt_of_take taken
        exact ih rest.size smaller (force work) rest rfl
    · rw [followedBy_of_ne_empty _ ended, followedBy_of_ne_empty _ ended]
      rfl

variable (engine : Engine Id Later Next Result)

theorem advance_detached (stream : Stream Later Next Result) :
    advance engine.detached stream = pure (advance engine stream) := by
  induction stream with
  | empty => rw [advance_empty, advance_empty]; rfl
  | ready result rest => rw [advance_ready, advance_ready]; rfl
  | suspended work => rw [advance_suspended, advance_suspended]; rfl
  | merge left right leftIH _ =>
    rw [advance_merge, advance_merge, leftIH]
    rfl
  | bind inner next ih =>
    rw [advance_bind, advance_bind, ih]
    exact andThen_pure (engine.feed next) next (advance engine inner)
  | append inner queue ih =>
    rcases worked : inner.isReady with _ | _
    · rw [advance_append_of_pending _ worked, advance_append_of_pending _ worked,
        ih]
      exact followedBy_pure engine.force (advance engine inner) queue
    · rw [advance_append_of_isReady _ worked, advance_append_of_isReady _ worked]
      exact followedBy_pure engine.force inner queue

theorem nextMoment_detached
    (stream : Stream Later Next Result)
    (session : Session) :
    nextMoment engine.detached (stream, session) =
      (step engine stream, session) := by
  rcases stream.cases_of_shape with rfl | ⟨_, _, rfl⟩ | shaped
  · rw [nextMoment_empty, step_empty]
    rfl
  · rfl
  · rw [nextMoment_of_pending _ shaped, step_of_pending _ shaped,
      advance_detached]
    rfl

theorem iterate_nextMoment_detached
    (stream : Stream Later Next Result)
    (session : Session)
    (time : Nat) :
    (nextMoment engine.detached)^[time] (stream, session) =
      ((step engine)^[time] stream, session) := by
  induction time generalizing stream with
  | zero => rfl
  | succ time ih =>
    rw [Function.iterate_succ_apply, nextMoment_detached, ih]
    rfl

theorem stagesFrom_detached
    (stream : Stream Later Next Result)
    (session : Session) :
    stagesFrom engine.detached (stream, session) =
      fun time => (step engine)^[time] stream := by
  funext time
  rw [stagesFrom, iterate_nextMoment_detached]

/-- A stream ends in the session that it is left alone in. -/
theorem Exhausts.session_eq_of_detached
    {engine : Engine Id Later Next Result}
    {stream : Stream Later Next Result}
    {session after : Session}
    {results : List Result}
    (exhausts : Exhausts engine.detached (stream, session) results after) :
    after = session := by
  rcases exhausts with ⟨time, reached, _⟩
  rw [iterate_nextMoment_detached] at reached
  exact (congrArg Prod.snd reached).symm

end Stream

end Detached

/-! ## Located branches in succession -/

section Succession

variable {Code : Type} {goalOf : Code → Recipe (Goal Code)} {gaps : Gaps}
  {goal left right : Goal Code} {start finish : Located Subst} {index : Nat}
  {results : List (Located Subst)}

/-- What is located is delivered in a session that is left alone. -/
theorem Goal.locates_iff_delivers :
    goal.Locates goalOf gaps start index finish ↔
      Stream.Delivers (locatedEngine goalOf gaps).detached
        (goal.explore gaps start) .start index finish := by
  have moments := @Stream.delivers_iff _ _ _
    (locatedEngine goalOf gaps).detached (goal.explore gaps start, .start) index
    finish
  rw [Stream.stagesFrom_detached] at moments
  exact moments.symm

theorem Goal.completes_iff_exhausts :
    goal.Completes goalOf gaps start results ↔
      Stream.Exhausts (locatedEngine goalOf gaps).detached
        (goal.explore gaps start, .start) results .start := by
  rw [Stream.Exhausts, Stream.stagesFrom_detached]
  simp only [Stream.iterate_nextMoment_detached, Prod.mk.injEq, and_true]
  exact Iff.rfl

/-- The right goal waits for the end of the left one. -/
theorem Goal.handsOver_explore_ordered
    (goalOf : Code → Recipe (Goal Code))
    (gaps : Gaps)
    (left right : Goal Code)
    (start : Located Subst) :
    Stream.HandsOver (locatedEngine goalOf gaps).detached
      ⟨start.place.right, .apply right start.value⟩
      (left.explore gaps ⟨start.place.left, start.value⟩, .start)
      ((ordered left right).explore gaps start, .start) := by
  have waits := @Stream.handsOver_before _ _ _
    (locatedEngine goalOf gaps).detached
    ⟨start.place.right, .apply right start.value⟩
    (left.explore gaps ⟨start.place.left, start.value⟩) .start
  rw [explore]
  generalize left.explore gaps ⟨start.place.left, start.value⟩ = stream at *
  cases stream <;> exact waits

/--
The results of the left goal come first.  Those of the right one come behind
them, if the search of the left one ends.
-/
theorem Goal.locates_ordered_iff :
    (ordered left right).Locates goalOf gaps start index finish ↔
      left.Locates goalOf gaps ⟨start.place.left, start.value⟩ index finish ∨
        ∃ results behind,
          left.Completes goalOf gaps ⟨start.place.left, start.value⟩ results ∧
            index = results.length + behind ∧
            right.Locates goalOf gaps ⟨start.place.right, start.value⟩ behind
              finish := by
  have waits := handsOver_explore_ordered goalOf gaps left right start
  simp only [locates_iff_delivers, completes_iff_exhausts]
  constructor
  · intro delivers
    rcases delivers.exists_getElem? with ⟨time, taken⟩
    rcases waits.at_moment time with ⟨_, _, same⟩ |
      ⟨earlier, results, after, early, exhausts, done, given⟩
    · rw [same] at taken
      exact .inl (Stream.delivers_of_getElem? taken)
    · cases Stream.Exhausts.session_eq_of_detached exhausts
      rcases Nat.exists_eq_add_of_le early with ⟨more, rfl⟩
      rw [Stream.delivered_add, done, given] at taken
      rcases Nat.lt_or_ge index results.length with inFront | late
      · rw [List.getElem?_append_left inFront] at taken
        rcases exhausts with ⟨last, _, rfl⟩
        exact .inl (Stream.delivers_of_getElem? taken)
      · rw [List.getElem?_append_right late] at taken
        exact .inr ⟨results, index - results.length, exhausts, by omega,
          Stream.delivers_of_getElem? taken⟩
  · rintro (onLeft | ⟨results, behind, exhausts, rfl, onRight⟩)
    · exact waits.delivers onLeft
    · rcases waits.exists_done exhausts with ⟨time, done, given⟩
      rcases onRight.exists_getElem? with ⟨count, taken⟩
      have late :
          (Stream.delivered
              (Stream.stagesFrom (locatedEngine goalOf gaps).detached
                ((ordered left right).explore gaps start, .start))
              (time + count))[results.length + behind]? =
            some finish := by
        rw [Stream.delivered_add, done, given,
          List.getElem?_append_right (Nat.le_add_right _ _),
          Nat.add_sub_cancel_left]
        exact taken
      exact Stream.delivers_of_getElem? late

/--
The goal delivers what the first one does, and behind that what the second one
does, if the search of the first one ends.  Both are searched from where the goal
is, at places of their own.
-/
def Goal.LocatesInTurn
    (goalOf : Code → Recipe (Goal Code))
    (gaps : Gaps)
    (goal : Goal Code)
    (start : Located Subst)
    (first second : Goal Code) : Prop :=
  ∃ firstPlace secondPlace : Place,
    ∀ index finish,
      goal.Locates goalOf gaps start index finish ↔
        first.Locates goalOf gaps ⟨firstPlace, start.value⟩ index finish ∨
          ∃ results behind,
            first.Completes goalOf gaps ⟨firstPlace, start.value⟩ results ∧
              index = results.length + behind ∧
              second.Locates goalOf gaps ⟨secondPlace, start.value⟩ behind
                finish

/-- Behind the last branch comes nothing. -/
theorem Goal.locates_ordered_fail_iff :
    (ordered left .fail).Locates goalOf gaps start index finish ↔
      left.Locates goalOf gaps ⟨start.place.left, start.value⟩ index finish := by
  rw [locates_ordered_iff]
  refine or_iff_left ?_
  rintro ⟨_, _, _, _, nothing⟩
  exact not_finds_fail nothing.finds

/-- A goal that is built delivers what is built. -/
theorem Goal.locates_dynamic_iff {builder : Subst → Recipe (Goal Code)} :
    (dynamic builder).Locates goalOf gaps start index finish ↔
      ((builder start.value).goalAt gaps start).Locates goalOf gaps
        (start.enter gaps (builder start.value)) index finish := by
  simp only [Locates, located, explore_dynamic]

end Succession

/-! ## Located conjunctions -/

section Conjunctions

variable {Code : Type} {goalOf : Code → Recipe (Goal Code)} {gaps : Gaps}
  {first second : Goal Code} {start middle finish : Located Subst}

/--
The results of the goal come by way of these states: each of them by way of one
state, and of those that are delivered behind a state each one in its turn.
-/
structure Goal.GoesByWayOf
    (goalOf : Code → Recipe (Goal Code))
    (gaps : Gaps)
    (goal : Goal Code)
    (start : Located Subst)
    (states : Located Subst → Prop)
    (behind : Goal Code) : Prop where
  through :
    ∀ finish, goal.Finds goalOf gaps start finish →
      ∃! state, states state ∧ behind.Finds goalOf gaps state finish
  all :
    ∀ state, states state →
      ∀ time, ∃ later,
        (behind.located goalOf gaps state time).Sublist
          (goal.located goalOf gaps start later)

/-- Behind a result of the first goal comes all that the second one delivers. -/
theorem Goal.Finds.exists_sublist_both
    (finds : first.Finds goalOf gaps start middle)
    (second : Goal Code)
    (time : Nat) :
    ∃ later,
      (second.located goalOf gaps middle time).Sublist
        ((both first second).located goalOf gaps start later) := by
  rcases finds with ⟨count, member⟩
  have front :
      (first.explore gaps start).Brings goalOf gaps [middle] :=
    (Stream.Brings.of_delivered _ count).sublist
      (List.singleton_sublist.mpr member)
  have back :
      (second.explore gaps middle).Brings goalOf gaps
        (second.located goalOf gaps middle time) :=
    .of_delivered _ time
  have fed :
      (both first second).explore gaps start =
        Branches.andThen gaps second (first.explore gaps start) := by
    rw [explore]
    rfl
  have whole := (front.andThen back).exists_sublist_delivered
  rw [← fed] at whole
  exact whole

/-- Each result comes behind one result of the first goal. -/
theorem Goal.Finds.existsUnique_of_both
    (finds : (both first second).Finds goalOf gaps start finish) :
    ∃! middle,
      first.Finds goalOf gaps start middle ∧
        second.Finds goalOf gaps middle finish := by
  rcases finds.of_both with ⟨middle, front, back⟩
  refine ⟨middle, ⟨front, back⟩, ?_⟩
  rintro other ⟨otherFront, otherBack⟩
  rcases front.nonempty_derivation with ⟨derivation⟩
  rcases back.nonempty_derivation with ⟨onwards⟩
  rcases otherFront.nonempty_derivation with ⟨otherDerivation⟩
  rcases otherBack.nonempty_derivation with ⟨otherOnwards⟩
  exact (congrArg Sigma.fst (derivation.eq_of_trace_isSuffix otherDerivation
    onwards.trace_isSuffix otherOnwards.trace_isSuffix)).symm

/-- A conjunction goes by way of the results of its first goal. -/
theorem Goal.goesByWayOf_both
    (goalOf : Code → Recipe (Goal Code))
    (gaps : Gaps)
    (first second : Goal Code)
    (start : Located Subst) :
    (both first second).GoesByWayOf goalOf gaps start
      (first.Finds goalOf gaps start) second where
  through _ finds := finds.existsUnique_of_both
  all _ finds := finds.exists_sublist_both second

theorem Goal.GoesByWayOf.dynamic
    {builder : Subst → Recipe (Goal Code)}
    {states : Located Subst → Prop}
    {behind : Goal Code}
    (built :
      ((builder start.value).goalAt gaps start).GoesByWayOf goalOf gaps
        (start.enter gaps (builder start.value)) states behind) :
    (Goal.dynamic builder).GoesByWayOf goalOf gaps start states behind where
  through finish finds := built.through finish finds.of_dynamic
  all state member time := by
    rcases built.all state member time with ⟨later, included⟩
    refine ⟨later, ?_⟩
    rwa [located, located, explore_dynamic, ← located, ← located]

end Conjunctions

end RelationalSearch
