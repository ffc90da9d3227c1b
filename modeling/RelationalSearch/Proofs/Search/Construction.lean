import RelationalSearch.Proofs.Search.Follow
import RelationalSearch.Proofs.Search.Generic
import RelationalSearch.Proofs.Stream.Form

/-!
# Streams as callers make them

A caller makes streams from the empty one, from single results and from
suspensions, and combines them: two may take turns, one may be followed by what a
piece of work gives, and results may be fed onwards (`Stream.Made`).  The work that
is left in such a stream, and the goals that results are fed to, make their streams
in the same way (`Stream.GivesMade`); for the search of the library this is shown
here, for all goals and plans.

Streams that are made in this way are well-formed, and they stay so while a caller
asks for results (`Stream.orderly_at_every_moment`).  So `Stream.advance` is only
asked to advance streams with work to do, and does some each time.
-/

namespace RelationalSearch

namespace Stream

open Search

variable {Later Next Result : Type} {engine : Engine Search Later Next Result}
  {stream : Stream Later Next Result}

/--
A stream that is put together from the ways there are to make streams.  Where work is
done at once, or results are fed onwards at once, streams made in this way come of it.
-/
inductive Made (engine : Engine Search Later Next Result) :
    Stream Later Next Result → Prop where
  | empty : Made engine .empty
  | unit (result : Result) : Made engine (.unit result)
  | suspended (work : Later) : Made engine (.suspended work)
  | interleave
      {left right : Stream Later Next Result}
      (leftMade : Made engine left)
      (rightMade : Made engine right) :
      Made engine (left.interleave right)
  | before
      {stream : Stream Later Next Result}
      (made : Made engine stream)
      (work : Later)
      (forced :
        ∀ session : Session, Made engine ((engine.force work).run session).1)
      (session : Session) :
      Made engine ((stream.before (engine.force work) work).run session).1
  | andThen
      {stream : Stream Later Next Result}
      (made : Made engine stream)
      (next : Next)
      (fed :
        ∀ result (session : Session),
          Made engine ((engine.feed next result).run session).1)
      (session : Session) :
      Made engine ((stream.andThen (engine.feed next) next).run session).1

theorem Made.wellFormed (made : Made engine stream) : stream.WellFormed := by
  induction made with
  | empty => exact .empty
  | unit => exact .ready .empty
  | suspended => exact .suspended
  | interleave _ _ leftIH rightIH => exact leftIH.interleave rightIH
  | before _ work _ session ih forcedIH =>
    exact ensures_before forcedIH work ih session
  | andThen _ next _ session ih fedIH =>
    exact ensures_andThen fedIH next ih session

/-- The work of the engine makes its streams as callers do. -/
structure GivesMade (engine : Engine Search Later Next Result) : Prop where
  forces : ∀ work, Ensures (engine.force work) (Made engine)
  feeds : ∀ next result, Ensures (engine.feed next result) (Made engine)

theorem GivesMade.keepsForm (gives : GivesMade engine) : KeepsForm engine where
  forces work session := (gives.forces work session).wellFormed
  feeds next result session := (gives.feeds next result session).wellFormed

end Stream

/-! ## Goals and plans -/

section Goals

open Search
open RelationalSearch.Stream (Made GivesMade)

variable {Code : Type} (goalOf : Code → Recipe (Goal Code))

theorem Goal.made_apply (goal : Goal Code) (subst : Subst) :
    Ensures (goal.apply subst) (Made (searchEngine goalOf)) := by
  induction goal using Goal.induction generalizing subst with
  | eq left right =>
    rw [Goal.apply]
    split
    · exact ensures_pure (.unit _)
    · exact ensures_pure .empty
  | succeed => exact ensures_pure (.unit subst)
  | fail => exact ensures_pure .empty
  | both first second firstIH secondIH =>
    rw [Goal.apply]
    exact (firstIH subst).bind fun stream made session =>
      made.andThen second secondIH session
  | either left right leftIH rightIH =>
    rw [Goal.apply]
    exact (rightIH subst).bind fun _ lastMade =>
      (leftIH subst).bind fun _ frontMade =>
        ensures_pure (frontMade.interleave lastMade)
  | ordered left right leftIH rightIH =>
    rw [Goal.apply]
    exact (leftIH subst).bind fun stream made session =>
      made.before (.apply right subst) (rightIH subst) session
  | defer code => exact ensures_pure (.suspended _)
  | dynamic builder parts =>
    rw [Goal.apply, applyRecipe_eq]
    intro session
    rcases (builder subst).run_eq_made session with ⟨made, _⟩
    change Made _ (((((builder subst).run.run session).1).apply subst).run
      ((builder subst).run.run session).2).1
    rw [made]
    exact parts subst _ subst _

theorem made_applyRecipe (recipe : Recipe (Goal Code)) (subst : Subst) :
    Ensures (applyRecipe recipe subst) (Made (searchEngine goalOf)) := by
  rw [applyRecipe_eq]
  exact fun session => Goal.made_apply goalOf _ subst _

theorem Plan.made_build (plan : Plan Code) :
    Ensures (plan.build goalOf) (Made (searchEngine goalOf)) := by
  induction plan with
  | empty => exact ensures_pure .empty
  | unit subst => exact ensures_pure (.unit subst)
  | apply goal subst => exact goal.made_apply goalOf subst
  | make recipe subst => exact made_applyRecipe goalOf recipe subst
  | deferred code subst => exact made_applyRecipe goalOf (goalOf code) subst
  | note event plan ih => exact fun session => ih _
  | later plan ih => exact ih ()
  | suspend plan => exact ensures_pure (.suspended plan)
  | merge left right leftIH rightIH =>
    exact leftIH.bind fun _ frontMade =>
      rightIH.bind fun _ lastMade => ensures_pure (frontMade.interleave lastMade)
  | append first second firstIH secondIH =>
    exact firstIH.bind fun _ made session => made.before second secondIH session
  | bind plan recipe ih =>
    exact ih.bind fun _ made session =>
      made.andThen _ (Goal.made_apply goalOf _) _

/-- The search makes all its streams as callers do. -/
theorem givesMade_searchEngine : GivesMade (searchEngine goalOf) where
  forces := Plan.made_build goalOf
  feeds := Goal.made_apply goalOf

end Goals

/-! ## While results are asked for -/

namespace Stream

variable {Later Next Result : Type} {engine : Engine Search Later Next Result}

/--
The stream is well-formed at every depth.  If it is pending then there is work at the
bottom of its left side, and to advance it is to do this work first.  Where a result
is asked for, only such streams are advanced.
-/
structure Orderly
    (engine : Engine Search Later Next Result)
    (moment : Moment Later Next Result) : Prop where
  wellFormed : moment.1.WellFormed
  progresses : moment.1.shape = .pending → Progresses engine moment.1
  not_idle :
    moment.1.shape = .pending →
      ∀ stream, (descend moment.1 []).1 ≠ .idle stream
  pullWith_eq :
    ∀ advancing : Stream Later Next Result → Search (Stream Later Next Result),
      (∀ stream : Stream Later Next Result, stream.WellFormed →
        stream.shape = .pending → advancing stream = advance engine stream) →
        ∀ effort,
          (pullWith advancing effort moment.1).run moment.2 =
            (pull engine effort moment.1).run moment.2

theorem KeepsForm.orderly
    (keeps : KeepsForm engine)
    {moment : Moment Later Next Result}
    (form : moment.1.WellFormed) :
    Orderly engine moment where
  wellFormed := form
  progresses pending := form.progresses pending engine
  not_idle pending stream idle := by
    rcases form.exists_work pending [] with ⟨work, found⟩ | ⟨queue, found⟩
    · cases idle.symm.trans found
    · cases idle.symm.trans found
  pullWith_eq _ agrees effort := keeps.pullWith_eq agrees form effort moment.2

/--
Streams that are made of the combinations are well-formed at every moment while a
caller asks for their results, and there is progress each time that one is advanced.
In the search of the library all streams are made in this way: those of goals and of
plans, and all that comes of the work in them.
-/
theorem orderly_at_every_moment :
    (∀ (Later Next Result : Type) (engine : Engine Search Later Next Result),
      GivesMade engine →
        ∀ stream : Stream Later Next Result, Made engine stream →
          ∀ (session : Session) (time : Nat),
            Orderly engine ((nextMoment engine)^[time] (stream, session))) ∧
    ∀ (Code : Type) (goalOf : Code → Recipe (Goal Code)),
      GivesMade (searchEngine goalOf) := by
  constructor
  · intro Later Next Result engine gives stream made session time
    have keeps := gives.keepsForm
    have start : (stream, session).1.WellFormed := made.wellFormed
    exact keeps.orderly (keeps.iterate start time)
  · intro Code goalOf
    exact givesMade_searchEngine goalOf

/--
An endless stream beside another one, followed by a third one and fed to a goal, has
work to do after five steps.
-/
theorem orderly_at_every_moment_endless :
    let goalOf := firstFreshOr (.defer ())
    let plan : Plan Unit :=
      .bind
        (.append (.merge (.suspend (.unit ∅)) (.deferred () ∅)) (.unit ∅))
        (.done (.defer ()))
    let start := (plan.build goalOf).run ⟨#["q"], #[]⟩
    let later := (nextMoment (searchEngine goalOf))^[5] start
    GivesMade (searchEngine goalOf) ∧
      Made (searchEngine goalOf) start.1 ∧
      later.1.shape = .pending ∧
      later.1.WellFormed ∧
      Progresses (searchEngine goalOf) later.1 := by
  intro goalOf plan start later
  have gives := orderly_at_every_moment.2 Unit goalOf
  have made : Made (searchEngine goalOf) start.1 := gives.forces plan _
  have orderly : Orderly (searchEngine goalOf) later :=
    orderly_at_every_moment.1 _ _ _ _ gives start.1 made start.2 5
  have pending : later.1.shape = .pending := by decide +kernel
  exact ⟨gives, made, pending, orderly.wellFormed, orderly.progresses pending⟩

end Stream

end RelationalSearch
