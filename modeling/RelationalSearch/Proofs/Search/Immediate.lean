import RelationalSearch.Proofs.Search.Reading
import RelationalSearch.Proofs.Stream.Round

/-!
# Goals without suspensions

A goal is immediate if nothing in it is put off (`Goal.Immediate`).  Applying
such a goal is all the work that its search takes: the stream that it gives is a
list, that of its results depth first and from left to right.

So feeding the results of a stream to an immediate goal does not change the
rounds of the stream.  Each round feeds its own results
(`Branches.nextRound_andThen`), however many goals are waiting one behind the
other.
-/

namespace RelationalSearch

variable {Code : Type}

/-! ## Immediate goals -/

/--
The goal is built from equations, conjunctions and disjunctions that take turns,
and so is each goal that a part of it builds.
-/
inductive Goal.Immediate : Goal Code → Prop where
  | eq (left right : Term) : Immediate (.eq left right)
  | succeed : Immediate .succeed
  | fail : Immediate .fail
  | both
      {first second : Goal Code}
      (onFirst : Immediate first)
      (onSecond : Immediate second) :
      Immediate (.both first second)
  | either
      {left right : Goal Code}
      (onLeft : Immediate left)
      (onRight : Immediate right) :
      Immediate (.either left right)
  | dynamic
      {builder : Subst → Recipe (Goal Code)}
      (parts :
        ∀ subst supply, Immediate ((builder subst).made supply).1) :
      Immediate (.dynamic builder)

namespace Goal.Immediate

theorem all
    {goals : List (Goal Code)}
    (each : ∀ goal ∈ goals, goal.Immediate) :
    (Goal.all goals).Immediate := by
  cases goals with
  | nil => exact .succeed
  | cons goal goals =>
    rw [List.forall_mem_cons] at each
    rcases each with ⟨front, rest⟩
    rw [Goal.all]
    induction goals generalizing goal with
    | nil => exact front
    | cons next goals ih =>
      rw [List.forall_mem_cons] at rest
      exact ih _ (.both front rest.1) rest.2

theorem any
    {branches : List (List (Goal Code))}
    (each : ∀ branch ∈ branches, ∀ goal ∈ branch, goal.Immediate) :
    (Goal.any branches).Immediate := by
  induction branches with
  | nil => exact .fail
  | cons branch branches ih =>
    rw [List.forall_mem_cons] at each
    exact .either (.all each.1) (ih each.2)

theorem cons (head tail whole : Term) :
    (Goal.cons head tail whole : Goal Code).Immediate :=
  .eq _ whole

theorem allEmpty (terms : List Term) (default : SeqKind) :
    (Goal.allEmpty terms default : Goal Code).Immediate := by
  apply Immediate.dynamic
  intro subst supply
  cases subst.agreedKind? terms none with
  | none => exact .fail
  | some kind =>
    apply Immediate.all
    rw [List.forall_mem_map]
    intro term _
    exact .eq term _

end Goal.Immediate

/-! ## Rounds of located searches -/

namespace Branches

variable {goalOf : Code → Recipe (Goal Code)} {gaps : Gaps} {goal : Goal Code}

theorem behind_andThen
    (ended : ∀ result, (goal.explore gaps result).behind = .empty)
    (stream : Branches Code) :
    (andThen gaps goal stream).behind = andThen gaps goal stream.behind := by
  induction stream with
  | ready result rest ih =>
    exact (Stream.behind_interleave (ended result) _).trans ih
  | _ => rfl

theorem worked_andThen
    (ended : ∀ result, (goal.explore gaps result).behind = .empty)
    (stream : Branches Code) :
    (andThen gaps goal stream).worked =
      stream.worked.flatMap fun result => (goal.explore gaps result).worked := by
  induction stream with
  | ready result rest ih =>
    rw [Stream.worked_ready, List.flatMap_cons, ← ih]
    exact Stream.worked_interleave (ended result) _
  | _ => rfl

/-- Does one piece of work behind the results that are worked out. -/
def nextRound
    (goalOf : Code → Recipe (Goal Code))
    (gaps : Gaps)
    (stream : Branches Code) : Branches Code :=
  advance goalOf gaps stream.behind

/-- Feeding results onwards is put off together with the work. -/
theorem nextRound_andThen
    (ended : ∀ result, (goal.explore gaps result).behind = .empty)
    (stream : Branches Code) :
    nextRound goalOf gaps (andThen gaps goal stream) =
      andThen gaps goal (nextRound goalOf gaps stream) := by
  induction stream with
  | empty =>
    have still : advance goalOf gaps .empty = .empty :=
      Stream.advance_empty (locatedEngine goalOf gaps)
    change advance goalOf gaps .empty =
      andThen gaps goal (advance goalOf gaps .empty)
    rw [still]
    rfl
  | ready result rest ih =>
    rw [nextRound, behind_andThen ended]
    rw [nextRound, behind_andThen ended] at ih
    exact ih
  | suspended | merge | bind | append => exact advance_bind goalOf gaps _ goal

/-- The rounds are those of the stream that is fed. -/
theorem rounds_andThen
    (ended : ∀ result, (goal.explore gaps result).behind = .empty)
    (stream : Branches Code)
    (round : Nat) :
    (nextRound goalOf gaps)^[round] (andThen gaps goal stream) =
      andThen gaps goal ((nextRound goalOf gaps)^[round] stream) := by
  have commutes : Function.Commute (nextRound goalOf gaps) (andThen gaps goal) :=
    nextRound_andThen ended
  exact commutes.iterate_left round stream

end Branches

/-! ## Searching immediate goals -/

namespace Goal.Immediate

variable {goal : Goal Code}

/-- All results are worked out when the goal has been applied. -/
theorem behind_explore
    (immediate : goal.Immediate)
    (gaps : Gaps)
    (start : Located Subst) :
    (goal.explore gaps start).behind = .empty := by
  induction immediate generalizing start with
  | eq left right =>
    rw [Goal.explore]
    cases start.value.unify left right <;> rfl
  | succeed | fail =>
    rw [Goal.explore]
    rfl
  | @both first second _ _ firstIH secondIH =>
    have fed := Branches.behind_andThen secondIH (first.explore gaps start)
    rw [firstIH] at fed
    rw [Goal.explore]
    exact fed
  | either _ _ leftIH rightIH =>
    rw [Goal.explore, Stream.behind_interleave (leftIH _)]
    exact rightIH _
  | dynamic _ ih =>
    rw [Goal.explore_dynamic]
    exact ih _ _ _

/-- The results that are worked out are those of the goal, as they are read. -/
theorem listing
    (immediate : goal.Immediate)
    (goalOf : Code → Recipe (Goal Code))
    (gaps : Gaps)
    (start : Located Subst) :
    Listing goalOf gaps goal start (goal.explore gaps start).worked := by
  induction immediate generalizing start with
  | eq left right =>
    rw [Goal.explore]
    cases outcome : start.value.unify left right with
    | none => exact .clash outcome
    | some extended => exact .unified outcome
  | succeed =>
    rw [Goal.explore]
    exact .succeed
  | fail =>
    rw [Goal.explore]
    exact .fail
  | @both first second _ onSecond firstIH secondIH =>
    have fed := Branches.worked_andThen (onSecond.behind_explore gaps)
      (first.explore gaps start)
    rw [Goal.explore]
    change Listing goalOf gaps _ start (Branches.andThen gaps second _).worked
    rw [fed]
    exact .both (firstIH start) fun middle _ => secondIH middle
  | either onLeft _ leftIH rightIH =>
    rw [Goal.explore, Stream.worked_interleave (onLeft.behind_explore gaps _)]
    exact .either (leftIH _) (rightIH _)
  | dynamic _ ih =>
    rw [Goal.explore_dynamic]
    exact .dynamic (ih _ _ _)

end Goal.Immediate

/-! ## Rounds of the library -/

section Rounds

variable {goalOf : Code → Recipe (Goal Code)} {gaps : Gaps}

/-- From now on the located stream is where the moment is. -/
def Branches.Tracks
    (goalOf : Code → Recipe (Goal Code))
    (gaps : Gaps)
    (stream : Branches Code)
    (moment : Stream.Moment (Plan Code) (Goal Code) Subst) : Prop :=
  ∀ time,
    Stream.stagesFrom (searchEngine goalOf) moment time =
      (stagesFrom goalOf gaps stream time).erase

namespace Branches.Tracks

variable {stream : Branches Code}
  {moment : Stream.Moment (Plan Code) (Goal Code) Subst}

theorem step
    (tracks : Tracks goalOf gaps stream moment) :
    Tracks goalOf gaps (Branches.step goalOf gaps stream)
      (Stream.nextMoment (searchEngine goalOf) moment) :=
  fun time => tracks (time + 1)

theorem worked_eq
    (tracks : Tracks goalOf gaps stream moment) :
    moment.1.worked = stream.worked.map Located.value := by
  rw [← Stream.worked_map]
  exact congrArg Stream.worked (tracks 0)

theorem nextRound
    (tracks : Tracks goalOf gaps stream moment) :
    Tracks goalOf gaps (Branches.nextRound goalOf gaps stream)
      ((Stream.nextRound (searchEngine goalOf) moment.1).run moment.2) := by
  induction stream generalizing moment with
  | empty =>
    rcases moment with ⟨first, session⟩
    have here : first = .empty := tracks 0
    subst here
    have still := tracks.step
    rw [Stream.nextMoment_empty] at still
    rw [Stream.nextRound, Stream.behind_empty, Stream.advance_empty]
    exact still
  | ready result rest ih =>
    rcases moment with ⟨first, session⟩
    have here : first = .ready result.value rest.erase := tracks 0
    subst here
    have behind : Tracks goalOf gaps rest (rest.erase, session) := tracks.step
    exact @ih (rest.erase, session) behind
  | suspended | merge | bind | append =>
    rcases moment with ⟨first, session⟩
    have here := tracks 0
    have pending : first.shape = .pending := by
      rw [show first = _ from here]
      rfl
    have next := tracks.step
    rw [Stream.nextMoment_of_pending _ pending] at next
    rw [Stream.nextRound, Stream.behind_of_pending pending]
    exact next

/-- In both searches the same results are taken in each round. -/
theorem takeWithin_eq
    (tracks : Tracks goalOf gaps stream moment)
    (count : Nat) :
    ((Stream.takeWithin (searchEngine goalOf) count moment.1).run moment.2).1 =
      (List.range (count + 1)).flatMap fun round =>
        ((Branches.nextRound goalOf gaps)^[round] stream).worked.map
          Located.value := by
  induction count generalizing stream moment with
  | zero =>
    rw [List.range_one, List.flatMap_singleton]
    exact tracks.worked_eq
  | succ count ih =>
    rw [List.range_succ_eq_map, List.flatMap_cons, List.flatMap_map]
    exact congrArg₂ (· ++ ·) tracks.worked_eq (ih tracks.nextRound)

end Branches.Tracks

end Rounds

/-! ## Searches that unroll as they read -/

/--
The results of the search of a goal for which work is done at most `count`
times: those that a caller gets before it is done for yet another time.
-/
def Goal.resultsWithin
    (goalOf : Code → Recipe (Goal Code))
    (goal : Goal Code)
    (subst : Subst)
    (session : Session)
    (count : Nat) : List Subst :=
  let applied := (goal.apply subst).run session
  ((Stream.takeWithin (searchEngine goalOf) count applied.1).run applied.2).1

/--
Each round of the search of a goal has the results of a reading of its
reference, in order, so that these are what a caller gets.  If the references are
generic, then the results are those of all their readings, up to the names of
the variables that are minted.
-/
structure Goal.UnrollsAs
    (goalOf : Code → Recipe (Goal Code))
    (goal : Goal Code)
    (references : Nat → Goal Code)
    (subst : Subst)
    (session : Session) : Prop where
  exists_readings :
    ∃ found : Nat → List Snapshot,
      (∀ round,
        Reading goalOf (references round) ⟨subst, session.supply⟩
          (found round)) ∧
        ∀ count,
          goal.resultsWithin goalOf subst session count =
            ((List.range (count + 1)).flatMap found).map Snapshot.value
  renamed :
    (∀ round, Generic goalOf (references round) subst session.supply) →
      ∀ found : Nat → List Snapshot,
        (∀ round,
          Reading goalOf (references round) ⟨subst, session.supply⟩
            (found round)) →
          ∀ count,
            List.Forall₂ (Subst.Renamed session.supply)
              (((List.range (count + 1)).flatMap found).map Snapshot.value)
              (goal.resultsWithin goalOf subst session count)

section Unrolling

variable {goalOf : Code → Recipe (Goal Code)} {gaps : Gaps} {goal : Goal Code}
  {subst : Subst} {session : Session}

theorem Gaps.Fit.resultsWithin_eq
    (fit : gaps.Fit goalOf goal subst session)
    (count : Nat) :
    goal.resultsWithin goalOf subst session count =
      (List.range (count + 1)).flatMap fun round =>
        ((Branches.nextRound goalOf gaps)^[round]
          (goal.explore gaps (.root subst session))).worked.map
            Located.value :=
  Branches.Tracks.takeWithin_eq fit.stages count

/-- Located rounds that read as the references are those of the search. -/
theorem Gaps.Fit.unrollsAs
    (fit : gaps.Fit goalOf goal subst session)
    {references : Nat → Goal Code}
    (readings :
      ∀ round,
        Reading goalOf (references round) ⟨subst, session.supply⟩
          (((Branches.nextRound goalOf gaps)^[round]
            (goal.explore gaps (.root subst session))).worked.map
              Located.snapshot)) :
    goal.UnrollsAs goalOf references subst session := by
  constructor
  · refine ⟨_, readings, fun count => ?_⟩
    rw [fit.resultsWithin_eq, List.map_flatMap]
    simp only [List.map_map]
    rfl
  · intro generic found others count
    rw [fit.resultsWithin_eq, List.map_flatMap]
    apply forall₂_flatMap (List.forall₂_same.mpr fun _ _ => rfl)
    rintro round _ _ _ rfl
    have renamed := (generic round).renamed_readings (others round)
      (readings round)
    rw [List.map_map] at renamed
    exact renamed

end Unrolling

end RelationalSearch
