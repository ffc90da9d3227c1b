import RelationalSearch.Proofs.Search.Immediate
import RelationalSearch.Proofs.Search.Parallel

/-!
# Branches in succession

The branches of `Goal.anyInOrder` are searched one after another.  While a
branch is searched nothing else is done: the search goes as that of the branch
alone, and the branches behind it have not been applied.  A branch is applied
when the one before it has ended and all its results have been taken, in the
session that it leaves behind (`Goal.InTurn`, `Goal.Reached`).

So what is delivered is the concatenation of what the branches deliver, up to
and including the first one whose search does not end.  If the branches are
generic then they may as well be searched alone, each in the session in which
the whole is applied (`Goal.Alone`).
-/

namespace RelationalSearch

variable {Code : Type}

namespace Goal

section Definitions

variable (goalOf : Code → Recipe (Goal Code)) (subst : Subst)

/--
The branches give these results in turn and all of them end.  Each branch is
applied in the session that the one before it leaves behind.
-/
inductive InTurn :
    List (List (Goal Code)) → Session → List Subst → Session → Prop where
  | nil {session : Session} : InTurn [] session [] session
  | cons
      {branch : List (Goal Code)} {branches : List (List (Goal Code))}
      {session middle after : Session} {results others : List Subst}
      (exhausts : (all branch).Exhausts goalOf subst session results middle)
      (onwards : InTurn branches middle others after) :
      InTurn (branch :: branches) session (results ++ others) after

/--
A moment that the branches reach together, and what has been delivered by then.
Some branches have ended, one is being searched, and the others wait.
-/
inductive Reached
    (branches : List (List (Goal Code)))
    (session : Session) :
    Stream.Moment (Plan Code) (Goal Code) Subst → List Subst → Prop where
  | during
      {done others : List (List (Goal Code))} {branch : List (Goal Code)}
      {results : List Subst} {middle : Session} {time : Nat}
      {stream : Results Code}
      (split : branches = done ++ branch :: others)
      (inTurn : InTurn goalOf subst done session results middle)
      (waiting :
        Stream.Trails (.apply (anyInOrder others) subst)
          ((all branch).momentAt goalOf subst middle time).1 stream) :
      Reached branches session
        (stream, ((all branch).momentAt goalOf subst middle time).2)
        (results ++ (all branch).deliveredBy goalOf subst middle time)
  | ended
      {results : List Subst} {after : Session}
      (inTurn : InTurn goalOf subst branches session results after) :
      Reached branches session (.empty, after) results

/-- A generic branch that gives these results when it is searched alone. -/
def Alone
    (session : Session)
    (branch : List (Goal Code))
    (results : List Subst) : Prop :=
  Generic goalOf (all branch) subst session.supply ∧
    (all branch).Drains goalOf subst session results

end Definitions

variable {goalOf : Code → Recipe (Goal Code)} {subst : Subst}

/-! ## One branch -/

/-- Behind the left goal waits the right one, which has not been applied. -/
theorem handsOver_ordered
    (goalOf : Code → Recipe (Goal Code))
    (subst : Subst)
    (left right : Goal Code)
    (session : Session) :
    Stream.HandsOver (searchEngine goalOf) (.apply right subst)
      ((left.apply subst).run session)
      (((ordered left right).apply subst).run session) := by
  rw [Goal.apply]
  exact Stream.handsOver_before ((left.apply subst).run session).1
    ((left.apply subst).run session).2

theorem handsOver_anyInOrder_cons
    (goalOf : Code → Recipe (Goal Code))
    (subst : Subst)
    (branch : List (Goal Code))
    (branches : List (List (Goal Code)))
    (session : Session) :
    Stream.HandsOver (searchEngine goalOf)
      (.apply (anyInOrder branches) subst)
      (((all branch).apply subst).run session)
      (((anyInOrder (branch :: branches)).apply subst).run session) :=
  handsOver_ordered _ _ _ _ session

section Later

variable {goal later : Goal Code} {session middle : Session} {time : Nat}

/-- From a moment on at which a goal has been applied the search is its own. -/
theorem momentAt_add
    (reached :
      goal.momentAt goalOf subst session time =
        (later.apply subst).run middle)
    (more : Nat) :
    goal.momentAt goalOf subst session (time + more) =
      later.momentAt goalOf subst middle more := by
  rw [momentAt, Nat.add_comm, Function.iterate_add_apply]
  exact congrArg _ reached

theorem deliveredBy_add
    (reached :
      goal.momentAt goalOf subst session time =
        (later.apply subst).run middle)
    (more : Nat) :
    goal.deliveredBy goalOf subst session (time + more) =
      goal.deliveredBy goalOf subst session time ++
        later.deliveredBy goalOf subst middle more := by
  rw [deliveredBy, Stream.delivered_add]
  exact congrArg (fun moment => _ ++ Stream.delivered
    (Stream.stagesFrom (searchEngine goalOf) moment) more) reached

/-- What it delivers comes behind what was delivered by then. -/
theorem delivers_add_iff
    (reached :
      goal.momentAt goalOf subst session time =
        (later.apply subst).run middle)
    {index : Nat}
    {found : Subst} :
    goal.Delivers goalOf subst session
        ((goal.deliveredBy goalOf subst session time).length + index) found ↔
      later.Delivers goalOf subst middle index found := by
  have behind (more : Nat) :
      (goal.deliveredBy goalOf subst session (time + more))[
          (goal.deliveredBy goalOf subst session time).length + index]? =
        (later.deliveredBy goalOf subst middle more)[index]? := by
    rw [deliveredBy_add reached,
      List.getElem?_append_right (Nat.le_add_right _ _),
      Nat.add_sub_cancel_left]
  rw [delivers_iff_deliveredBy, delivers_iff_deliveredBy]
  constructor
  · rintro ⟨count, taken⟩
    refine ⟨count, ?_⟩
    rw [← behind]
    exact Stream.delivered_getElem?_mono (Nat.le_add_left count time) taken
  · rintro ⟨more, taken⟩
    exact ⟨time + more, (behind more).trans taken⟩

end Later

/-! ## Branch after branch -/

section Branches

variable {session middle after : Session} {results : List Subst}
  {done branches others : List (List (Goal Code))} {branch : List (Goal Code)}
  {index : Nat} {found : Subst}

/-- Where branches have ended in turn the others are applied. -/
theorem InTurn.exists_moment
    (inTurn : InTurn goalOf subst done session results middle)
    (others : List (List (Goal Code))) :
    ∃ time,
      (anyInOrder (done ++ others)).momentAt goalOf subst session time =
          ((anyInOrder others).apply subst).run middle ∧
        (anyInOrder (done ++ others)).deliveredBy goalOf subst session time =
          results := by
  induction inTurn with
  | nil => exact ⟨0, rfl, rfl⟩
  | @cons branch branches session middle after results found exhausts _ ih =>
    have waits := handsOver_anyInOrder_cons goalOf subst
      branch (branches ++ others) session
    rcases waits.exists_done exhausts with ⟨first, reached, rfl⟩
    rcases ih with ⟨second, reachedAll, rfl⟩
    exact ⟨first + second, (momentAt_add reached second).trans reachedAll,
      deliveredBy_add reached second⟩

/-- What is reached behind a branch is reached behind what the branch gives. -/
theorem Reached.behind
    {others : List Subst}
    {moment : Stream.Moment (Plan Code) (Goal Code) Subst}
    (exhausts : (all branch).Exhausts goalOf subst session results middle)
    (reached : Reached goalOf subst branches middle moment others) :
    Reached goalOf subst (branch :: branches) session moment
      (results ++ others) := by
  cases reached with
  | during split inTurn waiting =>
    rw [← List.append_assoc]
    exact .during (congrArg (branch :: ·) split) (.cons exhausts inTurn) waiting
  | ended inTurn => exact .ended (.cons exhausts inTurn)

/-- At each moment the branches have been searched in turn so far. -/
theorem reached_anyInOrder
    (goalOf : Code → Recipe (Goal Code))
    (subst : Subst)
    (branches : List (List (Goal Code)))
    (session : Session)
    (time : Nat) :
    Reached goalOf subst branches session
      ((anyInOrder branches).momentAt goalOf subst session time)
      ((anyInOrder branches).deliveredBy goalOf subst session time) := by
  induction branches generalizing session time with
  | nil =>
    have ended :
        ((anyInOrder []).momentAt goalOf subst session 0).1 = .empty := rfl
    have still := Stream.iterate_nextMoment_of_empty ended time
    rw [Nat.zero_add] at still
    rw [momentAt, deliveredBy, still.1, still.2]
    exact .ended .nil
  | cons branch branches ih =>
    have waits := handsOver_anyInOrder_cons goalOf subst
      branch branches session
    rcases waits.at_moment time with ⟨trails, sameSession, sameResults⟩ |
      ⟨earlier, results, middle, early, exhausts, done, given⟩
    · rw [momentAt, deliveredBy, sameResults, ← List.nil_append
        (Stream.delivered _ _), ← Prod.eta ((Stream.nextMoment _)^[time] _),
        sameSession]
      exact .during rfl .nil trails
    · rcases Nat.exists_eq_add_of_le early with ⟨more, rfl⟩
      rw [momentAt_add done, deliveredBy_add done]
      have behind := (ih middle more).behind exhausts
      rwa [← given] at behind

/-- The search ends just when all branches end in turn. -/
theorem exhausts_anyInOrder_iff :
    (anyInOrder branches).Exhausts goalOf subst session results after ↔
      InTurn goalOf subst branches session results after := by
  constructor
  · rintro ⟨time, ended, given⟩
    have reached := reached_anyInOrder goalOf subst branches session time
    rw [momentAt, ended, deliveredBy, given] at reached
    generalize moment : (Stream.empty, after) = ending at reached
    cases reached with
    | during split inTurn waiting =>
      exact (waiting.ne_empty (congrArg Prod.fst moment).symm).elim
    | ended inTurn =>
      cases moment
      exact inTurn
  · intro inTurn
    rcases inTurn.exists_moment [] with ⟨time, reached, given⟩
    rw [List.append_nil] at reached given
    exact ⟨time, reached, given⟩

/-- The results of the branches that have ended are delivered first. -/
theorem InTurn.delivers
    (inTurn : InTurn goalOf subst done session results middle)
    (others : List (List (Goal Code)))
    (taken : results[index]? = some found) :
    (anyInOrder (done ++ others)).Delivers goalOf subst session index
      found := by
  rcases inTurn.exists_moment others with ⟨time, _, given⟩
  exact delivers_iff_deliveredBy.mpr ⟨time, given ▸ taken⟩

/-- The next branch delivers behind them what it delivers alone. -/
theorem InTurn.delivers_next
    (inTurn : InTurn goalOf subst done session results middle)
    (others : List (List (Goal Code)))
    (delivers : (all branch).Delivers goalOf subst middle index found) :
    (anyInOrder (done ++ branch :: others)).Delivers goalOf subst session
      (results.length + index) found := by
  rcases inTurn.exists_moment (branch :: others) with ⟨time, reached, rfl⟩
  rw [delivers_add_iff reached]
  exact (handsOver_anyInOrder_cons _ _ branch others middle).delivers delivers

/-- Nothing else is delivered behind them if the next branch does not end. -/
theorem InTurn.delivers_of_endless
    (inTurn : InTurn goalOf subst done session results middle)
    (endless :
      ∀ more after, ¬ (all branch).Exhausts goalOf subst middle more after)
    (delivers :
      (anyInOrder (done ++ branch :: others)).Delivers goalOf subst session
        (results.length + index) found) :
    (all branch).Delivers goalOf subst middle index found := by
  rcases inTurn.exists_moment (branch :: others) with ⟨time, reached, rfl⟩
  rw [delivers_add_iff reached] at delivers
  rcases delivers_iff_deliveredBy.mp delivers with ⟨count, taken⟩
  have waits := handsOver_anyInOrder_cons goalOf subst
    branch others middle
  rcases waits.at_moment count with ⟨_, _, sameResults⟩ |
    ⟨_, more, after, _, exhausts, _⟩
  · rw [deliveredBy, sameResults] at taken
    exact delivers_iff_deliveredBy.mpr ⟨count, taken⟩
  · exact (endless more after exhausts).elim

/-! ## Branches alone -/

/-- Branches that end alone end in turn, whatever has been minted by then. -/
theorem exists_inTurn_of_alone
    {lists : List (List Subst)}
    {later : Session}
    (each : List.Forall₂ (Alone goalOf subst session) done lists)
    (minted : session.supply ≤ later.supply) :
    ∃ results middle,
      InTurn goalOf subst done later results middle ∧
        session.supply ≤ middle.supply ∧
        List.Forall₂ (Subst.Renamed session.supply) lists.flatten results := by
  induction each generalizing later with
  | nil => exact ⟨[], later, .nil, minted, .nil⟩
  | cons alone _ ih =>
    rcases alone.1.exists_exhausts minted alone.2 with
      ⟨results, middle, renamed, exhausts⟩
    rcases ih (minted.trans exhausts.supply_le) with
      ⟨others, after, inTurn, mintedByThen, othersRenamed⟩
    exact ⟨results ++ others, after, .cons exhausts inTurn, mintedByThen,
      List.rel_append renamed othersRenamed⟩

end Branches

/-! ## The whole search -/

/--
What comes of searching branches in succession: in which order, from which
sessions, and with which results.
-/
structure Concatenates
    (goalOf : Code → Recipe (Goal Code))
    (branches : List (List (Goal Code)))
    (subst : Subst)
    (session : Session) : Prop where
  /-- A branch is applied when all before it have ended, and not earlier. -/
  reached :
    ∀ time,
      Reached goalOf subst branches session
        ((anyInOrder branches).momentAt goalOf subst session time)
        ((anyInOrder branches).deliveredBy goalOf subst session time)
  /-- The search ends when the last branch has ended. -/
  exhausts_iff :
    ∀ results after,
      (anyInOrder branches).Exhausts goalOf subst session results after ↔
        InTurn goalOf subst branches session results after
  /-- What the first branches give in turn comes first. -/
  delivers_done :
    ∀ done others results middle,
      branches = done ++ others →
        InTurn goalOf subst done session results middle →
          ∀ index found,
            results[index]? = some found →
              (anyInOrder branches).Delivers goalOf subst session index found
  /-- Then comes all that the next branch delivers, in its order. -/
  delivers_next :
    ∀ done branch others results middle,
      branches = done ++ branch :: others →
        InTurn goalOf subst done session results middle →
          ∀ index found,
            (all branch).Delivers goalOf subst middle index found →
              (anyInOrder branches).Delivers goalOf subst session
                (results.length + index) found
  /-- If its search does not end then nothing else comes. -/
  delivers_only :
    ∀ done branch others results middle,
      branches = done ++ branch :: others →
        InTurn goalOf subst done session results middle →
          (∀ more after,
            ¬ (all branch).Exhausts goalOf subst middle more after) →
            ∀ index found,
              (anyInOrder branches).Delivers goalOf subst session
                  (results.length + index) found →
                (all branch).Delivers goalOf subst middle index found
  /-- The first branches may be searched alone. -/
  alone_done :
    ∀ done others lists,
      branches = done ++ others →
        List.Forall₂ (Alone goalOf subst session) done lists →
          ∃ results,
            List.Forall₂ (Subst.Renamed session.supply) lists.flatten
                results ∧
              ∀ index found,
                results[index]? = some found →
                  (anyInOrder branches).Delivers goalOf subst session index
                    found
  /-- So may the next branch, whether or not its search ends. -/
  alone_next :
    ∀ done branch others lists,
      branches = done ++ branch :: others →
        List.Forall₂ (Alone goalOf subst session) done lists →
          Generic goalOf (all branch) subst session.supply →
            ∀ index found,
              (all branch).Delivers goalOf subst session index found →
                ∃ other,
                  Subst.Renamed session.supply found other ∧
                    (anyInOrder branches).Delivers goalOf subst session
                      (lists.flatten.length + index) other
  /-- If its search alone does not end then nothing else comes. -/
  alone_only :
    ∀ done branch others lists,
      branches = done ++ branch :: others →
        List.Forall₂ (Alone goalOf subst session) done lists →
          Generic goalOf (all branch) subst session.supply →
            (∀ more, ¬ (all branch).Drains goalOf subst session more) →
              ∀ index other,
                (anyInOrder branches).Delivers goalOf subst session
                    (lists.flatten.length + index) other →
                  ∃ found,
                    Subst.Renamed session.supply found other ∧
                      (all branch).Delivers goalOf subst session index found
  /-- So may all branches, if all of their searches end. -/
  alone_all :
    ∀ lists,
      List.Forall₂ (Alone goalOf subst session) branches lists →
        ∃ results,
          List.Forall₂ (Subst.Renamed session.supply) lists.flatten results ∧
            (anyInOrder branches).Drains goalOf subst session results

/-- Branches in order are concatenated, exactly and lazily. -/
theorem anyInOrder_concatenates
    (goalOf : Code → Recipe (Goal Code))
    (branches : List (List (Goal Code)))
    (subst : Subst)
    (session : Session) :
    Concatenates goalOf branches subst session where
  reached := reached_anyInOrder goalOf subst branches session
  exhausts_iff _ _ := exhausts_anyInOrder_iff
  delivers_done := by
    rintro done others results middle rfl inTurn index found taken
    exact inTurn.delivers others taken
  delivers_next := by
    rintro done branch others results middle rfl inTurn index found delivers
    exact inTurn.delivers_next others delivers
  delivers_only := by
    rintro done branch others results middle rfl inTurn endless index found
    exact inTurn.delivers_of_endless endless
  alone_done := by
    rintro done others lists rfl each
    rcases exists_inTurn_of_alone each (Nat.le_refl _) with
      ⟨results, middle, inTurn, _, renamed⟩
    exact ⟨results, renamed, fun _ _ taken => inTurn.delivers others taken⟩
  alone_next := by
    rintro done branch others lists rfl each generic index found delivers
    rcases exists_inTurn_of_alone each (Nat.le_refl _) with
      ⟨results, middle, inTurn, minted, renamed⟩
    rcases generic.exists_delivers minted delivers with
      ⟨other, otherRenamed, otherDelivers⟩
    rw [renamed.length_eq]
    exact ⟨other, otherRenamed, inTurn.delivers_next others otherDelivers⟩
  alone_only := by
    rintro done branch others lists rfl each generic endless
    intro index other delivers
    rcases exists_inTurn_of_alone each (Nat.le_refl _) with
      ⟨results, middle, inTurn, minted, renamed⟩
    rw [renamed.length_eq] at delivers
    refine generic.exists_delivers_of_later minted
      (inTurn.delivers_of_endless (fun more after exhausts => ?_) delivers)
    rcases generic.exists_drains_of_later minted exhausts with ⟨results, drains⟩
    exact endless results drains
  alone_all := by
    intro lists each
    rcases exists_inTurn_of_alone each (Nat.le_refl _) with
      ⟨results, after, inTurn, _, renamed⟩
    exact ⟨results, renamed, (exhausts_anyInOrder_iff.mpr inTurn).drains⟩

/-- Behind two results come those of a branch whose search does not end. -/
theorem anyInOrder_concatenates_endless :
    ∃ found other,
      Goal.Delivers (firstFreshOr (.defer ())) (.defer ()) ∅ ⟨#["q"], #[]⟩ 2
          found ∧
        Subst.Renamed 1 found other ∧
        Goal.Delivers (firstFreshOr (.defer ()))
          (anyInOrder [[.either .succeed .succeed], [.defer ()]]) ∅
          ⟨#["q"], #[]⟩ (2 + 2) other := by
  have endless : Generic (firstFreshOr (.defer ())) (.defer ()) ∅ 1 :=
    generic_firstFreshOr (fun _ paired => .defer paired)
      (.defer ⟨rfl, Nat.one_pos⟩)
  have twice :
      Generic (firstFreshOr (.defer ())) (.either .succeed .succeed) ∅ 1 :=
    generic_firstFreshOr (fun _ paired => .defer paired)
      (.either .succeed .succeed)
  have alone : Alone (firstFreshOr (.defer ())) ∅ ⟨#["q"], #[]⟩
      [.either .succeed .succeed] [∅, ∅] :=
    ⟨twice, .result (Stream.pull_zero_ready _ _ _)
      (.result (Stream.pull_zero_ready _ _ _)
        (.ended (Stream.pull_zero_empty _)))⟩
  have third :
      (((Goal.defer ()).resultsWithin (firstFreshOr (.defer ())) ∅
        ⟨#["q"], #[]⟩ 3)[2]?).isSome = true := by
    decide +kernel
  rcases Option.isSome_iff_exists.mp third with ⟨found, taken⟩
  have delivers : Goal.Delivers (firstFreshOr (.defer ())) (.defer ()) ∅
      ⟨#["q"], #[]⟩ 2 found :=
    Stream.delivers_of_takeWithin taken
  rcases (anyInOrder_concatenates (firstFreshOr (.defer ()))
      [[.either .succeed .succeed], [.defer ()]] ∅ ⟨#["q"], #[]⟩).alone_next
      [[.either .succeed .succeed]] [.defer ()] [] [[∅, ∅]] rfl
      (.cons alone .nil) endless 2 found delivers with
    ⟨other, renamed, whole⟩
  exact ⟨found, other, delivers, renamed, whole⟩

end Goal

end RelationalSearch
