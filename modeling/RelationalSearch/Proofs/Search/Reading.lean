import RelationalSearch.Proofs.Search.Alike
import RelationalSearch.Proofs.Search.Answers
import RelationalSearch.Proofs.Search.Finite

/-!
# Plain readings of a goal

A reading lists the results of a goal depth first and from left to right.  It
knows nothing of streams, of turns or of suspensions, and it may take any
numbers for fresh variables that are not in use yet (`Reading`).  What is listed
with some gaps is a reading; and two readings of a generic goal differ in the
names of fresh variables only (`Reading.counterparts`).

A goal reads as a reference if its search, wherever it is made, ends with the
results of a reading of the reference (`Goal.ReadsAs`).  This is shown goal by
goal.  It is how a relation of the library, with its suspensions, is compared
with a condition that has none of them.
-/

namespace RelationalSearch

variable {Code : Type}

/-! ## Readings -/

/-- A substitution, and a number above those of the variables in use. -/
structure Snapshot where
  value : Subst
  supply : Nat

/-- What a located substitution is without the turns that led to it. -/
def Located.snapshot (start : Located Subst) : Snapshot :=
  ⟨start.value, start.place.supply⟩

/-- A substitution before any turn. -/
def Snapshot.located (start : Snapshot) : Located Subst :=
  ⟨⟨[], start.supply⟩, start.value⟩

/--
The results of a goal, depth first and from left to right.  The entries of a
conjunction are the results of its first goal, each with what comes of it.  The
numbers of variables that are minted may begin anywhere above those in use.
-/
inductive Reading (goalOf : Code → Recipe (Goal Code)) :
    Goal Code → Snapshot → List Snapshot → Prop where
  | unified
      {left right : Term} {start : Snapshot} {extended : Subst} {later : Nat}
      (success : start.value.unify left right = some extended)
      (ordered : start.supply ≤ later) :
      Reading goalOf (.eq left right) start [⟨extended, later⟩]
  | clash
      {left right : Term} {start : Snapshot}
      (failure : start.value.unify left right = none) :
      Reading goalOf (.eq left right) start []
  | succeed
      {start : Snapshot} {later : Nat}
      (ordered : start.supply ≤ later) :
      Reading goalOf .succeed start [⟨start.value, later⟩]
  | fail {start : Snapshot} : Reading goalOf .fail start []
  | both
      {first second : Goal Code} {start : Snapshot}
      {entries : List (Snapshot × List Snapshot)}
      (front : Reading goalOf first start (entries.map Prod.fst))
      (back : ∀ entry ∈ entries, Reading goalOf second entry.1 entry.2) :
      Reading goalOf (.both first second) start (entries.flatMap Prod.snd)
  | either
      {left right : Goal Code} {start : Snapshot}
      {lefts rights : List Snapshot}
      (onLeft : Reading goalOf left start lefts)
      (onRight : Reading goalOf right start rights) :
      Reading goalOf (.either left right) start (lefts ++ rights)
  | ordered
      {left right : Goal Code} {start : Snapshot}
      {lefts rights : List Snapshot}
      (onLeft : Reading goalOf left start lefts)
      (onRight : Reading goalOf right start rights) :
      Reading goalOf (.ordered left right) start (lefts ++ rights)
  | defer
      {code : Code} {start : Snapshot} {opening : Nat}
      {found : List Snapshot}
      (later : start.supply ≤ opening)
      (built :
        Reading goalOf ((goalOf code).made opening).1
          ⟨start.value, ((goalOf code).made opening).2⟩ found) :
      Reading goalOf (.defer code) start found
  | dynamic
      {builder : Subst → Recipe (Goal Code)} {start : Snapshot}
      {opening : Nat} {found : List Snapshot}
      (later : start.supply ≤ opening)
      (built :
        Reading goalOf ((builder start.value).made opening).1
          ⟨start.value, ((builder start.value).made opening).2⟩ found) :
      Reading goalOf (.dynamic builder) start found

section Reading

variable {goalOf : Code → Recipe (Goal Code)} {goal : Goal Code}

/-- The entries of a conjunction may be given as a list and a function. -/
theorem Reading.both_located
    {first second : Goal Code}
    {start : Snapshot}
    {middles : List (Located Subst)}
    {results : Located Subst → List (Located Subst)}
    (front : Reading goalOf first start (middles.map Located.snapshot))
    (back :
      ∀ middle ∈ middles,
        Reading goalOf second middle.snapshot
          ((results middle).map Located.snapshot)) :
    Reading goalOf (.both first second) start
      ((middles.flatMap results).map Located.snapshot) := by
  let entries := middles.map fun middle =>
    (middle.snapshot, (results middle).map Located.snapshot)
  have fronts : Reading goalOf first start (entries.map Prod.fst) := by
    rw [List.map_map]
    exact front
  have backs : ∀ entry ∈ entries, Reading goalOf second entry.1 entry.2 := by
    intro entry member
    rcases List.mem_map.mp member with ⟨middle, inside, rfl⟩
    exact back middle inside
  have both := Reading.both fronts backs
  rwa [List.flatMap_map, ← List.map_flatMap] at both

/-- A listing is a reading, in which the gaps choose the numbers. -/
theorem Listing.reading
    {gaps : Gaps}
    {start : Located Subst}
    {found : List (Located Subst)}
    (listing : Listing goalOf gaps goal start found) :
    Reading goalOf goal start.snapshot (found.map Located.snapshot) := by
  induction listing with
  | unified success => exact .unified success (Nat.le_refl _)
  | clash failure => exact .clash failure
  | succeed => exact .succeed (Nat.le_refl _)
  | fail => exact .fail
  | both _ _ frontIH backIH => exact .both_located frontIH backIH
  | either _ _ leftIH rightIH =>
    rw [List.map_append]
    exact .either leftIH rightIH
  | ordered _ _ leftIH rightIH =>
    rw [List.map_append]
    exact .ordered leftIH rightIH
  | defer _ ih => exact .defer (Nat.le_add_right _ _) ih
  | dynamic _ ih => exact .dynamic (Nat.le_add_right _ _) ih

/-- A branch without results makes no difference. -/
theorem Listing.either_nil
    {gaps : Gaps}
    {left right : Goal Code}
    {start : Located Subst}
    {found : List (Located Subst)}
    (onLeft : Listing goalOf gaps left ⟨start.place.left, start.value⟩ found)
    (onRight :
      Listing goalOf gaps right ⟨start.place.right, start.value⟩ []) :
    Listing goalOf gaps (.either left right) start found := by
  rw [← List.append_nil found]
  exact .either onLeft onRight

/-- A reading does not have to start with the lowest numbers. -/
theorem Reading.lower
    {start : Snapshot}
    {found : List Snapshot}
    (reading : Reading goalOf goal start found)
    {supply : Nat}
    (low : supply ≤ start.supply) :
    Reading goalOf goal ⟨start.value, supply⟩ found := by
  induction reading with
  | unified success ordered => exact .unified success (low.trans ordered)
  | clash failure => exact .clash failure
  | succeed ordered => exact .succeed (low.trans ordered)
  | fail => exact .fail
  | both _ back frontIH => exact .both (frontIH low) back
  | either _ _ leftIH rightIH => exact .either (leftIH low) (rightIH low)
  | ordered _ _ leftIH rightIH => exact .ordered (leftIH low) (rightIH low)
  | defer later built => exact .defer (low.trans later) built
  | dynamic later built => exact .dynamic (low.trans later) built

/-! ### What is read of a goal -/

/-- An equation has at most one result. -/
theorem Reading.values_eq
    {left right : Term}
    {start : Snapshot}
    {found : List Snapshot}
    (reading : Reading goalOf (.eq left right) start found) :
    found.map Snapshot.value = (start.value.unify left right).toList := by
  cases reading with
  | unified success => simp [success]
  | clash failure => simp [failure]

theorem Reading.exists_entries
    {first second : Goal Code}
    {start : Snapshot}
    {found : List Snapshot}
    (reading : Reading goalOf (.both first second) start found) :
    ∃ entries : List (Snapshot × List Snapshot),
      Reading goalOf first start (entries.map Prod.fst) ∧
        (∀ entry ∈ entries, Reading goalOf second entry.1 entry.2) ∧
        found = entries.flatMap Prod.snd := by
  cases reading with
  | both front back => exact ⟨_, front, back, rfl⟩

/-- Two equations have the results of one after the other. -/
theorem Reading.values_both_eq
    {left right otherLeft otherRight : Term}
    {start : Snapshot}
    {found : List Snapshot}
    (reading :
      Reading goalOf (.both (.eq left right) (.eq otherLeft otherRight)) start
        found) :
    found.map Snapshot.value =
      ((start.value.unify left right).bind fun subst =>
        subst.unify otherLeft otherRight).toList := by
  rcases reading.exists_entries with ⟨entries, front, back, rfl⟩
  have each : ∀ entry ∈ entries, entry.2.map Snapshot.value =
      (entry.1.value.unify otherLeft otherRight).toList :=
    fun entry member => (back entry member).values_eq
  have values := front.values_eq
  calc
    (entries.flatMap Prod.snd).map Snapshot.value =
        entries.flatMap fun entry =>
          (entry.1.value.unify otherLeft otherRight).toList := by
      rw [List.map_flatMap]
      exact List.flatMap_congr each
    _ = ((entries.map Prod.fst).map Snapshot.value).flatMap fun subst =>
          (subst.unify otherLeft otherRight).toList := by
      rw [List.flatMap_map, List.flatMap_map]
    _ = _ := by
      rw [values]
      cases start.value.unify left right with
      | none => rfl
      | some extended => simp

/-! ## Readings of goals that are alike -/

/-- Substitutions that are alike under a pairing with more pairs. -/
def Snapshot.Counterpart
    (pairing : Pairing)
    (finish other : Snapshot) : Prop :=
  Located.Counterpart pairing finish.located other.located

variable {codes : Pairing → Code → Code → Prop}

/-- Goals that are alike are still alike when they have been built. -/
theorem Snapshot.exists_built
    {pairing : Pairing}
    {builder otherBuilder : Subst → Recipe (Goal Code)}
    (goals :
      Goal.Alike codes pairing (.dynamic builder) (.dynamic otherBuilder))
    {start other : Snapshot}
    (starts : start.located.Alike pairing other.located)
    {opening otherOpening : Nat}
    (later : start.supply ≤ opening)
    (otherLater : other.supply ≤ otherOpening) :
    ∃ larger : Pairing,
      (∀ x y, pairing x y → larger x y) ∧
        Located.Alike larger
          (Snapshot.located ⟨start.value,
            ((builder start.value).made opening).2⟩)
          (Snapshot.located ⟨other.value,
            ((otherBuilder other.value).made otherOpening).2⟩) ∧
        Goal.Alike codes larger ((builder start.value).made opening).1
          ((otherBuilder other.value).made otherOpening).1 := by
  have entered := goals.enter starts (fun _ => opening - start.supply)
    (fun _ => otherOpening - other.supply)
  have opens :
      start.located.place.opening (fun _ => opening - start.supply) =
        opening :=
    Nat.add_sub_cancel' later
  have otherOpens :
      other.located.place.opening (fun _ => otherOpening - other.supply) =
        otherOpening :=
    Nat.add_sub_cancel' otherLater
  rw [Recipe.goalAt, Recipe.goalAt, Located.enter, Located.enter, opens,
    otherOpens] at entered
  rcases entered with ⟨larger, included, alike, built⟩
  exact ⟨larger, included,
    ⟨rfl, alike.oneToOne, alike.within, alike.substs⟩, built⟩

/-- Readings of goals that are alike have results that are alike, in order. -/
theorem Reading.counterparts
    (generic : GenericCodes goalOf codes)
    {otherGoal : Goal Code}
    {start other : Snapshot}
    {found others : List Snapshot}
    {pairing : Pairing}
    (reading : Reading goalOf goal start found)
    (goals : Goal.Alike codes pairing goal otherGoal)
    (starts : start.located.Alike pairing other.located)
    (otherReading : Reading goalOf otherGoal other others) :
    List.Forall₂ (Snapshot.Counterpart pairing) found others := by
  induction reading generalizing otherGoal other others pairing with
  | unified success ordered =>
    rcases goals with ⟨lefts, rights⟩
    have outcomes := starts.substs.unify starts.oneToOne lefts rights
    cases otherReading with
    | unified otherSuccess otherOrdered =>
      rcases exists_eq_some_of_rel (success ▸ outcomes) with
        ⟨_, same, alike⟩
      cases otherSuccess.symm.trans same
      exact .cons ⟨pairing, fun _ _ paired => paired, rfl, starts.oneToOne,
        starts.within.mono ordered otherOrdered, alike⟩ .nil
    | clash failure =>
      rcases exists_eq_some_of_rel (success ▸ outcomes) with ⟨_, same, _⟩
      cases failure.symm.trans same
  | clash failure =>
    rcases goals with ⟨lefts, rights⟩
    have outcomes := starts.substs.unify starts.oneToOne lefts rights
    cases otherReading with
    | unified otherSuccess _ =>
      cases otherSuccess.symm.trans (eq_none_of_rel (failure ▸ outcomes))
    | clash => exact .nil
  | succeed ordered =>
    cases goals
    cases otherReading with
    | succeed otherOrdered =>
      exact .cons ⟨pairing, fun _ _ paired => paired, rfl, starts.oneToOne,
        starts.within.mono ordered otherOrdered, starts.substs⟩ .nil
  | fail =>
    cases goals
    cases otherReading
    exact .nil
  | both _ _ frontIH backIH =>
    cases goals with
    | both firsts seconds =>
      cases otherReading with
      | both otherFront otherBack =>
        have middles := frontIH firsts starts otherFront
        rw [List.forall₂_map_left_iff, List.forall₂_map_right_iff] at middles
        refine forall₂_flatMap middles ?_
        rintro entry member otherEntry otherMember ⟨larger, included, alike⟩
        have behind := backIH entry member (seconds.mono generic included)
          alike (otherBack otherEntry otherMember)
        exact behind.imp fun _ _ same => same.mono included
  | either _ _ leftIH rightIH =>
    cases goals with
    | either lefts rights =>
      cases otherReading with
      | either onLeft onRight =>
        exact List.rel_append (leftIH lefts starts onLeft)
          (rightIH rights starts onRight)
  | ordered _ _ leftIH rightIH =>
    cases goals with
    | ordered lefts rights =>
      cases otherReading with
      | ordered onLeft onRight =>
        exact List.rel_append (leftIH lefts starts onLeft)
          (rightIH rights starts onRight)
  | defer later _ ih =>
    cases goals with
    | defer same =>
      cases otherReading with
      | defer otherLater built =>
        rcases Snapshot.exists_built (generic.unfolds same) starts later
            otherLater with ⟨larger, included, entered, goalsBuilt⟩
        exact (ih goalsBuilt entered built).imp
          fun _ _ same => same.mono included
  | dynamic later _ ih =>
    cases otherReading with
    | dynamic otherLater built =>
      rcases Snapshot.exists_built goals starts later otherLater with
        ⟨larger, included, entered, goalsBuilt⟩
      exact (ih goalsBuilt entered built).imp
        fun _ _ same => same.mono included
    | _ => cases goals

/--
Any two readings of a generic goal have the same results, up to the names of
the variables that are minted for them.
-/
theorem Generic.renamed_readings
    {subst : Subst}
    {supply : Nat}
    {found others : List Snapshot}
    (generic : Generic goalOf goal subst supply)
    (reading : Reading goalOf goal ⟨subst, supply⟩ found)
    (otherReading : Reading goalOf goal ⟨subst, supply⟩ others) :
    List.Forall₂ (Subst.Renamed supply) (found.map Snapshot.value)
      (others.map Snapshot.value) := by
  rcases generic with ⟨codes, genericCodes, goals, substs⟩
  have starts : (Snapshot.located ⟨subst, supply⟩).Alike (.upTo supply)
      (Snapshot.located ⟨subst, supply⟩) :=
    ⟨rfl, Pairing.oneToOne_upTo _, Pairing.within_upTo _, substs⟩
  have same := reading.counterparts genericCodes goals starts otherReading
  rw [List.forall₂_map_left_iff, List.forall₂_map_right_iff]
  exact same.imp fun _ _ counterpart => counterpart.renamed

end Reading

/-! ## Goals that read as others -/

theorem Located.supply_le_enter
    (start : Located Subst)
    (gaps : Gaps)
    (recipe : Recipe (Goal Code)) :
    start.place.supply ≤ (start.enter gaps recipe).place.supply :=
  (Nat.le_add_right _ _).trans (recipe.le_made _)

/--
The search of a goal ends with the results of a reading of the reference.  The
results are of the session, and this is known of each of them.
-/
def Goal.ReadsAs
    (goalOf : Code → Recipe (Goal Code))
    (gaps : Gaps)
    (goal reference : Goal Code)
    (start : Located Subst)
    (known : Subst → Prop) : Prop :=
  ∃ found,
    Listing goalOf gaps goal start found ∧
      Reading goalOf reference start.snapshot
        (found.map Located.snapshot) ∧
      ∀ result ∈ found,
        result.value.Within result.place.supply ∧ known result.value

namespace Goal.ReadsAs

variable {goalOf : Code → Recipe (Goal Code)} {gaps : Gaps}
  {start : Located Subst} {known other : Subst → Prop}

/-- Neither the goal nor the reference has results. -/
theorem none
    {goal reference : Goal Code}
    (listing : Listing goalOf gaps goal start [])
    (reading : Reading goalOf reference start.snapshot []) :
    goal.ReadsAs goalOf gaps reference start known :=
  ⟨[], listing, reading, by simp⟩

theorem fail : Goal.fail.ReadsAs goalOf gaps .fail start known :=
  none .fail .fail

/-- An equation has the result of unification. -/
theorem unified
    {left right : Term}
    {extended : Subst}
    (success : start.value.unify left right = some extended)
    (within : extended.Within start.place.supply) :
    (Goal.eq left right).ReadsAs goalOf gaps (.eq left right) start
      fun subst => subst = extended := by
  refine ⟨_, .unified success, .unified success (Nat.le_refl _), ?_⟩
  rw [List.forall_mem_singleton]
  exact ⟨within, rfl⟩

/-- Afterwards both terms stand for the same. -/
theorem eq
    {left right : Term}
    (within : start.value.Within start.place.supply)
    (leftLow : left.ceiling ≤ start.place.supply)
    (rightLow : right.ceiling ≤ start.place.supply) :
    (Goal.eq left right).ReadsAs goalOf gaps (.eq left right) start
      fun subst => subst.reify left = subst.reify right := by
  cases success : start.value.unify left right with
  | none => exact none (.clash success) (.clash success)
  | some extended =>
    refine ⟨_, .unified success, .unified success (Nat.le_refl _), ?_⟩
    rw [List.forall_mem_singleton]
    exact ⟨within.unify leftLow rightLow success,
      Subst.reify_eq_of_unify within.acyclic success⟩

theorem imp
    {goal reference : Goal Code}
    (reads : goal.ReadsAs goalOf gaps reference start known)
    (acyclic : start.value.Acyclic)
    (implied : ∀ subst, start.value.Grows subst → known subst → other subst) :
    goal.ReadsAs goalOf gaps reference start other := by
  rcases reads with ⟨found, listing, reading, all⟩
  refine ⟨found, listing, reading, fun result member => ?_⟩
  exact ⟨(all result member).1,
    implied _ (listing.grows acyclic member) (all result member).2⟩

/-- The second goal is compared for each result of the first one. -/
theorem both
    {first second firstReference secondReference : Goal Code}
    (acyclic : start.value.Acyclic)
    (front : first.ReadsAs goalOf gaps firstReference start known)
    (back :
      ∀ middle : Located Subst, start.value.Grows middle.value →
        start.place.supply ≤ middle.place.supply →
          middle.value.Within middle.place.supply → known middle.value →
            second.ReadsAs goalOf gaps secondReference middle other) :
    (Goal.both first second).ReadsAs goalOf gaps
      (.both firstReference secondReference) start other := by
  rcases front with ⟨middles, listing, reading, all⟩
  have behind : ∀ middle ∈ middles,
      second.ReadsAs goalOf gaps secondReference middle other := by
    intro middle member
    exact back middle (listing.grows acyclic member)
      (listing.supply_le member) (all middle member).1 (all middle member).2
  choose! results listed read known using behind
  refine ⟨_, .both listing listed, .both_located reading read, ?_⟩
  intro result member
  rcases List.mem_flatMap.mp member with ⟨middle, inside, later⟩
  exact known middle inside result later

theorem either
    {left right leftReference rightReference : Goal Code}
    (onLeft :
      left.ReadsAs goalOf gaps leftReference
        ⟨start.place.left, start.value⟩ known)
    (onRight :
      right.ReadsAs goalOf gaps rightReference
        ⟨start.place.right, start.value⟩ known) :
    (Goal.either left right).ReadsAs goalOf gaps
      (.either leftReference rightReference) start known := by
  rcases onLeft with ⟨lefts, leftListing, leftReading, leftAll⟩
  rcases onRight with ⟨rights, rightListing, rightReading, rightAll⟩
  refine ⟨_, .either leftListing rightListing, ?_, ?_⟩
  · rw [List.map_append]
    exact .either leftReading rightReading
  · rw [List.forall_mem_append]
    exact ⟨leftAll, rightAll⟩

theorem either_nil_left
    {left right reference : Goal Code}
    (onLeft : Listing goalOf gaps left ⟨start.place.left, start.value⟩ [])
    (onRight :
      right.ReadsAs goalOf gaps reference ⟨start.place.right, start.value⟩
        known) :
    (Goal.either left right).ReadsAs goalOf gaps reference start known := by
  rcases onRight with ⟨found, listing, reading, all⟩
  exact ⟨found, .either onLeft listing, reading, all⟩

theorem either_nil_right
    {left right reference : Goal Code}
    (onLeft :
      left.ReadsAs goalOf gaps reference ⟨start.place.left, start.value⟩
        known)
    (onRight :
      Listing goalOf gaps right ⟨start.place.right, start.value⟩ []) :
    (Goal.either left right).ReadsAs goalOf gaps reference start known := by
  rcases onLeft with ⟨found, listing, reading, all⟩
  exact ⟨found, listing.either_nil onRight, reading, all⟩

/--
The reference may be built at another time, if no variable is minted for it
that is not minted for the goal.
-/
theorem dynamic
    {builder reference : Subst → Recipe (Goal Code)}
    {opening : Nat}
    (later : start.place.supply ≤ opening)
    (low :
      ((reference start.value).made opening).2 ≤
        ((builder start.value).made (start.place.opening gaps)).2)
    (built :
      ((builder start.value).goalAt gaps start).ReadsAs goalOf gaps
        ((reference start.value).made opening).1
        (start.enter gaps (builder start.value)) known) :
    (Goal.dynamic builder).ReadsAs goalOf gaps (.dynamic reference) start
      known := by
  rcases built with ⟨found, listing, reading, all⟩
  exact ⟨found, .dynamic listing, .dynamic later (reading.lower low), all⟩

/-- The reference need not be built where the goal is. -/
theorem enter_dynamic
    {builder : Subst → Recipe (Goal Code)}
    {reference : Goal Code}
    (built :
      ((builder start.value).goalAt gaps start).ReadsAs goalOf gaps reference
        (start.enter gaps (builder start.value)) known) :
    (Goal.dynamic builder).ReadsAs goalOf gaps reference start known := by
  rcases built with ⟨found, listing, reading, all⟩
  exact ⟨found, .dynamic listing,
    reading.lower (start.supply_le_enter gaps (builder start.value)), all⟩

theorem enter_defer
    {code : Code}
    {reference : Goal Code}
    (built :
      ((goalOf code).goalAt gaps start).ReadsAs goalOf gaps reference
        (start.enter gaps (goalOf code)) known) :
    (Goal.defer code).ReadsAs goalOf gaps reference start known := by
  rcases built with ⟨found, listing, reading, all⟩
  exact ⟨found, .defer listing,
    reading.lower (start.supply_le_enter gaps (goalOf code)), all⟩

/-- The reference need not be suspended where the goal is. -/
theorem defer
    {code : Code}
    {reference : Subst → Recipe (Goal Code)}
    {opening : Nat}
    (later : start.place.supply ≤ opening)
    (low :
      ((reference start.value).made opening).2 ≤
        ((goalOf code).made (start.place.opening gaps)).2)
    (built :
      ((goalOf code).goalAt gaps start).ReadsAs goalOf gaps
        ((reference start.value).made opening).1
        (start.enter gaps (goalOf code)) known) :
    (Goal.defer code).ReadsAs goalOf gaps (.dynamic reference) start
      known := by
  rcases built with ⟨found, listing, reading, all⟩
  exact ⟨found, .defer listing, .dynamic later (reading.lower low), all⟩

end Goal.ReadsAs

/-! ## Searches that end as they read -/

/--
The search of a goal ends with these results, which are those of a reading of
the reference.  If the reference is generic, then they are those of each of its
readings, up to the names of the variables that are minted.
-/
structure Goal.DrainsAs
    (goalOf : Code → Recipe (Goal Code))
    (goal reference : Goal Code)
    (subst : Subst)
    (session : Session)
    (results : List Subst) : Prop where
  drains : goal.Drains goalOf subst session results
  exists_reading :
    ∃ found,
      Reading goalOf reference ⟨subst, session.supply⟩ found ∧
        results.Perm (found.map Snapshot.value)
  renamed :
    Generic goalOf reference subst session.supply →
      ∀ found,
        Reading goalOf reference ⟨subst, session.supply⟩ found →
          ∃ renamed,
            results.Perm renamed ∧
              List.Forall₂ (Subst.Renamed session.supply)
                (found.map Snapshot.value) renamed

theorem Goal.Drains.drainsAs
    {goalOf : Code → Recipe (Goal Code)}
    {goal reference : Goal Code}
    {subst : Subst}
    {session : Session}
    {results : List Subst}
    {found : List Snapshot}
    (drains : goal.Drains goalOf subst session results)
    (reading : Reading goalOf reference ⟨subst, session.supply⟩ found)
    (permuted : results.Perm (found.map Snapshot.value)) :
    goal.DrainsAs goalOf reference subst session results := by
  constructor
  · exact drains
  · exact ⟨found, reading, permuted⟩
  · intro generic others otherReading
    exact ⟨_, permuted, generic.renamed_readings otherReading reading⟩

/-- The reference may be replaced by one that reads as it, in any order. -/
theorem Goal.DrainsAs.reorder
    {goalOf : Code → Recipe (Goal Code)}
    {goal reference other : Goal Code}
    {subst : Subst}
    {session : Session}
    {results : List Subst}
    (drains : goal.DrainsAs goalOf reference subst session results)
    (reads :
      ∀ start found, Reading goalOf reference start found →
        ∃ others, Reading goalOf other start others ∧ found.Perm others) :
    goal.DrainsAs goalOf other subst session results := by
  rcases drains.exists_reading with ⟨found, reading, permuted⟩
  rcases reads _ _ reading with ⟨others, otherReading, same⟩
  exact drains.drains.drainsAs otherReading
    (permuted.trans (same.map Snapshot.value))

theorem Goal.ReadsAs.exists_drains
    {goalOf : Code → Recipe (Goal Code)}
    {gaps : Gaps}
    {goal reference : Goal Code}
    {subst : Subst}
    {session : Session}
    {known : Subst → Prop}
    (reads :
      goal.ReadsAs goalOf gaps reference (.root subst session) known)
    (fit : gaps.Fit goalOf goal subst session) :
    ∃ results,
      goal.DrainsAs goalOf reference subst session results ∧
        ∀ result ∈ results, known result := by
  rcases reads with ⟨found, listing, reading, all⟩
  rcases fit.exists_drains listing with ⟨results, drains, permuted⟩
  have permutedValues :
      results.Perm ((found.map Located.snapshot).map Snapshot.value) := by
    rw [List.map_map]
    exact permuted
  refine ⟨results, drains.drainsAs reading permutedValues, ?_⟩
  intro result member
  rcases List.mem_map.mp (permuted.mem_iff.mp member) with
    ⟨located, inside, rfl⟩
  exact (all located inside).2

/-- What is built of a recipe that is like itself is generic. -/
theorem Recipe.Alike.generic
    {goalOf : Code → Recipe (Goal Code)}
    {codes : Pairing → Code → Code → Prop}
    (generic : GenericCodes goalOf codes)
    {recipe : Recipe (Goal Code)}
    {subst : Subst}
    {start supply : Nat}
    (recipes : Recipe.Alike (Goal.Alike codes) (.upTo start) recipe recipe)
    (enough : (recipe.made start).2 ≤ supply)
    (within : subst.Within supply) :
    Generic goalOf (recipe.made start).1 subst supply :=
  ⟨codes, generic, recipes.upTo generic enough, within.alike_upTo⟩

end RelationalSearch
