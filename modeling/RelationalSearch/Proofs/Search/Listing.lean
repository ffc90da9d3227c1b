import Mathlib.Data.Multiset.Bind
import RelationalSearch.Proofs.Search.Run

/-!
# Searches as lists

The plain reading of a goal is depth first: a disjunction lists what its left
goal gives and then what its right goal gives, and a conjunction feeds what is
listed for the first goal to the second one (`Listing`).  This reading need not
end; where it does, the search ends as well and delivers the same results.

The order differs, since branches take turns, so results are counted without
order.  Each suspension of a listed goal is forced once, and `Tally` counts
these along with the results.  `Stream.Holds` says what results are left in a
stream, and how many suspensions are to be forced for them.  A piece of work
lowers the number and keeps the results (`Stream.Holds.advance`).
-/

namespace RelationalSearch

variable {Code : Type}

/-! ## Listings -/

/-- The results of a goal, depth first and from left to right. -/
inductive Listing
    (goalOf : Code → Recipe (Goal Code))
    (gaps : Gaps) :
    Goal Code → Located Subst → List (Located Subst) → Prop where
  | unified
      {left right : Term} {start : Located Subst} {extended : Subst}
      (success : start.value.unify left right = some extended) :
      Listing goalOf gaps (.eq left right) start [⟨start.place, extended⟩]
  | clash
      {left right : Term} {start : Located Subst}
      (failure : start.value.unify left right = none) :
      Listing goalOf gaps (.eq left right) start []
  | succeed {start : Located Subst} :
      Listing goalOf gaps .succeed start [start]
  | fail {start : Located Subst} : Listing goalOf gaps .fail start []
  | both
      {first second : Goal Code} {start : Located Subst}
      {middles : List (Located Subst)}
      {results : Located Subst → List (Located Subst)}
      (front : Listing goalOf gaps first start middles)
      (back :
        ∀ middle ∈ middles,
          Listing goalOf gaps second middle (results middle)) :
      Listing goalOf gaps (.both first second) start
        (middles.flatMap results)
  | either
      {left right : Goal Code} {start : Located Subst}
      {lefts rights : List (Located Subst)}
      (onLeft :
        Listing goalOf gaps left ⟨start.place.left, start.value⟩ lefts)
      (onRight :
        Listing goalOf gaps right ⟨start.place.right, start.value⟩ rights) :
      Listing goalOf gaps (.either left right) start (lefts ++ rights)
  | ordered
      {left right : Goal Code} {start : Located Subst}
      {lefts rights : List (Located Subst)}
      (onLeft :
        Listing goalOf gaps left ⟨start.place.left, start.value⟩ lefts)
      (onRight :
        Listing goalOf gaps right ⟨start.place.right, start.value⟩ rights) :
      Listing goalOf gaps (.ordered left right) start (lefts ++ rights)
  | defer
      {code : Code} {start : Located Subst} {found : List (Located Subst)}
      (built :
        Listing goalOf gaps ((goalOf code).goalAt gaps start)
          (start.enter gaps (goalOf code)) found) :
      Listing goalOf gaps (.defer code) start found
  | dynamic
      {builder : Subst → Recipe (Goal Code)} {start : Located Subst}
      {found : List (Located Subst)}
      (built :
        Listing goalOf gaps ((builder start.value).goalAt gaps start)
          (start.enter gaps (builder start.value)) found) :
      Listing goalOf gaps (.dynamic builder) start found

/-- There is no other listing. -/
theorem Listing.unique
    {goalOf : Code → Recipe (Goal Code)}
    {gaps : Gaps}
    {goal : Goal Code}
    {start : Located Subst}
    {found others : List (Located Subst)}
    (listing : Listing goalOf gaps goal start found)
    (otherListing : Listing goalOf gaps goal start others) :
    found = others := by
  induction listing generalizing others with
  | unified success =>
    cases otherListing with
    | unified otherSuccess =>
      cases success.symm.trans otherSuccess
      rfl
    | clash failure => cases success.symm.trans failure
  | clash failure =>
    cases otherListing with
    | unified success => cases success.symm.trans failure
    | clash => rfl
  | succeed | fail =>
    cases otherListing
    rfl
  | both _ _ frontIH backIH =>
    cases otherListing with
    | both otherFront otherBack =>
      cases frontIH otherFront
      refine List.flatMap_congr ?_
      intro middle member
      exact backIH middle member (otherBack middle member)
  | either _ _ leftIH rightIH =>
    cases otherListing with
    | either onLeft onRight => rw [leftIH onLeft, rightIH onRight]
  | ordered _ _ leftIH rightIH =>
    cases otherListing with
    | ordered onLeft onRight => rw [leftIH onLeft, rightIH onRight]
  | defer _ ih =>
    cases otherListing with
    | defer built => exact ih built
  | dynamic _ ih =>
    cases otherListing with
    | dynamic built => exact ih built

/-! ## Tallies -/

/-- Results without order. -/
abbrev Bag := Multiset (Located Subst)

/-- The results of a goal, and how often a suspension is forced for them. -/
inductive Tally
    (goalOf : Code → Recipe (Goal Code))
    (gaps : Gaps) :
    Goal Code → Located Subst → Bag → Nat → Prop where
  | unified
      {left right : Term} {start : Located Subst} {extended : Subst}
      (success : start.value.unify left right = some extended) :
      Tally goalOf gaps (.eq left right) start {⟨start.place, extended⟩} 0
  | clash
      {left right : Term} {start : Located Subst}
      (failure : start.value.unify left right = none) :
      Tally goalOf gaps (.eq left right) start 0 0
  | succeed {start : Located Subst} :
      Tally goalOf gaps .succeed start {start} 0
  | fail {start : Located Subst} : Tally goalOf gaps .fail start 0 0
  | both
      {first second : Goal Code} {start : Located Subst}
      {middles : Bag} {cost : Nat}
      {results : Located Subst → Bag} {costs : Located Subst → Nat}
      (front : Tally goalOf gaps first start middles cost)
      (back :
        ∀ middle ∈ middles,
          Tally goalOf gaps second middle (results middle) (costs middle)) :
      Tally goalOf gaps (.both first second) start (middles.bind results)
        (cost + (middles.map costs).sum)
  | either
      {left right : Goal Code} {start : Located Subst}
      {lefts rights : Bag} {leftCost rightCost : Nat}
      (onLeft :
        Tally goalOf gaps left ⟨start.place.left, start.value⟩ lefts
          leftCost)
      (onRight :
        Tally goalOf gaps right ⟨start.place.right, start.value⟩ rights
          rightCost) :
      Tally goalOf gaps (.either left right) start (lefts + rights)
        (leftCost + rightCost)
  | ordered
      {left right : Goal Code} {start : Located Subst}
      {lefts rights : Bag} {leftCost rightCost : Nat}
      (onLeft :
        Tally goalOf gaps left ⟨start.place.left, start.value⟩ lefts
          leftCost)
      (onRight :
        Tally goalOf gaps right ⟨start.place.right, start.value⟩ rights
          rightCost) :
      Tally goalOf gaps (.ordered left right) start (lefts + rights)
        (leftCost + (rightCost + 1))
  | defer
      {code : Code} {start : Located Subst} {found : Bag} {cost : Nat}
      (built :
        Tally goalOf gaps ((goalOf code).goalAt gaps start)
          (start.enter gaps (goalOf code)) found cost) :
      Tally goalOf gaps (.defer code) start found (cost + 1)
  | dynamic
      {builder : Subst → Recipe (Goal Code)} {start : Located Subst}
      {found : Bag} {cost : Nat}
      (built :
        Tally goalOf gaps ((builder start.value).goalAt gaps start)
          (start.enter gaps (builder start.value)) found cost) :
      Tally goalOf gaps (.dynamic builder) start found cost

section Tally

variable {goalOf : Code → Recipe (Goal Code)} {gaps : Gaps}

theorem Listing.exists_tally
    {goal : Goal Code}
    {start : Located Subst}
    {found : List (Located Subst)}
    (listing : Listing goalOf gaps goal start found) :
    ∃ cost, Tally goalOf gaps goal start found cost := by
  induction listing with
  | unified success => exact ⟨0, .unified success⟩
  | clash failure => exact ⟨0, .clash failure⟩
  | succeed => exact ⟨0, .succeed⟩
  | fail => exact ⟨0, .fail⟩
  | both _ _ frontIH backIH =>
    rcases frontIH with ⟨cost, front⟩
    choose! costs back using backIH
    rw [← Multiset.coe_bind]
    exact ⟨_, .both front back⟩
  | either _ _ leftIH rightIH =>
    rcases leftIH with ⟨leftCost, onLeft⟩
    rcases rightIH with ⟨rightCost, onRight⟩
    exact ⟨_, .either onLeft onRight⟩
  | ordered _ _ leftIH rightIH =>
    rcases leftIH with ⟨leftCost, onLeft⟩
    rcases rightIH with ⟨rightCost, onRight⟩
    exact ⟨_, .ordered onLeft onRight⟩
  | defer _ ih =>
    rcases ih with ⟨cost, built⟩
    exact ⟨_, .defer built⟩
  | dynamic _ ih =>
    rcases ih with ⟨cost, built⟩
    exact ⟨_, .dynamic built⟩

end Tally

/-! ## Batches of work -/

section Batch

variable {Item : Type}

/-- The results of several items together, and what they cost. -/
def Batch
    (tally : Item → Bag → Nat → Prop)
    (items : Multiset Item)
    (found : Bag)
    (cost : Nat) : Prop :=
  ∃ entries : Multiset (Bag × Nat),
    Multiset.Rel (fun item entry => tally item entry.1 entry.2) items
        entries ∧
      found = (entries.map Prod.fst).sum ∧
      cost = (entries.map Prod.snd).sum

variable {tally : Item → Bag → Nat → Prop}

theorem batch_zero_iff {found : Bag} {cost : Nat} :
    Batch tally 0 found cost ↔ found = 0 ∧ cost = 0 := by
  constructor
  · rintro ⟨entries, related, rfl, rfl⟩
    rw [Multiset.rel_zero_left] at related
    subst related
    exact ⟨rfl, rfl⟩
  · rintro ⟨rfl, rfl⟩
    exact ⟨0, .zero, rfl, rfl⟩

theorem batch_cons_iff
    {item : Item}
    {items : Multiset Item}
    {found : Bag}
    {cost : Nat} :
    Batch tally (item ::ₘ items) found cost ↔
      ∃ own others ownCost otherCost,
        tally item own ownCost ∧ Batch tally items others otherCost ∧
          found = own + others ∧ cost = ownCost + otherCost := by
  constructor
  · rintro ⟨entries, related, rfl, rfl⟩
    rw [Multiset.rel_cons_left] at related
    rcases related with ⟨entry, rest, tallied, related, rfl⟩
    refine ⟨entry.1, (rest.map Prod.fst).sum, entry.2,
      (rest.map Prod.snd).sum, tallied, ⟨rest, related, rfl, rfl⟩, ?_, ?_⟩
    all_goals simp
  · rintro ⟨own, _, ownCost, _, tallied, ⟨rest, related, rfl, rfl⟩, rfl, rfl⟩
    refine ⟨(own, ownCost) ::ₘ rest, .cons tallied related, ?_, ?_⟩
    all_goals simp

theorem Batch.add
    {items others : Multiset Item}
    {found otherFound : Bag}
    {cost otherCost : Nat}
    (batch : Batch tally items found cost)
    (otherBatch : Batch tally others otherFound otherCost) :
    Batch tally (items + others) (found + otherFound)
      (cost + otherCost) := by
  rcases batch with ⟨entries, related, rfl, rfl⟩
  rcases otherBatch with ⟨otherEntries, otherRelated, rfl, rfl⟩
  refine ⟨entries + otherEntries, related.add otherRelated, ?_, ?_⟩
  all_goals simp

theorem Batch.mono
    {items : Multiset Item}
    {found : Bag}
    {cost : Nat}
    {coarser : Item → Bag → Nat → Prop}
    (batch : Batch tally items found cost)
    (implied : ∀ item found cost, tally item found cost →
      coarser item found cost) :
    Batch coarser items found cost := by
  rcases batch with ⟨entries, related, rfl, rfl⟩
  exact ⟨entries, related.mono fun _ _ _ _ => implied _ _ _, rfl, rfl⟩

theorem batch_of_forall
    {items : Multiset Item}
    {results : Item → Bag}
    {costs : Item → Nat}
    (each : ∀ item ∈ items, tally item (results item) (costs item)) :
    Batch tally items (items.bind results) (items.map costs).sum := by
  induction items using Multiset.induction with
  | empty => exact batch_zero_iff.mpr ⟨rfl, rfl⟩
  | cons item items ih =>
    rw [Multiset.cons_bind, Multiset.map_cons, Multiset.sum_cons,
      batch_cons_iff]
    exact ⟨_, _, _, _, each item (Multiset.mem_cons_self item items),
      ih fun other member => each other (Multiset.mem_cons_of_mem member),
      rfl, rfl⟩

end Batch

end RelationalSearch
