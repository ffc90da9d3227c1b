import RelationalSearch.Proofs.Search.Arrangement
import RelationalSearch.Proofs.Search.Generic
import RelationalSearch.Proofs.Search.Persistence

/-!
# The answers of a search that ends

A caller who asks for all answers of a goal gets a list if the search ends:
what the query stands for in each result, in the order of delivery
(`Goal.Finishes`).  How much work is allowed for an answer does not matter, as
long as it is enough.

What a listing has for a goal is derived from it, so that the results of a
listing keep all bindings and their places do not go back in the supply.
-/

namespace RelationalSearch

variable {Code : Type}

/-! ## Asking for all results -/

/-- With enough effort a caller gets all results of a stream that ends. -/
theorem Stream.Drains.exists_take_eq
    {Later Next Result : Type}
    {engine : Engine Search Later Next Result}
    {stream : Stream Later Next Result}
    {session : Session}
    {results : List Result}
    (drains : Drains engine stream session results) :
    ∃ effort, ∀ more, effort ≤ more → ∀ count, results.length ≤ count →
      ((take engine more count stream).run session).1 = results := by
  induction drains with
  | @ended stream session after effort pulled =>
    refine ⟨effort, ?_⟩
    intro more enough count _
    rcases Nat.exists_eq_add_of_le enough with ⟨extra, rfl⟩
    have finished := pull_add_of_finished pulled nofun extra
    cases count with
    | zero => rfl
    | succ count =>
      rw [take, StateT.run_bind, finished]
      rfl
  | @result stream rest session after effort result results pulled _ ih =>
    rcases ih with ⟨least, all⟩
    refine ⟨max effort least, ?_⟩
    intro more enough count long
    have enoughHere : effort ≤ more := Nat.le_trans (Nat.le_max_left _ _) enough
    have enoughLater : least ≤ more := Nat.le_trans (Nat.le_max_right _ _) enough
    rcases Nat.exists_eq_add_of_le enoughHere with ⟨extra, same⟩
    have finished := pull_add_of_finished pulled nofun extra
    rw [← same] at finished
    cases count with
    | zero => simp at long
    | succ count =>
      rw [take, StateT.run_bind, finished]
      have others := all more enoughLater count (Nat.le_of_succ_le_succ long)
      change result :: ((take engine more count rest).run after).1 = _
      rw [others]

/--
A search for the query, from the empty substitution, ends with just these
answers, and a caller who allows enough effort gets them.
-/
structure Goal.Finishes
    (goalOf : Code → Recipe (Goal Code))
    (goal : Goal Code)
    (query : Term)
    (session : Session)
    (answers : List Term) : Prop where
  drains :
    ∃ results,
      goal.Drains goalOf ∅ session results ∧
        results.map (fun subst => subst.reify query) = answers
  answers_eq :
    ∃ effort, ∀ more, effort ≤ more → ∀ count, answers.length ≤ count →
      ((goal.answers goalOf more count query).run session).1 = answers

theorem Goal.Drains.finishes
    {goalOf : Code → Recipe (Goal Code)}
    {goal : Goal Code}
    {session : Session}
    {results : List Subst}
    (drains : goal.Drains goalOf ∅ session results)
    (query : Term) :
    goal.Finishes goalOf query session
      (results.map fun subst => subst.reify query) where
  drains := ⟨results, drains, rfl⟩
  answers_eq := by
    rcases Stream.Drains.exists_take_eq drains with ⟨effort, all⟩
    refine ⟨effort, ?_⟩
    intro more enough count long
    rw [List.length_map] at long
    change List.map _ ((Stream.take (searchEngine goalOf) more count
      ((goal.apply ∅).run session).1).run ((goal.apply ∅).run session).2).1 = _
    rw [all more enough count long]

/-- The answers of a search that ends are the values of its results. -/
theorem Goal.Completes.finishes
    {goalOf : Code → Recipe (Goal Code)}
    {gaps : Gaps}
    {goal : Goal Code}
    {session : Session}
    {results : List (Located Subst)}
    (completes : goal.Completes goalOf gaps (.root ∅ session) results)
    (fit : gaps.Fit goalOf goal ∅ session)
    {query : Term}
    {answers : List Term}
    (values :
      List.Forall₂ (fun result answer => result.value.reify query = answer)
        results answers) :
    goal.Finishes goalOf query session answers := by
  have same :
      (results.map Located.value).map (fun subst => subst.reify query) =
        answers := by
    rwa [List.map_map, ← List.forall₂_eq_eq_eq, List.forall₂_map_left_iff]
  rw [← same]
  exact (completes.drains fit).finishes query

/-! ## Listed results are derived -/

section Listing

variable {goalOf : Code → Recipe (Goal Code)} {gaps : Gaps}
  {goal : Goal Code} {start finish : Located Subst}

theorem Listing.nonempty_derivation
    {found : List (Located Subst)}
    (listing : Listing goalOf gaps goal start found)
    (member : finish ∈ found) :
    Nonempty (Derivation goalOf gaps goal start finish) := by
  induction listing generalizing finish with
  | unified success =>
    rw [List.mem_singleton] at member
    subst member
    exact ⟨.eq success⟩
  | clash | fail => simp at member
  | succeed =>
    rw [List.mem_singleton] at member
    subst member
    exact ⟨.succeed⟩
  | both _ _ frontIH backIH =>
    rcases List.mem_flatMap.mp member with ⟨middle, inside, behind⟩
    rcases frontIH inside with ⟨front⟩
    rcases backIH middle inside behind with ⟨back⟩
    exact ⟨.both front back⟩
  | either _ _ leftIH rightIH =>
    rcases List.mem_append.mp member with onLeft | onRight
    · exact (leftIH onLeft).map .left
    · exact (rightIH onRight).map .right
  | ordered _ _ leftIH rightIH =>
    rcases List.mem_append.mp member with onLeft | onRight
    · exact (leftIH onLeft).map .orderedLeft
    · exact (rightIH onRight).map .orderedRight
  | defer _ ih => exact (ih member).map .defer
  | dynamic _ ih => exact (ih member).map .dynamic

/-- Variables are only added along a derivation. -/
theorem Derivation.supply_le
    (derivation : Derivation goalOf gaps goal start finish) :
    start.place.supply ≤ finish.place.supply := by
  induction derivation with
  | eq | succeed => exact Nat.le_refl _
  | both _ _ frontIH backIH => exact Nat.le_trans frontIH backIH
  | left _ ih | right _ ih | orderedLeft _ ih | orderedRight _ ih => exact ih
  | defer _ ih | dynamic _ ih =>
    refine Nat.le_trans ?_ ih
    exact Nat.le_trans (Nat.le_add_right _ _) (Recipe.le_made _ _)

theorem Listing.grows
    {found : List (Located Subst)}
    (listing : Listing goalOf gaps goal start found)
    (acyclic : start.value.Acyclic)
    (member : finish ∈ found) :
    start.value.Grows finish.value := by
  rcases listing.nonempty_derivation member with ⟨derivation⟩
  exact derivation.grows acyclic

theorem Listing.supply_le
    {found : List (Located Subst)}
    (listing : Listing goalOf gaps goal start found)
    (member : finish ∈ found) :
    start.place.supply ≤ finish.place.supply := by
  rcases listing.nonempty_derivation member with ⟨derivation⟩
  exact derivation.supply_le

/-- Only one result of the first goal goes on to the second one. -/
theorem Listing.both_single
    {first second : Goal Code}
    {middle : Located Subst}
    {found : List (Located Subst)}
    (front : Listing goalOf gaps first start [middle])
    (back : Listing goalOf gaps second middle found) :
    Listing goalOf gaps (.both first second) start found := by
  have both : Listing goalOf gaps (.both first second) start
      ([middle].flatMap fun _ => found) :=
    .both front (by simpa using back)
  simpa using both

theorem Listing.both_nil
    {first : Goal Code}
    (front : Listing goalOf gaps first start [])
    (second : Goal Code) :
    Listing goalOf gaps (.both first second) start [] := by
  have both : Listing goalOf gaps (.both first second) start
      ([].flatMap fun _ => []) :=
    .both front (by simp)
  exact both

end Listing

/-! ## What is known of the results of a goal -/

/--
A goal has a finite list of results, and each of them is related to the value at
its place in another list.
-/
def Goal.Gives
    {Value : Type}
    (goalOf : Code → Recipe (Goal Code))
    (gaps : Gaps)
    (goal : Goal Code)
    (start : Located Subst)
    (related : Located Subst → Value → Prop)
    (values : List Value) : Prop :=
  ∃ found,
    Listing goalOf gaps goal start found ∧ List.Forall₂ related found values

namespace Goal.Gives

variable {Value Other : Type} {goalOf : Code → Recipe (Goal Code)}
  {gaps : Gaps} {start : Located Subst}
  {related : Located Subst → Value → Prop}
  {otherRelated : Located Subst → Other → Prop} {values others : List Value}

theorem fail : Goal.fail.Gives goalOf gaps start related [] :=
  ⟨[], .fail, .nil⟩

theorem unified
    {left right : Term}
    {extended : Subst}
    {value : Value}
    (success : start.value.unify left right = some extended)
    (holds : related ⟨start.place, extended⟩ value) :
    (Goal.eq left right).Gives goalOf gaps start related [value] :=
  ⟨_, .unified success, .cons holds .nil⟩

theorem either
    {left right : Goal Code}
    (onLeft :
      left.Gives goalOf gaps ⟨start.place.left, start.value⟩ related values)
    (onRight :
      right.Gives goalOf gaps ⟨start.place.right, start.value⟩ related
        others) :
    (Goal.either left right).Gives goalOf gaps start related
      (values ++ others) := by
  rcases onLeft with ⟨lefts, leftListing, leftRelated⟩
  rcases onRight with ⟨rights, rightListing, rightRelated⟩
  exact ⟨_, .either leftListing rightListing,
    List.rel_append leftRelated rightRelated⟩

theorem defer
    {code : Code}
    (built :
      ((goalOf code).goalAt gaps start).Gives goalOf gaps
        (start.enter gaps (goalOf code)) related values) :
    (Goal.defer code).Gives goalOf gaps start related values := by
  rcases built with ⟨found, listing, all⟩
  exact ⟨found, .defer listing, all⟩

theorem dynamic
    {builder : Subst → Recipe (Goal Code)}
    (built :
      ((builder start.value).goalAt gaps start).Gives goalOf gaps
        (start.enter gaps (builder start.value)) related values) :
    (Goal.dynamic builder).Gives goalOf gaps start related values := by
  rcases built with ⟨found, listing, all⟩
  exact ⟨found, .dynamic listing, all⟩

theorem mono
    {goal : Goal Code}
    {coarser : Located Subst → Value → Prop}
    (gives : goal.Gives goalOf gaps start related values)
    (implied : ∀ result value, related result value → coarser result value) :
    goal.Gives goalOf gaps start coarser values := by
  rcases gives with ⟨found, listing, all⟩
  exact ⟨found, listing, all.imp implied⟩

/-- Results may be read otherwise, knowing that they go on from the start. -/
theorem imp
    {goal : Goal Code}
    (gives : goal.Gives goalOf gaps start related values)
    (acyclic : start.value.Acyclic)
    {change : Value → Other}
    (implied :
      ∀ result value, start.value.Grows result.value →
        start.place.supply ≤ result.place.supply → related result value →
          otherRelated result (change value)) :
    goal.Gives goalOf gaps start otherRelated (values.map change) := by
  rcases gives with ⟨found, listing, all⟩
  refine ⟨found, listing, List.forall₂_map_right_iff.mpr ?_⟩
  have facts : ∀ result ∈ found, start.value.Grows result.value ∧
      start.place.supply ≤ result.place.supply :=
    fun _ member => ⟨listing.grows acyclic member, listing.supply_le member⟩
  clear listing
  induction all with
  | nil => exact .nil
  | cons holds _ ih =>
    rw [List.forall_mem_cons] at facts
    exact .cons (implied _ _ facts.1.1 facts.1.2 holds) (ih facts.2)

/-- The second goal is asked for each result of the first one. -/
theorem both
    {first second : Goal Code}
    {more : Value → List Other}
    (acyclic : start.value.Acyclic)
    (front : first.Gives goalOf gaps start related values)
    (back :
      ∀ middle, ∀ value ∈ values, start.value.Grows middle.value →
        start.place.supply ≤ middle.place.supply → related middle value →
          second.Gives goalOf gaps middle otherRelated (more value)) :
    (Goal.both first second).Gives goalOf gaps start otherRelated
      (values.flatMap more) := by
  rcases front with ⟨middles, frontListing, all⟩
  have behind : ∀ middle ∈ middles, ∀ value ∈ values, related middle value →
      second.Gives goalOf gaps middle otherRelated (more value) :=
    fun middle member value listed holds =>
      back middle value listed (frontListing.grows acyclic member)
        (frontListing.supply_le member) holds
  have listings : ∀ middle ∈ middles,
      ∃ found, Listing goalOf gaps second middle found := by
    intro middle member
    rcases exists_mem_of_forall₂ all.flip member with ⟨value, inside, holds⟩
    rcases behind middle member value inside holds with ⟨found, listing, _⟩
    exact ⟨found, listing⟩
  choose! results listed using listings
  refine ⟨_, .both frontListing listed, forall₂_flatMap all ?_⟩
  intro middle member value inside holds
  rcases behind middle member value inside holds with
    ⟨found, listing, related⟩
  rwa [(listed middle member).unique listing]

/-- The second goal is asked for the only result of the first one. -/
theorem both_single
    {first second : Goal Code}
    {middle : Located Subst}
    (front : Listing goalOf gaps first start [middle])
    (back : second.Gives goalOf gaps middle related values) :
    (Goal.both first second).Gives goalOf gaps start related values := by
  rcases back with ⟨found, listing, all⟩
  exact ⟨found, .both_single front listing, all⟩

/-- Where the first goal has no results the second one does not matter. -/
theorem both_nil
    {first : Goal Code}
    (front : Listing goalOf gaps first start [])
    (second : Goal Code) :
    (Goal.both first second).Gives goalOf gaps start related [] :=
  ⟨[], .both_nil front second, .nil⟩

end Goal.Gives

end RelationalSearch
