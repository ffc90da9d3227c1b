import RelationalSearch.Proofs.Search.Answers

/-!
# Goals whose results come in one of several orders

Where the order of results matters, a list of values does not say enough: one
search of a goal may deliver in another order than the next one, as branches
take turns.  `Goal.Yields` says which lists of values are allowed.  It is built
up like `Goal.Gives`, from the parts of a goal: the branches of an ordered
disjunction follow each other, and a conjunction shuffles what comes of the
results of its first goal.
-/

namespace RelationalSearch

variable {Code α β γ : Type}

/-- Third elements that are found for the pairs of two lists make a list. -/
theorem exists_forall₂_of_forall₂
    {related : α → β → Prop}
    {onFirst : α → γ → Prop}
    {onSecond : β → γ → Prop}
    {first : List α}
    {second : List β}
    (pairs : List.Forall₂ related first second)
    (found :
      ∀ one ∈ first, ∀ other ∈ second, related one other →
        ∃ third, onFirst one third ∧ onSecond other third) :
    ∃ thirds,
      List.Forall₂ onFirst first thirds ∧
        List.Forall₂ onSecond second thirds := by
  induction pairs with
  | nil => exact ⟨[], .nil, .nil⟩
  | cons holds _ ih =>
    rcases found _ List.mem_cons_self _ List.mem_cons_self holds with
      ⟨third, here, there⟩
    rcases ih fun one member other otherMember =>
        found one (List.mem_cons_of_mem _ member) other
          (List.mem_cons_of_mem _ otherMember) with
      ⟨thirds, behind, others⟩
    exact ⟨third :: thirds, .cons here behind, .cons there others⟩

/--
The search of a goal ends, and in whatever order its results come, they are
related to the values of a list that is allowed.
-/
structure Goal.Yields
    {Value : Type}
    (goalOf : Code → Recipe (Goal Code))
    (gaps : Gaps)
    (goal : Goal Code)
    (start : Located Subst)
    (related : Located Subst → Value → Prop)
    (allowed : List Value → Prop) : Prop where
  ends : ∃ found, Listing goalOf gaps goal start found
  orders :
    ∀ found, Arrangement goalOf gaps goal start found →
      ∃ values, allowed values ∧ List.Forall₂ related found values

section Yields

variable {Value Other : Type} {goalOf : Code → Recipe (Goal Code)}
  {gaps : Gaps} {start : Located Subst}
  {related : Located Subst → Value → Prop}
  {otherRelated : Located Subst → Other → Prop}
  {allowed : List Value → Prop}

/-- Known values may come in any order. -/
theorem Goal.Gives.yields
    {goal : Goal Code}
    {values : List Value}
    (gives : goal.Gives goalOf gaps start related values) :
    goal.Yields goalOf gaps start related (List.Perm · values) := by
  rcases gives with ⟨listed, listing, answers⟩
  refine ⟨⟨listed, listing⟩, ?_⟩
  intro found arrangement
  rcases arrangement.exists_listing with ⟨same, otherListing, permuted⟩
  rw [← listing.unique otherListing] at permuted
  rcases List.perm_comp_forall₂ permuted answers with
    ⟨ordered, foundAnswer, reordered⟩
  exact ⟨ordered, reordered, foundAnswer⟩

namespace Goal.Yields

theorem mono
    {goal : Goal Code}
    {more : List Value → Prop}
    (yields : goal.Yields goalOf gaps start related allowed)
    (implied : ∀ values, allowed values → more values) :
    goal.Yields goalOf gaps start related more := by
  refine ⟨yields.ends, ?_⟩
  intro found arrangement
  rcases yields.orders found arrangement with ⟨values, holds, answers⟩
  exact ⟨values, implied values holds, answers⟩

theorem fail : Goal.fail.Yields goalOf gaps start related (· = []) :=
  Gives.fail.yields.mono fun _ => List.perm_nil.mp

/-- The results of the right goal come behind those of the left one. -/
theorem ordered
    {left right : Goal Code}
    {more : List Value → Prop}
    (onLeft :
      left.Yields goalOf gaps ⟨start.place.left, start.value⟩ related allowed)
    (onRight :
      right.Yields goalOf gaps ⟨start.place.right, start.value⟩ related more) :
    (Goal.ordered left right).Yields goalOf gaps start related fun values =>
      ∃ lefts rights,
        allowed lefts ∧ more rights ∧ values = lefts ++ rights := by
  constructor
  · rcases onLeft.ends with ⟨lefts, leftListing⟩
    rcases onRight.ends with ⟨rights, rightListing⟩
    exact ⟨_, .ordered leftListing rightListing⟩
  · intro found arrangement
    cases arrangement with
    | ordered leftOrder rightOrder =>
      rcases onLeft.orders _ leftOrder with ⟨lefts, leftHolds, leftAnswers⟩
      rcases onRight.orders _ rightOrder with
        ⟨rights, rightHolds, rightAnswers⟩
      exact ⟨_, ⟨lefts, rights, leftHolds, rightHolds, rfl⟩,
        List.rel_append leftAnswers rightAnswers⟩

theorem defer
    {code : Code}
    (built :
      ((goalOf code).goalAt gaps start).Yields goalOf gaps
        (start.enter gaps (goalOf code)) related allowed) :
    (Goal.defer code).Yields goalOf gaps start related allowed := by
  constructor
  · rcases built.ends with ⟨found, listing⟩
    exact ⟨found, .defer listing⟩
  · intro found arrangement
    cases arrangement with
    | defer inner => exact built.orders found inner

theorem dynamic
    {builder : Subst → Recipe (Goal Code)}
    (built :
      ((builder start.value).goalAt gaps start).Yields goalOf gaps
        (start.enter gaps (builder start.value)) related allowed) :
    (Goal.dynamic builder).Yields goalOf gaps start related allowed := by
  constructor
  · rcases built.ends with ⟨found, listing⟩
    exact ⟨found, .dynamic listing⟩
  · intro found arrangement
    cases arrangement with
    | dynamic inner => exact built.orders found inner

/-- Each listed result is related to a value of some list that is allowed. -/
theorem exists_related
    {goal : Goal Code}
    {found : List (Located Subst)}
    (yields : goal.Yields goalOf gaps start related allowed)
    (listing : Listing goalOf gaps goal start found)
    {result : Located Subst}
    (member : result ∈ found) :
    ∃ values, allowed values ∧ ∃ value ∈ values, related result value := by
  rcases listing.exists_completes with ⟨results, completes, permuted⟩
  rcases yields.orders results completes.arrangement with
    ⟨values, holds, answers⟩
  rcases exists_mem_of_forall₂ answers.flip (permuted.mem_iff.mpr member) with
    ⟨value, inside, same⟩
  exact ⟨values, holds, value, inside, same⟩

/-- What comes of the results of the first goal is shuffled. -/
theorem both
    {first second : Goal Code}
    {more : Value → List Other → Prop}
    (acyclic : start.value.Acyclic)
    (front : first.Yields goalOf gaps start related allowed)
    (back :
      ∀ values, allowed values → ∀ value ∈ values, ∀ middle,
        start.value.Grows middle.value →
          start.place.supply ≤ middle.place.supply → related middle value →
            second.Yields goalOf gaps middle otherRelated (more value)) :
    (Goal.both first second).Yields goalOf gaps start otherRelated
      fun others =>
        ∃ values lists,
          allowed values ∧ List.Forall₂ more values lists ∧
            ShuffleAll lists others := by
  constructor
  · rcases front.ends with ⟨middles, listing⟩
    have listings : ∀ middle ∈ middles,
        ∃ found, Listing goalOf gaps second middle found := by
      intro middle member
      rcases front.exists_related listing member with
        ⟨values, holds, value, inside, same⟩
      exact (back values holds value inside middle
        (listing.grows acyclic member) (listing.supply_le member) same).ends
    choose! results listed using listings
    exact ⟨_, .both listing listed⟩
  · intro found arrangement
    cases arrangement with
    | @both _ _ _ entries _ frontOrder backOrder shuffled =>
      rcases front.orders _ frontOrder with ⟨values, holds, answers⟩
      rcases frontOrder.exists_listing with ⟨middles, listing, permuted⟩
      have behind : ∀ entry ∈ entries, ∀ value ∈ values,
          related entry.1 value →
            ∃ others,
              List.Forall₂ otherRelated entry.2 others ∧ more value others := by
        intro entry member value inside same
        have listed := permuted.mem_iff.mp (List.mem_map_of_mem member)
        have yields := back values holds value inside entry.1
          (listing.grows acyclic listed) (listing.supply_le listed) same
        rcases yields.orders entry.2 (backOrder entry member) with
          ⟨others, allowed, answers⟩
        exact ⟨others, answers, allowed⟩
      rw [List.forall₂_map_left_iff] at answers
      rcases exists_forall₂_of_forall₂ answers behind with
        ⟨lists, resultsAnswer, listsAllowed⟩
      rw [← List.forall₂_map_left_iff] at resultsAnswer
      rcases shuffled.exists_forall₂ resultsAnswer with ⟨others, merged, same⟩
      exact ⟨others, ⟨values, lists, holds, listsAllowed, merged⟩, same⟩

end Goal.Yields

end Yields

end RelationalSearch
