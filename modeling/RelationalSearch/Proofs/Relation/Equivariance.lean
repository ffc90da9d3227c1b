import RelationalSearch.Proofs.Relation.Impartial
import RelationalSearch.Proofs.Script.Closed
import RelationalSearch.Proofs.Search.Abreast
import RelationalSearch.Proofs.Subst.Permutation

/-!
# Answers and the numbers of variables

A goal of an impartial program is built and searched in two sessions, which may
have minted any numbers of variables before, and its declared variables may be
renamed for the second one.  The answers are the same in the same order, up to a
permutation of the variables for each of them that takes declared variables to
their new names (`Program.Impartial.answers_renamed`).

No variable that is minted on the way coincides with one that is in use, be it
in a live state or among the variables that the goal and the query may mention
(`Recipe.MintsApart`).
-/

namespace RelationalSearch

/-- The one term becomes the other one by a permutation of the variables. -/
def Term.Renames
    (declared : Set Var)
    (rename : Var → Var)
    (term other : Term) : Prop :=
  ∃ permutation : Equiv.Perm Var,
    (∀ x ∈ declared, permutation x = rename x) ∧
      other = term.renamed permutation

/-! ## Variables minted on the way -/

section Recipe

variable {Code : Type} (goalOf : Code → Recipe (Goal Code))
  (recipe : Recipe (Goal Code)) (session : Session)

/--
From any moment of the search on, the session mints only variables that are not
known to the caller, not among those minted for the goal when it was built, and
in no state that is live at the moment.
-/
def Recipe.MintsApart (known : Set Var) : Prop :=
  ∀ time x,
    (recipe.momentAt goalOf ∅ session time).2.supply ≤ x.id →
      x ∉ known ∧
        (recipe.run.run session).2.supply ≤ x.id ∧
        ∀ state ∈ (recipe.momentAt goalOf ∅ session time).1.live,
          ¬ state.Mentions x

end Recipe

/-! ## Searches from the start -/

/-- Without bindings, tied variables have to be roots. -/
theorem Subst.agree_empty
    {ties : Ties}
    (oneToOne : ties.roots.OneToOne)
    (full : ∀ x y, ties.all x y → ties.roots x y) :
    (∅ : Subst).Agree ties ∅ where
  acyclic := acyclic_empty
  otherAcyclic := acyclic_empty
  oneToOne := oneToOne
  unbound_iff _ := by simp
  reify_var {x y} tied :=
    shown_of_unbound acyclic_empty acyclic_empty (full x y tied) (by simp)
      (by simp)

section Start

variable {Code : Type} {goalOf : Code → Recipe (Goal Code)}
  {codes : Ties → Code → Code → Prop} {ties : Ties}
  {recipe other : Recipe (Goal Code)} {session otherSession : Session}

/-- What is built of tied recipes has searches that match. -/
theorem Recipe.Tied.exists_matches
    (tiedCodes : TiedCodes goalOf codes)
    (recipes : Recipe.Tied (Goal.Tied codes) ties recipe other)
    (proper : ties.Proper session.supply otherSession.supply)
    (full : ∀ x y, ties.all x y → ties.roots x y) :
    ∃ larger : Ties,
      ties.Extends larger ∧
        Recipe.Matches goalOf
          (Located.Follow larger (.root ∅ (recipe.run.run session).2)
            (.root ∅ (other.run.run otherSession).2))
          recipe other ∅ ∅ session otherSession := by
  rcases recipe.run_eq_made session with ⟨made, supply⟩
  rcases other.run_eq_made otherSession with ⟨otherMade, otherSupply⟩
  rcases recipes proper.growth with ⟨sameCount, goals⟩
  have minted := recipe.le_made session.supply
  have otherMinted := other.le_made otherSession.supply
  generalize counted : (recipe.made session.supply).2 - session.supply = count
    at sameCount goals
  have grown := proper.extend count
  have reached :
      session.supply + count = (recipe.run.run session).2.supply := by
    omega
  have otherReached : otherSession.supply + count =
      (other.run.run otherSession).2.supply := by
    omega
  rw [reached, otherReached] at grown
  refine ⟨_, ties.extends_extend session.supply otherSession.supply count, ?_⟩
  rw [Recipe.Matches, made, otherMade]
  intro gaps otherGaps depth
  refine goals.explore tiedCodes gaps otherGaps depth ⟨?_, grown, ?_, ?_⟩
  · exact Subst.agree_empty grown.oneToOne fun x y => Or.imp_left (full x y)
  · exact Subst.within_empty _
  · exact Subst.within_empty _

/-- A caller gets what the results of the search stand for. -/
theorem Recipe.run_answers
    (effort count : Nat)
    (query : Term) :
    ((do
      let goal ← recipe.run
      goal.answers goalOf effort count query).run session).1 =
      ((recipe.results goalOf ∅ effort count).run session).1.map
        fun subst => subst.reify query :=
  rfl

/-- What is minted is new, if all that is live has been minted before. -/
theorem Recipe.mintsApart_of_within
    {known : Set Var}
    (below : ∀ x ∈ known, x.id < session.supply)
    (within :
      ∀ time,
        ∀ state ∈ (recipe.momentAt goalOf ∅ session time).1.live,
          state.Within (recipe.momentAt goalOf ∅ session time).2.supply) :
    recipe.MintsApart goalOf session known := by
  intro time x above
  have built := Search.keeps_recipe recipe session
  have applied := (recipe.run.run session).1.keeps_apply ∅
    (recipe.run.run session).2
  have searched : _ ≤ (recipe.momentAt goalOf ∅ session time).2.supply :=
    (keptBy_searchEngine goalOf).supply_le_iterate _ time
  refine ⟨?_, by omega, ?_⟩
  · intro member
    have := below x member
    omega
  · exact fun state member => (within time state member).not_mentions above

end Start

namespace Program.Impartial

variable {Base Custom : Type} {program : Program Base Custom}
  {naming : Naming Base Custom}

/--
The answers to a goal do not depend on the numbers of variables.  It may be
built and searched in any two sessions, and its declared variables renamed in
any way that keeps them apart: answer for answer, what is found is the same up
to a permutation of variables, after as many steps.
-/
theorem answers_renamed
    (impartial : program.Impartial naming)
    {declared : Set Var}
    {rename : Var → Var}
    (injective : Set.InjOn rename declared)
    {recipe other : Recipe (CodedGoal Base Custom)}
    (recipes :
      Recipe.Tied (CodedGoal.Tied naming) (.renamed declared rename) recipe
        other)
    {query : Term}
    (closed : ∀ x ∈ query.vars, x ∈ declared)
    {session otherSession : Session}
    (below : ∀ x ∈ declared, x.id < session.supply)
    (otherBelow : ∀ x ∈ declared, (rename x).id < otherSession.supply) :
    (∀ effort count,
        List.Forall₂ (Term.Renames declared rename)
          ((do
            let goal ← recipe.run
            goal.answers program.unfold effort count query).run session).1
          ((do
            let goal ← other.run
            goal.answers program.unfold effort count
              (query.renamed rename)).run otherSession).1) ∧
      (∀ time,
        (recipe.momentAt program.unfold ∅ session time).1.shape =
          (other.momentAt program.unfold ∅ otherSession time).1.shape) ∧
      recipe.MintsApart program.unfold session declared ∧
      other.MintsApart program.unfold otherSession (rename '' declared) := by
  have proper := Ties.proper_renamed injective below otherBelow
  rcases recipes.exists_matches impartial.tiedCodes proper
      (fun _ _ root => root) with
    ⟨larger, widens, matching⟩
  have live := Goal.Matches.live_within matching
  refine ⟨?_, matching.shape_eq, ?_, ?_⟩
  · intro effort count
    rw [Recipe.run_answers, Recipe.run_answers, List.forall₂_map_left_iff,
      List.forall₂_map_right_iff]
    refine (matching.forall₂_results effort count).imp ?_
    rintro _ _ ⟨result, otherResult, ⟨largest, later⟩, rfl, rfl⟩
    have renames (x y : Var) (tied : x ∈ declared ∧ rename x = y) :
        largest.roots x y :=
      later.widens.roots x y (widens.roots x y tied)
    have proper := later.tied.proper
    have queries : Term.Alike largest.all query (query.renamed rename) :=
      Term.alike_renamed fun x member =>
        proper.included x _ (renames x _ ⟨closed x member, rfl⟩)
    have within : largest.roots.Within _ _ := fun x y root =>
      proper.within x y (proper.included x y root)
    rcases proper.oneToOne.exists_perm within with ⟨permutation, extending⟩
    refine ⟨permutation, fun x member => ?_, ?_⟩
    · exact extending x _ (renames x _ ⟨member, rfl⟩)
    · exact Term.Alike.eq_renamed (later.tied.agree.reify queries) extending
  · exact Recipe.mintsApart_of_within below fun time => (live time).1
  · refine Recipe.mintsApart_of_within ?_ fun time => (live time).2
    rintro _ ⟨x, member, rfl⟩
    exact otherBelow x member

/--
Which tail of which sequence is asked with variables 0 and 1, and then with
variables 6 and 4 after others have been minted.
-/
theorem answers_renamed_tails :
    let script : GoalScript :=
      .reach (.named "tail") (.name "whole") (.name "rest")
    let rename : Var → Var := fun x => ⟨6 - 2 * x.id⟩
    let recipe := Definitions.tails.build
      [("whole", .var ⟨0⟩), ("rest", .var ⟨1⟩)] script
    let other := Definitions.tails.build
      [("whole", .var ⟨6⟩), ("rest", .var ⟨4⟩)] script
    let query := Term.cons (.var ⟨0⟩) (.var ⟨1⟩)
    let session : Session := ⟨#["whole", "rest"], #[]⟩
    let otherSession : Session :=
      ⟨#["a", "b", "c", "d", "rest", "e", "whole"], #["note"]⟩
    ∀ effort count,
      List.Forall₂ (Term.Renames {⟨0⟩, ⟨1⟩} rename)
        ((do
          let goal ← recipe.run
          goal.answers Definitions.tails.program.unfold effort count
            query).run session).1
        ((do
          let goal ← other.run
          goal.answers Definitions.tails.program.unfold effort count
            (query.renamed rename)).run otherSession).1 := by
  intro script rename recipe other query session otherSession
  have closed : script.Closed := .reach (.named _) (.name _) (.name _)
  have scopes : Scope.Tied (.renamed {⟨0⟩, ⟨1⟩} rename)
      [("whole", .var ⟨0⟩), ("rest", .var ⟨1⟩)]
      [("whole", .var ⟨6⟩), ("rest", .var ⟨4⟩)] :=
    .cons ⟨rfl, .var ⟨.inl rfl, rfl⟩⟩ (.cons ⟨rfl, .var ⟨.inr rfl, rfl⟩⟩ .nil)
  have injective : Set.InjOn rename {⟨0⟩, ⟨1⟩} := by
    rintro _ (rfl | rfl) _ (rfl | rfl) same
    · rfl
    · cases same
    · cases same
    · rfl
  refine (answers_renamed Definitions.closed_tails.impartial injective
    (Definitions.tied_goal Definitions.closed_tails _ closed scopes) ?_ ?_ ?_).1
  · simp [query]
  · simp [session, Session.supply]
  · simp [rename, otherSession, Session.supply]

end Program.Impartial

end RelationalSearch
