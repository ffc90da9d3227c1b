import RelationalSearch.Proofs.Search.Derivation
import RelationalSearch.Proofs.Search.Outcome
import RelationalSearch.Proofs.Subst.Growth

/-!
# Persistence of bindings

A search makes substitutions only by unification, wherever in a stream they
wait.  The results of all branches therefore extend the substitution that the
search starts from: along a derivation the substitution grows, and nothing is
delivered that is not derived.
-/

namespace RelationalSearch

variable {Code : Type} {goalOf : Code → Recipe (Goal Code)}

/-- The substitution grows along a derivation. -/
theorem Derivation.grows
    {gaps : Gaps}
    {goal : Goal Code}
    {start finish : Located Subst}
    (derivation : Derivation goalOf gaps goal start finish)
    (acyclic : start.value.Acyclic) :
    start.value.Grows finish.value := by
  induction derivation with
  | eq unified => exact acyclic.grows_of_unify unified
  | succeed => exact .refl acyclic
  | both _ _ frontIH backIH =>
    have front := frontIH acyclic
    exact front.trans (backIH front.acyclic)
  | left _ ih | right _ ih | orderedLeft _ ih | orderedRight _ ih
  | defer _ ih | dynamic _ ih => exact ih acyclic

/--
Each result of a search, also of one without end, has the bindings of the
substitution that the search started from.  Its bindings are acyclic, and each
term stands for an instance of what it stood for before.
-/
theorem Goal.delivers_only_growth
    {goal : Goal Code}
    {subst found : Subst}
    {session : Session}
    {index : Nat}
    (acyclic : subst.Acyclic)
    (delivers : goal.Delivers goalOf subst session index found) :
    (∀ x term, subst.lookup x = some term → found.lookup x = some term) ∧
      found.Acyclic ∧
      ∀ term, ∃ valuation : Var → Term,
        found.reify term = (subst.reify term).under valuation := by
  rcases Gaps.exists_fit goalOf goal subst session with ⟨gaps, fit⟩
  rcases fit.delivers_iff.mp delivers with ⟨finish, ⟨time, taken⟩, rfl⟩
  rcases Goal.nonempty_derivation_of_mem_delivered
    (List.mem_of_getElem? taken) with ⟨derivation⟩
  have grows : subst.Grows finish.value := derivation.grows acyclic
  exact ⟨fun _ _ bound => grows.kept bound, grows.acyclic,
    fun term => ⟨_, grows.reify_eq_under acyclic term⟩⟩

/--
The first result of a search that goes on without end, from a substitution in
which the variable that it asks for stands for another one.
-/
theorem Goal.delivers_only_growth_endless :
    ((∅ : Subst).bind ⟨0⟩ (.var ⟨1⟩)).Acyclic ∧
      ∃ found,
        Goal.Delivers (fun _ => .done (.defer ()))
            (.either (.eq (.var ⟨0⟩) (.int 7)) (.defer ()))
            ((∅ : Subst).bind ⟨0⟩ (.var ⟨1⟩)) ⟨#["p", "q"], #[]⟩ 0 found ∧
          found.lookup ⟨0⟩ = some (.var ⟨1⟩) := by
  let subst := (∅ : Subst).bind ⟨0⟩ (.var ⟨1⟩)
  have apart : ¬ (∅ : Subst).Reaches (.var ⟨1⟩) ⟨0⟩ := by
    rw [Subst.reaches_var_iff (Subst.lookup_empty _)]
    decide
  have acyclic : subst.Acyclic := Subst.acyclic_empty.bind apart
  have unifies : (subst.unify (.var ⟨0⟩) (.int 7)).isSome = true := by
    decide +kernel
  rcases Option.isSome_iff_exists.mp unifies with ⟨found, success⟩
  have applied :
      (Goal.either (.eq (.var ⟨0⟩) (.int 7)) (.defer ())).apply subst =
        pure (.ready found (.suspended (.deferred () subst))) := by
    simp only [Goal.apply, success]
    rfl
  have delivers :
      Goal.Delivers (fun _ => .done (.defer ()))
        (.either (.eq (.var ⟨0⟩) (.int 7)) (.defer ())) subst
        ⟨#["p", "q"], #[]⟩ 0 found := by
    rw [Goal.Delivers, applied]
    exact .first (Stream.pull_zero_ready _ _ _)
  exact ⟨acyclic, found, delivers,
    (Goal.delivers_only_growth acyclic delivers).1 _ _
      (Subst.lookup_bind_self _ _ _)⟩

end RelationalSearch
