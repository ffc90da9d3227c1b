import RelationalSearch.Proofs.Relation.Refusal
import RelationalSearch.Proofs.Subst.Variant

/-!
# Equations in another order

A conjunction of equations is solved one equation after the other, each in the
state that is left by those before it (`Subst.unifyAll`).  In another order, or
with some of the equations turned round, other variables are bound, to other
terms, and an equation that cannot be solved may be met sooner or later.

What is found at the end is satisfied by the valuations that satisfy the first
state and solve all the equations, and nothing is found if there are none.  That
does not depend on the order, or on the sides of the equations.  So the results
differ at most in the names of the variables (`Goal.equations_rearranged`).
-/

namespace RelationalSearch

/--
The other equations are the given ones in some order, and some of them are
turned round.
-/
def Rearranged (equations others : List (Term × Term)) : Prop :=
  ∃ ordered : List (Term × Term),
    ordered.Perm equations ∧
      List.Forall₂ (fun equation other => other = equation ∨ other = equation.swap)
        ordered others

namespace Subst

variable {subst later first second : Subst} {valuation : Var → Term}
  {equations others : List (Term × Term)}

theorem solves_iff_of_perm (permutation : equations.Perm others) :
    Solves valuation equations ↔ Solves valuation others :=
  forall_congr' fun _ => imp_congr_left permutation.mem_iff

/-- The sides of an equation do not matter. -/
theorem solves_iff_of_turned
    (turned :
      List.Forall₂ (fun equation other => other = equation ∨ other = equation.swap)
        equations others) :
    Solves valuation equations ↔ Solves valuation others := by
  induction turned with
  | nil => rfl
  | @cons equation other _ _ same _ tailIH =>
    rcases equation with ⟨left, right⟩
    rcases same with rfl | rfl
    · rw [solves_cons, solves_cons, tailIH]
    · rw [Prod.swap_prod_mk, solves_cons, solves_cons, tailIH, eq_comm]

theorem solves_iff_of_rearranged (rearranged : Rearranged equations others) :
    Solves valuation equations ↔ Solves valuation others := by
  rcases rearranged with ⟨ordered, permutation, turned⟩
  rw [← solves_iff_of_perm permutation, solves_iff_of_turned turned]

/-! ## Lists of equations -/

/-- The equations are solved in order, each in what the last one has left. -/
def unifyAll (subst : Subst) : List (Term × Term) → Option Subst
  | [] => some subst
  | (left, right) :: equations =>
    (subst.unify left right).bind fun later => later.unifyAll equations

/-- What is found extends the state, and all that solves the equations fits it. -/
theorem unifyAll_eq_some
    (acyclic : subst.Acyclic)
    (solved : subst.unifyAll equations = some later) :
    subst.Grows later ∧
      ∀ valuation, Satisfies valuation later ↔
        Satisfies valuation subst ∧ Solves valuation equations := by
  induction equations generalizing subst with
  | nil =>
    cases solved
    exact ⟨.refl acyclic, fun valuation => by simp⟩
  | cons equation equations tailIH =>
    rcases equation with ⟨left, right⟩
    rcases Option.bind_eq_some_iff.mp solved with ⟨middle, unified, rest⟩
    have front := mostGeneral_of_unify acyclic unified
    rcases tailIH front.grows.acyclic rest with ⟨grows, satisfies_iff⟩
    refine ⟨front.grows.trans grows, fun valuation => ?_⟩
    rw [satisfies_iff, front.satisfies_iff, solves_cons, and_assoc]

/-- Nothing is found only if no valuation solves the equations. -/
theorem unifyAll_eq_none_iff (acyclic : subst.Acyclic) :
    subst.unifyAll equations = none ↔
      ¬ ∃ valuation, Satisfies valuation subst ∧ Solves valuation equations := by
  induction equations generalizing subst with
  | nil =>
    refine iff_of_false nofun (not_not.mpr ⟨_, satisfies_reify acyclic, ?_⟩)
    exact solves_nil
  | cons equation equations tailIH =>
    rcases equation with ⟨left, right⟩
    rw [unifyAll]
    cases unified : subst.unify left right with
    | none =>
      refine iff_of_true rfl ?_
      rintro ⟨valuation, satisfied, solved⟩
      exact (unify_eq_none_iff acyclic).mp unified
        ⟨valuation, satisfied, (solves_cons.mp solved).1⟩
    | some middle =>
      have front := mostGeneral_of_unify acyclic unified
      rw [Option.bind_some, tailIH front.grows.acyclic]
      simp only [front.satisfies_iff, solves_cons, and_assoc]

section Alike

variable (acyclic : subst.Acyclic)
  (alike :
    ∀ valuation, Solves valuation equations ↔ Solves valuation others)

include acyclic alike

/-- Equations with the same solutions are all solved, or none of them is. -/
theorem isSome_unifyAll_eq :
    (subst.unifyAll equations).isSome = (subst.unifyAll others).isSome := by
  rw [Bool.eq_iff_iff, Option.isSome_iff_ne_none, Option.isSome_iff_ne_none, Ne,
    Ne, unifyAll_eq_none_iff acyclic, unifyAll_eq_none_iff acyclic]
  simp only [alike]

theorem equivalent_of_unifyAll
    (one : subst.unifyAll equations = some first)
    (other : subst.unifyAll others = some second) :
    first.Equivalent second := by
  intro valuation
  rw [(unifyAll_eq_some acyclic one).2, (unifyAll_eq_some acyclic other).2, alike]

end Alike

end Subst

namespace Goal

variable {Code : Type} {subst : Subst} {found : Option Subst}
  {equations others : List (Term × Term)}

/-- The equation as a goal. -/
def equation (sides : Term × Term) : Goal Code :=
  eq sides.1 sides.2

theorem atOnce_succeed : (succeed : Goal Code).AtOnce subst (some subst) :=
  fun session => ⟨session, rfl, rfl⟩

/-- Equations after a goal are solved in what the goal has left. -/
theorem AtOnce.foldl_both
    {goal : Goal Code}
    (front : goal.AtOnce subst found)
    (equations : List (Term × Term)) :
    ((equations.map equation).foldl Goal.both goal).AtOnce subst
      (found.bind fun later => later.unifyAll equations) := by
  induction equations generalizing goal found with
  | nil => simpa [Subst.unifyAll] using front
  | cons sides equations tailIH =>
    have next := front.both (fun later => later.unify sides.1 sides.2)
      fun later _ => atOnce_eq sides.1 sides.2
    have rest := tailIH next
    rwa [Option.bind_assoc] at rest

theorem atOnce_equations (equations : List (Term × Term)) :
    (all (equations.map equation) : Goal Code).AtOnce subst
      (subst.unifyAll equations) := by
  cases equations with
  | nil => exact atOnce_succeed
  | cons sides equations =>
    exact AtOnce.foldl_both (atOnce_eq sides.1 sides.2) equations

/--
A conjunction of equations has a result in every order of the equations, and
with any of them turned round, or in none; and the results differ in the names
of the variables only, by one renaming for all terms.
-/
theorem equations_rearranged
    (acyclic : subst.Acyclic)
    (rearranged : Rearranged equations others) :
    ∃ before after : Option Subst,
      (all (equations.map equation) : Goal Code).AtOnce subst before ∧
        (all (others.map equation) : Goal Code).AtOnce subst after ∧
        before.isSome = after.isSome ∧
        ∀ first ∈ before, ∀ second ∈ after,
          ∃ rename : Equiv.Perm Var, ∀ term,
            second.reify term = (first.reify term).renamed rename := by
  have alike (valuation : Var → Term) :
      Subst.Solves valuation equations ↔ Subst.Solves valuation others :=
    Subst.solves_iff_of_rearranged rearranged
  refine ⟨_, _, atOnce_equations equations, atOnce_equations others,
    Subst.isSome_unifyAll_eq acyclic alike, fun first one second other => ?_⟩
  exact (Subst.equivalent_of_unifyAll acyclic alike one other).exists_renaming
    (Subst.unifyAll_eq_some acyclic one).1.acyclic
    (Subst.unifyAll_eq_some acyclic other).1.acyclic

/-- Two variables are made equal and one of them is made known. -/
theorem equations_rearranged_chain :
    let equations : List (Term × Term) :=
      [(.var ⟨0⟩, .var ⟨1⟩), (.var ⟨1⟩, .cons (.var ⟨2⟩) (.nil .list))]
    let others : List (Term × Term) :=
      [(.cons (.var ⟨2⟩) (.nil .list), .var ⟨1⟩), (.var ⟨0⟩, .var ⟨1⟩)]
    ∃ first second : Subst,
      (all (equations.map equation) : Goal Empty).AtOnce ∅ (some first) ∧
        (all (others.map equation) : Goal Empty).AtOnce ∅ (some second) ∧
        ∃ rename : Equiv.Perm Var, ∀ term,
          second.reify term = (first.reify term).renamed rename := by
  intro equations others
  have rearranged : Rearranged equations others :=
    ⟨_, .swap _ _ [], .cons (.inr rfl) (.cons (.inl rfl) .nil)⟩
  have acyclic := Subst.acyclic_empty
  rcases @equations_rearranged Empty ∅ _ _ acyclic rearranged with
    ⟨before, after, front, back, both, renames⟩
  have solvable :
      ∃ valuation, Subst.Satisfies valuation ∅ ∧
        Subst.Solves valuation equations :=
    ⟨fun x => if x = ⟨2⟩ then .int 1 else .cons (.int 1) (.nil .list), nofun, by
      simp [equations]⟩
  have found : before.isSome = true := by
    rw [front.unique (atOnce_equations equations), Option.isSome_iff_ne_none]
    exact fun nothing =>
      (Subst.unifyAll_eq_none_iff acyclic).mp nothing solvable
  rcases Option.isSome_iff_exists.mp found with ⟨first, rfl⟩
  rcases Option.isSome_iff_exists.mp (both.symm.trans found) with ⟨second, rfl⟩
  exact ⟨first, second, front, back, renames first rfl second rfl⟩

end Goal

end RelationalSearch
