import Mathlib.Data.Finite.Prod
import Mathlib.Data.Set.Finite.Range
import Mathlib.Logic.Equiv.Fintype
import RelationalSearch.Proofs.Subst.Agreement
import RelationalSearch.Proofs.Search.Generic

/-!
# Pairs as permutations of variables

Only finitely many variables have been minted at any time, so any one-to-one
pairing of minted variables is part of a permutation of all variables
(`Pairing.OneToOne.exists_perm`).  Terms that are alike are then renamings of
each other in the ordinary sense.
-/

namespace RelationalSearch

/-- The term with other variables. -/
def Term.renamed (rename : Var → Var) (term : Term) : Term :=
  term.under fun x => .var (rename x)

theorem Term.renamed_id (term : Term) : term.renamed id = term :=
  term.under_var_eq_self

theorem Term.Alike.eq_renamed
    {pairing : Pairing}
    {term other : Term}
    (alike : Term.Alike pairing term other)
    {rename : Var → Var}
    (renames : ∀ x y, pairing x y → rename x = y) :
    other = term.renamed rename := by
  induction alike with
  | var paired => exact congrArg Term.var (renames _ _ paired).symm
  | cons _ _ headIH tailIH => exact congrArg₂ Term.cons headIH tailIH
  | int | sym | nil => rfl

/-- A term is like its renaming, if its variables are renamed as paired. -/
theorem Term.alike_renamed
    {pairing : Pairing}
    {term : Term}
    {rename : Var → Var}
    (renames : ∀ x ∈ term.vars, pairing x (rename x)) :
    Term.Alike pairing term (term.renamed rename) := by
  induction term with
  | var x => exact .var (renames x (by simp))
  | cons head tail headIH tailIH =>
    rw [vars_cons, List.forall_mem_append] at renames
    exact .cons (headIH renames.1) (tailIH renames.2)
  | int value => exact .int value
  | sym name => exact .sym name
  | nil kind => exact .nil kind

theorem finite_below (supply : Nat) : {x : Var | x.id < supply}.Finite := by
  have injective : Function.Injective Var.id := by
    rintro ⟨id⟩ ⟨otherId⟩ (rfl : id = otherId)
    rfl
  exact (Set.finite_lt_nat supply).preimage injective.injOn

/-- A one-to-one pairing of minted variables is part of a permutation. -/
theorem Pairing.OneToOne.exists_perm
    {pairing : Pairing}
    {supply other : Nat}
    (oneToOne : pairing.OneToOne)
    (within : pairing.Within supply other) :
    ∃ rename : Equiv.Perm Var, ∀ x y, pairing x y → rename x = y := by
  let Pair := { pair : Var × Var // pairing pair.1 pair.2 }
  have finite : Finite Pair := by
    refine Set.Finite.subset
      ((finite_below supply).prod (finite_below other)) ?_
    rintro ⟨x, y⟩ paired
    exact within x y paired
  have lefts : Function.Injective fun pair : Pair => pair.1.1 := by
    rintro ⟨⟨x, y⟩, paired⟩ ⟨⟨z, w⟩, pairedToo⟩ (rfl : x = z)
    cases oneToOne.right_unique paired pairedToo
    rfl
  have rights : Function.Injective fun pair : Pair => pair.1.2 := by
    rintro ⟨⟨x, y⟩, paired⟩ ⟨⟨z, w⟩, pairedToo⟩ (rfl : y = w)
    cases oneToOne.left_unique paired pairedToo
    rfl
  rcases Equiv.Perm.exists_extending_pair _ _ lefts rights with
    ⟨rename, renames⟩
  exact ⟨rename, fun x y paired => renames ⟨(x, y), paired⟩⟩

end RelationalSearch
