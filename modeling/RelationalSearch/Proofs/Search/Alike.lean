import RelationalSearch.Proofs.Relation.Call
import RelationalSearch.Proofs.Search.Generic
import RelationalSearch.Proofs.Subst.Scope

/-!
# Recipes that are alike

Two recipes are alike if they mint as many variables, and what they make is
related once these variables are paired (`Recipe.Alike`).  Alikeness is put
together step by step, as recipes are: from minting, from recipes one after
another, and from the value in the end.  A goal that is built by alike recipes
is alike.

What holds variables below a supply only is like itself under the pairing of
these variables.
-/

namespace RelationalSearch

/-! ## Pairs of variables -/

namespace Pairing

variable {pairing : Pairing} {supply other : Nat}

theorem growth_refl
    (oneToOne : pairing.OneToOne)
    (within : pairing.Within supply other) :
    pairing.Growth pairing supply other :=
  ⟨fun _ _ paired => paired, oneToOne, within⟩

/-- Variables that are minted behind others are paired behind them. -/
theorem extend_extend (first second : Nat) :
    (pairing.extend supply other first).extend (supply + first)
        (other + first) second =
      pairing.extend supply other (first + second) := by
  funext x y
  apply propext
  constructor
  · rintro ((paired | ⟨index, less, xId, yId⟩) | ⟨index, less, xId, yId⟩)
    · exact .inl paired
    · exact .inr ⟨index, by omega, xId, yId⟩
    · exact .inr ⟨first + index, by omega, by omega, by omega⟩
  · rintro (paired | ⟨index, less, xId, yId⟩)
    · exact .inl (.inl paired)
    · by_cases early : index < first
      · exact .inl (.inr ⟨index, early, xId, yId⟩)
      · exact .inr ⟨index - first, by omega, by omega, by omega⟩

end Pairing

/-! ## Recipes -/

/--
The recipes mint as many variables, and what they make is related when these
are paired.
-/
def Recipe.Alike
    {α β : Type}
    (related : Pairing → α → β → Prop)
    (pairing : Pairing)
    (recipe : Recipe α)
    (other : Recipe β) : Prop :=
  ∀ ⦃larger : Pairing⦄ ⦃supply otherSupply : Nat⦄,
    pairing.Growth larger supply otherSupply →
      (recipe.made supply).2 - supply =
          (other.made otherSupply).2 - otherSupply ∧
        related
          (larger.extend supply otherSupply ((recipe.made supply).2 - supply))
          (recipe.made supply).1 (other.made otherSupply).1

namespace Recipe

variable {α β γ δ : Type} {pairing : Pairing}

theorem alike_done
    {related : Pairing → α → β → Prop}
    {value : α}
    {other : β}
    (relates :
      ∀ larger : Pairing, (∀ x y, pairing x y → larger x y) →
        related larger value other) :
    Alike related pairing (.done value) (.done other) := by
  intro larger supply otherSupply growth
  refine ⟨by simp [made], relates _ ?_⟩
  exact fun x y paired => .inl (growth.included x y paired)

/-- What comes behind alike recipes has to be alike for what they make. -/
theorem Alike.andThen
    {first : Pairing → α → β → Prop}
    {second : Pairing → γ → δ → Prop}
    {recipe : Recipe α}
    {other : Recipe β}
    {next : α → Recipe γ}
    {otherNext : β → Recipe δ}
    (front : Alike first pairing recipe other)
    (back :
      ∀ (larger : Pairing) (value : α) (otherValue : β),
        (∀ x y, pairing x y → larger x y) → first larger value otherValue →
          Alike second larger (next value) (otherNext otherValue)) :
    Alike second pairing (recipe.andThen next) (other.andThen otherNext) := by
  intro larger supply otherSupply growth
  rcases front growth with ⟨sameCount, made⟩
  have minted := recipe.le_made supply
  have otherMinted := other.le_made otherSupply
  generalize counted : (recipe.made supply).2 - supply = count
    at sameCount made
  have reached : (recipe.made supply).2 = supply + count := by omega
  have otherReached : (other.made otherSupply).2 = otherSupply + count := by
    omega
  have grown : ∀ x y, pairing x y →
      larger.extend supply otherSupply count x y :=
    fun x y paired => .inl (growth.included x y paired)
  have later := back _ _ _ grown made (Pairing.growth_refl
    (growth.oneToOne.extend growth.within count)
    (growth.within.extend count))
  rcases later with ⟨sameLater, madeLater⟩
  rw [made_andThen, made_andThen, reached, otherReached]
  rw [Pairing.extend_extend] at madeLater
  have mintedLater := (next (recipe.made supply).1).le_made (supply + count)
  have otherMintedLater :=
    (otherNext (other.made otherSupply).1).le_made (otherSupply + count)
  have total :
      count + (((next (recipe.made supply).1).made (supply + count)).2 -
        (supply + count)) =
      ((next (recipe.made supply).1).made (supply + count)).2 - supply := by
    omega
  rw [total] at madeLater
  exact ⟨by omega, madeLater⟩

/-- Fresh variables are paired. -/
theorem alike_freshTerm (name otherName : String) :
    Alike Term.Alike pairing (freshTerm name) (freshTerm otherName) := by
  intro larger supply otherSupply growth
  exact ⟨by simp [freshTerm, made],
    .var (.inr ⟨0, by simp [freshTerm, made], rfl, rfl⟩)⟩

end Recipe

/-! ## Goals that are built -/

section Built

variable {Code : Type} {codes : Pairing → Code → Code → Prop}
  {pairing : Pairing}

theorem Goal.alike_dynamic
    {builder otherBuilder : Subst → Recipe (Goal Code)}
    (recipes :
      ∀ (larger : Pairing) (subst other : Subst),
        (∀ x y, pairing x y → larger x y) → subst.Alike larger other →
          Recipe.Alike (Goal.Alike codes) larger (builder subst)
            (otherBuilder other)) :
    Goal.Alike codes pairing (.dynamic builder) (.dynamic otherBuilder) := by
  refine .dynamic ?_ ?_
  · intro larger supply otherSupply subst other growth substs
    exact (recipes larger subst other growth.included substs
      (Pairing.growth_refl growth.oneToOne growth.within)).1
  · intro larger supply otherSupply subst other growth substs
    exact (recipes larger subst other growth.included substs
      (Pairing.growth_refl growth.oneToOne growth.within)).2

theorem Subst.alike_empty : (∅ : Subst).Alike pairing ∅ where
  lookup {x y} _ := by
    rw [lookup_empty, lookup_empty]
    exact .none
  left_covered _ := lookup_empty _
  right_covered _ := lookup_empty _
  size_eq := rfl

/-- Alike goals are built by alike recipes. -/
theorem Goal.Alike.recipes
    {recipe other : Recipe (Goal Code)}
    (goals :
      Goal.Alike codes pairing (.dynamic fun _ => recipe)
        (.dynamic fun _ => other)) :
    Recipe.Alike (Goal.Alike codes) pairing recipe other := by
  intro larger supply otherSupply growth
  cases goals with
  | dynamic counts parts =>
    exact ⟨counts growth Subst.alike_empty, parts growth Subst.alike_empty⟩

end Built

/-! ## What holds variables below a supply only -/

section UpTo

variable {supply : Nat}

theorem Pairing.upTo_mono
    {more : Nat}
    (ordered : supply ≤ more)
    {x y : Var}
    (paired : Pairing.upTo supply x y) :
    Pairing.upTo more x y :=
  ⟨paired.1, Nat.lt_of_lt_of_le paired.2 ordered⟩

theorem Term.alike_upTo
    {term : Term}
    (low : term.ceiling ≤ supply) :
    Term.Alike (.upTo supply) term term := by
  induction term with
  | var x => exact .var ⟨rfl, low⟩
  | int value => exact .int value
  | sym name => exact .sym name
  | cons head tail headIH tailIH =>
    rw [Term.ceiling, Nat.max_le] at low
    exact .cons (headIH low.1) (tailIH low.2)
  | nil kind => exact .nil kind

theorem Subst.Within.alike_upTo
    {subst : Subst}
    (within : subst.Within supply) :
    subst.Alike (.upTo supply) subst := by
  have covered {x : Var} (free : ¬ Pairing.upTo supply x x) :
      subst.lookup x = none :=
    within.lookup_eq_none (Nat.le_of_not_lt fun below => free ⟨rfl, below⟩)
  constructor
  · rintro x y ⟨rfl, _⟩
    cases bound : subst.lookup x with
    | none => exact .none
    | some term => exact .some (Term.alike_upTo (within.ceiling_le bound))
  · intro x free
    exact covered (free x)
  · intro x free
    exact covered (free x)
  · rfl

/-- What a recipe makes below a supply is like itself. -/
theorem Recipe.Alike.upTo
    {Code : Type}
    {goalOf : Code → Recipe (Goal Code)}
    {codes : Pairing → Code → Code → Prop}
    (generic : GenericCodes goalOf codes)
    {recipe : Recipe (Goal Code)}
    {start : Nat}
    (recipes : Recipe.Alike (Goal.Alike codes) (.upTo start) recipe recipe)
    (enough : (recipe.made start).2 ≤ supply) :
    Goal.Alike codes (.upTo supply) (recipe.made start).1
      (recipe.made start).1 := by
  have made := (recipes (Pairing.growth_refl (Pairing.oneToOne_upTo start)
    (Pairing.within_upTo start))).2
  refine made.mono generic ?_
  have minted := recipe.le_made start
  rintro x y (paired | ⟨index, less, xId, yId⟩)
  · exact Pairing.upTo_mono (Nat.le_trans minted enough) paired
  · refine ⟨?_, by omega⟩
    cases x
    cases y
    simp_all

end UpTo

end RelationalSearch
