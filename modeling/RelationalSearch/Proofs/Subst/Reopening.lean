import RelationalSearch.Proofs.Subst.Agreement
import RelationalSearch.Proofs.Subst.Footprint

/-!
# Cells that are opened again

A cell may be taken apart for a second time.  Where its parts have names
already, unifying them with the cell binds nothing (`unify_eq_self`).  Where
other names are given to them, these are bound to what the parts stand for, and
nothing else comes to stand for another term (`exists_parted`).
-/

namespace RelationalSearch

namespace Subst

variable {subst : Subst}

/-! ## New names for the parts of a cell -/

/-- A binding does not show where its variable does not. -/
theorem reify_bind_eq_self
    {x : Var}
    {value term : Term}
    (acyclic : subst.Acyclic)
    (unbound : subst.lookup x = none)
    (apart : ¬ subst.Reaches value x)
    (hidden : x ∉ (subst.reify term).vars) :
    (subst.bind x value).reify term = subst.reify term := by
  rw [reify_bind acyclic unbound apart]
  refine (Term.under_congr fun z member => ?_).trans (Term.under_var_eq_self _)
  rw [single, if_neg]
  rintro rfl
  exact hidden member

/-- A new name is bound to what it is unified with. -/
theorem exists_named
    {x : Var}
    {term : Term}
    (acyclic : subst.Acyclic)
    (unbound : subst.lookup x = none)
    (hidden : x ∉ (subst.reify term).vars) :
    ∃ value,
      subst.unify (.var x) term = some (subst.bind x value) ∧
        ¬ subst.Reaches value x ∧
        subst.reify value = subst.reify term := by
  rcases follow_eq_some_walk acyclic term with ⟨_, ends⟩
  have shown := reify_of_ends acyclic ends
  generalize subst.walk term = value at ends shown
  have apart : ¬ subst.Reaches value x := by
    rwa [reaches_iff_mem_vars_reify acyclic unbound, ← shown]
  refine ⟨value, ?_, apart, shown.symm⟩
  refine unify_eq_bind acyclic (ends_of_lookup_eq_none unbound) ends ?_ apart
  have other : value.asVar? ≠ some x := by
    intro same
    rw [Term.eq_var_of_asVar?_eq_some same] at shown
    rw [reify_var_eq_self acyclic unbound] at shown
    simp [shown] at hidden
  rw [meet, if_neg other]

/-- Two variables name the parts of a cell, and nothing else has changed. -/
structure Parted
    (subst parted : Subst)
    (x y : Var)
    (head tail : Term) : Prop where
  grows : subst.Grows parted
  head_eq : parted.reify (.var x) = head
  tail_eq : parted.reify (.var y) = tail
  lookup_eq : ∀ z, z ≠ x → z ≠ y → parted.lookup z = subst.lookup z

theorem Parted.reify_eq
    {parted : Subst}
    {x y : Var}
    {head tail term : Term}
    (acyclic : subst.Acyclic)
    (parts : subst.Parted parted x y head tail)
    (xHidden : x ∉ (subst.reify term).vars)
    (yHidden : y ∉ (subst.reify term).vars) :
    parted.reify term = subst.reify term := by
  rw [parts.grows.reify_eq_under acyclic]
  refine (Term.under_congr fun z member => ?_).trans (Term.under_var_eq_self _)
  have unbound := (reified_reify acyclic term).lookup_eq_none z member
  refine reify_var_eq_self parts.grows.acyclic ?_
  rwa [parts.lookup_eq z (by rintro rfl; exact xHidden member)
    (by rintro rfl; exact yHidden member)]

/-- Unbound variables come to name the parts of a known cell. -/
theorem exists_parted
    {x y : Var}
    {whole head tail : Term}
    (acyclic : subst.Acyclic)
    (xUnbound : subst.lookup x = none)
    (yUnbound : subst.lookup y = none)
    (different : x ≠ y)
    (shown : subst.reify whole = .cons head tail)
    (xHidden : x ∉ (subst.reify whole).vars)
    (yHidden : y ∉ (subst.reify whole).vars) :
    ∃ parted,
      subst.unify (.cons (.var x) (.var y)) whole = some parted ∧
        subst.Parted parted x y head tail := by
  rcases exists_ends_of_isCons_reify acyclic (by rw [shown]; rfl) with
    ⟨wholeHead, wholeTail, ends⟩
  rw [reify_of_ends acyclic ends, reify_cons acyclic] at shown xHidden yHidden
  cases shown
  rw [Term.vars_cons, List.mem_append, not_or] at xHidden yHidden
  rcases exists_named acyclic xUnbound xHidden.1 with
    ⟨headValue, headNamed, headApart, headShown⟩
  have headAcyclic := acyclic.bind headApart
  have unboundStill : (subst.bind x headValue).lookup y = none := by
    rw [lookup_bind_of_ne _ _ different, yUnbound]
  have tailSame := reify_bind_eq_self acyclic xUnbound headApart xHidden.2
  rcases exists_named headAcyclic unboundStill (tailSame ▸ yHidden.2) with
    ⟨tailValue, tailNamed, tailApart, tailShown⟩
  have success : subst.unify (.cons (.var x) (.var y)) whole =
      some ((subst.bind x headValue).bind y tailValue) := by
    rw [unify_cons_of_ends acyclic ends, headNamed]
    exact tailNamed
  have headEq : (subst.bind x headValue).reify (.var x) =
      subst.reify wholeHead := by
    rw [reify_bind acyclic xUnbound headApart,
      reify_var_eq_self acyclic xUnbound]
    simp [single, headShown]
  refine ⟨_, success, acyclic.grows_of_unify success, ?_, ?_, ?_⟩
  · rw [reify_bind_eq_self headAcyclic unboundStill tailApart
      (headEq ▸ yHidden.1), headEq]
  · rw [reify_bind headAcyclic unboundStill tailApart,
      reify_var_eq_self headAcyclic unboundStill]
    simp [single, tailShown, tailSame]
  · intro z notX notY
    rw [lookup_bind_of_ne _ _ (Ne.symm notY),
      lookup_bind_of_ne _ _ (Ne.symm notX)]

end Subst

end RelationalSearch
