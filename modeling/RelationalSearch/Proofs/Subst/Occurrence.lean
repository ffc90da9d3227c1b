import Mathlib.Computability.StateTransition
import RelationalSearch.Proofs.Subst.Agreement
import RelationalSearch.Proofs.Subst.Extension

/-!
# The occurs check is exact

The loop of the occurs check has a list of terms to look at (`Subst.lookTurn` is one
turn of it).  It follows the bindings of a term before it compares, puts both parts
of a cell on the list, and passes over ground terms.  A binding may be followed many
times, and a term of the list may be larger than that which it came from, so what
makes the loop end is that the bindings do not run in a circle.

Where they do not, the loop ends with the answer of `Subst.occurs`, and this is
whether the variable occurs in the reified term (`Subst.occurs_exact`).  A bound
variable is no exception: it is not found, and reified terms do not hold it.
-/

namespace RelationalSearch

namespace Subst

variable {subst : Subst} {x : Var}

/-! ## Turns of the loop -/

/-- How far the search for a variable has come. -/
inductive Look where
  /-- These terms are to be looked at, the first one next. -/
  | pending (terms : List Term)
  | answered (found : Bool)
  deriving DecidableEq

/-- One turn of the loop of the occurs check, which ends when there is an answer. -/
def lookTurn (subst : Subst) (x : Var) : Look → Option Look
  | .answered _ => none
  | .pending [] => some (.answered false)
  | .pending (term :: terms) =>
    if term.isGround then
      some (.pending terms)
    else
      match subst.walk term with
      | .var y =>
        if y = x then some (.answered true) else some (.pending terms)
      | .cons head tail => some (.pending (tail :: head :: terms))
      | _ => some (.pending terms)

/-- A term that is not ground is looked at as what its bindings lead to. -/
theorem lookTurn_of_ends
    {term found : Term}
    (acyclic : subst.Acyclic)
    (notGround : term.isGround = false)
    (x : Var)
    (terms : List Term) :
    subst.Ends term found →
      subst.lookTurn x (.pending (term :: terms)) =
        match found with
        | .var y =>
          if y = x then some (.answered true) else some (.pending terms)
        | .cons head tail => some (.pending (tail :: head :: terms))
        | _ => some (.pending terms) := by
  intro ends
  rw [lookTurn, notGround, if_neg Bool.false_ne_true,
    walk_eq_of_ends acyclic ends]

/-- Each rule of a search is a turn of the loop. -/
theorem SearchRun.reaches_answered
    {terms : List Term}
    {answer : Bool}
    (run : subst.SearchRun x terms answer)
    (acyclic : subst.Acyclic) :
    StateTransition.Reaches (subst.lookTurn x) (.pending terms)
      (.answered answer) := by
  induction run with
  | done => exact .single rfl
  | skip ground _ ih =>
    refine .head ?_ ih
    rw [Option.mem_def, lookTurn, if_pos ground]
  | hit notGround ends =>
    refine .single ((lookTurn_of_ends acyclic notGround x _ ends).trans ?_)
    exact if_pos rfl
  | @miss term found _ _ notGround ends different notCell _ ih =>
    refine .head ((lookTurn_of_ends acyclic notGround x _ ends).trans ?_) ih
    cases found with
    | var y =>
      refine if_neg ?_
      rintro rfl
      exact different rfl
    | cons => cases notCell
    | _ => rfl
  | enter notGround ends _ ih =>
    exact .head (lookTurn_of_ends acyclic notGround x _ ends) ih

/-- Over an acyclic substitution the turns end, with the answer of the check. -/
theorem answered_mem_eval
    (acyclic : subst.Acyclic)
    (x : Var)
    (term : Term) :
    .answered (subst.occurs x term) ∈
      StateTransition.eval (subst.lookTurn x) (.pending [term]) := by
  rw [StateTransition.mem_eval]
  have run := (occursIn_eq_some_occurs acyclic x term).2
  exact ⟨run.reaches_answered acyclic, rfl⟩

/-! ## What is found -/

/-- The variable is found just if it occurs in the reified term. -/
theorem occurs_eq_true_iff_mem_vars
    (acyclic : subst.Acyclic)
    (x : Var)
    (term : Term) :
    subst.occurs x term = true ↔ x ∈ (subst.reify term).vars := by
  by_cases unbound : subst.lookup x = none
  · rw [occurs_eq_true_iff acyclic unbound,
      reaches_iff_mem_vars_reify acyclic unbound]
  · rw [occurs_eq_false_of_bound acyclic unbound]
    refine iff_of_false Bool.false_ne_true fun member => unbound ?_
    exact (reified_reify acyclic term).lookup_eq_none x member

/--
The occurs check is exact.  Its loop ends, each of its walks ends, the budgets of
bindings that it carries are never exceeded, and it answers whether the variable
occurs in the reified term.
-/
theorem occurs_exact
    (acyclic : subst.Acyclic)
    (x : Var)
    (term : Term) :
    .answered (subst.occurs x term) ∈
        StateTransition.eval (subst.lookTurn x) (.pending [term]) ∧
      (∀ start, subst.Ends start (subst.walk start)) ∧
      subst.occursIn x [(subst.size, term)] = some (subst.occurs x term) ∧
      (subst.occurs x term = true ↔ x ∈ (subst.reify term).vars) :=
  ⟨answered_mem_eval acyclic x term,
    fun start => (follow_eq_some_walk acyclic start).2,
    (occursIn_eq_some_occurs acyclic x term).1,
    occurs_eq_true_iff_mem_vars acyclic x term⟩

/--
A variable is found behind two bindings, beside a ground list; the variable that leads
to it is not found.
-/
theorem occurs_exact_behind :
    let subst :=
      ((∅ : Subst).bind ⟨1⟩ (.cons (.var ⟨2⟩) (.var ⟨2⟩))).bind ⟨0⟩
        (.sequence .tuple [.int 1, .var ⟨1⟩])
    let term := Term.cons (.sequence .list [.int 2]) (.var ⟨0⟩)
    subst.Acyclic ∧
      .answered true ∈
        StateTransition.eval (subst.lookTurn ⟨2⟩) (.pending [term]) ∧
      ⟨2⟩ ∈ (subst.reify term).vars ∧
      .answered false ∈
        StateTransition.eval (subst.lookTurn ⟨1⟩) (.pending [term]) ∧
      ⟨1⟩ ∉ (subst.reify term).vars := by
  intro subst term
  have inner :
      ((∅ : Subst).bind ⟨1⟩ (.cons (.var ⟨2⟩) (.var ⟨2⟩))).Acyclic := by
    refine acyclic_empty.bind ?_
    rw [reaches_cons_iff, reaches_var_iff (lookup_empty _)]
    simp
  have acyclic : subst.Acyclic := by
    refine inner.bind ?_
    rw [reaches_iff_mem_vars_reify inner (by decide +kernel)]
    decide +kernel
  have found : subst.occurs ⟨2⟩ term = true := by decide +kernel
  have missed : subst.occurs ⟨1⟩ term = false := by decide +kernel
  rcases occurs_exact acyclic ⟨2⟩ term with ⟨foundEnds, _, _, shown⟩
  rcases occurs_exact acyclic ⟨1⟩ term with ⟨missedEnds, _, _, hidden⟩
  rw [found] at foundEnds
  rw [missed] at missedEnds
  refine ⟨acyclic, foundEnds, shown.mp found, missedEnds, fun member => ?_⟩
  exact Bool.false_ne_true (missed.symm.trans (hidden.mpr member))

end Subst

end RelationalSearch
