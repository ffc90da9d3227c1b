import RelationalSearch.Proofs.Subst.Unification

/-!
# Binding one variable by hand

`Subst.extend?` looks for the variable in the term through the bindings there
are.  If the variable is unbound then what it finds is a path that the new
binding would close, so just the cyclic bindings are refused.

Following bindings never stops at a bound variable, and so the search does not
see one: a variable that is bound already is bound anew whatever the term is,
and the new binding may close a circle.
-/

namespace RelationalSearch

namespace Subst

variable {subst : Subst} {x : Var} {term : Term}

/-- Nothing ends at a bound variable, so the search does not find it. -/
theorem SearchRun.eq_false_of_bound
    {pending : List Term}
    {answer : Bool}
    (run : subst.SearchRun x pending answer)
    (bound : subst.lookup x ≠ none) :
    answer = false := by
  induction run with
  | done => rfl
  | skip _ _ ih => exact ih
  | hit _ ends => exact (bound ends.next?_eq_none).elim
  | miss _ _ _ _ _ ih => exact ih
  | enter _ _ _ ih => exact ih

theorem occurs_eq_true_iff
    (acyclic : subst.Acyclic)
    (unbound : subst.lookup x = none)
    (term : Term) :
    subst.occurs x term = true ↔ subst.Reaches term x := by
  have run := (occursIn_eq_some_occurs acyclic x term).2
  rw [run.eq_true_iff unbound]
  simp

theorem occurs_eq_false_of_bound
    (acyclic : subst.Acyclic)
    (bound : subst.lookup x ≠ none)
    (term : Term) :
    subst.occurs x term = false :=
  (occursIn_eq_some_occurs acyclic x term).2.eq_false_of_bound bound

/-- A new binding leaves the other edges of the graph where they are. -/
theorem Leads.bind
    {y z : Var}
    (leads : subst.Leads y z)
    (unbound : subst.lookup x = none)
    (term : Term) :
    (subst.bind x term).Leads y z := by
  rcases leads with ⟨found, bound, member⟩
  refine ⟨found, ?_, member⟩
  rw [lookup_bind_of_ne, bound]
  rintro rfl
  simp [unbound] at bound

/-- Binding an unbound variable makes a cycle just if the term leads to it. -/
theorem acyclic_bind_iff
    (acyclic : subst.Acyclic)
    (unbound : subst.lookup x = none) :
    (subst.bind x term).Acyclic ↔ ¬ subst.Reaches term x := by
  constructor
  · rintro bindAcyclic ⟨y, member, path⟩
    have back : Relation.ReflTransGen (subst.bind x term).Leads y x :=
      path.lift id fun _ _ leads => leads.bind unbound term
    have edge : (subst.bind x term).Leads x y :=
      ⟨term, lookup_bind_self subst x term, member⟩
    exact bindAcyclic x (.head' edge back)
  · exact acyclic.bind

/--
Over acyclic bindings an extension is refused exactly where an unbound variable
would come to lead back to itself.  An unbound variable that is bound leaves
the bindings acyclic, and walking ends from every term.
-/
theorem extend?_refuses_iff
    (acyclic : subst.Acyclic)
    (x : Var)
    (term : Term) :
    (subst.extend? x term = none ↔
      subst.lookup x = none ∧ ¬ (subst.bind x term).Acyclic) ∧
    ∀ extended, subst.extend? x term = some extended →
      extended = subst.bind x term ∧
        (subst.lookup x = none →
          extended.Acyclic ∧
            ∀ start, (∃ rest,
                extended.follow extended.size start =
                  some (rest, extended.walk start)) ∧
              extended.Ends start (extended.walk start)) := by
  by_cases unbound : subst.lookup x = none
  · have occurs := occurs_eq_true_iff acyclic unbound term
    rw [acyclic_bind_iff acyclic unbound, not_not, ← occurs]
    constructor
    · simp [extend?, unbound]
    · intro extended success
      have absent : ¬ subst.Reaches term x := by
        rw [← occurs]
        intro found
        simp [extend?, found] at success
      rcases eq_bind_of_extend? success with rfl
      have bindAcyclic := acyclic.bind absent
      exact ⟨rfl, fun _ => ⟨bindAcyclic, follow_eq_some_walk bindAcyclic⟩⟩
  · have absent := occurs_eq_false_of_bound acyclic unbound term
    constructor
    · simp [extend?, absent, unbound]
    · intro extended success
      exact ⟨eq_bind_of_extend? success, fun free => (unbound free).elim⟩

/-- A list that would hold itself is refused; a list of an atom is not. -/
theorem extend?_refuses_iff_list :
    (∅ : Subst).Acyclic ∧
      ¬ ((∅ : Subst).bind ⟨0⟩ (.sequence .list [.int 1, .var ⟨0⟩])).Acyclic ∧
      ((∅ : Subst).extend? ⟨0⟩ (.sequence .list [.int 1])).isSome = true ∧
      ∀ extended,
        (∅ : Subst).extend? ⟨0⟩ (.sequence .list [.int 1]) = some extended →
          extended.Acyclic := by
  have refused :
      (∅ : Subst).extend? ⟨0⟩ (.sequence .list [.int 1, .var ⟨0⟩]) = none := by
    rw [extend?, if_pos (by decide +kernel)]
  refine ⟨acyclic_empty, ?_, by decide +kernel, ?_⟩
  · exact ((extend?_refuses_iff acyclic_empty _ _).1.mp refused).2
  · intro extended success
    have added := (extend?_refuses_iff acyclic_empty _ _).2 extended success
    exact (added.2 (lookup_empty _)).1

/--
A variable that stands for an atom is bound to itself: the search follows the
old binding and misses the variable.  Walking from it then has no end.
-/
theorem extend?_rebinding_circle :
    ∃ bound extended : Subst,
      (∅ : Subst).extend? ⟨0⟩ (.int 1) = some bound ∧
        bound.Acyclic ∧
        bound.extend? ⟨0⟩ (.var ⟨0⟩) = some extended ∧
        ¬ extended.Acyclic ∧
        ∀ found, ¬ extended.Ends (.var ⟨0⟩) found := by
  let bound := (∅ : Subst).bind ⟨0⟩ (.int 1)
  let extended := bound.bind ⟨0⟩ (.var ⟨0⟩)
  have itself : extended.lookup ⟨0⟩ = some (.var ⟨0⟩) :=
    lookup_bind_self bound ⟨0⟩ (.var ⟨0⟩)
  have boundAcyclic : bound.Acyclic :=
    acyclic_empty.bind (not_reaches_of_isGround rfl ⟨0⟩)
  refine ⟨bound, extended, ?_, boundAcyclic, ?_, ?_, ?_⟩
  · rw [extend?, if_neg (by decide +kernel)]
  · rw [extend?, if_neg (by decide +kernel)]
  · intro acyclic
    exact acyclic ⟨0⟩ (.single ⟨_, itself, by simp⟩)
  · intro found ends
    -- Each step leads back to the variable, so no number of steps ends.
    generalize start : Term.var ⟨0⟩ = term at ends
    induction ends with
    | here last =>
      subst start
      exact Option.some_ne_none _ (itself.symm.trans last)
    | step next _ ih =>
      subst start
      exact ih (Option.some.inj (itself.symm.trans next))

end Subst

end RelationalSearch
