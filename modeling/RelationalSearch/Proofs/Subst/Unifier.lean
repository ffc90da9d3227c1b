import RelationalSearch.Proofs.Subst.Unification

/-!
# Most general unifiers

A valuation satisfies a substitution when it gives every bound variable the
value of the term it is bound to.  Unification is compared with valuations
only: those that satisfy the extended substitution are those that satisfied the
old one and make the two terms equal, and where there is no extension there are
none of the latter.

Both halves are read off a run.  Following bindings never changes the value of
a term; a pair is then equal under the valuation exactly if what the loop does
next is.  A refused binding has no solution, since the variable is a proper
part of the term that it would have to stand for.
-/

namespace RelationalSearch

namespace Subst

/-- The valuation gives bound variables the values of their terms. -/
def Satisfies (valuation : Var → Term) (subst : Subst) : Prop :=
  ∀ x term, subst.lookup x = some term → valuation x = term.under valuation

/-- The valuation makes the terms of each pair equal. -/
def Solves (valuation : Var → Term) (pairs : List (Term × Term)) : Prop :=
  ∀ pair ∈ pairs, pair.1.under valuation = pair.2.under valuation

section Valuation

variable {subst : Subst} {valuation : Var → Term}

@[simp]
theorem solves_nil : Solves valuation [] := by
  simp [Solves]

@[simp]
theorem solves_cons
    {left right : Term}
    {pairs : List (Term × Term)} :
    Solves valuation ((left, right) :: pairs) ↔
      left.under valuation = right.under valuation ∧
        Solves valuation pairs := by
  simp [Solves]

theorem satisfies_bind
    {x : Var}
    (unbound : subst.lookup x = none)
    (term : Term) :
    Satisfies valuation (subst.bind x term) ↔
      Satisfies valuation subst ∧ valuation x = term.under valuation := by
  constructor
  · intro satisfied
    refine ⟨?_, satisfied x term (lookup_bind_self subst x term)⟩
    intro y value bound
    refine satisfied y value ?_
    rw [lookup_bind_of_ne, bound]
    rintro rfl
    simp [unbound] at bound
  · rintro ⟨satisfied, equal⟩ y value bound
    by_cases same : x = y
    · subst same
      rw [lookup_bind_self] at bound
      cases bound
      exact equal
    · rw [lookup_bind_of_ne subst term same] at bound
      exact satisfied y value bound

theorem Ends.under_eq
    {term found : Term}
    (ends : subst.Ends term found)
    (satisfied : Satisfies valuation subst) :
    term.under valuation = found.under valuation := by
  induction ends with
  | here => rfl
  | @step term next _ bound _ ih =>
    rcases exists_var_of_next? bound with ⟨x, rfl, looked⟩
    exact (satisfied x next looked).trans ih

/-! ## What the loop does to a pair -/

theorem eq_of_meet_eq_same
    {left right : Term}
    (met : meet left right = .same) :
    left = right := by
  unfold meet at met
  split at met
  next x right =>
    split at met
    next same => exact (Term.eq_var_of_asVar?_eq_some same).symm
    next => simp at met
  next => simp at met
  next => simp at met
  next left right _ _ notBoth =>
    split at met
    next atoms =>
      exact (Term.sameAtom_eq_true_iff
        (Term.isCons_eq_false_or notBoth)).mp atoms
    next => simp at met

theorem under_ne_of_meet_eq_clash
    {left right : Term}
    (met : meet left right = .clash) :
    left.under valuation ≠ right.under valuation := by
  cases left with
  | var x =>
    simp only [meet] at met
    split at met <;> simp at met
  | _ => cases right <;> simp_all [meet, Term.sameAtom]

theorem under_eq_iff_of_meet_eq_assign
    {left right term : Term}
    {x : Var}
    (met : meet left right = .assign x term) :
    left.under valuation = right.under valuation ↔
      valuation x = term.under valuation := by
  rcases eq_var_of_meet_eq_assign met with ⟨rfl, rfl⟩ | ⟨rfl, rfl⟩
  · rfl
  · exact eq_comm

theorem under_eq_iff_of_meet_eq_descend
    {left right leftHead rightHead leftTail rightTail : Term}
    (met : meet left right = .descend leftHead rightHead leftTail rightTail) :
    left.under valuation = right.under valuation ↔
      leftHead.under valuation = rightHead.under valuation ∧
        leftTail.under valuation = rightTail.under valuation := by
  rcases eq_cons_of_meet_eq_descend met with ⟨rfl, rfl⟩
  simp

/-- A variable is never asked to stand for itself. -/
theorem ne_var_of_meet_eq_assign
    {left right term : Term}
    {x : Var}
    (met : meet left right = .assign x term) :
    term ≠ .var x := by
  rintro rfl
  rcases eq_var_of_meet_eq_assign met with ⟨rfl, rfl⟩ | ⟨rfl, rfl⟩ <;>
    simp [meet, Term.asVar?] at met

/-! ## Refused bindings -/

/--
A search that finds the variable has found it at the end of a pending term, or
inside one, where its value is smaller than that of the term.
-/
theorem SearchRun.size_lt
    {x : Var}
    {pending : List Term}
    {answer : Bool}
    (run : subst.SearchRun x pending answer)
    (found : answer = true)
    (satisfied : Satisfies valuation subst) :
    ∃ term ∈ pending,
      subst.Ends term (.var x) ∨
        (valuation x).size < (term.under valuation).size := by
  induction run with
  | done => simp at found
  | skip _ _ ih =>
    rcases ih found with ⟨term, member, small⟩
    exact ⟨term, List.mem_cons_of_mem _ member, small⟩
  | hit _ ends => exact ⟨_, List.mem_cons_self, Or.inl ends⟩
  | miss _ _ _ _ _ ih =>
    rcases ih found with ⟨term, member, small⟩
    exact ⟨term, List.mem_cons_of_mem _ member, small⟩
  | @enter term head tail _ _ _ ends _ ih =>
    rcases ih found with ⟨part, member, small⟩
    have atMost : (valuation x).size ≤ (part.under valuation).size := by
      rcases small with last | small
      · rw [last.under_eq satisfied]
        exact Nat.le_refl _
      · exact Nat.le_of_lt small
    have whole :
        (term.under valuation).size =
          (head.under valuation).size + (tail.under valuation).size + 1 := by
      rw [ends.under_eq satisfied, Term.under_cons, Term.size]
    rcases List.mem_cons.mp member with rfl | member
    · exact ⟨term, List.mem_cons_self, Or.inr (by omega)⟩
    · rcases List.mem_cons.mp member with rfl | member
      · exact ⟨term, List.mem_cons_self, Or.inr (by omega)⟩
      · exact ⟨part, List.mem_cons_of_mem _ member, small⟩

/-- A binding that the occurs check refuses has no solution. -/
theorem value_ne_of_searchRun
    {x : Var}
    {term : Term}
    (occurs : subst.SearchRun x [term] true)
    (last : subst.next? term = none)
    (different : term ≠ .var x)
    (satisfied : Satisfies valuation subst) :
    valuation x ≠ term.under valuation := by
  intro equal
  rcases occurs.size_lt rfl satisfied with ⟨part, member, ends | small⟩
  · rcases by simpa using member with rfl : part = term
    exact different ((Ends.here last).unique ends)
  · rcases by simpa using member with rfl : part = term
    rw [equal] at small
    exact Nat.lt_irrefl _ small

/-! ## Runs and their solutions -/

/-- The solutions of pending pairs, as the outcome of a run describes them. -/
def Describes
    (subst : Subst)
    (pairs : List (Term × Term)) : Option Subst → Prop
  | some extended =>
    ∀ valuation, Satisfies valuation extended ↔
      Satisfies valuation subst ∧ Solves valuation pairs
  | none => ∀ valuation, Satisfies valuation subst → ¬ Solves valuation pairs

/-- Outcomes carry over to pairs with the same solutions. -/
theorem Describes.congr
    {other : Subst}
    {pairs otherPairs : List (Term × Term)}
    {outcome : Option Subst}
    (describes : Describes other otherPairs outcome)
    (same :
      ∀ valuation,
        Satisfies valuation other ∧ Solves valuation otherPairs ↔
          Satisfies valuation subst ∧ Solves valuation pairs) :
    Describes subst pairs outcome := by
  cases outcome with
  | some extended =>
    intro valuation
    exact (describes valuation).trans (same valuation)
  | none =>
    intro valuation satisfied solved
    have solution := (same valuation).mpr ⟨satisfied, solved⟩
    exact describes valuation solution.1 solution.2

/-- Pairs with equal ends have the solutions of what the loop makes of them. -/
theorem UnifyRun.describes
    {pairs : List (Term × Term)}
    {outcome : Option Subst}
    (run : UnifyRun subst pairs outcome) :
    Describes subst pairs outcome := by
  induction run with
  | done =>
    intro valuation
    simp
  | same leftEnds rightEnds met _ ih =>
    refine ih.congr ?_
    intro valuation
    rw [solves_cons]
    refine and_congr_right fun satisfied => ?_
    rw [leftEnds.under_eq satisfied, rightEnds.under_eq satisfied,
      eq_of_meet_eq_same met]
    exact (and_iff_right rfl).symm
  | clash leftEnds rightEnds met =>
    intro valuation satisfied solved
    have equal := (solves_cons.mp solved).1
    rw [leftEnds.under_eq satisfied, rightEnds.under_eq satisfied] at equal
    exact under_ne_of_meet_eq_clash met equal
  | @refuse subst _ _ leftEnd rightEnd _ x term leftEnds rightEnds met occurs =>
    intro valuation satisfied solved
    have equal := (solves_cons.mp solved).1
    rw [leftEnds.under_eq satisfied, rightEnds.under_eq satisfied,
      under_eq_iff_of_meet_eq_assign met] at equal
    have last : subst.next? term = none := by
      rcases eq_var_of_meet_eq_assign met with ⟨_, rfl⟩ | ⟨_, rfl⟩
      · exact rightEnds.next?_eq_none
      · exact leftEnds.next?_eq_none
    exact value_ne_of_searchRun occurs last (ne_var_of_meet_eq_assign met)
      satisfied equal
  | assign leftEnds rightEnds met _ _ ih =>
    refine ih.congr ?_
    intro valuation
    rw [satisfies_bind
        (lookup_eq_none_of_meet_eq_assign leftEnds rightEnds met),
      solves_cons, and_assoc]
    refine and_congr_right fun satisfied => ?_
    rw [leftEnds.under_eq satisfied, rightEnds.under_eq satisfied,
      under_eq_iff_of_meet_eq_assign met]
  | descend leftEnds rightEnds met _ ih =>
    refine ih.congr ?_
    intro valuation
    rw [solves_cons, solves_cons, solves_cons, ← and_assoc (c := Solves _ _)]
    refine and_congr_right fun satisfied => ?_
    rw [leftEnds.under_eq satisfied, rightEnds.under_eq satisfied,
      under_eq_iff_of_meet_eq_descend met]

end Valuation

/-- Reifying each variable satisfies an acyclic substitution. -/
theorem satisfies_reify
    {subst : Subst}
    (acyclic : subst.Acyclic) :
    Satisfies (fun x => subst.reify (.var x)) subst := by
  intro x term bound
  change subst.reify (.var x) = _
  rw [reify_bound acyclic bound, reify_eq_under acyclic]

/--
Unification computes a most general unifier.  The valuations that satisfy the
extended substitution are those that satisfy the old one and make the terms
equal, among them the one by which it reifies; and no valuation does where
there is no extension.
-/
theorem unify_most_general
    {subst : Subst}
    (acyclic : subst.Acyclic)
    (left right : Term) :
    (∀ extended, subst.unify left right = some extended →
      extended.reify left = extended.reify right ∧
        ∀ valuation, Satisfies valuation extended ↔
          Satisfies valuation subst ∧
            left.under valuation = right.under valuation) ∧
    (subst.unify left right = none →
      ∀ valuation, ¬ (Satisfies valuation subst ∧
        left.under valuation = right.under valuation)) := by
  have described := (unifyRun_unify acyclic left right).describes
  constructor
  · intro extended success
    rw [success] at described
    have general : ∀ valuation, Satisfies valuation extended ↔
        Satisfies valuation subst ∧
          left.under valuation = right.under valuation := by
      intro valuation
      rw [described valuation, solves_cons]
      simp
    refine ⟨?_, general⟩
    have extendedAcyclic := acyclic.unify success
    rw [reify_eq_under extendedAcyclic left,
      reify_eq_under extendedAcyclic right]
    exact ((general _).mp (satisfies_reify extendedAcyclic)).2
  · rintro failure valuation ⟨satisfied, equal⟩
    rw [failure] at described
    refine described valuation satisfied ?_
    rw [solves_cons]
    exact ⟨equal, solves_nil⟩

/-- Cells that share a variable; the other one comes to stand for the atom. -/
theorem unify_most_general_cells :
    (∅ : Subst).Acyclic ∧
      (((∅ : Subst).unify
          (.cons (.var ⟨0⟩) (.var ⟨0⟩))
          (.cons (.int 1) (.var ⟨1⟩))).map fun extended =>
        extended.reify (.var ⟨1⟩)) = some (.int 1) ∧
      ∀ extended,
        (∅ : Subst).unify
            (.cons (.var ⟨0⟩) (.var ⟨0⟩))
            (.cons (.int 1) (.var ⟨1⟩)) = some extended →
          extended.reify (.cons (.var ⟨0⟩) (.var ⟨0⟩)) =
            extended.reify (.cons (.int 1) (.var ⟨1⟩)) :=
  ⟨acyclic_empty, by decide +kernel, fun extended success =>
    ((unify_most_general acyclic_empty _ _).1 extended success).1⟩

end Subst

end RelationalSearch
