import RelationalSearch.Proofs.Relation.Application

/-!
# Verdicts of a protocol under valuations

An application fails for good as soon as the protocol rejects what is known of its
arguments.  No solution is lost by that.  A protocol looks at nothing but the end of
a spine, and a known end is the same under every valuation, so what is rejected now
is rejected whatever the variables come to stand for, and for the same reason
(`Protocol.Error.under`).  What is accepted may be rejected later, since an unbound
end is accepted.

What is put together comes apart again.  Of expressions the whole and the operands
are looked at on either way, which is the same, as their spines have the same end.
So just those cells come apart that can be put together
(`Protocol.rejection_is_final`).
-/

namespace RelationalSearch

namespace Protocol

variable {protocol : Protocol} {term operator operands whole : Term} {error : Error}

/-- The error about what the terms become under the valuation. -/
def Error.under (valuation : Var → Term) : Error → Error
  | notCompound term => .notCompound (term.under valuation)
  | wrongTerminator expected found => .wrongTerminator expected found
  | improperOperands operands => .improperOperands (operands.under valuation)

/-! ## Spines -/

theorem isVar_spine_of_checkSpine_eq_error
    {otherwise : Error}
    (rejected : protocol.checkSpine term otherwise = .error error) :
    term.spine.2.isVar = false := by
  rw [checkSpine] at rejected
  cases last : term.spine.2 with
  | var => simp [last] at rejected
  | _ => rfl

/-- A spine that is rejected is rejected under every valuation. -/
theorem checkSpine_under_eq_error
    {otherwise : Error}
    (rejected : protocol.checkSpine term otherwise = .error error)
    (valuation : Var → Term) :
    protocol.checkSpine (term.under valuation) (otherwise.under valuation) =
      .error (error.under valuation) := by
  have known := isVar_spine_of_checkSpine_eq_error rejected
  rw [checkSpine] at rejected ⊢
  rw [Term.last_spine_under known]
  cases last : term.spine.2 with
  | var => simp [last] at rejected
  | nil kind =>
    rw [last] at rejected
    cases protocol with
    | sequence => cases rejected
    | expr => cases kind <;> cases rejected <;> rfl
  | _ =>
    rw [last] at rejected
    cases rejected
    rfl

/-- A cell has the end of its tail. -/
theorem checkSpine_cons_eq_ok_iff (head tail : Term) (otherwise other : Error) :
    protocol.checkSpine (.cons head tail) otherwise = .ok () ↔
      protocol.checkSpine tail other = .ok () := by
  rw [checkSpine, checkSpine, Term.spine_cons]
  cases tail.spine.2 <;> simp

/-! ## Taking apart -/

theorem split_expr_eq_error_iff {head tail : Term} :
    expr.split (.cons head tail) = .error error ↔
      expr.checkSpine (.cons head tail) (.notCompound (.cons head tail)) =
        .error error := by
  rw [split]
  cases expr.checkSpine (.cons head tail) (.notCompound (.cons head tail)) <;>
    simp [bind, Except.bind]

theorem split_expr_eq_ok_iff {head tail : Term} {parts : Term × Term} :
    expr.split (.cons head tail) = .ok parts ↔
      expr.checkSpine (.cons head tail) (.notCompound (.cons head tail)) = .ok () ∧
        parts = (head, tail) := by
  rw [split]
  cases expr.checkSpine (.cons head tail) (.notCompound (.cons head tail)) <;>
    simp [bind, Except.bind, eq_comm]

/-- A known term that does not come apart does not under any valuation. -/
theorem split_under_eq_error
    (known : term.isVar = false)
    (rejected : protocol.split term = .error error)
    (valuation : Var → Term) :
    protocol.split (term.under valuation) = .error (error.under valuation) := by
  cases term with
  | var => cases known
  | cons head tail =>
    cases protocol with
    | sequence => cases rejected
    | expr =>
      rw [split_expr_eq_error_iff] at rejected
      rw [Term.under_cons, split_expr_eq_error_iff]
      exact checkSpine_under_eq_error rejected valuation
  | _ => cases protocol <;> cases rejected <;> rfl

theorem operator_eq_error_iff :
    protocol.operator term = .error error ↔ protocol.split term = .error error := by
  rw [Protocol.operator]
  cases protocol.split term <;> simp [Except.map]

theorem operands_eq_error_iff :
    protocol.operands term = .error error ↔ protocol.split term = .error error := by
  rw [Protocol.operands]
  cases protocol.split term <;> simp [Except.map]

theorem exists_operator_eq_ok_iff :
    (∃ found, protocol.operator term = .ok found) ↔
      ∃ parts, protocol.split term = .ok parts := by
  rw [Protocol.operator]
  cases protocol.split term <;> simp [Except.map]

theorem exists_operands_eq_ok_iff :
    (∃ found, protocol.operands term = .ok found) ↔
      ∃ parts, protocol.split term = .ok parts := by
  rw [Protocol.operands]
  cases protocol.split term <;> simp [Except.map]

/-! ## Putting together -/

theorem construct_eq_error_iff_checkSpine :
    protocol.construct operator operands = .error error ↔
      protocol.checkSpine operands (.improperOperands operands) = .error error := by
  rw [construct]
  cases protocol.checkSpine operands (.improperOperands operands) <;>
    simp [bind, Except.bind]

theorem construct_eq_ok_iff :
    protocol.construct operator operands = .ok whole ↔
      protocol.checkSpine operands (.improperOperands operands) = .ok () ∧
        whole = .cons operator operands := by
  rw [construct]
  cases protocol.checkSpine operands (.improperOperands operands) <;>
    simp [bind, Except.bind, eq_comm]

/-- What is put together is the cell of its parts. -/
theorem eq_cons_of_construct
    (accepted : protocol.construct operator operands = .ok whole) :
    whole = .cons operator operands :=
  (construct_eq_ok_iff.mp accepted).2

/-- Parts that are not put together are not under any valuation. -/
theorem construct_under_eq_error
    (rejected : protocol.construct operator operands = .error error)
    (valuation : Var → Term) :
    protocol.construct (operator.under valuation) (operands.under valuation) =
      .error (error.under valuation) := by
  rw [construct_eq_error_iff_checkSpine] at rejected ⊢
  exact checkSpine_under_eq_error rejected valuation

/-- What is put together comes apart into its parts. -/
theorem split_of_construct
    (accepted : protocol.construct operator operands = .ok whole) :
    protocol.split whole = .ok (operator, operands) := by
  rcases construct_eq_ok_iff.mp accepted with ⟨checked, rfl⟩
  cases protocol with
  | sequence => rfl
  | expr =>
    rw [split_expr_eq_ok_iff]
    exact ⟨(checkSpine_cons_eq_ok_iff operator operands _ _).mpr checked, rfl⟩

/-- Just the expressions come apart that can be put together. -/
theorem exists_split_expr_iff :
    (∃ parts, expr.split term = .ok parts) ↔
      ∃ head tail, term = .cons head tail ∧
        ∃ whole, expr.construct head tail = .ok whole := by
  constructor
  · rintro ⟨⟨head, tail⟩, apart⟩
    have cell := eq_cons_of_split apart
    subst cell
    have checked := (split_expr_eq_ok_iff.mp apart).1
    rw [checkSpine_cons_eq_ok_iff head tail _ (.improperOperands tail)] at checked
    exact ⟨head, tail, rfl, _, construct_eq_ok_iff.mpr ⟨checked, rfl⟩⟩
  · rintro ⟨head, tail, rfl, whole, accepted⟩
    have cell := eq_cons_of_construct accepted
    subst cell
    exact ⟨_, split_of_construct accepted⟩

/-! ## Verdicts -/

/--
Rejection by a protocol is final.  A term has no operator just if it has no operands,
and for the same reason.  Unless it is a variable, it has neither under any valuation
then, and parts that are not put together are not put together either; the reason is
the same, about what the terms have become.  What is put together has the operator and
the operands that it was made of.  Of expressions, just those terms have an operator,
and operands, that are cells whose head and tail are put together.
-/
theorem rejection_is_final (protocol : Protocol) :
    (∀ term error,
      protocol.operator term = .error error ↔
        protocol.operands term = .error error) ∧
    (∀ term error, term.isVar = false → protocol.operator term = .error error →
      ∀ valuation,
        protocol.operator (term.under valuation) = .error (error.under valuation) ∧
          protocol.operands (term.under valuation) =
            .error (error.under valuation)) ∧
    (∀ operator operands error,
      protocol.construct operator operands = .error error →
      ∀ valuation,
        protocol.construct (operator.under valuation) (operands.under valuation) =
          .error (error.under valuation)) ∧
    (∀ operator operands whole,
      protocol.construct operator operands = .ok whole →
        protocol.operator whole = .ok operator ∧
          protocol.operands whole = .ok operands) ∧
    (protocol = .expr → ∀ term,
      ((∃ found, protocol.operator term = .ok found) ↔
        ∃ head tail, term = .cons head tail ∧
          ∃ whole, protocol.construct head tail = .ok whole) ∧
      ((∃ found, protocol.operands term = .ok found) ↔
        ∃ head tail, term = .cons head tail ∧
          ∃ whole, protocol.construct head tail = .ok whole)) := by
  refine ⟨fun term error => ?_, fun term error known rejected valuation => ?_,
    fun operator operands error rejected => construct_under_eq_error rejected,
    fun operator operands whole accepted => ?_, ?_⟩
  · rw [operator_eq_error_iff, operands_eq_error_iff]
  · rw [operator_eq_error_iff] at rejected ⊢
    rw [operands_eq_error_iff]
    have later := split_under_eq_error known rejected valuation
    exact ⟨later, later⟩
  · rw [Protocol.operator, Protocol.operands, split_of_construct accepted]
    exact ⟨rfl, rfl⟩
  · rintro rfl term
    rw [exists_operator_eq_ok_iff, exists_operands_eq_ok_iff, exists_split_expr_iff]
    exact ⟨.rfl, .rfl⟩

/-- A list with an open element is no expression, whatever the element is. -/
theorem rejection_is_final_list :
    let list := Term.sequence .list [.sym "f", .var ⟨0⟩]
    list.isVar = false ∧
      expr.operator list = .error (.wrongTerminator .expr .list) ∧
      (∀ valuation,
        expr.operator (list.under valuation) =
          .error (.wrongTerminator .expr .list)) ∧
      expr.construct (.var ⟨0⟩) (.int 1) = .error (.improperOperands (.int 1)) ∧
      (∀ valuation : Var → Term,
        expr.construct (valuation ⟨0⟩) (.int 1) =
          .error (.improperOperands (.int 1))) ∧
      expr.construct (.sym "f") (.var ⟨0⟩) = .ok (.cons (.sym "f") (.var ⟨0⟩)) ∧
      expr.operands (.cons (.sym "f") (.var ⟨0⟩)) = .ok (.var ⟨0⟩) := by
  intro list
  rcases rejection_is_final .expr with ⟨_, apart, together, again, _⟩
  have listRejected : expr.operator list = .error (.wrongTerminator .expr .list) := rfl
  have atomRejected :
      expr.construct (.var ⟨0⟩) (.int 1) = .error (.improperOperands (.int 1)) := rfl
  have accepted :
      expr.construct (.sym "f") (.var ⟨0⟩) = .ok (.cons (.sym "f") (.var ⟨0⟩)) := rfl
  exact ⟨rfl, listRejected, fun valuation => (apart _ _ rfl listRejected valuation).1,
    atomRejected, together _ _ _ atomRejected, accepted, (again _ _ _ accepted).2⟩

end Protocol

end RelationalSearch
