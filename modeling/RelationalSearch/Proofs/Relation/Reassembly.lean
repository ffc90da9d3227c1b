import RelationalSearch.Proofs.Relation.Application

/-!
# Putting together what was taken apart

A protocol takes a compound term apart into its operator and its operands, which
are the head and the tail of one cell.  Expressions are looked at as far as the
end of their spine before they are taken apart, and this end is that of the
operands, so they can be put together again.

Sequences are taken apart without a look at their end, but the operands are
looked at when they are put together.  Chains that end in an atom come apart
and do not go together again (`Protocol.construct_of_apart`).
-/

namespace RelationalSearch

/-- True of a term whose spine ends as a sequence does, or may yet do so. -/
def Term.maySequence (term : Term) : Bool :=
  term.spine.2.isVar || term.terminator?.isSome

theorem Term.maySequence_cons (head tail : Term) :
    (cons head tail).maySequence = tail.maySequence := by
  rw [maySequence, maySequence, spine_cons, terminator?_cons]

namespace Protocol

variable {protocol : Protocol} {term operator operands : Term}

/-- A term that has an operator and operands is the cell of these. -/
theorem eq_cons_of_apart
    (first : protocol.operator term = .ok operator)
    (rest : protocol.operands term = .ok operands) :
    term = .cons operator operands := by
  rw [Protocol.operator] at first
  rw [Protocol.operands] at rest
  cases parts : protocol.split term with
  | error => cases parts ▸ first
  | ok pair =>
    rw [parts] at first rest
    cases first
    cases rest
    exact eq_cons_of_split parts

/-- Only what may be an expression is taken apart as one. -/
theorem checkSpine_of_apart
    (first : expr.operator (.cons operator operands) = .ok operator)
    (otherwise : Error) :
    expr.checkSpine operands otherwise = .ok () := by
  rw [checkSpine_expr_eq_ok_iff, ← Term.terminator?_cons operator]
  have sameEnd : operands.spine.2 = (Term.cons operator operands).spine.2 := by
    rw [Term.spine_cons]
  rw [sameEnd, ← checkSpine_expr_eq_ok_iff _ (.notCompound _)]
  rw [Protocol.operator, split] at first
  cases checked : expr.checkSpine (.cons operator operands)
      (.notCompound (.cons operator operands)) with
  | error => cases checked ▸ first
  | ok => rfl

theorem checkSpine_sequence (term : Term) (otherwise : Error) :
    sequence.checkSpine term otherwise =
      if term.maySequence then .ok () else .error otherwise := by
  rw [checkSpine, Term.maySequence, Term.terminator?]
  generalize term.spine.2 = last
  cases last <;> simp [checkKind, Term.isVar]

/--
What has been taken apart goes together again, unless it is a chain that ends
in an atom.  Expressions do not end so; of other chains the operands are then
refused.
-/
theorem construct_of_apart
    (first : protocol.operator term = .ok operator)
    (rest : protocol.operands term = .ok operands) :
    (protocol = .expr → term.maySequence = true) ∧
      protocol.construct operator operands =
        if term.maySequence then .ok term
        else .error (.improperOperands operands) := by
  have cell := eq_cons_of_apart first rest
  subst cell
  rw [Term.maySequence_cons]
  cases protocol with
  | sequence =>
    refine ⟨nofun, ?_⟩
    rw [construct, checkSpine_sequence]
    split <;> rfl
  | expr =>
    have checked := checkSpine_of_apart first (.improperOperands operands)
    have may : operands.maySequence = true := by
      rw [Term.maySequence, Bool.or_eq_true]
      refine ((checkSpine_expr_eq_ok_iff _ _).mp checked).imp_right ?_
      intro ends
      rw [ends]
      rfl
    refine ⟨fun _ => may, ?_⟩
    rw [construct, checked, if_pos may]
    rfl

/-- An expression with open operands goes together again. -/
theorem construct_of_apart_open :
    expr.operator (.cons (.sym "f") (.var ⟨0⟩)) = .ok (.sym "f") ∧
      expr.operands (.cons (.sym "f") (.var ⟨0⟩)) = .ok (.var ⟨0⟩) ∧
      expr.construct (.sym "f") (.var ⟨0⟩) =
        .ok (.cons (.sym "f") (.var ⟨0⟩)) := by
  have first : expr.operator (.cons (.sym "f") (.var ⟨0⟩)) = .ok (.sym "f") :=
    rfl
  have rest : expr.operands (.cons (.sym "f") (.var ⟨0⟩)) = .ok (.var ⟨0⟩) :=
    rfl
  have again := construct_of_apart first rest
  refine ⟨first, rest, ?_⟩
  rw [again.2, if_pos (again.1 rfl)]

/-- A pair of atoms comes apart as a sequence and does not go together again. -/
theorem construct_of_apart_pair :
    sequence.operator (.cons (.int 1) (.int 2)) = .ok (.int 1) ∧
      sequence.operands (.cons (.int 1) (.int 2)) = .ok (.int 2) ∧
      sequence.construct (.int 1) (.int 2) =
        .error (.improperOperands (.int 2)) ∧
      sequence.construct (.int 1) (.int 2) ≠
        .ok (.cons (.int 1) (.int 2)) :=
  ⟨rfl, rfl, rfl, nofun⟩

end Protocol

end RelationalSearch
