import RelationalSearch.Compound
import RelationalSearch.Goal.Basic
import RelationalSearch.Subst.Reify

/-!
# Applications

`Goal.application` relates a compound term to its operator and its operands.
It looks at its arguments when it is applied: a known whole is taken apart,
known parts are put together, and otherwise the three are related as a cell.
What the protocol refuses does not hold.
-/

namespace RelationalSearch

namespace Goal

variable {Code : Type}

/-- The parts of a known whole. -/
def takenApart
    (decomposer : Decomposer)
    (operator operands whole : Term) : Recipe (Goal Code) := do
  match ← decomposer.operator whole with
  | .error _ => pure fail
  | .ok foundOperator =>
    match ← decomposer.operands whole with
    | .error _ => pure fail
    | .ok foundOperands =>
      pure (all [eq operator foundOperator, eq operands foundOperands])

/-- The whole of known parts. -/
def putTogether
    (decomposer : Decomposer)
    (operator operands whole : Term) : Recipe (Goal Code) := do
  match ← decomposer.construct operator operands with
  | .error _ => pure fail
  | .ok constructed => pure (eq whole constructed)

/-- The whole is the compound term of the operator and the operands. -/
def application
    (decomposer : Decomposer)
    (operator operands whole : Term) : Goal Code :=
  dynamic fun subst =>
    let operator := subst.reify operator
    let operands := subst.reify operands
    let whole := subst.reify whole
    if !whole.isVar then
      takenApart decomposer operator operands whole
    else if operator.isVar || operands.isVar then
      .done (cons operator operands whole)
    else
      putTogether decomposer operator operands whole

end Goal

end RelationalSearch
