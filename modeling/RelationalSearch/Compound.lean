import RelationalSearch.Recipe
import RelationalSearch.Term.Equality
import RelationalSearch.Term.Text

/-!
# Compound terms

A `Protocol` says which terms are compound, how they come apart into an
operator and a sequence of operands, and how they are put together.  A chain
whose end is still unbound is accepted wherever it may yet become acceptable.

A `Decomposer` is a protocol as relations use it; it may announce each use.
-/

namespace RelationalSearch

/-- Which terms are compound. -/
inductive Protocol where
  /-- Every non-empty sequence, whatever its kind. -/
  | sequence
  /-- Expressions only. -/
  | expr
  deriving DecidableEq, Repr, Inhabited

namespace Protocol

/-- Why a term can not be taken apart or put together. -/
inductive Error where
  | notCompound (term : Term)
  | wrongTerminator (expected found : SeqKind)
  | improperOperands (operands : Term)
  deriving DecidableEq

/-- The message for an error, with variables written as `label` says. -/
def Error.message (label : Var → String) : Error → String
  | notCompound term => s!"{term.text label} is not a compound term"
  | wrongTerminator expected found =>
    s!"expected {expected.text} terminator, found {found.text}"
  | improperOperands operands =>
    s!"operands {operands.text label} are not a sequence"

/-- A sequence may end in this way. -/
def checkKind : Protocol → SeqKind → Except Error Unit
  | sequence, _ => .ok ()
  | expr, .expr => .ok ()
  | expr, kind => .error (.wrongTerminator .expr kind)

/-- The spine of a term ends in a variable or in an accepted terminator. -/
def checkSpine
    (protocol : Protocol)
    (term : Term)
    (otherwise : Error) : Except Error Unit :=
  match term.spine.2 with
  | .var _ => .ok ()
  | .nil kind => protocol.checkKind kind
  | _ => .error otherwise

/-- The operator and the operands of a compound term. -/
def split (protocol : Protocol) (term : Term) : Except Error (Term × Term) :=
  match protocol, term with
  | sequence, .cons operator operands => .ok (operator, operands)
  | expr, .cons operator operands => do
    checkSpine expr term (.notCompound term)
    .ok (operator, operands)
  | _, term => .error (.notCompound term)

/-- The operator of a compound term. -/
def operator (protocol : Protocol) (term : Term) : Except Error Term :=
  (protocol.split term).map Prod.fst

/-- The operands of a compound term. -/
def operands (protocol : Protocol) (term : Term) : Except Error Term :=
  (protocol.split term).map Prod.snd

/-- The compound term of an operator and its operands. -/
def construct
    (protocol : Protocol)
    (operator operands : Term) : Except Error Term := do
  protocol.checkSpine operands (.improperOperands operands)
  .ok (.cons operator operands)

end Protocol

/-- A protocol, and whether each use of it is noted in the journal. -/
structure Decomposer where
  protocol : Protocol
  announces : Bool
  deriving DecidableEq, Repr, Inhabited

namespace Decomposer

/-- The decomposer that announces nothing. -/
def quiet (protocol : Protocol) : Decomposer := ⟨protocol, false⟩

/-- Notes the use of an operation, if uses are announced. -/
def announce (decomposer : Decomposer) (operation : String) : Recipe Unit :=
  if decomposer.announces then Recipe.event operation else pure ()

/-- The operator of a compound term. -/
def operator
    (decomposer : Decomposer)
    (term : Term) : Recipe (Except Protocol.Error Term) := do
  decomposer.announce "operator"
  pure (decomposer.protocol.operator term)

/-- The operands of a compound term. -/
def operands
    (decomposer : Decomposer)
    (term : Term) : Recipe (Except Protocol.Error Term) := do
  decomposer.announce "operands"
  pure (decomposer.protocol.operands term)

/-- The compound term of an operator and its operands. -/
def construct
    (decomposer : Decomposer)
    (operator operands : Term) : Recipe (Except Protocol.Error Term) := do
  decomposer.announce "construct"
  pure (decomposer.protocol.construct operator operands)

end Decomposer

end RelationalSearch
