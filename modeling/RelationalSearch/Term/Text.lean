import RelationalSearch.Term.Basic

/-!
# Display texts of terms

A chain is written by its spine, in the brackets of its kind: `[1, 2]`,
`(1, 2)`, and `op(1, 2)` for an expression, whose first item is the operator.
A chain that ends in anything but a terminator shows its last tail after a
dot, as in `(1, 2 . _x.7)`.

How a variable is written is left to the caller, since a variable is only its
number; `Var.text` is the usual form.
-/

namespace RelationalSearch

namespace SeqKind

/-- The word for a kind in messages. -/
def text : SeqKind → String
  | list => "List"
  | tuple => "Tuple"
  | expr => "Expr"

end SeqKind

namespace Var

/-- A variable of the given name and number. -/
def text (name : String) (number : Nat) : String :=
  s!"_{name}.{number}"

end Var

namespace Term

/-- The text of a term that is no cell; a cell has no text of this kind. -/
def atomText (label : Var → String) : Term → String
  | var x => label x
  | int value => toString value.toInt
  | sym name => name
  | nil .list => "[]"
  | nil .tuple => "()"
  | nil .expr => "e()"
  | cons _ _ => ""

/-- The text of the chain with the given item texts and last tail. -/
def chainText
    (label : Var → String)
    (items : List String)
    (last : Term) : String :=
  match items, last with
  | [], last => atomText label last
  | items, nil .list => "[" ++ ", ".intercalate items ++ "]"
  | items, nil .tuple => "(" ++ ", ".intercalate items ++ ")"
  | operator :: operands, nil .expr =>
    operator ++ "(" ++ ", ".intercalate operands ++ ")"
  | items, last =>
    "(" ++ ", ".intercalate items ++ " . " ++ atomText label last ++ ")"

/-- The texts of the heads along the spine of a term. -/
def itemTexts (label : Var → String) : Term → List String
  | cons head tail =>
    chainText label (itemTexts label head) head.spine.2 :: itemTexts label tail
  | _ => []

/-- The text of a term, with variables written as `label` says. -/
def text (label : Var → String) (term : Term) : String :=
  chainText label (itemTexts label term) term.spine.2

theorem itemTexts_eq_map (label : Var → String) (term : Term) :
    itemTexts label term = term.spine.1.map (text label) := by
  induction term with
  | cons head tail _ tailHypothesis => simp [itemTexts, text, tailHypothesis]
  | _ => rfl

end Term

end RelationalSearch
