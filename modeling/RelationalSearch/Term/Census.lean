import RelationalSearch.Term.Equality

/-!
# Counting the parts of a term

A term is counted as a tree: a part that occurs twice counts twice.
-/

namespace RelationalSearch

namespace Term

/-- The variables of a term, from left to right, with repetitions. -/
def vars (term : Term) : List Var :=
  term.tokens.filterMap fun
    | .var x => some x
    | _ => none

/-- How many cells and atoms a term is made of. -/
structure Census where
  cells : Nat
  vars : Nat
  syms : Nat
  ints : Nat
  /-- The sum of the integers, in the arithmetic of their width. -/
  total : Int64
  /-- The number of cells on the topmost spine. -/
  spineLength : Nat
  ground : Bool
  deriving Repr, DecidableEq

namespace Census

/-- Adds a node to the counts. -/
def count (census : Census) : Token → Census
  | .cons => { census with cells := census.cells + 1 }
  | .var _ => { census with vars := census.vars + 1 }
  | .sym _ => { census with syms := census.syms + 1 }
  | .int value =>
    { census with
      ints := census.ints + 1
      total := census.total + value }
  | .nil _ => census

end Census

/-- The counts of a term. -/
def census (term : Term) : Census :=
  term.tokens.foldl Census.count
    { cells := 0
      vars := 0
      syms := 0
      ints := 0
      total := 0
      spineLength := term.spine.1.length
      ground := term.isGround }

end Term

end RelationalSearch
