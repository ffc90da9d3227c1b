import RelationalSearch.Term.Basic

/-!
# Terms in scripts

A script writes terms with names in them, and a scope says what the names stand
for.  Large terms of a regular form have short forms of their own.
-/

namespace RelationalSearch

/-- What the names in a script stand for, the innermost first. -/
abbrev Scope := List (String × Term)

/-- The term of a name (an empty list, if there is no such name). -/
def Scope.find (scope : Scope) (name : String) : Term :=
  (scope.lookup name).getD (.nil .list)

/-- A term with names in it. -/
inductive TermScript where
  /-- Whatever the name stands for. -/
  | name (name : String)
  /-- A term without names. -/
  | literal (term : Term)
  /-- The chain of the items that ends in the last term. -/
  | chain (items : List TermScript) (last : TermScript)
  /-- The sequence of the integers from the first to below the second. -/
  | range (low high : Int) (kind : SeqKind)
  /-- The item a number of times, and then the last term. -/
  | repeated (count : Nat) (item last : TermScript)
  /-- An operator of one operand, applied a number of times. -/
  | nest (count : Nat) (operator base : TermScript)
  /-- A complete binary tree of expressions, with its leaves numbered. -/
  | tree (depth : Nat) (operator : String)

namespace TermScript

/-- The sequence of the integers from the first to below the second. -/
def integers (low high : Int) (kind : SeqKind) : Term :=
  .sequence kind
    ((List.range (high - low).toNat).map fun (offset : Nat) =>
      .int (Int64.ofInt (low + offset)))

/-- A complete binary tree whose leaves are numbered from the first on. -/
def numberedTree (operator : Term) : Nat → Nat → Term
  | 0, first => .int (Int64.ofNat first)
  | depth + 1, first =>
    .expr operator
      [numberedTree operator depth first,
        numberedTree operator depth (first + 2 ^ depth)]

mutual

/-- The term that is written, in a scope. -/
def instantiate (scope : Scope) : TermScript → Term
  | name text => scope.find text
  | literal term => term
  | chain items last =>
    .chain (instantiateAll scope items) (instantiate scope last)
  | range low high kind => integers low high kind
  | repeated count item last =>
    .chain (List.replicate count (instantiate scope item))
      (instantiate scope last)
  | nest count operator base =>
    let operator := instantiate scope operator
    count.repeat (fun operand => .expr operator [operand])
      (instantiate scope base)
  | tree depth operator => numberedTree (.sym operator) depth 1

/-- The terms that are written, in a scope. -/
def instantiateAll (scope : Scope) : List TermScript → List Term
  | [] => []
  | item :: items => instantiate scope item :: instantiateAll scope items

end

end TermScript

end RelationalSearch
