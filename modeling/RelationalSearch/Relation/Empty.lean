import RelationalSearch.Goal.Basic

/-!
# Empty sequences

`Goal.allEmpty` makes all of some terms the same empty sequence.  Its kind is
that of the terms which are terminators already; only where there are none is
it the caller's.  This is how two sequences of unknown kind come to end alike.
-/

namespace RelationalSearch

namespace Subst

/--
The kind on which those of the terms agree that are terminators, after a
`kind` found earlier.  There is no answer if two kinds differ or if a term is
neither a variable nor a terminator.
-/
def agreedKind?
    (subst : Subst) : List Term → Option SeqKind → Option (Option SeqKind)
  | [], kind => some kind
  | term :: terms, kind =>
    match subst.walk term with
    | .var _ => agreedKind? subst terms kind
    | .nil found =>
      if kind.getD found = found then
        agreedKind? subst terms (some found)
      else
        none
    | _ => none

end Subst

namespace Goal

variable {Code : Type}

/-- All terms are the same empty sequence, of kind `default` if none is known. -/
def allEmpty (terms : List Term) (default : SeqKind) : Goal Code :=
  dynamic fun subst =>
    match subst.agreedKind? terms none with
    | some kind =>
      .done (all (terms.map fun term => eq term (.nil (kind.getD default))))
    | none => .done fail

end Goal

end RelationalSearch
