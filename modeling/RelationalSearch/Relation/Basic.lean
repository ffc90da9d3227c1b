import RelationalSearch.Goal.Basic
import RelationalSearch.Relation.Settings

/-!
# Relations and programs

A relation between two terms is named by a `Relation`, which is data: either it
is one of the caller's own, or the library makes it.  What the library puts off
is named by a `Code`.  A `Program` gives the meaning of the names that belong
to the caller; together with it, every code stands for a goal.
-/

namespace RelationalSearch

/-- A name of a relation between two terms. -/
inductive Relation (Base : Type) where
  /-- Any two terms are related. -/
  | always
  /-- A relation of the caller's. -/
  | base (name : Base)
  /-- Two graphs, the nodes of which a relation of the caller's relates. -/
  | walk (node : Base) (settings : WalkSettings Base)

/-- Where a relation that needs one related pair is in two sequences. -/
structure MapCursor where
  /-- No element has been passed yet. -/
  first : Bool
  /-- The relation has held for an earlier pair. -/
  anySucceeded : Bool
  deriving DecidableEq, Repr

namespace MapCursor

/-- Before the first pair. -/
def start (anySucceeded : Bool) : MapCursor := ⟨true, anySucceeded⟩

/-- After a pair that was related or else equal. -/
def next (cursor : MapCursor) (related : Bool) : MapCursor :=
  ⟨false, cursor.anySucceeded || related⟩

/-- The sequences may end here. -/
def acceptsNull (cursor : MapCursor) (nullSucceeds : Bool) : Bool :=
  cursor.anySucceeded || (cursor.first && nullSucceeds)

end MapCursor

/-- A name of a goal that is built later. -/
inductive Code (Base Custom : Type) where
  /-- A goal of the caller's. -/
  | custom (name : Custom)
  /-- The relation holds between the two terms. -/
  | relate (relation : Relation Base) (first second : Term)
  /-- The rest of two sequences is related at every position. -/
  | mapAll
    (relation : Relation Base)
    (terminator : SeqKind)
    (first second : Term)
  /-- The rest of two sequences is related or equal at every position. -/
  | mapAny
    (relation : Relation Base)
    (terminator : SeqKind)
    (nullSucceeds : Bool)
    (cursor : MapCursor)
    (first second : Term)
  /-- The second term is reached from the first in one or more steps. -/
  | reach (relation : Relation Base) (start finish : Term)

/-- A goal that may put off goals of the library and of the caller. -/
abbrev CodedGoal (Base Custom : Type) := Goal (Code Base Custom)

/-- The meaning of the caller's relations and goals. -/
structure Program (Base Custom : Type) where
  /-- The goal that a relation of the caller's makes of two terms. -/
  relation : Base → Term → Term → Recipe (CodedGoal Base Custom)
  /-- The goal of a name of the caller's. -/
  custom : Custom → Recipe (CodedGoal Base Custom)

end RelationalSearch
