import RelationalSearch.Relation.Basic
import RelationalSearch.Relation.Empty

/-!
# Relations that go through two sequences in step

`mapAll` asks for related elements at every position, `mapAny` for related
elements at one position or more and equal ones at all others.  Either side may
be unbound.  Sequences of different lengths or kinds are not related.

The relation between two heads is put off, and so is what is asked of the
tails.  Both therefore begin with a suspension, and long or unbounded sequences
leave other branches of a search their turn.
-/

namespace RelationalSearch

variable {Base Custom : Type}

/-- The heads and tails into which two sequences are taken apart. -/
structure Cells where
  firstHead : Term
  firstTail : Term
  secondHead : Term
  secondTail : Term

namespace Cells

/-- Fresh variables for the parts of two sequences. -/
def fresh : Recipe Cells := do
  let firstHead ← Recipe.freshTerm "a_head"
  let firstTail ← Recipe.freshTerm "a_tail"
  let secondHead ← Recipe.freshTerm "b_head"
  let secondTail ← Recipe.freshTerm "b_tail"
  pure ⟨firstHead, firstTail, secondHead, secondTail⟩

end Cells

/-- Both sequences end here, if they may. -/
def nullCase
    (accepted : Bool)
    (terminator : SeqKind)
    (first second : Term) : CodedGoal Base Custom :=
  if accepted then .allEmpty [first, second] terminator else .fail

/-- The sequences have related elements at every position. -/
def mapAll
    (relation : Relation Base)
    (terminator : SeqKind)
    (nullSucceeds : Bool)
    (first second : Term) : Recipe (CodedGoal Base Custom) := do
  let cells ← Cells.fresh
  pure (.any
    [[nullCase nullSucceeds terminator first second],
      [.cons cells.firstHead cells.firstTail first,
        .cons cells.secondHead cells.secondTail second,
        .defer (.relate relation cells.firstHead cells.secondHead),
        .defer (.mapAll relation terminator
          cells.firstTail cells.secondTail)]])

/--
The sequences have related elements at one position or more, and equal ones at
all others.
-/
def mapAny
    (relation : Relation Base)
    (terminator : SeqKind)
    (nullSucceeds : Bool)
    (cursor : MapCursor)
    (first second : Term) : Recipe (CodedGoal Base Custom) := do
  let cells ← Cells.fresh
  let tails (related : Bool) : CodedGoal Base Custom :=
    .defer (.mapAny relation terminator nullSucceeds (cursor.next related)
      cells.firstTail cells.secondTail)
  pure (.any
    [[nullCase (cursor.acceptsNull nullSucceeds) terminator first second],
      [.cons cells.firstHead cells.firstTail first,
        .cons cells.secondHead cells.secondTail second,
        .any
          [[.defer (.relate relation cells.firstHead cells.secondHead),
              tails true],
            [.eq cells.firstHead cells.secondHead, tails false]]]])

/-- The sequences are related under the policy. -/
def MapPolicy.map
    (policy : MapPolicy)
    (relation : Relation Base)
    (first second : Term)
    (settings : MapSettings) : Recipe (CodedGoal Base Custom) :=
  match policy with
  | all =>
    mapAll relation settings.terminator settings.nullSucceedsAtFirstCall
      first second
  | any =>
    mapAny relation settings.terminator settings.nullSucceedsAtFirstCall
      (.start settings.anySucceeded) first second

/-- The sequences have the same length and kind. -/
def sameLength
    (first second : Term)
    (terminator : SeqKind) : Recipe (CodedGoal Base Custom) :=
  MapPolicy.all.map .always first second
    { MapSettings.all with terminator := terminator }

end RelationalSearch
