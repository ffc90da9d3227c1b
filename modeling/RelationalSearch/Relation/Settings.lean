import RelationalSearch.Compound

/-!
# Settings of the relations on sequences and graphs

`MapSettings` belongs to the relations that go through two sequences in step,
`WalkSettings` to the one that goes through two graphs.
-/

namespace RelationalSearch

/-- The text of a truth value in messages. -/
def truthText (value : Bool) : String :=
  if value then "true" else "false"

/-- Settings of a relation that goes through two sequences in step. -/
structure MapSettings where
  /-- The kind of the sequences, if neither of them shows its own. -/
  terminator : SeqKind
  /-- Two empty sequences match, if there was no element before them. -/
  nullSucceedsAtFirstCall : Bool
  /-- The relation is taken to have held for an earlier pair. -/
  anySucceeded : Bool
  deriving DecidableEq, Repr

namespace MapSettings

/-- For all pairs: lists, of which empty ones match. -/
def all : MapSettings where
  terminator := .list
  nullSucceedsAtFirstCall := true
  anySucceeded := false

/-- For some pair: lists, of which empty ones do not match. -/
def any : MapSettings where
  terminator := .list
  nullSucceedsAtFirstCall := false
  anySucceeded := false

/-- The settings as a message shows them. -/
def text (settings : MapSettings) : String :=
  "MapConfig \x7b terminator: " ++ settings.terminator.text ++
    ", null_succeeds_at_first_call: " ++
    truthText settings.nullSucceedsAtFirstCall ++
    ", any_succeeded: " ++ truthText settings.anySucceeded ++ " \x7d"

end MapSettings

/-- Which elements of two sequences have to be related. -/
inductive MapPolicy where
  /-- The elements at every position. -/
  | all
  /-- Those at one position at least; all others are equal. -/
  | any
  deriving DecidableEq, Repr, Inhabited

/-- The word for a policy in messages. -/
def MapPolicy.text : MapPolicy → String
  | all => "All"
  | any => "Any"

/-- Settings of the relation that goes through two graphs. -/
structure WalkSettings (Base : Type) where
  /--
  The relation between operators.  With one, only operands are walked; without,
  a compound term is walked as one sequence, operator and all.
  -/
  operatorRelation : Option Base
  /-- The kind of operand sequences that neither graph shows. -/
  terminator : SeqKind
  /-- Which subterms have to be related. -/
  policy : MapPolicy
  /-- Two empty sequences of subterms match. -/
  nullSucceedsAtFirstCall : Bool
  /-- Which terms are compound. -/
  decomposer : Decomposer
  deriving Repr

namespace WalkSettings

variable {Base : Type}

/-- Some element of any sequence, operators being elements like all others. -/
def standard : WalkSettings Base where
  operatorRelation := none
  terminator := .expr
  policy := .any
  nullSucceedsAtFirstCall := true
  decomposer := .quiet .sequence

instance : Inhabited (WalkSettings Base) := ⟨standard⟩

/-- The same settings under other names of relations. -/
def map {Other : Type} (rename : Base → Other) (settings : WalkSettings Base) :
    WalkSettings Other where
  operatorRelation := settings.operatorRelation.map rename
  terminator := settings.terminator
  policy := settings.policy
  nullSucceedsAtFirstCall := settings.nullSucceedsAtFirstCall
  decomposer := settings.decomposer

/-- The settings of the sequence relation at each level. -/
def mapSettings (settings : WalkSettings Base) : MapSettings where
  terminator := settings.terminator
  nullSucceedsAtFirstCall := settings.nullSucceedsAtFirstCall
  anySucceeded := false

/-- The settings as a message shows them; the decomposer is left out. -/
def text (settings : WalkSettings Base) : String :=
  "WalkConfig \x7b operator_relation: " ++
    truthText settings.operatorRelation.isSome ++
    ", terminator: " ++ settings.terminator.text ++
    ", policy: " ++ settings.policy.text ++
    ", null_succeeds_at_first_call: " ++
    truthText settings.nullSucceedsAtFirstCall ++ " \x7d"

end WalkSettings

end RelationalSearch
