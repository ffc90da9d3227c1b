import RelationalSearch.Relation.Settings
import RelationalSearch.Script.Arithmetic
import RelationalSearch.Script.Term

/-!
# Goals and relations in scripts

A script writes goals with names in them: names of terms, and names of
definitions, which have parameters and a body.
-/

namespace RelationalSearch

/-- The forms of terms that a script can tell apart. -/
inductive TermShape where
  | var
  | int
  | sym
  | cons
  | nil
  deriving DecidableEq, Repr

/-- The form of a term. -/
def Term.form : Term → TermShape
  | .var _ => .var
  | .int _ => .int
  | .sym _ => .sym
  | .cons _ _ => .cons
  | .nil _ => .nil

mutual

/-- A goal with names in it. -/
inductive GoalScript where
  | eq (left right : TermScript)
  | succeed
  | fail
  /-- All goals hold. -/
  | all (goals : List GoalScript)
  /-- All goals of one branch hold; branches take turns. -/
  | any (branches : List (List GoalScript))
  /-- All goals of one branch hold; branches wait for the ones before. -/
  | anyInOrder (branches : List (List GoalScript))
  /-- The goal is built when a suspension is forced. -/
  | defer (goal : GoalScript)
  | cons (head tail whole : TermScript)
  | allEmpty (terms : List TermScript) (kind : SeqKind)
  | application
    (decomposer : Decomposer)
    (operator operands whole : TermScript)
  | map
    (policy : MapPolicy)
    (relation : RelationScript)
    (first second : TermScript)
    (settings : MapSettings)
  | sameLength (first second : TermScript) (kind : SeqKind)
  | reach (relation : RelationScript) (input output : TermScript)
  | walk
    (node : RelationScript)
    (graphIn graphOut : TermScript)
    (settings : WalkSettings RelationScript)
  /-- A step of arithmetic leads from the one term to the other. -/
  | arithmetic
    (operation : Arithmetic)
    (operand : Int64)
    (input output : TermScript)
  /-- The goal holds, with new variables for the names. -/
  | fresh (names : List String) (goal : GoalScript)
  /-- The body of a definition holds for the arguments. -/
  | call (definition : String) (arguments : List TermScript)
  /-- Holds, and notes the event when it is applied. -/
  | note (event : String)
  /-- The goal, with an event noted when it is built. -/
  | built (event : String) (goal : GoalScript)
  /-- The goal for the form that the term has when this is applied. -/
  | byShape
    (term : TermScript)
    (cases : List (TermShape × GoalScript))
    (otherwise : GoalScript)
  /-- The one goal or the other, as the terms are equal when this is applied. -/
  | ifEqual (left right : TermScript) (equal different : GoalScript)
  /-- The one goal or the other, as the term is ground when this is applied. -/
  | ifGround (term : TermScript) (ground notGround : GoalScript)

/-- A relation between two terms with names in it. -/
inductive RelationScript where
  | same
  | never
  | always
  | arithmetic (operation : Arithmetic) (operand : Int64)
  /-- The body of a definition holds for the two terms. -/
  | named (definition : String)
  /-- The goal holds with the two terms for the two names. -/
  | abstraction (first second : String) (body : GoalScript)

end

/-- A goal with parameters. -/
structure Definition where
  parameters : List String
  body : GoalScript

/-- The definitions of a script, by name. -/
abbrev Definitions := List (String × Definition)

end RelationalSearch
