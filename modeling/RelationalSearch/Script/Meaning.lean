import RelationalSearch.Relation.Reach
import RelationalSearch.Script.Goal

/-!
# The meaning of scripts

Building a script's goal reads its names off the scope and builds its parts at
once, from left to right.  What is put off is kept as a closure, the script
with the scope in which it stands.

A definition that calls itself without putting the call off has no finite goal.
Building therefore goes down to a given depth of nested scripts and calls;
whatever lies below it fails.
-/

namespace RelationalSearch

/-- A relation and the scope in which it stands. -/
structure RelationClosure where
  scope : Scope
  relation : RelationScript

/-- A goal and the scope in which it stands. -/
structure GoalClosure where
  scope : Scope
  goal : GoalScript

/-- A goal that may put off goals of the library and of a script. -/
abbrev ScriptedGoal := CodedGoal RelationClosure GoalClosure

/-- How goals are built in a scope. -/
abbrev GoalBuilder := Scope → GoalScript → Recipe ScriptedGoal

namespace Definitions

/-- The body of a definition, with the arguments for its parameters only. -/
def call
    (definitions : Definitions)
    (build : GoalBuilder)
    (name : String)
    (arguments : List Term) : Recipe ScriptedGoal :=
  match definitions.lookup name with
  | some definition =>
    build (definition.parameters.zip arguments).reverse definition.body
  | none => pure .fail

/-- The goal that a step of arithmetic leads from one term to another. -/
def arithmetic
    (operation : Arithmetic)
    (operand : Int64)
    (input output : Term) : ScriptedGoal :=
  .dynamic fun subst =>
    .done <|
      match subst.reify input with
      | .int value =>
        match operation.step operand value with
        | some result => .eq output (.int result)
        | none => .fail
      | _ => .fail

/-- The goal that a relation makes of two terms. -/
def relate
    (definitions : Definitions)
    (build : GoalBuilder)
    (closure : RelationClosure)
    (first second : Term) : Recipe ScriptedGoal :=
  match closure.relation with
  | .same => pure (.eq first second)
  | .never => pure .fail
  | .always => pure .succeed
  | .arithmetic operation operand =>
    pure (arithmetic operation operand first second)
  | .named name => definitions.call build name [first, second]
  | .abstraction firstName secondName body =>
    build ((secondName, second) :: (firstName, first) :: closure.scope) body

/-- The meaning of closures, given how goals are built. -/
def programOver
    (definitions : Definitions)
    (build : GoalBuilder) : Program RelationClosure GoalClosure where
  relation := definitions.relate build
  custom closure := build closure.scope closure.goal

/-- The name of a relation in a scope. -/
def relationIn (scope : Scope) : RelationScript → Relation RelationClosure
  | .always => .always
  | relation => .base ⟨scope, relation⟩

/-- Adds new variables to a scope, under names and in their order. -/
def freshScope (scope : Scope) : List String → Recipe Scope
  | [] => pure scope
  | name :: names => do
    let term ← Recipe.freshTerm name
    freshScope ((name, term) :: scope) names

/-- Builds the goal of a script, down to a given depth. -/
def goal (definitions : Definitions) : Nat → GoalBuilder
  | 0, _, _ => pure .fail
  | depth + 1, scope, script =>
    let build : GoalBuilder := goal definitions depth
    match script with
    | .eq left right =>
      pure (.eq (left.instantiate scope) (right.instantiate scope))
    | .succeed => pure .succeed
    | .fail => pure .fail
    | .all goals => return .all (← goals.mapM (build scope))
    | .any branches => return .any (← branches.mapM (·.mapM (build scope)))
    | .anyInOrder branches =>
      return .anyInOrder (← branches.mapM (·.mapM (build scope)))
    | .defer goal => pure (.defer (.custom ⟨scope, goal⟩))
    | .cons head tail whole =>
      pure (.cons (head.instantiate scope) (tail.instantiate scope)
        (whole.instantiate scope))
    | .allEmpty terms kind =>
      pure (.allEmpty (TermScript.instantiateAll scope terms) kind)
    | .application decomposer operator operands whole =>
      pure (.application decomposer (operator.instantiate scope)
        (operands.instantiate scope) (whole.instantiate scope))
    | .map policy relation first second settings =>
      policy.map (relationIn scope relation) (first.instantiate scope)
        (second.instantiate scope) settings
    | .sameLength first second kind =>
      RelationalSearch.sameLength (first.instantiate scope)
        (second.instantiate scope) kind
    | .reach relation input output =>
      pure ((definitions.programOver build).reach (relationIn scope relation)
        (input.instantiate scope) (output.instantiate scope))
    | .walk node graphIn graphOut settings =>
      pure ((definitions.programOver build).walk ⟨scope, node⟩
        (settings.map fun relation => ⟨scope, relation⟩)
        (graphIn.instantiate scope) (graphOut.instantiate scope))
    | .arithmetic operation operand input output =>
      pure (arithmetic operation operand (input.instantiate scope)
        (output.instantiate scope))
    | .fresh names goal => do
      let inner ← freshScope scope names
      build inner goal
    | .call name arguments =>
      definitions.call build name (TermScript.instantiateAll scope arguments)
    | .note event => pure (.noting event)
    | .built event goal => .note event (build scope goal)
    | .byShape term cases otherwise =>
      let term := term.instantiate scope
      pure (.dynamic fun subst =>
        build scope ((cases.lookup (subst.walk term).form).getD otherwise))
    | .ifEqual left right equal different =>
      let left := left.instantiate scope
      let right := right.instantiate scope
      pure (.dynamic fun subst =>
        if subst.reify left = subst.reify right then
          build scope equal
        else
          build scope different)
    | .ifGround term ground notGround =>
      let term := term.instantiate scope
      pure (.dynamic fun subst =>
        if (subst.reify term).isGround then
          build scope ground
        else
          build scope notGround)

/-- The depth to which goals of scripts are built. -/
def depth : Nat := 1000000000000

/-- Builds the goal of a script. -/
def build (definitions : Definitions) : GoalBuilder :=
  definitions.goal depth

/-- The meaning of the closures of a script. -/
def program
    (definitions : Definitions) : Program RelationClosure GoalClosure :=
  definitions.programOver definitions.build

end Definitions

end RelationalSearch
