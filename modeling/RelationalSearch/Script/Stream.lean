import RelationalSearch.Script.Meaning

/-!
# Streams in scripts

A script may put streams together by hand.  Its stream becomes a plan, and
pulling at what the plan makes is reported one pull at a time, each with the
events since the report before.
-/

namespace RelationalSearch

/-- Variables and the terms to which they are bound, one after another. -/
abbrev BindingScript := List (TermScript × TermScript)

/-- A stream with names in it. -/
inductive StreamScript where
  | empty
  /-- The one substitution that has the bindings. -/
  | unit (bindings : BindingScript)
  /-- A suspension, which notes the event when it is forced. -/
  | suspend (event : Option String) (stream : StreamScript)
  | merge (left right : StreamScript)
  /-- A second stream after the first, with an event noted between them. -/
  | append
    (first : StreamScript)
    (event : Option String)
    (second : StreamScript)
  | bind (stream : StreamScript) (goal : GoalScript)
  /-- The substitutions that satisfy the goal. -/
  | goal (goal : GoalScript)
  /-- Those of them that have the bindings. -/
  | goalFrom (bindings : BindingScript) (goal : GoalScript)

/-- Extends a substitution by bindings, unless one of them is refused. -/
def Subst.extendAll?
    (subst : Subst)
    (scope : Scope) : BindingScript → Option Subst
  | [] => some subst
  | (name, value) :: bindings => do
    let x ← (name.instantiate scope).asVar?
    let extended ← subst.extend? x (value.instantiate scope)
    extended.extendAll? scope bindings

namespace StreamScript

/-- What scripted goals put off. -/
abbrev ScriptCode := Code RelationClosure GoalClosure

/-- Notes an event before a plan is carried out, if there is one. -/
def noting (event : Option String) (plan : Plan ScriptCode) : Plan ScriptCode :=
  match event with
  | some text => .note text plan
  | none => plan

/--
How the stream is made; it is empty where a binding is refused.  What is put off
is not worked out before its time: it may be a goal that can not be built.
-/
def plan
    (definitions : Definitions)
    (scope : Scope) : StreamScript → Plan ScriptCode
  | empty => .empty
  | unit bindings =>
    match Subst.empty.extendAll? scope bindings with
    | some subst => .unit subst
    | none => .empty
  | suspend event stream =>
    .suspend (.later fun _ => noting event (stream.plan definitions scope))
  | merge left right =>
    .merge (left.plan definitions scope) (right.plan definitions scope)
  | append first event second =>
    .append (first.plan definitions scope)
      (.later fun _ => noting event (second.plan definitions scope))
  | bind stream script =>
    .bind (stream.plan definitions scope) (definitions.build scope script)
  | goal script => .make (definitions.build scope script) ∅
  | goalFrom bindings script =>
    match Subst.empty.extendAll? scope bindings with
    | some subst => .make (definitions.build scope script) subst
    | none => .empty

end StreamScript

/-- What is reported of a pull at a stream. -/
inductive PullReport where
  /-- What the query stands for, the number of bindings, and the events. -/
  | found (term : Term) (size : Nat) (events : List String)
  /-- The end of the stream, and the events. -/
  | ended (events : List String)

namespace Definitions

/--
The pieces of work that are done for one result, before the stream is taken to
have ended.
-/
def effort : Nat := 1000000000000000000

/--
Reports `count` pulls, or stops at the end of the stream if `untilEnd` is set.
-/
def pulls
    (definitions : Definitions)
    (query : Term)
    (untilEnd : Bool) :
    Nat → Results StreamScript.ScriptCode → Search (List PullReport)
  | 0, _ => pure []
  | count + 1, stream => do
    match ← stream.pull definitions.program.engine effort with
    | .result subst rest =>
      let events ← Session.takeJournal
      let reports ← pulls definitions query untilEnd count rest
      pure (.found (subst.reify query) subst.size events :: reports)
    | _ =>
      let events ← Session.takeJournal
      if untilEnd then
        pure [.ended events]
      else
        let reports ← pulls definitions query untilEnd count .empty
        pure (.ended events :: reports)

/-- The first answers of a scripted goal, or all of them. -/
def answers
    (definitions : Definitions)
    (count : Option Nat)
    (query : Term)
    (goal : ScriptedGoal) : Search (List Term) :=
  goal.answers definitions.program.unfold effort (count.getD effort) query

end Definitions

end RelationalSearch
