import RelationalSearch.Script.Term
import RelationalSearch.Subst.Reify
import RelationalSearch.Subst.Unify

/-!
# Named substitutions

A script may keep substitutions in named slots, make new ones of them, and ask
about them.  A step that fails leaves the slots as they are.
-/

namespace RelationalSearch

/-- Substitutions by name, the latest first. -/
abbrev Slots := List (String × Subst)

/-- A step on slots. -/
inductive SlotStep where
  | new (target : String)
  | copy (target source : String)
  | extend (target source : String) (x value : TermScript)
  | unify (target source : String) (left right : TermScript)
  | walk (source : String) (term : TermScript)
  | reify (source : String) (term : TermScript)
  | occurs (source : String) (x term : TermScript)
  | size (source : String)
  | isEmpty (source : String)

/-- The answer to a step. -/
inductive SlotReply where
  | truth (value : Bool)
  | term (term : Term)
  | count (value : Nat)

namespace Slots

/-- Keeps the outcome of a step, if there is one, and says whether there is. -/
def keep
    (slots : Slots)
    (target : String)
    (outcome : Option Subst) : SlotReply × Slots :=
  match outcome with
  | some subst => (.truth true, (target, subst) :: slots)
  | none => (.truth false, slots)

/--
Takes a step.  There is no answer if a slot has nothing in it, or if what has
to be a variable is not one.
-/
def perform
    (slots : Slots)
    (scope : Scope) : SlotStep → Option (SlotReply × Slots)
  | .new target => some (slots.keep target (some ∅))
  | .copy target source => do
    let subst ← slots.lookup source
    some (slots.keep target (some subst))
  | .extend target source x value => do
    let subst ← slots.lookup source
    let x ← (x.instantiate scope).asVar?
    some (slots.keep target (subst.extend? x (value.instantiate scope)))
  | .unify target source left right => do
    let subst ← slots.lookup source
    some (slots.keep target
      (subst.unify (left.instantiate scope) (right.instantiate scope)))
  | .walk source term => do
    let subst ← slots.lookup source
    some (.term (subst.walk (term.instantiate scope)), slots)
  | .reify source term => do
    let subst ← slots.lookup source
    some (.term (subst.reify (term.instantiate scope)), slots)
  | .occurs source x term => do
    let subst ← slots.lookup source
    let x ← (x.instantiate scope).asVar?
    some (.truth (subst.occurs x (term.instantiate scope)), slots)
  | .size source => do
    let subst ← slots.lookup source
    some (.count subst.size, slots)
  | .isEmpty source => do
    let subst ← slots.lookup source
    some (.truth subst.isEmpty, slots)

/-- Takes steps one after another. -/
def performAll
    (slots : Slots)
    (scope : Scope) : List SlotStep → Option (List SlotReply)
  | [] => some []
  | step :: steps => do
    let (reply, slots) ← slots.perform scope step
    let replies ← slots.performAll scope steps
    some (reply :: replies)

end Slots

end RelationalSearch
