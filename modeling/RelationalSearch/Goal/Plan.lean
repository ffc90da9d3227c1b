import RelationalSearch.Goal.Basic
import RelationalSearch.Stream.Advance
import RelationalSearch.Subst.Reify

/-!
# Applying goals

Applying a goal to a substitution gives the stream of the substitutions that
extend it and satisfy the goal (`Goal.apply`).  The work left in such a stream
is a `Plan`: it says how a stream is made, and is carried out by `Plan.build`.
Plans are also how a caller puts streams together.

Two orders show in the variables that are minted and in the journal.  Of
`Goal.either` the right goal is applied before the left one, though the results
of the left one come first.  Of `Goal.both` the second goal is applied to the
results of the first one in their order.
-/

namespace RelationalSearch

/-- How a stream of substitutions is made. -/
inductive Plan (Code : Type) where
  /-- The stream without results. -/
  | empty
  /-- The stream of one substitution. -/
  | unit (subst : Subst)
  /-- A goal applied to a substitution. -/
  | apply (goal : Goal Code) (subst : Subst)
  /-- A goal that is yet to be built, applied to a substitution. -/
  | make (recipe : Recipe (Goal Code)) (subst : Subst)
  /-- The goal of a code, applied to a substitution. -/
  | deferred (code : Code) (subst : Subst)
  /-- Notes an event first. -/
  | note (event : String) (plan : Plan Code)
  /-- A plan that is not worked out before it is carried out. -/
  | later (plan : Unit → Plan Code)
  /-- A suspension of the stream. -/
  | suspend (plan : Plan Code)
  /-- Two streams that take turns. -/
  | merge (left right : Plan Code)
  /-- A stream, and a second one made when the first has ended. -/
  | append (first second : Plan Code)
  /-- A stream whose results are fed to a goal. -/
  | bind (plan : Plan Code) (recipe : Recipe (Goal Code))

/-- The stream of the substitutions that satisfy a goal. -/
abbrev Results (Code : Type) := Stream (Plan Code) (Goal Code) Subst

variable {Code : Type}

mutual

/-- The extensions of a substitution that satisfy a goal. -/
def Goal.apply : Goal Code → Subst → Search (Results Code)
  | .eq left right, subst =>
    match subst.unify left right with
    | some extended => pure (.unit extended)
    | none => pure .empty
  | .succeed, subst => pure (.unit subst)
  | .fail, _ => pure .empty
  | .both first second, subst => do
    let stream ← first.apply subst
    stream.andThen second.apply second
  | .either left right, subst => do
    let last ← right.apply subst
    let front ← left.apply subst
    pure (front.interleave last)
  | .ordered left right, subst => do
    let stream ← left.apply subst
    stream.before (right.apply subst) (.apply right subst)
  | .defer code, subst => pure (.suspended (.deferred code subst))
  | .dynamic builder, subst => applyRecipe (builder subst) subst

/-- Builds a goal and applies it. -/
def applyRecipe : Recipe (Goal Code) → Subst → Search (Results Code)
  | .done goal, subst => goal.apply subst
  | .mint name next, subst => do
    let x ← Session.fresh name
    applyRecipe (next x) subst
  | .note event next, subst => do
    Session.note event
    applyRecipe next subst

end

theorem applyRecipe_eq
    (recipe : Recipe (Goal Code))
    (subst : Subst) :
    applyRecipe recipe subst = recipe.run >>= fun goal => goal.apply subst := by
  induction recipe with
  | done goal => simp [applyRecipe]
  | mint name next hypothesis => simp [applyRecipe, Recipe.run, hypothesis]
  | note event next hypothesis => simp [applyRecipe, Recipe.run, hypothesis]

/-- Carries out a plan; `unfold` says what goals the codes stand for. -/
def Plan.build (unfold : Code → Recipe (Goal Code)) :
    Plan Code → Search (Results Code)
  | .empty => pure .empty
  | .unit subst => pure (.unit subst)
  | .apply goal subst => goal.apply subst
  | .make recipe subst => applyRecipe recipe subst
  | .deferred code subst => applyRecipe (unfold code) subst
  | .note event plan => do
    Session.note event
    build unfold plan
  | .later plan => build unfold (plan ())
  | .suspend plan => pure (.suspended plan)
  | .merge left right => do
    let front ← build unfold left
    let last ← build unfold right
    pure (front.interleave last)
  | .append first second => do
    let stream ← build unfold first
    stream.before (build unfold second) second
  | .bind plan recipe => do
    let stream ← build unfold plan
    let goal ← recipe.run
    stream.andThen goal.apply goal

/-- The meaning of the work in a stream of substitutions. -/
def searchEngine (unfold : Code → Recipe (Goal Code)) :
    Engine Search (Plan Code) (Goal Code) Subst where
  force := Plan.build unfold
  feed := Goal.apply

/--
The first `count` answers of a goal: what the query stands for in each
substitution found.  At most `effort` pieces of work are done for each answer.
-/
def Goal.answers
    (unfold : Code → Recipe (Goal Code))
    (effort count : Nat)
    (query : Term)
    (goal : Goal Code) : Search (List Term) := do
  let stream ← goal.apply ∅
  let found ← stream.take (searchEngine unfold) effort count
  pure (found.map fun subst => subst.reify query)

end RelationalSearch
