import RelationalSearch.Goal.Plan
import RelationalSearch.Proofs.Search.Place
import RelationalSearch.Proofs.Stream.Map

/-!
# Located searches

The search of the library runs in a session, and so the variables that one
branch mints depend on what other branches have done before.  In a located
search each piece of waiting work knows its place instead, and the variables
that are minted follow from the place and from the gaps.  A located search has
no state: its branches do not see each other.

Its streams are those of the library with places added, and it runs on the same
engine.
-/

namespace RelationalSearch

variable {Code : Type}

/-- The suspended work that the application of a goal leaves. -/
inductive Task (Code : Type) where
  | apply (goal : Goal Code) (subst : Subst)
  | deferred (code : Code) (subst : Subst)

/-- The plan that a task stands for. -/
def Task.plan : Task Code → Plan Code
  | apply goal subst => .apply goal subst
  | deferred code subst => .deferred code subst

/-- Streams whose work and results know their places. -/
abbrev Branches (Code : Type) :=
  Stream (Located (Task Code)) (Goal Code) (Located Subst)

namespace Stream

/-- The stream without the places. -/
def erase (stream : Branches Code) : Results Code :=
  stream.map (fun task => task.value.plan) Located.value

/-- The places of the work and of the results. -/
def places (stream : Branches Code) : List Place :=
  stream.leaves Located.place Located.place

theorem erase_interleave (left right : Branches Code) :
    (left.interleave right).erase = left.erase.interleave right.erase :=
  map_interleave _ _ left right

theorem places_interleave (left right : Branches Code) :
    (left.interleave right).places = left.places ++ right.places :=
  leaves_interleave _ _ left right

theorem erase_enqueue
    (queue : Queue (Located (Task Code)))
    (stream : Branches Code) :
    (enqueue queue stream).erase =
      enqueue (queue.map fun task => task.value.plan) stream.erase :=
  map_enqueue _ _ queue stream

theorem places_enqueue
    (queue : Queue (Located (Task Code)))
    (stream : Branches Code) :
    (enqueue queue stream).places =
      stream.places ++ queue.toList.map Located.place :=
  leaves_enqueue _ _ queue stream

end Stream

/-! ## Applying goals -/

mutual

/-- The extensions of a substitution that satisfy a goal, with their places. -/
def Goal.explore (gaps : Gaps) :
    Goal Code → Located Subst → Branches Code
  | .eq left right, start =>
    match start.value.unify left right with
    | some extended => .unit ⟨start.place, extended⟩
    | none => .empty
  | .succeed, start => .unit start
  | .fail, _ => .empty
  | .both first second, start =>
    Stream.andThen (m := Id) (second.explore gaps) second
      (first.explore gaps start)
  | .either left right, start =>
    (left.explore gaps ⟨start.place.left, start.value⟩).interleave
      (right.explore gaps ⟨start.place.right, start.value⟩)
  | .ordered left right, start =>
    Stream.before (m := Id)
      (right.explore gaps ⟨start.place.right, start.value⟩)
      ⟨start.place.right, .apply right start.value⟩
      (left.explore gaps ⟨start.place.left, start.value⟩)
  | .defer code, start => .suspended ⟨start.place, .deferred code start.value⟩
  | .dynamic builder, start =>
    exploreRecipe gaps (builder start.value) (start.place.opening gaps)
      start

/-- Builds a goal, minting from the supply on, and applies it. -/
def exploreRecipe (gaps : Gaps) :
    Recipe (Goal Code) → Nat → Located Subst → Branches Code
  | .done goal, supply, start =>
    goal.explore gaps ⟨start.place.built supply, start.value⟩
  | .mint _ next, supply, start =>
    exploreRecipe gaps (next ⟨supply⟩) (supply + 1) start
  | .note _ next, supply, start => exploreRecipe gaps next supply start

end

theorem exploreRecipe_eq
    (gaps : Gaps)
    (recipe : Recipe (Goal Code))
    (supply : Nat)
    (start : Located Subst) :
    exploreRecipe gaps recipe supply start =
      (recipe.made supply).1.explore gaps
        ⟨start.place.built (recipe.made supply).2, start.value⟩ := by
  induction recipe generalizing supply with
  | done goal => rw [exploreRecipe]; rfl
  | mint name next ih => rw [exploreRecipe, ih]; rfl
  | note event next ih => rw [exploreRecipe, ih]; rfl

/-- A substitution at the place of the goal that is built for it. -/
def Located.enter
    (gaps : Gaps)
    (recipe : Recipe (Goal Code))
    (start : Located Subst) : Located Subst :=
  ⟨start.place.built (recipe.made (start.place.opening gaps)).2, start.value⟩

/-- The goal that a recipe makes at the place of a substitution. -/
def Recipe.goalAt
    (gaps : Gaps)
    (recipe : Recipe (Goal Code))
    (start : Located Subst) : Goal Code :=
  (recipe.made (start.place.opening gaps)).1

theorem Goal.explore_dynamic
    (gaps : Gaps)
    (builder : Subst → Recipe (Goal Code))
    (start : Located Subst) :
    (Goal.dynamic builder).explore gaps start =
      ((builder start.value).goalAt gaps start).explore gaps
        (start.enter gaps (builder start.value)) := by
  rw [Goal.explore, exploreRecipe_eq]
  rfl

/-- Carries out a task. -/
def Task.explore
    (goalOf : Code → Recipe (Goal Code))
    (gaps : Gaps)
    (task : Located (Task Code)) : Branches Code :=
  match task.value with
  | .apply goal subst => goal.explore gaps ⟨task.place, subst⟩
  | .deferred code subst =>
    ((goalOf code).goalAt gaps ⟨task.place, subst⟩).explore gaps
      (Located.enter gaps (goalOf code) ⟨task.place, subst⟩)

/-- The meaning of the work in a located stream. -/
def locatedEngine
    (goalOf : Code → Recipe (Goal Code))
    (gaps : Gaps) :
    Engine Id (Located (Task Code)) (Goal Code) (Located Subst) where
  force := Task.explore goalOf gaps
  feed := Goal.explore gaps

namespace Branches

/-- Does one piece of work. -/
def advance
    (goalOf : Code → Recipe (Goal Code))
    (gaps : Gaps)
    (stream : Branches Code) : Branches Code :=
  Stream.advance (locatedEngine goalOf gaps) stream

/-- Feeds the results that are ready to a goal, and puts off the others. -/
def andThen
    (gaps : Gaps)
    (goal : Goal Code)
    (stream : Branches Code) : Branches Code :=
  Stream.andThen (m := Id) (goal.explore gaps) goal stream

/-- A stream followed by what the queued tasks give. -/
def followedBy
    (goalOf : Code → Recipe (Goal Code))
    (gaps : Gaps)
    (stream : Branches Code)
    (queue : Queue (Located (Task Code))) : Branches Code :=
  Stream.followedBy (m := Id) (Task.explore goalOf gaps) stream queue

section Equations

variable (goalOf : Code → Recipe (Goal Code)) (gaps : Gaps)

@[simp]
theorem advance_suspended (task : Located (Task Code)) :
    advance goalOf gaps (.suspended task) = Task.explore goalOf gaps task :=
  Stream.advance_suspended (locatedEngine goalOf gaps) task

@[simp]
theorem advance_merge (left right : Branches Code) :
    advance goalOf gaps (.merge left right) =
      right.interleave (advance goalOf gaps left) :=
  Stream.advance_merge (locatedEngine goalOf gaps) left right

@[simp]
theorem advance_bind (inner : Branches Code) (goal : Goal Code) :
    advance goalOf gaps (.bind inner goal) =
      andThen gaps goal (advance goalOf gaps inner) :=
  Stream.advance_bind (locatedEngine goalOf gaps) inner goal

theorem advance_append_of_isReady
    {inner : Branches Code}
    (worked : inner.isReady = true)
    (queue : Queue (Located (Task Code))) :
    advance goalOf gaps (.append inner queue) =
      followedBy goalOf gaps inner queue :=
  Stream.advance_append_of_isReady (locatedEngine goalOf gaps) worked queue

theorem advance_append_of_pending
    {inner : Branches Code}
    (pending : inner.isReady = false)
    (queue : Queue (Located (Task Code))) :
    advance goalOf gaps (.append inner queue) =
      followedBy goalOf gaps (advance goalOf gaps inner) queue :=
  Stream.advance_append_of_pending (locatedEngine goalOf gaps) pending queue

end Equations

/-- Takes the result at the front, or else does one piece of work. -/
def step
    (goalOf : Code → Recipe (Goal Code))
    (gaps : Gaps)
    (stream : Branches Code) : Branches Code :=
  Stream.step (locatedEngine goalOf gaps) stream

@[simp]
theorem step_empty (goalOf : Code → Recipe (Goal Code)) (gaps : Gaps) :
    step goalOf gaps .empty = .empty :=
  Stream.step_empty (locatedEngine goalOf gaps)

@[simp]
theorem step_ready
    (goalOf : Code → Recipe (Goal Code))
    (gaps : Gaps)
    (result : Located Subst)
    (rest : Branches Code) :
    step goalOf gaps (.ready result rest) = rest :=
  rfl

theorem step_of_pending
    (goalOf : Code → Recipe (Goal Code))
    (gaps : Gaps)
    {stream : Branches Code}
    (pending : stream.shape = .pending) :
    step goalOf gaps stream = advance goalOf gaps stream :=
  Stream.step_of_pending (locatedEngine goalOf gaps) pending

/-- The streams from a stream on. -/
def stagesFrom
    (goalOf : Code → Recipe (Goal Code))
    (gaps : Gaps)
    (stream : Branches Code)
    (time : Nat) : Branches Code :=
  (step goalOf gaps)^[time] stream

theorem stagesFrom_succ
    (goalOf : Code → Recipe (Goal Code))
    (gaps : Gaps)
    (stream : Branches Code) :
    (fun time => stagesFrom goalOf gaps stream (time + 1)) =
      stagesFrom goalOf gaps (step goalOf gaps stream) :=
  rfl

end Branches

end RelationalSearch
