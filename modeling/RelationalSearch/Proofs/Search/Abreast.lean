import RelationalSearch.Proofs.Search.Companion
import RelationalSearch.Proofs.Search.Parallel
import RelationalSearch.Proofs.Stream.Abreast

/-!
# Matching searches in their sessions

Where the located searches of two goals match whatever the gaps
(`Goal.Matches`), the searches of the library are worked off in step, each in
its session (`Goal.Matches.abreast`).

At every moment of such a search the states that are live, be they results or
substitutions about which there is work to do, hold variables below the supply
of the session only (`Goal.Matches.live_within`).  So the variables minted from
then on are in none of them.
-/

namespace RelationalSearch

variable {Code : Type}

/-! ## Live states -/

/-- The substitutions that a plan is about. -/
def Plan.states : Plan Code → List Subst
  | empty => []
  | unit subst => [subst]
  | apply _ subst => [subst]
  | make _ subst => [subst]
  | deferred _ subst => [subst]
  | note _ plan => states plan
  | later plan => states (plan ())
  | suspend plan => states plan
  | merge left right => states left ++ states right
  | append first second => states first ++ states second
  | bind plan _ => states plan

/-- The results in a stream, and the substitutions that its work is about. -/
def Stream.live (stream : Results Code) : List Subst :=
  (stream.leaves Plan.states fun subst => [subst]).flatten

namespace Branches

theorem live_erase (stream : Branches Code) :
    (Stream.erase stream).live = stream.states.map Located.value := by
  have about (task : Located (Task Code)) :
      task.value.plan.states = [task.state.value] := by
    rcases task with ⟨place, _ | _⟩ <;> rfl
  rw [Stream.live, Stream.erase, Stream.leaves_map, states, Stream.map_leaves]
  simp only [about, id]
  rw [← Stream.map_leaves _ _ fun value => [value], ← List.flatMap_def,
    List.flatMap_singleton']

theorem map_place_states (stream : Branches Code) :
    stream.states.map Located.place = Stream.places stream := by
  have at_place (task : Located (Task Code)) :
      task.state.place = task.place := by
    rcases task with ⟨place, _ | _⟩ <;> rfl
  rw [states, Stream.map_leaves, Stream.places]
  simp only [at_place, id]

end Branches

/-! ## Matching searches -/

/-- The substitutions are those of related results. -/
def Correlation.values (results : Correlation) (found other : Subst) : Prop :=
  ∃ result otherResult,
    results result otherResult ∧
      result.value = found ∧ otherResult.value = other

/-- Whatever the gaps, the located searches match as far as one may like. -/
def Goal.Matches
    (goalOf : Code → Recipe (Goal Code))
    (results : Correlation)
    (goal other : Goal Code)
    (start otherStart : Located Subst) : Prop :=
  ∀ gaps otherGaps depth,
    Branches.MatchedTo goalOf gaps otherGaps depth results
      (goal.explore gaps start) (other.explore otherGaps otherStart)

section Matches

variable {goalOf : Code → Recipe (Goal Code)} {results : Correlation}
  {goal other : Goal Code} {subst otherSubst : Subst}
  {session otherSession : Session}

/-- Matching searches are worked off in step. -/
theorem Goal.Matches.abreast
    (matching :
      Goal.Matches goalOf results goal other (.root subst session)
        (.root otherSubst otherSession)) :
    Stream.Abreast (searchEngine goalOf) results.values
      ((goal.apply subst).run session)
      ((other.apply otherSubst).run otherSession) := by
  rcases Gaps.exists_fit goalOf goal subst session with ⟨gaps, fit⟩
  rcases Gaps.exists_fit goalOf other otherSubst otherSession with
    ⟨otherGaps, otherFit⟩
  have stages (time : Nat) := (matching gaps otherGaps (0 + time)).stagesFrom
  constructor
  · intro time
    rw [fit.stages, otherFit.stages, Stream.erase, Stream.erase,
      Stream.shape_map, Stream.shape_map]
    exact (stages time).shape_eq
  · intro time
    rw [fit.stages, otherFit.stages, Stream.erase, Stream.erase,
      Stream.front_map, Stream.front_map, List.forall₂_map_left_iff,
      List.forall₂_map_right_iff]
    exact (stages time).front.imp fun result otherResult related =>
      ⟨result, otherResult, related, rfl, rfl⟩

/-- What is live is held, if it is in the located searches. -/
theorem Goal.live_within_of_held
    (held :
      ∀ gaps time,
        ∀ state ∈
            Branches.states (Branches.stagesFrom goalOf gaps
              (goal.explore gaps (.root subst session)) time),
          state.Held)
    (time : Nat) :
    ∀ state ∈ (goal.momentAt goalOf subst session time).1.live,
      state.Within (goal.momentAt goalOf subst session time).2.supply := by
  rcases Gaps.exists_fit_below goalOf goal subst session with
    ⟨gaps, fit, below⟩
  intro state member
  change state ∈ (Stream.stagesFrom (searchEngine goalOf) _ time).live at member
  rw [fit.stages, Branches.live_erase] at member
  rcases List.mem_map.mp member with ⟨here, inside, rfl⟩
  refine (held gaps time here inside).mono (below time here.place ?_)
  rw [← Branches.map_place_states]
  exact List.mem_map_of_mem inside

/-- All variables in live states have been minted before. -/
theorem Goal.Matches.live_within
    (matching :
      Goal.Matches goalOf results goal other (.root subst session)
        (.root otherSubst otherSession))
    (time : Nat) :
    (∀ state ∈ (goal.momentAt goalOf subst session time).1.live,
        state.Within (goal.momentAt goalOf subst session time).2.supply) ∧
      ∀ state ∈ (other.momentAt goalOf otherSubst otherSession time).1.live,
        state.Within
          (other.momentAt goalOf otherSubst otherSession time).2.supply := by
  have held (gaps : Gaps) (time : Nat) :=
    Branches.Matched.states_held (fun tasks => tasks.held)
      (matching gaps gaps (0 + time)).stagesFrom
  constructor
  · refine Goal.live_within_of_held (fun gaps time state inside => ?_) time
    rcases exists_mem_of_forall₂ (held gaps time).flip inside with ⟨_, _, both⟩
    exact both.1
  · refine Goal.live_within_of_held (fun gaps time state inside => ?_) time
    rcases exists_mem_of_forall₂ (held gaps time) inside with ⟨_, _, both⟩
    exact both.2

end Matches

/-! ## Goals that are built first -/

section Built

variable (goalOf : Code → Recipe (Goal Code)) (recipe : Recipe (Goal Code))
  (subst : Subst)

/-- The moment after some steps of the search of the goal that is built. -/
def Recipe.momentAt (session : Session) (time : Nat) :
    Stream.Moment (Plan Code) (Goal Code) Subst :=
  (recipe.run.run session).1.momentAt goalOf subst (recipe.run.run session).2
    time

/--
The first `count` results of the goal that is built.  At most `effort` pieces of
work are done for each.
-/
def Recipe.results (effort count : Nat) : Search (List Subst) := do
  let goal ← recipe.run
  let stream ← goal.apply subst
  stream.take (searchEngine goalOf) effort count

end Built

/-- The goals that are built have matching searches. -/
def Recipe.Matches
    (goalOf : Code → Recipe (Goal Code))
    (results : Correlation)
    (recipe other : Recipe (Goal Code))
    (subst otherSubst : Subst)
    (session otherSession : Session) : Prop :=
  Goal.Matches goalOf results (recipe.run.run session).1
    (other.run.run otherSession).1
    (.root subst (recipe.run.run session).2)
    (.root otherSubst (other.run.run otherSession).2)

section Built

variable {goalOf : Code → Recipe (Goal Code)} {results : Correlation}
  {recipe other : Recipe (Goal Code)} {subst otherSubst : Subst}
  {session otherSession : Session}
  (matching :
    Recipe.Matches goalOf results recipe other subst otherSubst session
      otherSession)

include matching

theorem Recipe.Matches.forall₂_results (effort count : Nat) :
    List.Forall₂ results.values
      ((recipe.results goalOf subst effort count).run session).1
      ((other.results goalOf otherSubst effort count).run otherSession).1 :=
  matching.abreast.take effort count

theorem Recipe.Matches.shape_eq (time : Nat) :
    (recipe.momentAt goalOf subst session time).1.shape =
      (other.momentAt goalOf otherSubst otherSession time).1.shape :=
  matching.abreast.shapes time

end Built

end RelationalSearch
