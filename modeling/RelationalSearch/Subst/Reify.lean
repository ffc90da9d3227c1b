import RelationalSearch.Subst.Basic

/-!
# Reification

`Subst.reify` replaces every bound variable of a term by what it stands for,
as deeply as the bindings allow, and leaves unbound variables in place.  It
runs on two stacks, one of what is to be done and one of finished terms.
Ground parts are taken over as they are.
-/

namespace RelationalSearch

namespace Subst

/-- A step of reification that is still to be done. -/
inductive ReifyTask where
  /-- Finish the term, with the given budget of bindings. -/
  | visit (budget : Nat) (term : Term)
  /-- Make a cell of the last two finished terms, a head and then a tail. -/
  | join

/-- A bound on the number of steps that a task takes. -/
def ReifyTask.cost (subst : Subst) : ReifyTask → Nat
  | .visit budget term => subst.cost budget term
  | .join => 1

/-- The costs of a list of tasks. -/
def taskCost (subst : Subst) (tasks : List ReifyTask) : Nat :=
  tasks.foldr (fun task total => task.cost subst + total) 0

@[simp]
theorem taskCost_cons
    (subst : Subst)
    (task : ReifyTask)
    (tasks : List ReifyTask) :
    subst.taskCost (task :: tasks) =
      task.cost subst + subst.taskCost tasks :=
  rfl

/--
Does the tasks in order, with the finished terms on a stack, and gives the
term on top at the end.
-/
def reifyTasks
    (subst : Subst) : List ReifyTask → List Term → Option Term
  | [], finished => finished.head?
  | .visit budget term :: tasks, finished =>
    if term.isGround then
      reifyTasks subst tasks (term :: finished)
    else
      match _followed : subst.follow budget term with
      | none => none
      | some (rest, .cons head tail) =>
        if (Term.cons head tail).isGround then
          reifyTasks subst tasks (.cons head tail :: finished)
        else
          reifyTasks subst
            (.visit rest head :: .visit rest tail :: .join :: tasks) finished
      | some (_, found) => reifyTasks subst tasks (found :: finished)
  | .join :: tasks, tail :: head :: finished =>
    reifyTasks subst tasks (.cons head tail :: finished)
  | .join :: _, _ => none
termination_by tasks => subst.taskCost tasks
decreasing_by
  all_goals simp only [taskCost_cons, ReifyTask.cost]
  · have := subst.cost_pos budget term
    omega
  · have := subst.cost_pos budget term
    omega
  · have smaller := cost_le_of_follow _followed
    simp only [cost_cons] at smaller
    omega
  · have := subst.cost_pos budget term
    omega
  · omega

/--
The term with all bindings followed (the term itself, should they run in a
circle).
-/
def reify (subst : Subst) (term : Term) : Term :=
  (subst.reifyTasks [.visit subst.size term] []).getD term

end Subst

end RelationalSearch
