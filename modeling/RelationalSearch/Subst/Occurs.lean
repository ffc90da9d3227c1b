import RelationalSearch.Subst.Basic

/-!
# The occurs check

`Subst.occurs` looks for an unbound variable in all that a term stands for.
Ground parts are skipped: no binding can put a variable into them.
`Subst.extend?` binds a variable only to a term in which it does not occur.
-/

namespace RelationalSearch

namespace Subst

/-- The costs of terms that are still to be visited. -/
def pendingCost (subst : Subst) (pending : List (Nat × Term)) : Nat :=
  pending.foldr (fun item total => subst.cost item.1 item.2 + total) 0

@[simp]
theorem pendingCost_cons
    (subst : Subst)
    (item : Nat × Term)
    (pending : List (Nat × Term)) :
    subst.pendingCost (item :: pending) =
      subst.cost item.1 item.2 + subst.pendingCost pending :=
  rfl

/-- Looks for `x` in pending terms, each with its budget of bindings. -/
def occursIn (subst : Subst) (x : Var) : List (Nat × Term) → Option Bool
  | [] => some false
  | (budget, term) :: pending =>
    if term.isGround then
      occursIn subst x pending
    else
      match _followed : subst.follow budget term with
      | none => none
      | some (_, .var y) =>
        if y = x then some true else occursIn subst x pending
      | some (rest, .cons head tail) =>
        occursIn subst x ((rest, tail) :: (rest, head) :: pending)
      | some _ => occursIn subst x pending
termination_by pending => subst.pendingCost pending
decreasing_by
  all_goals
    have positive := subst.cost_pos budget term
    simp only [pendingCost_cons]
  · omega
  · omega
  · have smaller := cost_le_of_follow _followed
    simp only [cost_cons] at smaller
    omega
  · omega

/-- One step of the occurs check. -/
theorem occursIn_cons
    (subst : Subst)
    (x : Var)
    (budget : Nat)
    (term : Term)
    (pending : List (Nat × Term)) :
    subst.occursIn x ((budget, term) :: pending) =
      if term.isGround then
        subst.occursIn x pending
      else
        match subst.follow budget term with
        | none => none
        | some (_, .var y) =>
          if y = x then some true else subst.occursIn x pending
        | some (rest, .cons head tail) =>
          subst.occursIn x ((rest, tail) :: (rest, head) :: pending)
        | some _ => subst.occursIn x pending := by
  rw [Subst.occursIn]
  split
  · rfl
  · split <;> simp_all

/--
The variable occurs in the term, once all bindings are followed.  Of terms
whose bindings run in a circle this is not known, and taken for true.
-/
def occurs (subst : Subst) (x : Var) (term : Term) : Bool :=
  (subst.occursIn x [(subst.size, term)]).getD true

/-- Binds a variable to a term in which it does not occur. -/
def extend? (subst : Subst) (x : Var) (term : Term) : Option Subst :=
  if subst.occurs x term then none else some (subst.bind x term)

theorem eq_bind_of_extend?
    {subst extended : Subst}
    {x : Var}
    {term : Term}
    (success : subst.extend? x term = some extended) :
    extended = subst.bind x term := by
  unfold extend? at success
  split at success
  next => simp at success
  next => simpa using success.symm

end Subst

end RelationalSearch
