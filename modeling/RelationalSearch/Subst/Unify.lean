import RelationalSearch.Subst.Occurs
import RelationalSearch.Term.Equality

/-!
# Unification

`Subst.unify` takes pairs of terms off a list, follows the bindings of both
sides, and either binds a variable, takes two cells apart (heads first) or
compares two atoms.  A variable on the left is bound in preference to one on
the right.

The list may grow while the bindings do, so there are two loops with a measure
each.  `Subst.settle` works on the pairs until a variable has to be bound; each
of its steps lowers the cost of the pairs.  `Subst.unifyPairs` makes the
bindings; each takes one from the unbound variables among those in play
(`Subst.openBelow`).
-/

namespace RelationalSearch

namespace Term

/-- A number above those of all variables of a term. -/
def ceiling : Term → Nat
  | var x => x.id + 1
  | cons head tail => max head.ceiling tail.ceiling
  | _ => 0

end Term

namespace Subst

/-! ## Pairs still to be unified -/

/-- One side of a pair, and how many bindings led to it. -/
structure Side where
  used : Nat
  term : Term

/-- A side at the start of unification. -/
def Side.start (term : Term) : Side := ⟨0, term⟩

/-- Follows the bindings of a side. -/
def resolve (subst : Subst) (side : Side) : Option Side :=
  match subst.follow (subst.size - side.used) side.term with
  | some (rest, found) => some ⟨subst.size - rest, found⟩
  | none => none

/-- A bound on the steps that visit a side. -/
def sideCost (subst : Subst) (side : Side) : Nat :=
  subst.cost (subst.size - side.used) side.term

theorem exists_follow_of_resolve
    {subst : Subst}
    {side found : Side}
    (resolved : subst.resolve side = some found) :
    ∃ rest, rest ≤ subst.size ∧
      found.used = subst.size - rest ∧
      subst.follow (subst.size - side.used) side.term =
        some (rest, found.term) := by
  unfold resolve at resolved
  split at resolved
  next rest term followed =>
    have := follow_budget_le followed
    simp only [Option.some.injEq] at resolved
    subst resolved
    exact ⟨rest, by omega, rfl, followed⟩
  next => simp at resolved

theorem sideCost_le_of_resolve
    {subst : Subst}
    {side found : Side}
    (resolved : subst.resolve side = some found) :
    subst.sideCost found ≤ subst.sideCost side := by
  obtain ⟨rest, small, used, followed⟩ := exists_follow_of_resolve resolved
  have : subst.size - found.used = rest := by omega
  simp only [sideCost, this]
  exact cost_le_of_follow followed

theorem lookup_eq_none_of_resolve
    {subst : Subst}
    {side : Side}
    {used : Nat}
    {x : Var}
    (resolved : subst.resolve side = some ⟨used, .var x⟩) :
    subst.lookup x = none := by
  obtain ⟨_, _, _, followed⟩ := exists_follow_of_resolve resolved
  exact lookup_eq_none_of_follow followed

/-- The costs of pairs. -/
def pairCost (subst : Subst) (pairs : List (Side × Side)) : Nat :=
  pairs.foldr
    (fun pair total =>
      subst.sideCost pair.1 + subst.sideCost pair.2 + total)
    0

@[simp]
theorem pairCost_cons
    (subst : Subst)
    (pair : Side × Side)
    (pairs : List (Side × Side)) :
    subst.pairCost (pair :: pairs) =
      subst.sideCost pair.1 + subst.sideCost pair.2 + subst.pairCost pairs :=
  rfl

/-! ## The variables in play -/

/-- A number above those of all variables in bound terms. -/
def ceiling (subst : Subst) : Nat :=
  subst.bindings.toList.foldr (fun entry bound => max entry.2.ceiling bound) 0

theorem ceiling_le_iff (subst : Subst) (bound : Nat) :
    subst.ceiling ≤ bound ↔
      ∀ x term, subst.lookup x = some term → term.ceiling ≤ bound := by
  have entries (list : List (Nat × Term)) :
      list.foldr (fun entry bound => max entry.2.ceiling bound) 0 ≤ bound ↔
        ∀ entry ∈ list, entry.2.ceiling ≤ bound := by
    induction list with
    | nil => simp
    | cons entry list hypothesis =>
      rw [List.foldr_cons, Nat.max_le, hypothesis, List.forall_mem_cons]
  unfold ceiling
  rw [entries]
  constructor
  · intro all x term found
    exact all (x.id, term)
      (Std.ExtTreeMap.mem_toList_iff_getElem?_eq_some.mpr found)
  · intro all entry member
    exact all ⟨entry.1⟩ entry.2
      (Std.ExtTreeMap.mem_toList_iff_getElem?_eq_some.mp member)

/-- A number above those of all variables in pairs. -/
def pairCeiling : List (Side × Side) → Nat
  | [] => 0
  | (left, right) :: pairs =>
    max (max left.term.ceiling right.term.ceiling) (pairCeiling pairs)

/-- A number above those of all variables in play. -/
def playCeiling (subst : Subst) (pairs : List (Side × Side)) : Nat :=
  max subst.ceiling (pairCeiling pairs)

theorem ceiling_follow_le
    {subst : Subst}
    {budget rest : Nat}
    {term found : Term}
    {bound : Nat}
    (bindings : subst.ceiling ≤ bound)
    (start : term.ceiling ≤ bound)
    (followed : subst.follow budget term = some (rest, found)) :
    found.ceiling ≤ bound := by
  refine follow_keeps (fun _ reached => reached.ceiling ≤ bound) ?_ start followed
  intro _ _ next found _
  rcases exists_var_of_next? found with ⟨x, rfl, looked⟩
  exact (ceiling_le_iff _ _).mp bindings x next looked

theorem ceiling_resolve_le
    {subst : Subst}
    {side found : Side}
    {bound : Nat}
    (bindings : subst.ceiling ≤ bound)
    (start : side.term.ceiling ≤ bound)
    (resolved : subst.resolve side = some found) :
    found.term.ceiling ≤ bound := by
  obtain ⟨_, _, _, followed⟩ := exists_follow_of_resolve resolved
  exact ceiling_follow_le bindings start followed

theorem ceiling_bind_le
    {subst : Subst}
    {bound : Nat}
    (bindings : subst.ceiling ≤ bound)
    {term : Term}
    (added : term.ceiling ≤ bound)
    (x : Var) :
    (subst.bind x term).ceiling ≤ bound := by
  rw [ceiling_le_iff] at bindings ⊢
  intro y found looked
  rw [lookup_bind] at looked
  split at looked
  next => exact Option.some.inj looked ▸ added
  next => exact bindings y found looked

/-- The number of unbound variables below a number. -/
def openBelow (subst : Subst) (bound : Nat) : Nat :=
  (List.range bound).countP fun id => (subst.lookup ⟨id⟩).isNone

theorem openBelow_mono
    (subst : Subst)
    {small large : Nat}
    (ordered : small ≤ large) :
    subst.openBelow small ≤ subst.openBelow large :=
  (List.range_sublist.mpr ordered).countP_le

theorem openBelow_bind_le (subst : Subst) (x : Var) (term : Term) (bound : Nat) :
    (subst.bind x term).openBelow bound ≤ subst.openBelow bound := by
  apply List.countP_mono_left
  intro id _
  rw [lookup_bind]
  split <;> simp

theorem openBelow_bind_lt
    {subst : Subst}
    {x : Var}
    {bound : Nat}
    (unbound : subst.lookup x = none)
    (below : x.id < bound)
    (term : Term) :
    (subst.bind x term).openBelow bound < subst.openBelow bound := by
  induction bound with
  | zero => omega
  | succ bound hypothesis =>
    simp only [openBelow, List.range_succ, List.countP_append,
      List.countP_singleton] at hypothesis ⊢
    by_cases last : x.id = bound
    · have same : x = ⟨bound⟩ := by
        cases x
        simp_all
      have rest := openBelow_bind_le subst x term bound
      simp only [openBelow] at rest
      subst same
      simp only [lookup_bind_self, unbound]
      simp only [Option.isNone_some, Option.isNone_none, Bool.false_eq_true,
        if_false, if_true]
      omega
    · have smaller := hypothesis (by omega)
      have different : x ≠ ⟨bound⟩ := by
        intro same
        exact last (by rw [same])
      rw [lookup_bind_of_ne _ _ different]
      omega

/-! ## The loops -/

/-- What two terms at the end of their bindings ask for. -/
inductive Meeting where
  /-- They are equal as they stand. -/
  | same
  /-- They can not be made equal. -/
  | clash
  /-- The unbound variable has to stand for the term. -/
  | assign (x : Var) (term : Term)
  /-- The heads and the tails of two cells have to be equal. -/
  | descend (leftHead rightHead leftTail rightTail : Term)

/-- Compares two terms at the end of their bindings. -/
def meet : Term → Term → Meeting
  | .var x, right =>
    if right.asVar? = some x then .same else .assign x right
  | left, .var y => .assign y left
  | .cons leftHead leftTail, .cons rightHead rightTail =>
    .descend leftHead rightHead leftTail rightTail
  | left, right => if Term.sameAtom left right then .same else .clash

theorem eq_var_of_meet_eq_assign
    {left right term : Term}
    {x : Var}
    (met : meet left right = .assign x term) :
    left = .var x ∧ term = right ∨ right = .var x ∧ term = left := by
  unfold meet at met
  split at met
  next =>
    split at met
    next => simp at met
    next =>
      simp only [Meeting.assign.injEq] at met
      simp [met.1, met.2]
  next =>
    simp only [Meeting.assign.injEq] at met
    simp [met.1, met.2]
  next => simp at met
  next => split at met <;> simp at met

theorem eq_cons_of_meet_eq_descend
    {left right leftHead rightHead leftTail rightTail : Term}
    (met : meet left right = .descend leftHead rightHead leftTail rightTail) :
    left = .cons leftHead leftTail ∧ right = .cons rightHead rightTail := by
  unfold meet at met
  split at met
  next => split at met <;> simp at met
  next => simp at met
  next =>
    simp only [Meeting.descend.injEq] at met
    simp [met]
  next => split at met <;> simp at met

/-- What becomes of pairs without a new binding. -/
inductive Settled where
  /-- All pairs are equal as they stand. -/
  | equal
  /-- Some pair can not be made equal. -/
  | clash
  /-- The bindings run in a circle. -/
  | circular
  /-- A variable has to stand for a term before the rest is looked at. -/
  | assign (x : Var) (term : Term) (rest : List (Side × Side))

/-- Takes pairs off the list until a variable has to be bound. -/
def settle (subst : Subst) : List (Side × Side) → Settled
  | [] => .equal
  | (left, right) :: pairs =>
    match _leftResolved : subst.resolve left,
        _rightResolved : subst.resolve right with
    | some leftFound, some rightFound =>
      match _met : meet leftFound.term rightFound.term with
      | .same => settle subst pairs
      | .clash => .clash
      | .assign x term => .assign x term pairs
      | .descend leftHead rightHead leftTail rightTail =>
        settle subst
          ((⟨leftFound.used, leftHead⟩, ⟨rightFound.used, rightHead⟩) ::
            (⟨leftFound.used, leftTail⟩, ⟨rightFound.used, rightTail⟩) ::
            pairs)
    | _, _ => .circular
termination_by pairs => subst.pairCost pairs
decreasing_by
  · have := subst.cost_pos (subst.size - left.used) left.term
    simp only [pairCost_cons, sideCost]
    omega
  · have cells := eq_cons_of_meet_eq_descend _met
    have leftCost := sideCost_le_of_resolve _leftResolved
    have rightCost := sideCost_le_of_resolve _rightResolved
    simp only [sideCost, cells.1, cells.2, cost_cons] at leftCost rightCost
    simp only [pairCost_cons, sideCost]
    omega

/-- An assignment concerns an unbound variable and terms in play. -/
theorem assigned_in_play
    {subst : Subst}
    {pairs rest : List (Side × Side)}
    {x : Var}
    {term : Term}
    {bound : Nat}
    (bindings : subst.ceiling ≤ bound)
    (pending : pairCeiling pairs ≤ bound)
    (settled : subst.settle pairs = .assign x term rest) :
    subst.lookup x = none ∧ x.id < bound ∧ term.ceiling ≤ bound ∧
      pairCeiling rest ≤ bound := by
  fun_induction settle subst pairs with
  | case1 => simp at settled
  | case2 left right pairs leftFound rightFound leftResolved rightResolved met
      hypothesis =>
    simp only [pairCeiling, Nat.max_le] at pending
    exact hypothesis pending.2 settled
  | case3 => simp at settled
  | case4 left right pairs leftFound rightFound leftResolved rightResolved y found
      met =>
    simp only [Settled.assign.injEq] at settled
    obtain ⟨rfl, rfl, rfl⟩ := settled
    simp only [pairCeiling, Nat.max_le] at pending
    have leftBelow := ceiling_resolve_le bindings pending.1.1 leftResolved
    have rightBelow := ceiling_resolve_le bindings pending.1.2 rightResolved
    obtain ⟨leftUsed, leftTerm⟩ := leftFound
    obtain ⟨rightUsed, rightTerm⟩ := rightFound
    rcases eq_var_of_meet_eq_assign met with ⟨isVar, rfl⟩ | ⟨isVar, rfl⟩
    · simp only at isVar
      subst isVar
      exact ⟨lookup_eq_none_of_resolve leftResolved, leftBelow, rightBelow,
        pending.2⟩
    · simp only at isVar
      subst isVar
      exact ⟨lookup_eq_none_of_resolve rightResolved, rightBelow, leftBelow,
        pending.2⟩
  | case5 left right pairs leftFound rightFound leftResolved rightResolved
      leftHead rightHead leftTail rightTail met hypothesis =>
    simp only [pairCeiling, Nat.max_le] at pending
    have cells := eq_cons_of_meet_eq_descend met
    have leftBelow := ceiling_resolve_le bindings pending.1.1 leftResolved
    have rightBelow := ceiling_resolve_le bindings pending.1.2 rightResolved
    rw [cells.1, Term.ceiling] at leftBelow
    rw [cells.2, Term.ceiling] at rightBelow
    refine hypothesis ?_ settled
    simp only [pairCeiling]
    omega
  | case6 => simp at settled

/-- A new binding takes one from the unbound variables in play. -/
theorem openBelow_lt_of_assign
    {subst extended : Subst}
    {pairs rest : List (Side × Side)}
    {x : Var}
    {term : Term}
    (settled : subst.settle pairs = .assign x term rest)
    (success : subst.extend? x term = some extended) :
    extended.openBelow (extended.playCeiling rest) <
      subst.openBelow (subst.playCeiling pairs) := by
  have bindings : subst.ceiling ≤ subst.playCeiling pairs := Nat.le_max_left _ _
  have inPlay := assigned_in_play bindings (Nat.le_max_right _ _) settled
  obtain ⟨unbound, below, added, remaining⟩ := inPlay
  rw [eq_bind_of_extend? success]
  have smaller :
      (subst.bind x term).playCeiling rest ≤ subst.playCeiling pairs :=
    Nat.max_le.mpr ⟨ceiling_bind_le bindings added x, remaining⟩
  exact Nat.lt_of_le_of_lt (openBelow_mono _ smaller)
    (openBelow_bind_lt unbound below term)

/--
Unifies pairs one after another.  There is no outcome if bindings run in a
circle.
-/
def unifyPairs
    (subst : Subst)
    (pairs : List (Side × Side)) : Option (Option Subst) :=
  match _settled : subst.settle pairs with
  | .equal => some (some subst)
  | .clash => some none
  | .circular => none
  | .assign x term rest =>
    match _extended : subst.extend? x term with
    | some extended => unifyPairs extended rest
    | none => some none
termination_by subst.openBelow (subst.playCeiling pairs)
decreasing_by exact openBelow_lt_of_assign _settled _extended

/--
The substitution extended by just the bindings that make two terms equal, if
there are any.
-/
def unify (subst : Subst) (left right : Term) : Option Subst :=
  (subst.unifyPairs [(.start left, .start right)]).join

end Subst

end RelationalSearch
