import Mathlib.Data.List.Nodup
import Mathlib.Data.List.Perm.Subperm
import Mathlib.Logic.Relation
import RelationalSearch.Proofs.Term.Valuation
import RelationalSearch.Subst.Unify

/-!
# Acyclic substitutions

The bindings of a substitution make a graph on the variables: from a variable
to each variable of the term it is bound to.  Where this graph has no cycle, a
path through it meets every bound variable at most once and is no longer than
the substitution is large.

Every traversal of a term counts down a budget that starts at this size.  A
budget is *sufficient* when the bindings that led to a term are paid for
(`Subst.Sufficient`).  From there on the budget can not run out, and what is
left of it is sufficient for the parts of what is reached.
-/

namespace RelationalSearch

namespace Subst

/-! ## The graph of bindings -/

/-- The variable is bound to a term in which the other one occurs. -/
def Leads (subst : Subst) (x y : Var) : Prop :=
  ∃ term, subst.lookup x = some term ∧ y ∈ term.vars

/-- No variable leads back to itself. -/
def Acyclic (subst : Subst) : Prop :=
  ∀ x, ¬ Relation.TransGen subst.Leads x x

/-- The variable is reached from a variable of the term, maybe at once. -/
def Reaches (subst : Subst) (term : Term) (x : Var) : Prop :=
  ∃ y ∈ term.vars, Relation.ReflTransGen subst.Leads y x

theorem acyclic_empty : (∅ : Subst).Acyclic := by
  intro x cycle
  rcases Relation.TransGen.head'_iff.mp cycle with ⟨y, first, _⟩
  rcases first with ⟨term, bound, _⟩
  simp at bound

/--
A path in the extended graph either avoids the new binding, or arrives at its
variable and departs from a variable of its term.
-/
theorem path_of_path_bind
    {subst : Subst}
    {x : Var}
    {term : Term}
    (apart : ¬ subst.Reaches term x)
    {source target : Var}
    (path : Relation.TransGen (subst.bind x term).Leads source target) :
    Relation.TransGen subst.Leads source target ∨
      Relation.ReflTransGen subst.Leads source x ∧
        subst.Reaches term target := by
  -- One edge more: it is the new binding's, or it was there before.
  have extend
      {middle last : Var}
      (edge : (subst.bind x term).Leads middle last) :
      middle = x ∧ last ∈ term.vars ∨ subst.Leads middle last := by
    rcases edge with ⟨found, looked, member⟩
    rw [lookup_bind] at looked
    split at looked
    next same =>
      cases looked
      exact Or.inl ⟨same.symm, member⟩
    next => exact Or.inr ⟨found, looked, member⟩
  induction path with
  | single edge =>
    rcases extend edge with ⟨rfl, member⟩ | old
    · exact Or.inr ⟨.refl, _, member, .refl⟩
    · exact Or.inl (.single old)
  | tail path edge ih =>
    rcases extend edge with ⟨rfl, member⟩ | old
    · rcases ih with before | ⟨_, back⟩
      · exact Or.inr ⟨before.to_reflTransGen, _, member, .refl⟩
      · exact (apart back).elim
    · rcases ih with before | ⟨arrived, y, member, onwards⟩
      · exact Or.inl (before.tail old)
      · exact Or.inr ⟨arrived, y, member, onwards.tail old⟩

/-- Binding a variable to a term that does not reach it makes no cycle. -/
theorem Acyclic.bind
    {subst : Subst}
    (acyclic : subst.Acyclic)
    {x : Var}
    {term : Term}
    (apart : ¬ subst.Reaches term x) :
    (subst.bind x term).Acyclic := by
  intro y cycle
  rcases path_of_path_bind apart cycle with old | ⟨arrived, z, member, back⟩
  · exact acyclic y old
  · exact apart ⟨z, member, back.trans arrived⟩

/-! ## The way to a term -/

/--
The term is what is left after following the bindings of the listed variables,
the last one first, and taking parts in between.
-/
inductive Trail (subst : Subst) : List Var → Term → Prop where
  | start (term : Term) : Trail subst [] term
  | follow
      {trail : List Var} {term next : Term} {x : Var}
      (before : Trail subst trail term)
      (member : x ∈ term.vars)
      (bound : subst.lookup x = some next) :
      Trail subst (x :: trail) next
  | part
      {trail : List Var} {term inner : Term}
      (before : Trail subst trail term)
      (included : inner.vars ⊆ term.vars) :
      Trail subst trail inner

namespace Trail

variable {subst : Subst} {trail : List Var} {term : Term}

theorem leads
    (way : subst.Trail trail term)
    {x y : Var}
    (passed : x ∈ trail)
    (member : y ∈ term.vars) :
    Relation.TransGen subst.Leads x y := by
  induction way generalizing y with
  | start => simp at passed
  | follow _ inside bound ih =>
    rcases List.mem_cons.mp passed with rfl | earlier
    · exact .single ⟨_, bound, member⟩
    · exact (ih earlier inside).tail ⟨_, bound, member⟩
  | part _ included ih => exact ih passed (included member)

theorem lookup_ne_none
    (way : subst.Trail trail term)
    {x : Var}
    (passed : x ∈ trail) :
    subst.lookup x ≠ none := by
  induction way with
  | start => simp at passed
  | follow _ _ bound ih =>
    rcases List.mem_cons.mp passed with rfl | earlier
    · simp [bound]
    · exact ih earlier
  | part _ _ ih => exact ih passed

theorem nodup
    (way : subst.Trail trail term)
    (acyclic : subst.Acyclic) :
    trail.Nodup := by
  induction way with
  | start => exact List.nodup_nil
  | follow before member bound ih =>
    refine List.nodup_cons.mpr ⟨?_, ih⟩
    intro passed
    exact acyclic _ (before.leads passed member)
  | part _ _ ih => exact ih

/-- A way through an acyclic substitution uses each binding at most once. -/
theorem length_le_size
    (way : subst.Trail trail term)
    (acyclic : subst.Acyclic) :
    trail.length ≤ subst.size := by
  have distinct : (trail.map Var.id).Nodup := by
    refine (way.nodup acyclic).map ?_
    intro x y same
    cases x
    cases y
    simpa using same
  have included : trail.map Var.id ⊆ subst.bindings.keys := by
    intro id member
    rcases List.mem_map.mp member with ⟨x, passed, rfl⟩
    rw [Std.ExtTreeMap.mem_keys, Std.ExtTreeMap.mem_iff_isSome_getElem?]
    exact Option.isSome_iff_ne_none.mpr (way.lookup_ne_none passed)
  have bounded := (distinct.subperm included).length_le
  rwa [List.length_map, Std.ExtTreeMap.length_keys] at bounded

/-- New bindings of unbound variables leave a way as it is. -/
theorem bind
    (way : subst.Trail trail term)
    {x : Var}
    (unbound : subst.lookup x = none)
    (value : Term) :
    (subst.bind x value).Trail trail term := by
  induction way with
  | start => exact .start _
  | @follow _ _ next y _ member bound ih =>
    refine ih.follow member ?_
    rw [lookup_bind_of_ne, bound]
    rintro rfl
    simp [unbound] at bound
  | part _ included ih => exact ih.part included

end Trail

/-! ## Budgets -/

/-- The bindings on the way to the term are paid for, and the rest is left. -/
def Sufficient (subst : Subst) (budget : Nat) (term : Term) : Prop :=
  ∃ trail, subst.Trail trail term ∧ trail.length + budget = subst.size

namespace Sufficient

variable {subst : Subst} {budget : Nat} {term : Term}

theorem start (subst : Subst) (term : Term) :
    subst.Sufficient subst.size term :=
  ⟨[], .start term, by simp⟩

theorem part
    (enough : subst.Sufficient budget term)
    {inner : Term}
    (included : inner.vars ⊆ term.vars) :
    subst.Sufficient budget inner := by
  rcases enough with ⟨trail, way, paid⟩
  exact ⟨trail, way.part included, paid⟩

theorem head
    {head tail : Term}
    (enough : subst.Sufficient budget (.cons head tail)) :
    subst.Sufficient budget head :=
  enough.part (by simp)

theorem tail
    {head tail : Term}
    (enough : subst.Sufficient budget (.cons head tail)) :
    subst.Sufficient budget tail :=
  enough.part (by simp)

/-- A sufficient budget pays for one binding more. -/
theorem next
    (enough : subst.Sufficient budget term)
    (acyclic : subst.Acyclic)
    {next : Term}
    (bound : subst.next? term = some next) :
    ∃ rest, budget = rest + 1 ∧ subst.Sufficient rest next := by
  rcases enough with ⟨trail, way, paid⟩
  rcases exists_var_of_next? bound with ⟨x, rfl, looked⟩
  have longer : subst.Trail (x :: trail) next :=
    way.follow (by simp) looked
  have bounded := longer.length_le_size acyclic
  rw [List.length_cons] at bounded
  refine ⟨budget - 1, by omega, x :: trail, longer, ?_⟩
  rw [List.length_cons]
  omega

/-- Following the bindings of a term ends within a sufficient budget. -/
theorem follow
    (enough : subst.Sufficient budget term)
    (acyclic : subst.Acyclic) :
    ∃ rest found,
      subst.follow budget term = some (rest, found) ∧
        subst.Sufficient rest found := by
  induction budget generalizing term with
  | zero =>
    cases bound : subst.next? term with
    | none => exact ⟨0, term, follow_of_next?_eq_none bound 0, enough⟩
    | some next =>
      rcases enough.next acyclic bound with ⟨rest, impossible, _⟩
      omega
  | succ budget ih =>
    cases bound : subst.next? term with
    | none =>
      exact ⟨budget + 1, term, follow_of_next?_eq_none bound _, enough⟩
    | some next =>
      rcases enough.next acyclic bound with ⟨rest, equal, onwards⟩
      rcases by omega with rfl : rest = budget
      rcases ih onwards with ⟨left, found, followed, remaining⟩
      refine ⟨left, found, ?_, remaining⟩
      rwa [follow_of_next?_eq_some bound]

end Sufficient

end Subst

end RelationalSearch
