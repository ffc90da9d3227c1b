import Std.Data.ExtTreeMap
import RelationalSearch.Term.Basic

/-!
# Substitutions

A substitution binds variables to terms, which may hold variables bound in
turn.  To read off what a term stands for, one follows bindings until an
unbound variable or a term of another form is reached.

Bindings may run in a circle: `Subst.bind` does not look at what it binds.
Following them stays total because nothing needs to follow more bindings than
there are: a longer path has used one of them twice.  Each traversal of a term
therefore carries a budget of bindings, and each gives `none` when a budget is
exceeded.  `Subst.cost` is the measure by which those traversals end.
-/

namespace RelationalSearch

/-- A finite map from variables to terms. -/
structure Subst where
  bindings : Std.ExtTreeMap Nat Term

namespace Subst

/-- The substitution that binds nothing. -/
def empty : Subst := ⟨∅⟩

instance : EmptyCollection Subst := ⟨empty⟩

instance : Inhabited Subst := ⟨empty⟩

/-- The term that a variable is bound to. -/
def lookup (subst : Subst) (x : Var) : Option Term :=
  subst.bindings[x.id]?

/-- Binds a variable, in place of the binding that it may have. -/
def bind (subst : Subst) (x : Var) (term : Term) : Subst :=
  ⟨subst.bindings.insert x.id term⟩

/-- The number of bindings. -/
def size (subst : Subst) : Nat := subst.bindings.size

/-- True when no variable is bound. -/
def isEmpty (subst : Subst) : Bool := subst.bindings.isEmpty

@[simp]
theorem lookup_empty (x : Var) : (∅ : Subst).lookup x = none :=
  Std.ExtTreeMap.getElem?_empty

/-- Substitutions with the same bindings are equal. -/
@[ext]
theorem ext
    {first second : Subst}
    (same : ∀ x, first.lookup x = second.lookup x) : first = second := by
  obtain ⟨firstBindings⟩ := first
  obtain ⟨secondBindings⟩ := second
  congr
  exact Std.ExtTreeMap.ext_getElem? fun id => same ⟨id⟩

theorem lookup_bind (subst : Subst) (x : Var) (term : Term) (y : Var) :
    (subst.bind x term).lookup y =
      if x = y then some term else subst.lookup y := by
  have sameId : compare x.id y.id = .eq ↔ x = y := by
    cases x
    cases y
    simp
  simp [lookup, bind, Std.ExtTreeMap.getElem?_insert, sameId]

@[simp]
theorem lookup_bind_self (subst : Subst) (x : Var) (term : Term) :
    (subst.bind x term).lookup x = some term := by
  simp [lookup_bind]

theorem lookup_bind_of_ne
    (subst : Subst)
    {x y : Var}
    (term : Term)
    (different : x ≠ y) :
    (subst.bind x term).lookup y = subst.lookup y := by
  simp [lookup_bind, different]

theorem size_bind_of_lookup_eq_none
    {subst : Subst}
    {x : Var}
    (unbound : subst.lookup x = none)
    (term : Term) :
    (subst.bind x term).size = subst.size + 1 := by
  have absent : x.id ∉ subst.bindings := by
    rw [Std.ExtTreeMap.mem_iff_isSome_getElem?]
    simpa [lookup] using unbound
  simp [size, bind, Std.ExtTreeMap.size_insert, absent]

/-! ## Following bindings -/

/-- What a bound variable is bound to. -/
def next? (subst : Subst) : Term → Option Term
  | .var x => subst.lookup x
  | _ => none

/--
Follows at most `budget` bindings, up to an unbound variable or a term of
another form, and gives what is left of the budget.
-/
def follow (subst : Subst) : Nat → Term → Option (Nat × Term)
  | 0, term =>
    match subst.next? term with
    | none => some (0, term)
    | some _ => none
  | budget + 1, term =>
    match subst.next? term with
    | none => some (budget + 1, term)
    | some next => follow subst budget next

theorem follow_zero (subst : Subst) (term : Term) :
    subst.follow 0 term =
      match subst.next? term with
      | none => some (0, term)
      | some _ => none := rfl

theorem follow_succ (subst : Subst) (budget : Nat) (term : Term) :
    subst.follow (budget + 1) term =
      match subst.next? term with
      | none => some (budget + 1, term)
      | some next => subst.follow budget next := rfl

/--
The unbound variable or other term at the end of the bindings of a term (the
term itself, should they run in a circle).
-/
def walk (subst : Subst) (term : Term) : Term :=
  match subst.follow subst.size term with
  | some (_, found) => found
  | none => term

section Follow

variable {subst : Subst} {budget rest : Nat} {term found next : Term} {x : Var}

/-- Only variables have bindings. -/
theorem exists_var_of_next?
    (bound : subst.next? term = some next) :
    ∃ x, term = .var x ∧ subst.lookup x = some next := by
  cases term with
  | var x => exact ⟨x, rfl, bound⟩
  | _ => cases bound

theorem follow_of_next?_eq_none
    (last : subst.next? term = none)
    (budget : Nat) :
    subst.follow budget term = some (budget, term) := by
  cases budget with
  | zero => rw [follow_zero, last]
  | succ budget => rw [follow_succ, last]

theorem follow_of_next?_eq_some
    (bound : subst.next? term = some next)
    (budget : Nat) :
    subst.follow (budget + 1) term = subst.follow budget next := by
  rw [follow_succ, bound]

/-- Either the term is at the end of its bindings, or one of them is followed first. -/
theorem follow_cases
    (followed : subst.follow budget term = some (rest, found)) :
    subst.next? term = none ∧ rest = budget ∧ found = term ∨
      ∃ before next,
        budget = before + 1 ∧
          subst.next? term = some next ∧
            subst.follow before next = some (rest, found) := by
  cases bound : subst.next? term with
  | none =>
    rw [follow_of_next?_eq_none bound] at followed
    cases followed
    exact .inl ⟨rfl, rfl, rfl⟩
  | some next =>
    cases budget with
    | zero =>
      rw [follow_zero, bound] at followed
      cases followed
    | succ before =>
      rw [follow_of_next?_eq_some bound] at followed
      exact .inr ⟨before, next, rfl, rfl, followed⟩

/-- What is kept while bindings are followed holds at the end of them. -/
theorem follow_keeps
    (holds : Nat → Term → Prop)
    (keeps :
      ∀ before term next,
        subst.next? term = some next →
          holds (before + 1) term → holds before next)
    (start : holds budget term)
    (followed : subst.follow budget term = some (rest, found)) :
    holds rest found := by
  induction budget generalizing term with
  | zero =>
    rcases follow_cases followed with ⟨_, rfl, rfl⟩ | ⟨_, _, more, _⟩
    · exact start
    · cases more
  | succ budget ih =>
    rcases follow_cases followed with
      ⟨_, rfl, rfl⟩ | ⟨_, next, more, bound, onwards⟩
    · exact start
    · cases more
      exact ih (keeps budget term next bound start) onwards

theorem next?_eq_none_of_follow
    (followed : subst.follow budget term = some (rest, found)) :
    subst.next? found = none := by
  induction budget generalizing term with
  | zero =>
    rcases follow_cases followed with ⟨last, _, rfl⟩ | ⟨_, _, more, _⟩
    · exact last
    · cases more
  | succ budget ih =>
    rcases follow_cases followed with ⟨last, _, rfl⟩ | ⟨_, _, more, _, onwards⟩
    · exact last
    · cases more
      exact ih onwards

theorem lookup_eq_none_of_follow
    (followed : subst.follow budget term = some (rest, .var x)) :
    subst.lookup x = none :=
  next?_eq_none_of_follow followed

theorem follow_budget_le
    (followed : subst.follow budget term = some (rest, found)) :
    rest ≤ budget :=
  follow_keeps (fun left _ => left ≤ budget)
    (fun _ _ _ _ enough => Nat.le_of_succ_le enough) (Nat.le_refl _) followed

end Follow

end Subst

/-! ## The measure of a traversal -/

namespace Term

/-- Adds up the weights of the variables of a term and those of its cells. -/
def weigh (weight : Var → Nat) : Term → Nat
  | var x => weight x
  | cons head tail => head.weigh weight + tail.weigh weight + 2
  | _ => 1

end Term

namespace Subst

/-- A bound on the steps that visit a term through `budget` bindings. -/
def cost (subst : Subst) : Nat → Term → Nat
  | 0, term => term.weigh fun _ => 1
  | budget + 1, term =>
    term.weigh fun x =>
      match subst.lookup x with
      | some next => cost subst budget next + 1
      | none => 1

@[simp]
theorem cost_cons (subst : Subst) (budget : Nat) (head tail : Term) :
    subst.cost budget (.cons head tail) =
      subst.cost budget head + subst.cost budget tail + 2 := by
  cases budget <;> rfl

theorem cost_pos (subst : Subst) (budget : Nat) (term : Term) :
    0 < subst.cost budget term := by
  cases budget with
  | zero => cases term <;> simp [cost, Term.weigh]
  | succ budget =>
    cases term with
    | var x =>
      simp only [cost, Term.weigh]
      split <;> omega
    | _ => simp [cost, Term.weigh]

theorem cost_le_of_follow
    {subst : Subst}
    {budget rest : Nat}
    {term found : Term}
    (followed : subst.follow budget term = some (rest, found)) :
    subst.cost rest found ≤ subst.cost budget term := by
  refine follow_keeps (fun left reached => subst.cost left reached ≤ _) ?_
    (Nat.le_refl _) followed
  intro before term next bound paid
  rcases exists_var_of_next? bound with ⟨x, rfl, looked⟩
  refine Nat.le_trans ?_ paid
  simp [cost, Term.weigh, looked]

end Subst

end RelationalSearch
