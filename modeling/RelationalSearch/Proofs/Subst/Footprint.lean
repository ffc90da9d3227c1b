import RelationalSearch.Proofs.Subst.Scope

/-!
# What unification leaves alone

Unification adds bindings and changes none.  What it binds anew are variables that
show in the two terms as they are reified before, and what they are bound to speaks
of no others (`Subst.AddsOnly`).  Of each pair that the loop takes off its list the
same is true, though the bindings that lead to the ends of the pair may be new
themselves.

It adds nothing where nothing has to be added.  If two terms are reified to the
same term, so are the ends of each pair that they are taken apart into, and no
such pair asks for a binding.  A binding that is made adds to the size of the
substitution, so the size tells whether the terms were equal before
(`Subst.unify_adds_only_needed`).
-/

namespace RelationalSearch

namespace Subst

variable {subst current extended : Subst} {allowed : List Var}

/-! ## New bindings -/

/--
The later substitution keeps the bindings.  What it binds anew are variables of the
list, to terms that stand for variables of the list only.
-/
structure AddsOnly
    (subst : Subst)
    (allowed : List Var)
    (later : Subst) : Prop where
  kept :
    ∀ {x term}, subst.lookup x = some term →
      later.lookup x = some term
  added :
    ∀ {x term}, later.lookup x = some term → subst.lookup x = none →
      x ∈ allowed ∧ (subst.reify term).vars ⊆ allowed

namespace AddsOnly

theorem refl (subst : Subst) (allowed : List Var) :
    subst.AddsOnly allowed subst where
  kept := id
  added bound unbound := by simp [unbound] at bound

theorem lookup_eq_none
    (adds : subst.AddsOnly allowed current)
    {x : Var}
    (unbound : current.lookup x = none) :
    subst.lookup x = none := by
  rw [Option.eq_none_iff_forall_ne_some] at unbound ⊢
  exact fun term bound => unbound term (adds.kept bound)

/-- A binding of a variable of the list is added. -/
theorem bind
    (adds : subst.AddsOnly allowed current)
    {x : Var}
    {term : Term}
    (unbound : current.lookup x = none)
    (member : x ∈ allowed)
    (shown : (subst.reify term).vars ⊆ allowed) :
    subst.AddsOnly allowed (current.bind x term) where
  kept bound := lookup_bind_of_bound unbound (adds.kept bound) term
  added {y found} bound free := by
    rw [lookup_bind] at bound
    split at bound
    next same =>
      cases bound
      exact ⟨same ▸ member, shown⟩
    next => exact adds.added bound free

section Shown

variable (adds : subst.AddsOnly allowed current) (acyclic : subst.Acyclic)
  {term found result : Term} (shown : (subst.reify term).vars ⊆ allowed)

include adds acyclic shown

theorem mem_of_unbound
    {x : Var}
    (same : term = .var x)
    (unbound : current.lookup x = none) :
    x ∈ allowed := by
  subst same
  rw [reify_var_eq_self acyclic (adds.lookup_eq_none unbound)] at shown
  exact shown (by simp)

/-- The bindings that are followed, old or new, lead to no further variables. -/
theorem shown_of_ends
    (ends : current.Ends term found) :
    (subst.reify found).vars ⊆ allowed := by
  induction ends with
  | here => exact shown
  | @step term next _ bound _ ih =>
    apply ih
    rcases exists_var_of_next? bound with ⟨x, rfl, looked⟩
    cases before : subst.lookup x with
    | none => exact (adds.added looked before).2
    | some old =>
      have same : old = next := Option.some.inj ((adds.kept before).symm.trans looked)
      rwa [reify_bound acyclic before, same] at shown

/-- What a term stands for later has no further variables either. -/
theorem shown_of_reified
    (reified : current.Reified term result) :
    result.vars ⊆ allowed := by
  induction reified with
  | @leaf term found ends notCell =>
    have inside := adds.shown_of_ends acyclic shown ends
    cases found with
    | var x =>
      have member := adds.mem_of_unbound acyclic inside rfl ends.next?_eq_none
      simpa using member
    | cons => simp [Term.isCons] at notCell
    | _ => simp
  | cell ends _ _ headIH tailIH =>
    have inside := adds.shown_of_ends acyclic shown ends
    rw [reify_cons acyclic, Term.vars_cons, List.append_subset] at inside
    rw [Term.vars_cons, List.append_subset]
    exact ⟨headIH inside.1, tailIH inside.2⟩

end Shown

/-- What two ends ask for is a binding of a variable of the list. -/
theorem assign
    (adds : subst.AddsOnly allowed current)
    (acyclic : subst.Acyclic)
    {left right leftEnd rightEnd term : Term}
    {x : Var}
    (leftEnds : current.Ends left leftEnd)
    (rightEnds : current.Ends right rightEnd)
    (met : meet leftEnd rightEnd = .assign x term)
    (leftShown : (subst.reify left).vars ⊆ allowed)
    (rightShown : (subst.reify right).vars ⊆ allowed) :
    subst.AddsOnly allowed (current.bind x term) := by
  have unbound := lookup_eq_none_of_meet_eq_assign leftEnds rightEnds met
  have leftInside := adds.shown_of_ends acyclic leftShown leftEnds
  have rightInside := adds.shown_of_ends acyclic rightShown rightEnds
  rcases eq_var_of_meet_eq_assign met with ⟨isVar, rfl⟩ | ⟨isVar, rfl⟩
  · exact adds.bind unbound
      (adds.mem_of_unbound acyclic leftInside isVar unbound) rightInside
  · exact adds.bind unbound
      (adds.mem_of_unbound acyclic rightInside isVar unbound) leftInside

end AddsOnly

/-- A run adds bindings of variables that show in its pairs, and no others. -/
theorem UnifyRun.addsOnly
    {pairs : List (Term × Term)}
    {outcome : Option Subst}
    (run : UnifyRun current pairs outcome)
    (success : outcome = some extended)
    (acyclic : subst.Acyclic)
    (adds : subst.AddsOnly allowed current)
    (shown :
      ∀ pair ∈ pairs,
        (subst.reify pair.1).vars ⊆ allowed ∧
          (subst.reify pair.2).vars ⊆ allowed) :
    subst.AddsOnly allowed extended := by
  induction run with
  | done =>
    cases success
    exact adds
  | clash | refuse => simp at success
  | same _ _ _ _ ih =>
    rw [List.forall_mem_cons] at shown
    exact ih success adds shown.2
  | assign leftEnds rightEnds met _ _ ih =>
    rw [List.forall_mem_cons] at shown
    exact ih success
      (adds.assign acyclic leftEnds rightEnds met shown.1.1 shown.1.2) shown.2
  | descend leftEnds rightEnds met _ ih =>
    rw [List.forall_mem_cons] at shown
    have leftInside := adds.shown_of_ends acyclic shown.1.1 leftEnds
    have rightInside := adds.shown_of_ends acyclic shown.1.2 rightEnds
    rcases eq_cons_of_meet_eq_descend met with ⟨rfl, rfl⟩
    rw [reify_cons acyclic, Term.vars_cons, List.append_subset]
      at leftInside rightInside
    refine ih success adds ?_
    rw [List.forall_mem_cons, List.forall_mem_cons]
    exact ⟨⟨leftInside.1, rightInside.1⟩, ⟨leftInside.2, rightInside.2⟩, shown.2⟩

/-! ## Terms that are equal already -/

/-- Each binding that a run makes adds to the size. -/
theorem UnifyRun.eq_or_size_lt
    {pairs : List (Term × Term)}
    {outcome : Option Subst}
    (run : UnifyRun subst pairs outcome)
    (success : outcome = some extended) :
    extended = subst ∨ subst.size < extended.size := by
  induction run with
  | done =>
    cases success
    exact .inl rfl
  | clash | refuse => simp at success
  | same _ _ _ _ ih => exact ih success
  | @assign subst _ _ _ _ _ x term _ leftEnds rightEnds met _ _ ih =>
    have larger := size_bind_of_lookup_eq_none
      (lookup_eq_none_of_meet_eq_assign leftEnds rightEnds met) term
    right
    rcases ih success with rfl | smaller <;> omega
  | descend _ _ _ _ ih => exact ih success

/-- A variable is not asked to stand for a term that is equal to it already. -/
theorem reify_var_ne_of_meet_eq_assign
    (acyclic : subst.Acyclic)
    {left right leftEnd rightEnd term : Term}
    {x : Var}
    (leftEnds : subst.Ends left leftEnd)
    (rightEnds : subst.Ends right rightEnd)
    (met : meet leftEnd rightEnd = .assign x term) :
    subst.reify (.var x) ≠ subst.reify term := by
  have unbound := lookup_eq_none_of_meet_eq_assign leftEnds rightEnds met
  have last : subst.next? term = none := by
    rcases eq_var_of_meet_eq_assign met with ⟨_, rfl⟩ | ⟨_, rfl⟩
    · exact rightEnds.next?_eq_none
    · exact leftEnds.next?_eq_none
  intro equal
  rw [reify_var_eq_self acyclic unbound] at equal
  exact ne_var_of_meet_eq_assign met
    ((Ends.here last).unique (ends_of_reify acyclic equal.symm rfl))

/-- The ends of the pair in front are as equal as the pair itself. -/
theorem Solves.ends_eq
    {valuation : Var → Term}
    {left right leftEnd rightEnd : Term}
    {pairs : List (Term × Term)}
    (solved : Solves valuation ((left, right) :: pairs))
    (satisfied : Satisfies valuation subst)
    (leftEnds : subst.Ends left leftEnd)
    (rightEnds : subst.Ends right rightEnd) :
    leftEnd.under valuation = rightEnd.under valuation := by
  rw [← leftEnds.under_eq satisfied, ← rightEnds.under_eq satisfied]
  exact (solves_cons.mp solved).1

/-- Nothing is added for pairs that are equal as they are reified. -/
theorem UnifyRun.eq_some_of_solves
    {pairs : List (Term × Term)}
    {outcome : Option Subst}
    (run : UnifyRun subst pairs outcome)
    (acyclic : subst.Acyclic)
    (solved : Solves (fun x => subst.reify (.var x)) pairs) :
    outcome = some subst := by
  induction run with
  | done => rfl
  | same _ _ _ _ ih => exact ih acyclic (solves_cons.mp solved).2
  | clash leftEnds rightEnds met =>
    have equal := solved.ends_eq (satisfies_reify acyclic) leftEnds rightEnds
    exact absurd equal (under_ne_of_meet_eq_clash met)
  | refuse leftEnds rightEnds met | assign leftEnds rightEnds met =>
    -- No binding is asked for, so the substitution stays the one it was.
    have equal := solved.ends_eq (satisfies_reify acyclic) leftEnds rightEnds
    rw [under_eq_iff_of_meet_eq_assign met, ← reify_eq_under acyclic] at equal
    exact absurd equal
      (reify_var_ne_of_meet_eq_assign acyclic leftEnds rightEnds met)
  | descend leftEnds rightEnds met _ ih =>
    have equal := solved.ends_eq (satisfies_reify acyclic) leftEnds rightEnds
    rw [under_eq_iff_of_meet_eq_descend met] at equal
    refine ih acyclic ?_
    rw [solves_cons, solves_cons]
    exact ⟨equal.1, equal.2, (solves_cons.mp solved).2⟩

/-- Terms that stand for the same are unified without a binding. -/
theorem unify_eq_self
    (acyclic : subst.Acyclic)
    {left right : Term}
    (equal : subst.reify left = subst.reify right) :
    subst.unify left right = some subst := by
  refine (unifyRun_unify acyclic left right).eq_some_of_solves acyclic ?_
  rw [solves_cons, ← reify_eq_under acyclic, ← reify_eq_under acyclic]
  exact ⟨equal, solves_nil⟩

/-! ## The footprint of unification -/

/--
Unification touches only what it must.  It keeps each binding.  What it binds anew
are unbound variables that show in one of the terms, to terms in which only such
variables show, before and afterwards.  It binds nothing, which is to say that the
size stays as it is, just if the terms are reified to the same term before; so
there is nothing left to bind when they are unified once more.
-/
theorem unify_adds_only_needed
    (acyclic : subst.Acyclic)
    {left right : Term}
    (success : subst.unify left right = some extended) :
    (∀ x term, subst.lookup x = some term → extended.lookup x = some term) ∧
    (∀ x term, extended.lookup x = some term → subst.lookup x = none →
      (x ∈ (subst.reify left).vars ∨ x ∈ (subst.reify right).vars) ∧
        ∀ y, y ∈ (subst.reify term).vars ∨ y ∈ (extended.reify term).vars →
          y ∈ (subst.reify left).vars ∨ y ∈ (subst.reify right).vars) ∧
    (extended = subst ↔ subst.reify left = subst.reify right) ∧
    (extended.size = subst.size ↔ subst.reify left = subst.reify right) ∧
    extended.unify left right = some extended := by
  have run := unifyRun_unify acyclic left right
  have grows := acyclic.grows_of_unify success
  have equal := reify_eq_of_unify acyclic success
  have same : extended = subst ↔ subst.reify left = subst.reify right := by
    constructor
    · rintro rfl
      exact equal
    · intro before
      rw [unify_eq_self acyclic before] at success
      exact (Option.some.inj success).symm
  have adds := run.addsOnly success acyclic
    (.refl subst ((subst.reify left).vars ++ (subst.reify right).vars))
    (by simp)
  refine ⟨fun x term => grows.kept, fun x term bound unbound => ?_, same, ?_,
    unify_eq_self grows.acyclic equal⟩
  · rcases adds.added bound unbound with ⟨member, shown⟩
    refine ⟨List.mem_append.mp member, fun y occurs => List.mem_append.mp ?_⟩
    exact occurs.elim (fun before => shown before) fun later =>
      adds.shown_of_reified acyclic shown (reified_reify grows.acyclic term) later
  · rw [← same]
    constructor
    · intro sizes
      refine (run.eq_or_size_lt success).resolve_right ?_
      omega
    · rintro rfl
      rfl

/-- Two aliases of a variable are made equal to an atom, by one new binding. -/
theorem unify_adds_only_needed_alias :
    let subst := ((∅ : Subst).bind ⟨0⟩ (.var ⟨2⟩)).bind ⟨1⟩ (.var ⟨2⟩)
    let left := Term.cons (.var ⟨0⟩) (.var ⟨1⟩)
    let right := Term.cons (.int 1) (.var ⟨2⟩)
    ∃ extended,
      subst.Acyclic ∧ subst.unify left right = some extended ∧
        extended.lookup ⟨0⟩ = some (.var ⟨2⟩) ∧
        extended.lookup ⟨2⟩ = some (.int 1) ∧ extended.size = 3 ∧
        (⟨2⟩ ∈ (subst.reify left).vars ∨ ⟨2⟩ ∈ (subst.reify right).vars) ∧
        subst.reify left ≠ subst.reify right ∧
        extended.unify left right = some extended := by
  intro subst left right
  have acyclic : subst.Acyclic := by
    refine (acyclic_empty.bind ?_).bind ?_
    · rw [reaches_var_iff (lookup_empty _)]
      decide
    · rw [reaches_var_iff (by decide +kernel)]
      decide
  have found :
      (subst.unify left right).map
          (fun extended => (extended.lookup ⟨2⟩, extended.size)) =
        some (some (.int 1), 3) := by
    decide +kernel
  rcases Option.map_eq_some_iff.mp found with ⟨extended, success, shown⟩
  rw [Prod.mk.injEq] at shown
  rcases unify_adds_only_needed acyclic success with
    ⟨kept, added, _, sizes, again⟩
  refine ⟨extended, acyclic, success, kept _ _ (by decide +kernel), shown.1,
    shown.2, (added _ _ shown.1 (by decide +kernel)).1, ?_, again⟩
  rw [Ne, ← sizes, shown.2]
  decide +kernel

end Subst

end RelationalSearch
