import RelationalSearch.Proofs.Subst.Traversal

/-!
# Runs of unification

`Subst.UnifyRun` gives the loop of unification by rules without budgets, one
rule for each thing that can happen to the pair in front.  Induction on a run
sees the loop as it is: pairs come and go while bindings are added.

The loop of the library counts, for either side of a pair, the bindings that
led to it.  A side whose count is that of an actual way (`Subst.Side.Counted`)
never exceeds its budget.  Bindings that are added later do not change this:
they make the budget larger, and an acyclic substitution stays acyclic because
the occurs check is exact.  So the loop ends, its outcome is that of a run, and
what it returns is acyclic.
-/

namespace RelationalSearch

namespace Subst

/-! ## Runs -/

/--
Unification of pending pairs ends with an extended substitution, or with none.
-/
inductive UnifyRun :
    Subst → List (Term × Term) → Option Subst → Prop where
  | done {subst : Subst} : UnifyRun subst [] (some subst)
  | same
      {subst : Subst} {left right leftEnd rightEnd : Term}
      {pairs : List (Term × Term)} {outcome : Option Subst}
      (leftEnds : subst.Ends left leftEnd)
      (rightEnds : subst.Ends right rightEnd)
      (met : meet leftEnd rightEnd = .same)
      (rest : UnifyRun subst pairs outcome) :
      UnifyRun subst ((left, right) :: pairs) outcome
  | clash
      {subst : Subst} {left right leftEnd rightEnd : Term}
      {pairs : List (Term × Term)}
      (leftEnds : subst.Ends left leftEnd)
      (rightEnds : subst.Ends right rightEnd)
      (met : meet leftEnd rightEnd = .clash) :
      UnifyRun subst ((left, right) :: pairs) none
  | refuse
      {subst : Subst} {left right leftEnd rightEnd : Term}
      {pairs : List (Term × Term)} {x : Var} {term : Term}
      (leftEnds : subst.Ends left leftEnd)
      (rightEnds : subst.Ends right rightEnd)
      (met : meet leftEnd rightEnd = .assign x term)
      (occurs : subst.SearchRun x [term] true) :
      UnifyRun subst ((left, right) :: pairs) none
  | assign
      {subst : Subst} {left right leftEnd rightEnd : Term}
      {pairs : List (Term × Term)} {x : Var} {term : Term}
      {outcome : Option Subst}
      (leftEnds : subst.Ends left leftEnd)
      (rightEnds : subst.Ends right rightEnd)
      (met : meet leftEnd rightEnd = .assign x term)
      (absent : subst.SearchRun x [term] false)
      (rest : UnifyRun (subst.bind x term) pairs outcome) :
      UnifyRun subst ((left, right) :: pairs) outcome
  | descend
      {subst : Subst} {left right leftEnd rightEnd : Term}
      {leftHead rightHead leftTail rightTail : Term}
      {pairs : List (Term × Term)} {outcome : Option Subst}
      (leftEnds : subst.Ends left leftEnd)
      (rightEnds : subst.Ends right rightEnd)
      (met :
        meet leftEnd rightEnd =
          .descend leftHead rightHead leftTail rightTail)
      (rest :
        UnifyRun subst
          ((leftHead, rightHead) :: (leftTail, rightTail) :: pairs)
          outcome) :
      UnifyRun subst ((left, right) :: pairs) outcome

/-- A variable that has to stand for a term is unbound. -/
theorem lookup_eq_none_of_meet_eq_assign
    {subst : Subst}
    {left right leftEnd rightEnd term : Term}
    {x : Var}
    (leftEnds : subst.Ends left leftEnd)
    (rightEnds : subst.Ends right rightEnd)
    (met : meet leftEnd rightEnd = .assign x term) :
    subst.lookup x = none := by
  rcases eq_var_of_meet_eq_assign met with ⟨rfl, _⟩ | ⟨rfl, _⟩
  · exact leftEnds.next?_eq_none
  · exact rightEnds.next?_eq_none

/-- A binding that passes the occurs check makes no cycle. -/
theorem Acyclic.bind_of_searchRun
    {subst : Subst}
    (acyclic : subst.Acyclic)
    {x : Var}
    {term : Term}
    (unbound : subst.lookup x = none)
    (absent : subst.SearchRun x [term] false) :
    (subst.bind x term).Acyclic := by
  refine acyclic.bind ?_
  intro reached
  have found := (absent.eq_true_iff unbound).mpr ⟨term, by simp, reached⟩
  exact Bool.false_ne_true found

/-- What a run of unification returns is acyclic. -/
theorem UnifyRun.acyclic
    {subst extended : Subst}
    {pairs : List (Term × Term)}
    {outcome : Option Subst}
    (run : UnifyRun subst pairs outcome)
    (acyclic : subst.Acyclic)
    (success : outcome = some extended) :
    extended.Acyclic := by
  induction run with
  | done =>
    cases success
    exact acyclic
  | same _ _ _ _ ih => exact ih acyclic success
  | clash => simp at success
  | refuse => simp at success
  | assign leftEnds rightEnds met absent _ ih =>
    have unbound :=
      lookup_eq_none_of_meet_eq_assign leftEnds rightEnds met
    exact ih (acyclic.bind_of_searchRun unbound absent) success
  | descend _ _ _ _ ih => exact ih acyclic success

/-! ## Counted sides -/

/-- The side has been led to by as many bindings as it says. -/
def Side.Counted (subst : Subst) (side : Side) : Prop :=
  ∃ trail, subst.Trail trail side.term ∧ trail.length = side.used

namespace Side.Counted

variable {subst : Subst} {side : Side}

theorem start (subst : Subst) (term : Term) :
    (Side.start term).Counted subst :=
  ⟨[], .start term, rfl⟩

theorem part
    (counted : side.Counted subst)
    {inner : Term}
    (included : inner.vars ⊆ side.term.vars) :
    (⟨side.used, inner⟩ : Side).Counted subst := by
  rcases counted with ⟨trail, way, length⟩
  exact ⟨trail, way.part included, length⟩

theorem bind
    (counted : side.Counted subst)
    {x : Var}
    (unbound : subst.lookup x = none)
    (value : Term) :
    side.Counted (subst.bind x value) := by
  rcases counted with ⟨trail, way, length⟩
  exact ⟨trail, way.bind unbound value, length⟩

/-- The budget of a counted side is not exceeded. -/
theorem exists_resolve
    (counted : side.Counted subst)
    (acyclic : subst.Acyclic) :
    ∃ found,
      subst.resolve side = some found ∧
        found.Counted subst ∧
        subst.Ends side.term found.term := by
  rcases counted with ⟨trail, way, length⟩
  have bounded := way.length_le_size acyclic
  have enough :
      subst.Sufficient (subst.size - side.used) side.term :=
    ⟨trail, way, by omega⟩
  rcases enough.follow acyclic with
    ⟨rest, found, followed, longer, onwards, paid⟩
  refine ⟨⟨subst.size - rest, found⟩, ?_, ⟨longer, onwards, ?_⟩, ?_⟩
  · simp only [Subst.resolve, followed]
  · change longer.length = subst.size - rest
    omega
  · exact ends_of_follow followed

/-- What a counted side ends at is counted again. -/
theorem of_resolve
    (counted : side.Counted subst)
    (acyclic : subst.Acyclic)
    {found : Side}
    (resolved : subst.resolve side = some found) :
    found.Counted subst ∧ subst.Ends side.term found.term := by
  rcases counted.exists_resolve acyclic with ⟨_, again, reached⟩
  cases resolved.symm.trans again
  exact reached

end Side.Counted

/-- The terms of pairs of sides. -/
def pairTerms (pairs : List (Side × Side)) : List (Term × Term) :=
  pairs.map fun pair => (pair.1.term, pair.2.term)

@[simp]
theorem pairTerms_cons
    (left right : Side)
    (pairs : List (Side × Side)) :
    pairTerms ((left, right) :: pairs) =
      (left.term, right.term) :: pairTerms pairs :=
  rfl

/-- All sides have been led to by as many bindings as they say. -/
def PairsCounted (subst : Subst) (pairs : List (Side × Side)) : Prop :=
  ∀ pair ∈ pairs, pair.1.Counted subst ∧ pair.2.Counted subst

theorem pairsCounted_cons_iff
    {subst : Subst}
    {left right : Side}
    {pairs : List (Side × Side)} :
    PairsCounted subst ((left, right) :: pairs) ↔
      (left.Counted subst ∧ right.Counted subst) ∧
        PairsCounted subst pairs := by
  simp [PairsCounted]

/-! ## The loops and their runs -/

/-- What settling pairs says about the runs from these pairs. -/
def Settled.Explains
    (subst : Subst)
    (pairs : List (Term × Term)) : Settled → Prop
  | .equal => UnifyRun subst pairs (some subst)
  | .clash => UnifyRun subst pairs none
  | .circular => False
  | .assign x term rest =>
    subst.lookup x = none ∧ PairsCounted subst rest ∧
      (subst.SearchRun x [term] true → UnifyRun subst pairs none) ∧
      ∀ outcome,
        subst.SearchRun x [term] false →
          UnifyRun (subst.bind x term) (pairTerms rest) outcome →
            UnifyRun subst pairs outcome

/-- A step in front of the settled pairs is a step in front of their runs. -/
theorem Settled.Explains.before
    {subst : Subst}
    {pairs earlier : List (Term × Term)}
    {settled : Settled}
    (explains : settled.Explains subst pairs)
    (step :
      ∀ outcome, UnifyRun subst pairs outcome →
        UnifyRun subst earlier outcome) :
    settled.Explains subst earlier := by
  cases settled with
  | equal => exact step _ explains
  | clash => exact step _ explains
  | circular => exact explains
  | assign x term rest =>
    rcases explains with ⟨unbound, counted, refused, accepted⟩
    refine ⟨unbound, counted, fun occurs => step _ (refused occurs), ?_⟩
    intro outcome absent run
    exact step outcome (accepted outcome absent run)

theorem explains_settle
    {subst : Subst}
    (acyclic : subst.Acyclic)
    (pairs : List (Side × Side))
    (counted : PairsCounted subst pairs) :
    (subst.settle pairs).Explains subst (pairTerms pairs) := by
  fun_induction settle subst pairs with
  | case1 => exact .done
  | case2 left right pairs leftFound rightFound leftResolved rightResolved met
      ih =>
    rw [pairsCounted_cons_iff] at counted
    rcases counted.1.1.of_resolve acyclic leftResolved with ⟨_, leftEnds⟩
    rcases counted.1.2.of_resolve acyclic rightResolved with ⟨_, rightEnds⟩
    exact (ih counted.2).before fun _ => .same leftEnds rightEnds met
  | case3 left right pairs leftFound rightFound leftResolved rightResolved
      met =>
    rw [pairsCounted_cons_iff] at counted
    rcases counted.1.1.of_resolve acyclic leftResolved with ⟨_, leftEnds⟩
    rcases counted.1.2.of_resolve acyclic rightResolved with ⟨_, rightEnds⟩
    exact .clash leftEnds rightEnds met
  | case4 left right pairs leftFound rightFound leftResolved rightResolved x
      term met =>
    rw [pairsCounted_cons_iff] at counted
    rcases counted.1.1.of_resolve acyclic leftResolved with ⟨_, leftEnds⟩
    rcases counted.1.2.of_resolve acyclic rightResolved with ⟨_, rightEnds⟩
    refine ⟨lookup_eq_none_of_meet_eq_assign leftEnds rightEnds met,
      counted.2, .refuse leftEnds rightEnds met, ?_⟩
    intro outcome absent run
    exact .assign leftEnds rightEnds met absent run
  | case5 left right pairs leftFound rightFound leftResolved rightResolved
      leftHead rightHead leftTail rightTail met ih =>
    rw [pairsCounted_cons_iff] at counted
    rcases counted.1.1.of_resolve acyclic leftResolved with
      ⟨leftCounted, leftEnds⟩
    rcases counted.1.2.of_resolve acyclic rightResolved with
      ⟨rightCounted, rightEnds⟩
    have cells := eq_cons_of_meet_eq_descend met
    have inner :
        PairsCounted subst
          ((⟨leftFound.used, leftHead⟩, ⟨rightFound.used, rightHead⟩) ::
            (⟨leftFound.used, leftTail⟩, ⟨rightFound.used, rightTail⟩) ::
            pairs) := by
      rw [pairsCounted_cons_iff, pairsCounted_cons_iff]
      refine ⟨⟨leftCounted.part ?_, rightCounted.part ?_⟩,
        ⟨leftCounted.part ?_, rightCounted.part ?_⟩, counted.2⟩
      all_goals simp [cells.1, cells.2]
    exact (ih inner).before fun _ => .descend leftEnds rightEnds met
  | case6 left right pairs failed =>
    rw [pairsCounted_cons_iff] at counted
    rcases counted.1.1.exists_resolve acyclic with ⟨_, leftAgain, _⟩
    rcases counted.1.2.exists_resolve acyclic with ⟨_, rightAgain, _⟩
    exact (failed _ _ leftAgain rightAgain).elim

/-- Unification of counted pairs ends, with the outcome of a run. -/
theorem exists_unifyPairs_eq_some
    {subst : Subst}
    (acyclic : subst.Acyclic)
    (pairs : List (Side × Side))
    (counted : PairsCounted subst pairs) :
    ∃ outcome, subst.unifyPairs pairs = some outcome ∧
      UnifyRun subst (pairTerms pairs) outcome := by
  have explains := explains_settle acyclic pairs counted
  fun_induction unifyPairs subst pairs with
  | case1 subst pairs settled =>
    rw [settled] at explains
    exact ⟨some subst, rfl, explains⟩
  | case2 subst pairs settled =>
    rw [settled] at explains
    exact ⟨none, rfl, explains⟩
  | case3 subst pairs settled =>
    rw [settled] at explains
    exact explains.elim
  | case4 subst pairs x term rest settled extended success ih =>
    rw [settled] at explains
    rcases explains with ⟨unbound, restCounted, _, accepted⟩
    have searched := (occursIn_eq_some_occurs acyclic x term).2
    have bound := eq_bind_of_extend? success
    have absent : subst.occurs x term = false := by
      simpa [extend?] using congrArg Option.isSome success
    rw [absent] at searched
    have extendedAcyclic : extended.Acyclic :=
      bound ▸ acyclic.bind_of_searchRun unbound searched
    have extendedCounted : PairsCounted extended rest := by
      intro pair member
      rw [bound]
      rcases restCounted pair member with ⟨left, right⟩
      exact ⟨left.bind unbound term, right.bind unbound term⟩
    obtain ⟨outcome, found, run⟩ :=
      ih extendedAcyclic extendedCounted
        (explains_settle extendedAcyclic rest extendedCounted)
    rw [bound] at run
    exact ⟨outcome, found, accepted outcome searched run⟩
  | case5 subst pairs x term rest settled refused =>
    rw [settled] at explains
    rcases explains with ⟨_, _, rejected, _⟩
    have searched := (occursIn_eq_some_occurs acyclic x term).2
    have occurs : subst.occurs x term = true := by
      simpa [extend?] using refused
    rw [occurs] at searched
    exact ⟨none, rfl, rejected searched⟩

/-- Over an acyclic substitution unification ends, with its outcome. -/
theorem unifyPairs_eq_some_unify
    {subst : Subst}
    (acyclic : subst.Acyclic)
    (left right : Term) :
    subst.unifyPairs [(.start left, .start right)] =
        some (subst.unify left right) ∧
      UnifyRun subst [(left, right)] (subst.unify left right) := by
  have counted :
      PairsCounted subst [(.start left, .start right)] := by
    rw [pairsCounted_cons_iff]
    exact ⟨⟨.start _ _, .start _ _⟩, by simp [PairsCounted]⟩
  rcases exists_unifyPairs_eq_some acyclic _ counted with
    ⟨outcome, found, run⟩
  have same : subst.unify left right = outcome := by
    rw [unify, found, Option.join_some]
  rw [same]
  exact ⟨found, run⟩

theorem unifyRun_unify
    {subst : Subst}
    (acyclic : subst.Acyclic)
    (left right : Term) :
    UnifyRun subst [(left, right)] (subst.unify left right) :=
  (unifyPairs_eq_some_unify acyclic left right).2

/-- Unification keeps bindings acyclic. -/
theorem Acyclic.unify
    {subst extended : Subst}
    (acyclic : subst.Acyclic)
    {left right : Term}
    (success : subst.unify left right = some extended) :
    extended.Acyclic :=
  (unifyRun_unify acyclic left right).acyclic acyclic success

/-! ## Substitutions made by unification -/

/-- The substitution is made from the empty one by unification. -/
inductive Reachable : Subst → Prop where
  | empty : Reachable ∅
  | unify
      {subst extended : Subst} {left right : Term}
      (before : Reachable subst)
      (success : subst.unify left right = some extended) :
      Reachable extended

theorem Reachable.acyclic {subst : Subst} (reachable : Reachable subst) :
    subst.Acyclic := by
  induction reachable with
  | empty => exact acyclic_empty
  | unify _ success ih => exact ih.unify success

/--
Every traversal of every term ends within its budget, and as the loop without
budgets does.
-/
structure TraversalsEnd (subst : Subst) : Prop where
  walk :
    ∀ term, (∃ rest, subst.follow subst.size term =
        some (rest, subst.walk term)) ∧
      subst.Ends term (subst.walk term)
  occurs :
    ∀ x term, subst.occursIn x [(subst.size, term)] =
        some (subst.occurs x term) ∧
      subst.SearchRun x [term] (subst.occurs x term)
  reify :
    ∀ term, subst.reifyTasks [.visit subst.size term] [] =
        some (subst.reify term) ∧
      subst.ReifyRun [.visit term] [] (some (subst.reify term))
  unify :
    ∀ left right, subst.unifyPairs [(.start left, .start right)] =
        some (subst.unify left right) ∧
      UnifyRun subst [(left, right)] (subst.unify left right)

theorem Acyclic.traversalsEnd {subst : Subst} (acyclic : subst.Acyclic) :
    subst.TraversalsEnd where
  walk := follow_eq_some_walk acyclic
  occurs := occursIn_eq_some_occurs acyclic
  reify := reifyTasks_eq_some_reify acyclic
  unify := unifyPairs_eq_some_unify acyclic

/--
Over acyclic bindings the loop of unification ends, and what it returns is
acyclic again.  So every traversal ends, from every term, over every
substitution that unification makes from the empty one.
-/
theorem unify_ends_and_keeps_acyclic :
    (∀ subst : Subst, subst.Acyclic → ∀ left right,
      (subst.unifyPairs [(.start left, .start right)] =
          some (subst.unify left right) ∧
        UnifyRun subst [(left, right)] (subst.unify left right)) ∧
      ∀ extended, subst.unify left right = some extended →
        extended.Acyclic) ∧
    ∀ subst : Subst, Reachable subst → subst.TraversalsEnd := by
  constructor
  · intro subst acyclic left right
    refine ⟨unifyPairs_eq_some_unify acyclic left right, ?_⟩
    intro extended success
    exact acyclic.unify success
  · intro subst reachable
    exact reachable.acyclic.traversalsEnd

end Subst

end RelationalSearch
