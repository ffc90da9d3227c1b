import RelationalSearch.Proofs.Subst.Growth

/-!
# What unification binds

The rules of unification leave no choice, so a run shows what is bound
(`Subst.unify_eq_of_run`).  The relations on sequences and graphs unify in few
ways: they take a known cell apart into fresh variables, they let an unbound
variable stand for a term, and they compare the ends of sequences.

In a session all variables have numbers below its supply.  A substitution of
the session speaks of no others (`Subst.Within`), and this is what makes the
next variables fresh.
-/

namespace RelationalSearch

namespace Term

theorem isVar_eq_false_of_isGround
    {term : Term}
    (ground : term.isGround = true) :
    term.isVar = false := by
  cases term with
  | var => simp at ground
  | _ => rfl

theorem asVar?_eq_none_of_isGround
    {term : Term}
    (ground : term.isGround = true) :
    term.asVar? = none := by
  cases term with
  | var => simp at ground
  | _ => rfl

theorem ceiling_eq_zero_of_isGround
    {term : Term}
    (ground : term.isGround = true) :
    term.ceiling = 0 := by
  induction term with
  | var => simp at ground
  | cons head tail headIH tailIH =>
    rw [isGround_cons, Bool.and_eq_true] at ground
    rw [ceiling, headIH ground.1, tailIH ground.2, Nat.max_self]
  | _ => rfl

end Term

namespace Subst

variable {subst : Subst}

/-! ## Runs are determined -/

/-- What a run makes of the pair in front is what the ends of it ask for. -/
theorem UnifyRun.of_meet
    {left right leftEnd rightEnd : Term}
    {pairs : List (Term × Term)}
    {outcome : Option Subst}
    (run : UnifyRun subst ((left, right) :: pairs) outcome)
    (leftEnds : subst.Ends left leftEnd)
    (rightEnds : subst.Ends right rightEnd) :
    match meet leftEnd rightEnd with
    | .same => UnifyRun subst pairs outcome
    | .clash => outcome = none
    | .assign x term =>
      (subst.SearchRun x [term] true ∧ outcome = none) ∨
        (subst.SearchRun x [term] false ∧
          UnifyRun (subst.bind x term) pairs outcome)
    | .descend leftHead rightHead leftTail rightTail =>
      UnifyRun subst
        ((leftHead, rightHead) :: (leftTail, rightTail) :: pairs)
        outcome := by
  cases run with
  | same otherLeft otherRight met rest
  | descend otherLeft otherRight met rest =>
    rw [leftEnds.unique otherLeft, rightEnds.unique otherRight, met]
    exact rest
  | clash otherLeft otherRight met =>
    rw [leftEnds.unique otherLeft, rightEnds.unique otherRight, met]
  | refuse otherLeft otherRight met occurs =>
    rw [leftEnds.unique otherLeft, rightEnds.unique otherRight, met]
    exact .inl ⟨occurs, rfl⟩
  | assign otherLeft otherRight met absent rest =>
    rw [leftEnds.unique otherLeft, rightEnds.unique otherRight, met]
    exact .inr ⟨absent, rest⟩

/-- The occurs check has one answer. -/
theorem SearchRun.unique
    {x : Var}
    {pending : List Term}
    {answer other : Bool}
    (run : subst.SearchRun x pending answer)
    (otherRun : subst.SearchRun x pending other)
    (unbound : subst.lookup x = none) :
    answer = other := by
  rw [Bool.eq_iff_iff, run.eq_true_iff unbound,
    otherRun.eq_true_iff unbound]

/-- Pending pairs have one outcome. -/
theorem UnifyRun.unique
    {pairs : List (Term × Term)}
    {outcome other : Option Subst}
    (run : UnifyRun subst pairs outcome)
    (otherRun : UnifyRun subst pairs other) :
    outcome = other := by
  induction run generalizing other with
  | done =>
    cases otherRun
    rfl
  | same leftEnds rightEnds met _ ih
  | descend leftEnds rightEnds met _ ih =>
    have alike := otherRun.of_meet leftEnds rightEnds
    rw [met] at alike
    exact ih alike
  | clash leftEnds rightEnds met =>
    have alike := otherRun.of_meet leftEnds rightEnds
    rw [met] at alike
    exact alike.symm
  | refuse leftEnds rightEnds met occurs =>
    have unbound := lookup_eq_none_of_meet_eq_assign leftEnds rightEnds met
    have alike := otherRun.of_meet leftEnds rightEnds
    rw [met] at alike
    rcases alike with ⟨_, refused⟩ | ⟨absent, _⟩
    · exact refused.symm
    · cases occurs.unique absent unbound
  | assign leftEnds rightEnds met absent _ ih =>
    have unbound := lookup_eq_none_of_meet_eq_assign leftEnds rightEnds met
    have alike := otherRun.of_meet leftEnds rightEnds
    rw [met] at alike
    rcases alike with ⟨occurs, _⟩ | ⟨_, rest⟩
    · cases occurs.unique absent unbound
    · exact ih rest

theorem unify_eq_of_run
    (acyclic : subst.Acyclic)
    {left right : Term}
    {outcome : Option Subst}
    (run : UnifyRun subst [(left, right)] outcome) :
    subst.unify left right = outcome :=
  (unifyRun_unify acyclic left right).unique run

/-! ## Ends of bindings -/

theorem next?_eq_none_of_isGround
    {term : Term}
    (ground : term.isGround = true) :
    subst.next? term = none := by
  cases term with
  | var => simp at ground
  | _ => rfl

theorem ends_of_isGround
    {term : Term}
    (ground : term.isGround = true) :
    subst.Ends term term :=
  .here (next?_eq_none_of_isGround ground)

theorem ends_of_lookup_eq_none
    {x : Var}
    (unbound : subst.lookup x = none) :
    subst.Ends (.var x) (.var x) :=
  .here unbound

/-- A variable ends at the ground term that it is bound to. -/
theorem ends_of_lookup_eq_some
    {x : Var}
    {term : Term}
    (bound : subst.lookup x = some term)
    (ground : term.isGround = true) :
    subst.Ends (.var x) term :=
  .step bound (ends_of_isGround ground)

theorem walk_eq_of_ends
    (acyclic : subst.Acyclic)
    {term found : Term}
    (ends : subst.Ends term found) :
    subst.walk term = found :=
  (follow_eq_some_walk acyclic term).2.unique ends

theorem reify_eq_of_ends
    (acyclic : subst.Acyclic)
    {term found : Term}
    (ends : subst.Ends term found)
    (ground : found.isGround = true) :
    subst.reify term = found :=
  reify_eq_of_reified acyclic ((Reified.of_isGround ground).of_ends ends)

theorem reify_eq_of_isGround
    (acyclic : subst.Acyclic)
    {term : Term}
    (ground : term.isGround = true) :
    subst.reify term = term :=
  reify_eq_of_ends acyclic (ends_of_isGround ground) ground

theorem reify_var_eq_self
    (acyclic : subst.Acyclic)
    {x : Var}
    (unbound : subst.lookup x = none) :
    subst.reify (.var x) = .var x :=
  reify_eq_of_reified acyclic (.leaf (ends_of_lookup_eq_none unbound) rfl)

/-- An unbound variable that is reached shows in the reified term. -/
theorem Reified.mem_vars_of_reaches
    {term result : Term}
    {x : Var}
    (reified : subst.Reified term result)
    (unbound : subst.lookup x = none)
    (reached : subst.Reaches term x) :
    x ∈ result.vars := by
  induction reified with
  | @leaf term found ends notCell =>
    rw [ends.reaches_iff unbound] at reached
    cases found with
    | var y =>
      rw [reaches_var_iff ends.next?_eq_none] at reached
      simp [reached]
    | cons => simp [Term.isCons] at notCell
    | _ => simp [Reaches] at reached
  | cell ends _ _ headIH tailIH =>
    rw [ends.reaches_iff unbound, reaches_cons_iff] at reached
    rw [Term.vars_cons, List.mem_append]
    exact reached.imp headIH tailIH

/-! ## Single bindings -/

/-- An unbound variable comes to stand for a term in which it is not reached. -/
theorem unify_eq_bind
    (acyclic : subst.Acyclic)
    {left right leftEnd rightEnd term : Term}
    {x : Var}
    (leftEnds : subst.Ends left leftEnd)
    (rightEnds : subst.Ends right rightEnd)
    (met : meet leftEnd rightEnd = .assign x term)
    (apart : ¬ subst.Reaches term x) :
    subst.unify left right = some (subst.bind x term) := by
  have unbound := lookup_eq_none_of_meet_eq_assign leftEnds rightEnds met
  have search := (occursIn_eq_some_occurs acyclic x term).2
  have absent : subst.occurs x term = false := by
    rw [Bool.eq_false_iff]
    intro found
    rcases (search.eq_true_iff unbound).mp found with ⟨other, member, reached⟩
    rw [List.mem_singleton] at member
    exact apart (member ▸ reached)
  rw [absent] at search
  exact unify_eq_of_run acyclic (.assign leftEnds rightEnds met search .done)

theorem unify_var_of_isGround
    (acyclic : subst.Acyclic)
    {x : Var}
    {left right : Term}
    (leftEnds : subst.Ends left (.var x))
    (ground : right.isGround = true) :
    subst.unify left right = some (subst.bind x right) := by
  refine unify_eq_bind acyclic leftEnds (ends_of_isGround ground) ?_
    (not_reaches_of_isGround ground x)
  rw [meet, Term.asVar?_eq_none_of_isGround ground, if_neg (by simp)]

theorem unify_of_isGround_var
    (acyclic : subst.Acyclic)
    {x : Var}
    {left right term : Term}
    (leftEnds : subst.Ends left term)
    (ground : term.isGround = true)
    (rightEnds : subst.Ends right (.var x)) :
    subst.unify left right = some (subst.bind x term) := by
  refine unify_eq_bind acyclic leftEnds rightEnds ?_
    (not_reaches_of_isGround ground x)
  cases term with
  | var => simp at ground
  | _ => rfl

/-- An unbound variable comes to stand for what the left term stands for. -/
theorem exists_unify_eq_of_isGround_reify
    (acyclic : subst.Acyclic)
    {left : Term}
    {x : Var}
    (ground : (subst.reify left).isGround = true)
    (unbound : subst.lookup x = none) :
    ∃ extended,
      subst.unify left (.var x) = some extended ∧
        extended.reify (.var x) = subst.reify left := by
  have ends := (follow_eq_some_walk acyclic left).2
  generalize subst.walk left = found at ends
  have reified := reified_reify acyclic found
  have same : subst.reify left = subst.reify found :=
    reify_eq_of_reified acyclic (reified.of_ends ends)
  rw [same] at ground ⊢
  have notVar : found.isVar = false := by
    cases found with
    | var y => simp [reify_var_eq_self acyclic ends.next?_eq_none] at ground
    | _ => rfl
  have met : meet found (.var x) = .assign x found := by
    cases found with
    | var => simp [Term.isVar] at notVar
    | _ => rfl
  have apart : ¬ subst.Reaches found x := by
    intro reached
    have member := reified.mem_vars_of_reaches unbound reached
    rw [(Term.isGround_eq_true_iff _).mp ground] at member
    cases member
  have success := unify_eq_bind acyclic ends (ends_of_lookup_eq_none unbound)
    met apart
  have grows := acyclic.grows_of_unify success
  refine ⟨_, success, ?_⟩
  rw [reify_bound grows.acyclic (lookup_bind_self _ _ _),
    grows.reify_eq_of_isGround acyclic ground]

/-- A known cell is taken apart into variables that are unbound. -/
theorem unify_cell
    (acyclic : subst.Acyclic)
    {first second : Var}
    {whole head tail : Term}
    (ends : subst.Ends whole (.cons head tail))
    (headGround : head.isGround = true)
    (tailGround : tail.isGround = true)
    (firstUnbound : subst.lookup first = none)
    (secondUnbound : subst.lookup second = none)
    (different : first ≠ second) :
    subst.unify (.cons (.var first) (.var second)) whole =
      some ((subst.bind first head).bind second tail) := by
  have assigned (x : Var) {term : Term} (ground : term.isGround = true) :
      meet (.var x) term = .assign x term := by
    rw [meet, Term.asVar?_eq_none_of_isGround ground, if_neg (by simp)]
  have secondFree : (subst.bind first head).lookup second = none := by
    rw [lookup_bind_of_ne _ _ different, secondUnbound]
  refine unify_eq_of_run acyclic (.descend (.here rfl) ends rfl ?_)
  refine .assign (ends_of_lookup_eq_none firstUnbound)
    (ends_of_isGround headGround) (assigned first headGround)
    (.skip headGround .done) ?_
  exact .assign (ends_of_lookup_eq_none secondFree)
    (ends_of_isGround tailGround) (assigned second tailGround)
    (.skip tailGround .done) .done

/-- No cell is a term that is neither a variable nor a cell. -/
theorem unify_cell_eq_none
    (acyclic : subst.Acyclic)
    {head tail whole found : Term}
    (ends : subst.Ends whole found)
    (notVar : found.isVar = false)
    (notCell : found.isCons = false) :
    subst.unify (.cons head tail) whole = none := by
  refine unify_eq_of_run acyclic (.clash (.here rfl) ends ?_)
  cases found with
  | var => simp [Term.isVar] at notVar
  | cons => simp [Term.isCons] at notCell
  | _ => rfl

theorem unify_nil
    (acyclic : subst.Acyclic)
    {left right : Term}
    {kind : SeqKind}
    (leftEnds : subst.Ends left (.nil kind))
    (rightEnds : subst.Ends right (.nil kind)) :
    subst.unify left right = some subst := by
  refine unify_eq_of_run acyclic (.same leftEnds rightEnds ?_ .done)
  cases kind <;> rfl

/-! ## Substitutions within a supply -/

/-- The bindings are acyclic and speak of variables below the supply only. -/
structure Within (subst : Subst) (supply : Nat) : Prop where
  acyclic : subst.Acyclic
  id_lt : ∀ {x term}, subst.lookup x = some term → x.id < supply
  ceiling_le :
    ∀ {x term}, subst.lookup x = some term → term.ceiling ≤ supply

theorem within_empty (supply : Nat) : (∅ : Subst).Within supply where
  acyclic := acyclic_empty
  id_lt bound := by simp at bound
  ceiling_le bound := by simp at bound

namespace Within

variable {supply : Nat}

theorem mono
    (within : subst.Within supply)
    {larger : Nat}
    (ordered : supply ≤ larger) :
    subst.Within larger where
  acyclic := within.acyclic
  id_lt bound := Nat.lt_of_lt_of_le (within.id_lt bound) ordered
  ceiling_le bound := Nat.le_trans (within.ceiling_le bound) ordered

theorem lookup_eq_none
    (within : subst.Within supply)
    {x : Var}
    (fresh : supply ≤ x.id) :
    subst.lookup x = none := by
  rw [Option.eq_none_iff_forall_ne_some]
  intro term bound
  exact absurd (within.id_lt bound) (Nat.not_lt.mpr fresh)

theorem bind
    (within : subst.Within supply)
    {x : Var}
    {term : Term}
    (inside : x.id < supply)
    (low : term.ceiling ≤ supply)
    (apart : ¬ subst.Reaches term x) :
    (subst.bind x term).Within supply where
  acyclic := within.acyclic.bind apart
  id_lt {y found} bound := by
    rw [lookup_bind] at bound
    split at bound
    next same => exact same ▸ inside
    next => exact within.id_lt bound
  ceiling_le {y found} bound := by
    rw [lookup_bind] at bound
    split at bound
    next => exact Option.some.inj bound ▸ low
    next => exact within.ceiling_le bound

theorem bind_of_isGround
    (within : subst.Within supply)
    {x : Var}
    {term : Term}
    (inside : x.id < supply)
    (ground : term.isGround = true) :
    (subst.bind x term).Within supply := by
  refine within.bind inside ?_ (not_reaches_of_isGround ground x)
  rw [Term.ceiling_eq_zero_of_isGround ground]
  exact Nat.zero_le supply

end Within

end Subst

end RelationalSearch
