import RelationalSearch.Proofs.Subst.Unifier

/-!
# Substitutions that grow

Unification only binds variables that were unbound.  The extended substitution
therefore keeps each binding, and whatever satisfies it satisfies the old one.
One such valuation reifies each variable over the extended substitution.  So a
term reified there is an instance of the term reified before, and a term that
has become ground does not change any more.
-/

namespace RelationalSearch

namespace Term

/-- A ground term has the same value under each valuation. -/
theorem under_eq_self
    {term : Term}
    (ground : term.isGround = true)
    (valuation : Var → Term) :
    term.under valuation = term := by
  induction term with
  | var => simp at ground
  | cons head tail headIH tailIH =>
    rw [isGround_cons, Bool.and_eq_true] at ground
    rw [under_cons, headIH ground.1, tailIH ground.2]
  | _ => rfl

end Term

namespace Subst

/-- The second substitution has all bindings of the first one, and no cycle. -/
structure Grows (subst extended : Subst) : Prop where
  kept :
    ∀ {x term}, subst.lookup x = some term →
      extended.lookup x = some term
  acyclic : extended.Acyclic

variable {subst extended : Subst}

theorem Grows.refl (acyclic : subst.Acyclic) : subst.Grows subst :=
  ⟨id, acyclic⟩

theorem Grows.trans
    {last : Subst}
    (first : subst.Grows extended)
    (second : extended.Grows last) :
    subst.Grows last :=
  ⟨fun bound => second.kept (first.kept bound), second.acyclic⟩

theorem Grows.satisfies
    (grows : subst.Grows extended)
    {valuation : Var → Term}
    (satisfied : Satisfies valuation extended) :
    Satisfies valuation subst :=
  fun x term bound => satisfied x term (grows.kept bound)

/-- What was followed before is followed still, and from its end onwards. -/
theorem Grows.ends
    (grows : subst.Grows extended)
    {term found last : Term}
    (ends : subst.Ends term found)
    (onwards : extended.Ends found last) :
    extended.Ends term last := by
  induction ends with
  | here => exact onwards
  | @step term next _ bound _ ih =>
    cases term with
    | var y => exact .step (grows.kept bound) (ih onwards)
    | _ => cases bound

/-! ## Unification -/

/-- A binding of an unbound variable replaces none. -/
theorem lookup_bind_of_bound
    {x y : Var}
    {found : Term}
    (unbound : subst.lookup x = none)
    (bound : subst.lookup y = some found)
    (term : Term) :
    (subst.bind x term).lookup y = some found := by
  rw [lookup_bind_of_ne, bound]
  rintro rfl
  simp [unbound] at bound

/-- No step of unification replaces a binding. -/
theorem UnifyRun.kept
    {pairs : List (Term × Term)}
    {outcome : Option Subst}
    (run : UnifyRun subst pairs outcome)
    (success : outcome = some extended)
    {x : Var}
    {term : Term}
    (bound : subst.lookup x = some term) :
    extended.lookup x = some term := by
  induction run with
  | done =>
    cases success
    exact bound
  | same _ _ _ _ ih => exact ih success bound
  | clash => simp at success
  | refuse => simp at success
  | assign leftEnds rightEnds met _ _ ih =>
    have unbound := lookup_eq_none_of_meet_eq_assign leftEnds rightEnds met
    exact ih success (lookup_bind_of_bound unbound bound _)
  | descend _ _ _ _ ih => exact ih success bound

theorem Acyclic.grows_of_unify
    (acyclic : subst.Acyclic)
    {left right : Term}
    (success : subst.unify left right = some extended) :
    subst.Grows extended where
  kept bound := (unifyRun_unify acyclic left right).kept success bound
  acyclic := acyclic.unify success

/-! ## Reified terms -/

/-- Reification keeps the value of a term. -/
theorem Reified.under_eq
    {term result : Term}
    (reified : subst.Reified term result)
    {valuation : Var → Term}
    (satisfied : Satisfies valuation subst) :
    term.under valuation = result.under valuation := by
  induction reified with
  | leaf ends => exact ends.under_eq satisfied
  | cell ends _ _ headIH tailIH =>
    rw [ends.under_eq satisfied, Term.under_cons, Term.under_cons, headIH,
      tailIH]

/-- What a term stands for later is an instance of what it stands for now. -/
theorem Grows.reify_eq_under
    (grows : subst.Grows extended)
    (acyclic : subst.Acyclic)
    (term : Term) :
    extended.reify term =
      (subst.reify term).under fun x => extended.reify (.var x) := by
  have satisfied := grows.satisfies (satisfies_reify grows.acyclic)
  rw [Subst.reify_eq_under grows.acyclic,
    (reified_reify acyclic term).under_eq satisfied]

/-- A term that stands for a ground term goes on to stand for it. -/
theorem Grows.reify_eq_of_isGround
    (grows : subst.Grows extended)
    (acyclic : subst.Acyclic)
    {term : Term}
    (ground : (subst.reify term).isGround = true) :
    extended.reify term = subst.reify term := by
  rw [grows.reify_eq_under acyclic, Term.under_eq_self ground]

end Subst

end RelationalSearch
