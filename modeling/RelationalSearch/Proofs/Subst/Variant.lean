import RelationalSearch.Proofs.Subst.Growth
import RelationalSearch.Proofs.Subst.Permutation
import RelationalSearch.Proofs.Subst.Scope

/-!
# Most general unifiers and their variants

A most general unifier of two terms over a substitution extends it, makes the
terms equal, and excludes no valuation that makes them equal
(`Subst.MostGeneral`).  Unification finds one, and does so for the terms as they
are reified as well (`Subst.MostGeneral.of_unify_reify`).

Two substitutions that the same valuations satisfy need not have the same
bindings: of two variables that are made equal either may be bound to the other.
What is unbound in the first one stands in the second one for a variable that
stands for it in turn (`Subst.exchange`).  This exchange is a permutation of all
variables, and it takes all that terms stand for in the first substitution to
what they stand for in the second one (`Subst.Equivalent.exists_renaming`).
-/

namespace RelationalSearch

namespace Subst

variable {subst middle later first second : Subst} {found : Option Subst}
  {left right nextLeft nextRight : Term}

/-! ## Most general unifiers -/

/-- Some valuation satisfies the substitution and makes the terms equal. -/
def Unifiable (subst : Subst) (left right : Term) : Prop :=
  ∃ valuation, Satisfies valuation subst ∧
    left.under valuation = right.under valuation

/-- The later substitution extends the first by what makes the terms equal. -/
structure MostGeneral
    (subst : Subst)
    (left right : Term)
    (later : Subst) : Prop where
  grows : subst.Grows later
  reify_eq : later.reify left = later.reify right
  satisfies_iff :
    ∀ valuation, Satisfies valuation later ↔
      Satisfies valuation subst ∧ left.under valuation = right.under valuation

theorem MostGeneral.symm
    (general : subst.MostGeneral left right later) :
    subst.MostGeneral right left later where
  grows := general.grows
  reify_eq := general.reify_eq.symm
  satisfies_iff valuation := by
    rw [general.satisfies_iff]
    exact and_congr_right fun _ => eq_comm

/-- A most general unifier is satisfied by the valuation it reifies by. -/
theorem MostGeneral.unifiable
    (general : subst.MostGeneral left right later) :
    subst.Unifiable left right :=
  ⟨_, (general.satisfies_iff _).mp (satisfies_reify general.grows.acyclic)⟩

theorem Unifiable.symm
    (unifiable : subst.Unifiable left right) :
    subst.Unifiable right left := by
  rcases unifiable with ⟨valuation, satisfied, equal⟩
  exact ⟨valuation, satisfied, equal.symm⟩

/-- Where the substitution is satisfied, a term has the value it stands for. -/
theorem under_reify
    (acyclic : subst.Acyclic)
    {valuation : Var → Term}
    (satisfied : Satisfies valuation subst)
    (term : Term) :
    (subst.reify term).under valuation = term.under valuation :=
  ((reified_reify acyclic term).under_eq satisfied).symm

/-- Unification finds a most general unifier, if the terms are unifiable. -/
theorem mostGeneral_of_unify
    (acyclic : subst.Acyclic)
    (success : subst.unify left right = some later) :
    subst.MostGeneral left right later where
  grows := acyclic.grows_of_unify success
  reify_eq := reify_eq_of_unify acyclic success
  satisfies_iff valuation := by
    have described := (unifyRun_unify acyclic left right).describes
    rw [success] at described
    rw [described valuation, solves_cons]
    simp

theorem unify_eq_none_iff (acyclic : subst.Acyclic) :
    subst.unify left right = none ↔ ¬ subst.Unifiable left right := by
  constructor
  · rintro failure ⟨valuation, satisfied, equal⟩
    have described := (unifyRun_unify acyclic left right).describes
    rw [failure] at described
    exact described valuation satisfied (solves_cons.mpr ⟨equal, solves_nil⟩)
  · intro apart
    cases outcome : subst.unify left right with
    | none => rfl
    | some later =>
      exact (apart (mostGeneral_of_unify acyclic outcome).unifiable).elim

/-- It makes no difference whether the terms are reified first. -/
theorem unifiable_reify_iff (acyclic : subst.Acyclic) :
    subst.Unifiable (subst.reify left) (subst.reify right) ↔
      subst.Unifiable left right := by
  apply exists_congr
  intro valuation
  refine and_congr_right fun satisfied => ?_
  rw [under_reify acyclic satisfied, under_reify acyclic satisfied]

theorem MostGeneral.of_unify_reify
    (acyclic : subst.Acyclic)
    (success :
      subst.unify (subst.reify left) (subst.reify right) = some later) :
    subst.MostGeneral left right later := by
  have general := mostGeneral_of_unify acyclic success
  have satisfies (valuation : Var → Term) :
      Satisfies valuation later ↔ Satisfies valuation subst ∧
        left.under valuation = right.under valuation := by
    rw [general.satisfies_iff]
    refine and_congr_right fun satisfied => ?_
    rw [under_reify acyclic satisfied, under_reify acyclic satisfied]
  refine ⟨general.grows, ?_, satisfies⟩
  have solved := (satisfies _).mp (satisfies_reify general.grows.acyclic)
  rw [reify_eq_under general.grows.acyclic left,
    reify_eq_under general.grows.acyclic right]
  exact solved.2

/-- What is found is a most general unifier, if there is any unifier. -/
structure Decides
    (subst : Subst)
    (left right : Term)
    (found : Option Subst) : Prop where
  mostGeneral : ∀ later ∈ found, subst.MostGeneral left right later
  unifiable : subst.Unifiable left right → found.isSome = true

theorem Decides.symm (decides : subst.Decides left right found) :
    subst.Decides right left found where
  mostGeneral later member := (decides.mostGeneral later member).symm
  unifiable unifiable := decides.unifiable unifiable.symm

/-- Nothing is found only if there is no unifier. -/
theorem Decides.eq_none_iff (decides : subst.Decides left right found) :
    found = none ↔ ¬ subst.Unifiable left right := by
  constructor
  · rintro rfl unifiable
    cases decides.unifiable unifiable
  · intro apart
    rw [Option.eq_none_iff_forall_not_mem]
    exact fun later member => apart (decides.mostGeneral later member).unifiable

/-- Unification of the reified terms decides the equation of the terms. -/
theorem decides_unify_reify
    (acyclic : subst.Acyclic)
    (left right : Term) :
    subst.Decides left right
      (subst.unify (subst.reify left) (subst.reify right)) where
  mostGeneral _ success := .of_unify_reify acyclic success
  unifiable unifiable := by
    rw [← unifiable_reify_iff acyclic] at unifiable
    rw [Option.isSome_iff_ne_none]
    exact fun failure => (unify_eq_none_iff acyclic).mp failure unifiable

/-! ## One equation after the other -/

/-- Two equations, solved one after the other, are one equation of cells. -/
theorem MostGeneral.cells
    (front : subst.MostGeneral left right middle)
    (back : middle.MostGeneral nextLeft nextRight later) :
    subst.MostGeneral (.cons left nextLeft) (.cons right nextRight) later where
  grows := front.grows.trans back.grows
  reify_eq := by
    rw [reify_cons back.grows.acyclic, reify_cons back.grows.acyclic,
      back.grows.reify_congr front.grows.acyclic front.reify_eq, back.reify_eq]
  satisfies_iff valuation := by
    rw [back.satisfies_iff, front.satisfies_iff, Term.under_cons,
      Term.under_cons, Term.cons.injEq, and_assoc]

/-- Both equations hold where the equation of cells does. -/
theorem MostGeneral.both_reify_eq
    (general :
      subst.MostGeneral (.cons left nextLeft) (.cons right nextRight) later) :
    later.reify left = later.reify right ∧
      later.reify nextLeft = later.reify nextRight := by
  have cells := general.reify_eq
  rw [reify_cons general.grows.acyclic, reify_cons general.grows.acyclic,
    Term.cons.injEq] at cells
  exact cells

theorem MostGeneral.swap
    (general :
      subst.MostGeneral (.cons left nextLeft) (.cons right nextRight) later) :
    subst.MostGeneral (.cons nextLeft left) (.cons nextRight right) later where
  grows := general.grows
  reify_eq := by
    rw [reify_cons general.grows.acyclic, reify_cons general.grows.acyclic,
      general.both_reify_eq.1, general.both_reify_eq.2]
  satisfies_iff valuation := by
    rw [general.satisfies_iff]
    simp only [Term.under_cons, Term.cons.injEq, and_comm]

/-- A later state in which the terms are equal satisfies their unifier. -/
theorem MostGeneral.satisfies_of_reify_eq
    (front : subst.MostGeneral left right middle)
    (grows : subst.Grows later)
    (equal : later.reify left = later.reify right) :
    Satisfies (fun x => later.reify (.var x)) middle := by
  rw [front.satisfies_iff, ← reify_eq_under grows.acyclic,
    ← reify_eq_under grows.acyclic]
  exact ⟨grows.satisfies (satisfies_reify grows.acyclic), equal⟩

/-- What is left to be unified once the first terms are. -/
theorem MostGeneral.unifiable_iff
    (front : subst.MostGeneral left right middle) :
    middle.Unifiable nextLeft nextRight ↔
      subst.Unifiable (.cons left nextLeft) (.cons right nextRight) := by
  apply exists_congr
  intro valuation
  rw [front.satisfies_iff, Term.under_cons, Term.under_cons, Term.cons.injEq,
    and_assoc]

theorem Unifiable.swap
    (unifiable :
      subst.Unifiable (.cons left nextLeft) (.cons right nextRight)) :
    subst.Unifiable (.cons nextLeft left) (.cons nextRight right) := by
  rcases unifiable with ⟨valuation, satisfied, equal⟩
  refine ⟨valuation, satisfied, ?_⟩
  rw [Term.under_cons, Term.under_cons, Term.cons.injEq] at equal ⊢
  exact equal.symm

/-- Cells are unifiable only if their heads are. -/
theorem Unifiable.heads
    (unifiable :
      subst.Unifiable (.cons left nextLeft) (.cons right nextRight)) :
    subst.Unifiable left right := by
  rcases unifiable with ⟨valuation, satisfied, equal⟩
  rw [Term.under_cons, Term.under_cons, Term.cons.injEq] at equal
  exact ⟨valuation, satisfied, equal.1⟩

/-! ## Substitutions with the same solutions -/

/-- The same valuations satisfy both substitutions. -/
def Equivalent (first second : Subst) : Prop :=
  ∀ valuation, Satisfies valuation first ↔ Satisfies valuation second

theorem Equivalent.symm (same : first.Equivalent second) :
    second.Equivalent first :=
  fun valuation => (same valuation).symm

/-- The same valuations satisfy all most general unifiers of two terms. -/
theorem MostGeneral.equivalent
    (one : subst.MostGeneral left right first)
    (other : subst.MostGeneral left right second) :
    first.Equivalent second :=
  fun valuation =>
    (one.satisfies_iff valuation).trans (other.satisfies_iff valuation).symm

/-- What a term stands for in one of them is an instance of the other. -/
theorem Equivalent.reify_eq_under
    (same : first.Equivalent second)
    (firstAcyclic : first.Acyclic)
    (secondAcyclic : second.Acyclic)
    (term : Term) :
    second.reify term =
      (first.reify term).under fun x => second.reify (.var x) := by
  have satisfied := (same _).mpr (satisfies_reify secondAcyclic)
  rw [under_reify firstAcyclic satisfied, Subst.reify_eq_under secondAcyclic]

/-- What is unbound in one of them stands for an unbound variable in the other. -/
theorem Equivalent.exists_counterpart
    (same : first.Equivalent second)
    (firstAcyclic : first.Acyclic)
    (secondAcyclic : second.Acyclic)
    {x : Var}
    (unbound : first.lookup x = none) :
    ∃ y, second.reify (.var x) = .var y ∧ second.lookup y = none ∧
      first.reify (.var y) = .var x := by
  have back := same.symm.reify_eq_under secondAcyclic firstAcyclic (.var x)
  rw [reify_var_eq_self firstAcyclic unbound] at back
  have unbounds := (reified_reify secondAcyclic (.var x)).lookup_eq_none
  cases shown : second.reify (.var x) with
  | var y =>
    rw [shown] at back unbounds
    exact ⟨y, rfl, unbounds y (by simp), back.symm⟩
  | _ => simp [shown] at back

/--
The variable that a variable stands for in the second substitution, if it is
unbound in the first one, and the other way round.
-/
def exchange (first second : Subst) (x : Var) : Var :=
  if first.lookup x = none then (second.reify (.var x)).asVar?.getD x
  else if second.lookup x = none then (first.reify (.var x)).asVar?.getD x
  else x

/-- It does not matter which of the two substitutions is the first one. -/
theorem exchange_comm
    (firstAcyclic : first.Acyclic)
    (secondAcyclic : second.Acyclic)
    (x : Var) :
    second.exchange first x = first.exchange second x := by
  by_cases firstUnbound : first.lookup x = none
  · by_cases secondUnbound : second.lookup x = none
    · -- What is unbound in both stands for itself.
      have firstSelf := reify_var_eq_self firstAcyclic firstUnbound
      have secondSelf := reify_var_eq_self secondAcyclic secondUnbound
      simp [exchange, firstUnbound, secondUnbound, firstSelf, secondSelf]
    · simp [exchange, firstUnbound, secondUnbound]
  · by_cases secondUnbound : second.lookup x = none
    · simp [exchange, firstUnbound, secondUnbound]
    · simp [exchange, firstUnbound, secondUnbound]

section Exchange

variable (same : first.Equivalent second) (firstAcyclic : first.Acyclic)
  (secondAcyclic : second.Acyclic)

include same firstAcyclic secondAcyclic

theorem Equivalent.reify_var_eq_exchange
    {x : Var}
    (unbound : first.lookup x = none) :
    second.reify (.var x) = .var (first.exchange second x) := by
  rcases same.exists_counterpart firstAcyclic secondAcyclic unbound with
    ⟨y, shown, _⟩
  rw [exchange, if_pos unbound, shown]
  rfl

/-- Exchanging twice leads back. -/
theorem Equivalent.exchange_exchange_of_unbound
    {x : Var}
    (unbound : first.lookup x = none) :
    first.exchange second (first.exchange second x) = x := by
  rcases same.exists_counterpart firstAcyclic secondAcyclic unbound with
    ⟨y, shown, otherUnbound, back⟩
  have there : first.exchange second x = y := by
    rw [exchange, if_pos unbound, shown]
    rfl
  have again := same.symm.reify_var_eq_exchange secondAcyclic firstAcyclic
    otherUnbound
  rw [exchange_comm firstAcyclic secondAcyclic, back] at again
  rw [there]
  exact (Term.var.inj again).symm

theorem Equivalent.exchange_involutive :
    Function.Involutive (first.exchange second) := by
  intro x
  by_cases firstUnbound : first.lookup x = none
  · exact same.exchange_exchange_of_unbound firstAcyclic secondAcyclic
      firstUnbound
  · by_cases secondUnbound : second.lookup x = none
    · have back := same.symm.exchange_exchange_of_unbound secondAcyclic
        firstAcyclic secondUnbound
      rwa [exchange_comm firstAcyclic secondAcyclic,
        exchange_comm firstAcyclic secondAcyclic] at back
    · have fixed : first.exchange second x = x := by
        rw [exchange, if_neg firstUnbound, if_neg secondUnbound]
      rw [fixed, fixed]

/-- One renaming takes all that terms stand for from the first to the second. -/
theorem Equivalent.exists_renaming :
    ∃ rename : Equiv.Perm Var, ∀ term,
      second.reify term = (first.reify term).renamed rename := by
  refine ⟨(same.exchange_involutive firstAcyclic secondAcyclic).toPerm,
    fun term => ?_⟩
  rw [same.reify_eq_under firstAcyclic secondAcyclic, Term.renamed]
  apply Term.under_congr
  intro x member
  exact same.reify_var_eq_exchange firstAcyclic secondAcyclic
    ((reified_reify firstAcyclic term).lookup_eq_none x member)

end Exchange

end Subst

end RelationalSearch
