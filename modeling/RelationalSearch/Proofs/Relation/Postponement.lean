import RelationalSearch.Proofs.Relation.Composition
import RelationalSearch.Proofs.Relation.Reassembly

/-!
# Applications before and after an equation

An equation and an application are two equations to be solved, and it does not
matter which of them is solved first: the results are the same but for the names
of the variables (`Goal.application_postponed`).

What matters is what the protocol is asked.  It only sees what is known when the
application is applied.  Operands that are still unbound are accepted for a
whole that is unbound too, and if they turn out later not to end as operands do,
the result stays.  Had they been known before, the protocol would have refused to
put them together.

So each order is described by the state that the application is applied in, which
is its turn (`Protocol.JointResult`).  What is rejected at one of the turns is
refused in the result as well, for the ends of spines stay what they are.
-/

namespace RelationalSearch

/-! ## What is rejected remains so -/

namespace Protocol

variable {protocol : Protocol} {operator operands whole : Term}

/-- Parts are refused for the end of the operands only. -/
theorem construct_eq_error_iff :
    (∃ error, protocol.construct operator operands = .error error) ↔
      operands.spine.2.isVar = false ∧
        ∀ kind, operands.terminator? = some kind →
          protocol = .expr ∧ kind ≠ .expr := by
  rw [construct, checkSpine, Term.terminator?]
  generalize operands.spine.2 = last
  cases last with
  | nil kind =>
    cases protocol with
    | sequence => simp [checkKind, bind, Except.bind, Term.isVar]
    | expr => cases kind <;> simp [checkKind, bind, Except.bind, Term.isVar]
  | _ => simp [bind, Except.bind, Term.isVar]

/-- The parts of a cell that is refused are not put together again. -/
theorem Refuses.construct_eq_error
    (refused : protocol.Refuses (.cons operator operands)) :
    ∃ error, protocol.construct operator operands = .error error := by
  rcases refuses_cons_iff.mp refused with ⟨expressions, known, differs⟩
  refine construct_eq_error_iff.mpr ⟨known, fun kind ends => ?_⟩
  refine ⟨expressions, ?_⟩
  rintro rfl
  exact differs ends

/--
Where the protocol rejects an application, it does not put the parts together
whatever becomes of them, if the whole becomes their cell.
-/
theorem Rejects.construct_eq_error
    (rejected : protocol.Rejects operator operands whole)
    {valuation : Var → Term}
    (composed :
      whole.under valuation = (Term.cons operator operands).under valuation) :
    ∃ error,
      protocol.construct (operator.under valuation) (operands.under valuation) =
        .error error := by
  rcases rejected with ⟨known, refused⟩ | ⟨_, _, _, _, refused⟩
  · have later := refused.under known valuation
    rw [composed, Term.under_cons] at later
    exact later.construct_eq_error
  · exact ⟨_, construct_under_eq_error refused valuation⟩

/-- The same, where a later state gives the variables their values. -/
theorem RejectsIn.construct_eq_error
    {turn later : Subst}
    (rejected : protocol.RejectsIn turn operator operands whole)
    (turnAcyclic : turn.Acyclic)
    (laterAcyclic : later.Acyclic)
    (satisfied : Subst.Satisfies (fun x => later.reify (.var x)) turn)
    (composed : later.reify whole = later.reify (.cons operator operands)) :
    ∃ error,
      protocol.construct (later.reify operator) (later.reify operands) =
        .error error := by
  have shown (term : Term) :
      (turn.reify term).under (fun x => later.reify (.var x)) =
        later.reify term := by
    rw [Subst.under_reify turnAcyclic satisfied, Subst.reify_eq_under laterAcyclic]
  have cell :
      (turn.reify whole).under (fun x => later.reify (.var x)) =
        (Term.cons (turn.reify operator) (turn.reify operands)).under
          fun x => later.reify (.var x) := by
    rw [Term.under_cons, shown, shown, shown, composed,
      Subst.reify_cons laterAcyclic]
  have refused := Rejects.construct_eq_error rejected cell
  rwa [shown, shown] at refused

/-! ## Results of an equation and an application -/

/--
What is found for an equation and an application, if the application is applied
in the state that is its turn: a most general unifier of both, unless the
protocol rejects the application then.
-/
structure JointResult
    (protocol : Protocol)
    (subst : Subst)
    (left right operator operands whole : Term)
    (turn : Subst)
    (found : Option Subst) : Prop where
  turnAcyclic : turn.Acyclic
  turnSatisfied :
    ∀ later,
      subst.MostGeneral (.cons left whole) (.cons right (.cons operator operands))
          later →
        Subst.Satisfies (fun x => later.reify (.var x)) turn
  mostGeneral :
    ∀ later ∈ found,
      subst.MostGeneral (.cons left whole) (.cons right (.cons operator operands))
        later
  eq_none_iff :
    subst.Unifiable (.cons left whole) (.cons right (.cons operator operands)) →
      (found = none ↔ protocol.RejectsIn turn operator operands whole)

namespace JointResult

variable {subst turn otherTurn : Subst} {left right : Term}
  {found other : Option Subst}

/-- If the application is rejected, so are the parts of what solves both. -/
theorem construct_eq_error
    (joint :
      protocol.JointResult subst left right operator operands whole turn found)
    (rejected : protocol.RejectsIn turn operator operands whole)
    {later : Subst}
    (general :
      subst.MostGeneral (.cons left whole) (.cons right (.cons operator operands))
        later) :
    ∃ error,
      protocol.construct (later.reify operator) (later.reify operands) =
        .error error :=
  rejected.construct_eq_error joint.turnAcyclic general.grows.acyclic
    (joint.turnSatisfied later general) general.both_reify_eq.2

section Two

variable
  (joint :
    protocol.JointResult subst left right operator operands whole turn found)
  (otherJoint :
    protocol.JointResult subst left right operator operands whole otherTurn other)

include joint otherJoint

/-- Results of two turns differ in the names of the variables only. -/
theorem exists_renaming
    {first second : Subst}
    (firstMember : first ∈ found)
    (secondMember : second ∈ other) :
    ∃ rename : Equiv.Perm Var, ∀ term,
      second.reify term = (first.reify term).renamed rename := by
  have one := joint.mostGeneral first firstMember
  have two := otherJoint.mostGeneral second secondMember
  exact (one.equivalent two).exists_renaming one.grows.acyclic two.grows.acyclic

/-- That there is a result at one turn only is due to the protocol. -/
theorem not_rejectsIn_iff
    (differ : found.isSome ≠ other.isSome) :
    ¬ (protocol.RejectsIn turn operator operands whole ↔
      protocol.RejectsIn otherTurn operator operands whole) := by
  have unifiable :
      subst.Unifiable (.cons left whole)
        (.cons right (.cons operator operands)) := by
    cases found with
    | some later => exact (joint.mostGeneral later rfl).unifiable
    | none =>
      cases other with
      | some later => exact (otherJoint.mostGeneral later rfl).unifiable
      | none => exact absurd rfl differ
  rw [← joint.eq_none_iff unifiable, ← otherJoint.eq_none_iff unifiable]
  intro same
  apply differ
  rw [Bool.eq_iff_iff, Option.isSome_iff_ne_none, Option.isSome_iff_ne_none, Ne,
    Ne, same]

end Two

end JointResult

end Protocol

namespace Goal

variable {Code : Type} {subst middle : Subst} {left right : Term}

/-- An application after an equation that holds. -/
theorem exists_atOnce_eq_application
    (acyclic : subst.Acyclic)
    (unified : subst.unify left right = some middle)
    (decomposer : Decomposer)
    (operator operands whole : Term) :
    ∃ found,
      (all [eq left right, application decomposer operator operands whole] :
          Goal Code).AtOnce subst found ∧
        decomposer.protocol.JointResult subst left right operator operands whole
          middle found := by
  have front := Subst.mostGeneral_of_unify acyclic unified
  rcases @exists_decided_application Code _ front.grows.acyclic decomposer
      operator operands whole with
    ⟨found, back, none_of_rejects, decides⟩
  have equation := @atOnce_eq Code subst left right
  rw [unified] at equation
  refine ⟨found, equation.both_some back, front.grows.acyclic, ?_, ?_,
    fun unifiable => ⟨fun nothing => ?_, none_of_rejects⟩⟩
  · intro later general
    exact front.satisfies_of_reify_eq general.grows general.both_reify_eq.1
  · intro later member
    refine front.cells ((decides fun rejected => ?_).mostGeneral later member)
    rw [none_of_rejects rejected] at member
    cases member
  · by_contra accepted
    exact (decides accepted).eq_none_iff.mp nothing
      (front.unifiable_iff.mpr unifiable)

/-- An application before an equation. -/
theorem exists_atOnce_application_eq
    (acyclic : subst.Acyclic)
    (decomposer : Decomposer)
    (operator operands whole left right : Term) :
    ∃ found,
      (all [application decomposer operator operands whole, eq left right] :
          Goal Code).AtOnce subst found ∧
        decomposer.protocol.JointResult subst left right operator operands whole
          subst found := by
  have satisfied (later : Subst)
      (general :
        subst.MostGeneral (.cons left whole)
          (.cons right (.cons operator operands)) later) :
      Subst.Satisfies (fun x => later.reify (.var x)) subst :=
    general.grows.satisfies (Subst.satisfies_reify general.grows.acyclic)
  rcases @exists_decided_application Code _ acyclic decomposer operator operands
      whole with
    ⟨middle, front, none_of_rejects, decides⟩
  cases middle with
  | none =>
    refine ⟨none, front.both_none _, acyclic, satisfied, nofun,
      fun unifiable => iff_of_true rfl ?_⟩
    by_contra accepted
    exact (decides accepted).eq_none_iff.mp rfl unifiable.swap.heads
  | some middle =>
    have accepted :
        ¬ decomposer.protocol.RejectsIn subst operator operands whole := by
      intro rejected
      cases none_of_rejects rejected
    have general := (decides accepted).mostGeneral middle rfl
    refine ⟨middle.unify left right, front.both_some (atOnce_eq left right),
      acyclic, satisfied, ?_, fun unifiable => iff_of_false ?_ accepted⟩
    · intro later unified
      exact (general.cells
        (Subst.mostGeneral_of_unify general.grows.acyclic unified)).swap
    · rw [Subst.unify_eq_none_iff general.grows.acyclic, not_not,
        general.unifiable_iff]
      exact unifiable.swap

/--
An equation and an application have at most one result in either order, a most
general unifier of both, and it is the same but for the names of the variables.

They have a result in only one of the two orders at most where the protocol
rejects the application as the arguments are known at one time and not as they
are known at the other.  It does not put the parts together then, as the result
has them.
-/
theorem application_postponed
    (acyclic : subst.Acyclic)
    (decomposer : Decomposer)
    (left right operator operands whole : Term) :
    ∃ before after : Option Subst,
      (all [eq left right, application decomposer operator operands whole] :
          Goal Code).AtOnce subst before ∧
        (all [application decomposer operator operands whole, eq left right] :
          Goal Code).AtOnce subst after ∧
        (∀ found, found ∈ before ∨ found ∈ after →
          subst.MostGeneral (.cons left whole)
            (.cons right (.cons operator operands)) found) ∧
        (∀ first ∈ before, ∀ second ∈ after,
          ∃ rename : Equiv.Perm Var, ∀ term,
            second.reify term = (first.reify term).renamed rename) ∧
        (before.isSome ≠ after.isSome →
          (∃ middle ∈ subst.unify left right,
            ¬ (decomposer.protocol.RejectsIn middle operator operands whole ↔
              decomposer.protocol.RejectsIn subst operator operands whole)) ∧
          ∀ found, found ∈ before ∨ found ∈ after →
            ∃ error,
              decomposer.protocol.construct (found.reify operator)
                  (found.reify operands) =
                .error error) := by
  rcases @exists_atOnce_application_eq Code _ acyclic decomposer operator
      operands whole left right with
    ⟨after, late, lateJoint⟩
  cases unified : subst.unify left right with
  | none =>
    -- Without a result for the equation there is none in either order.
    have early := @atOnce_eq Code subst left right
    rw [unified] at early
    have nothing : after = none := by
      rw [Option.eq_none_iff_forall_not_mem]
      intro later member
      exact (Subst.unify_eq_none_iff acyclic).mp unified
        (lateJoint.mostGeneral later member).unifiable.heads
    subst nothing
    exact ⟨none, none, early.both_none _, late, nofun, nofun, nofun⟩
  | some middle =>
    rcases @exists_atOnce_eq_application Code _ _ _ _ acyclic unified decomposer
        operator operands whole with
      ⟨before, early, earlyJoint⟩
    have general (found : Subst) (member : found ∈ before ∨ found ∈ after) :
        subst.MostGeneral (.cons left whole)
          (.cons right (.cons operator operands)) found :=
      member.elim (earlyJoint.mostGeneral found) (lateJoint.mostGeneral found)
    refine ⟨before, after, early, late, general,
      fun first firstMember second secondMember =>
        earlyJoint.exists_renaming lateJoint firstMember secondMember,
      fun differ => ?_⟩
    have differs := earlyJoint.not_rejectsIn_iff lateJoint differ
    refine ⟨⟨middle, rfl, differs⟩, fun found member => ?_⟩
    by_cases rejected :
      decomposer.protocol.RejectsIn middle operator operands whole
    · exact earlyJoint.construct_eq_error rejected (general found member)
    · have rejectedBefore :
          decomposer.protocol.RejectsIn subst operator operands whole := by
        by_contra accepted
        exact differs (iff_of_false rejected accepted)
      exact lateJoint.construct_eq_error rejectedBefore (general found member)

/-- The operands of an expression may as well become known afterwards. -/
theorem application_postponed_operands :
    let operands := Term.sequence .expr [.int 1, .int 2]
    let equation : Goal Empty := .eq (.var ⟨0⟩) operands
    let applied : Goal Empty :=
      application (.quiet .expr) (.sym "f") (.var ⟨0⟩) (.var ⟨1⟩)
    ∃ first second : Subst,
      (all [equation, applied]).AtOnce ∅ (some first) ∧
        (all [applied, equation]).AtOnce ∅ (some second) ∧
        ∃ rename : Equiv.Perm Var, ∀ term,
          second.reify term = (first.reify term).renamed rename := by
  intro operands equation applied
  have acyclic := Subst.acyclic_empty
  have unbound (x : Var) : (∅ : Subst).reify (.var x) = .var x :=
    Subst.reify_var_eq_self acyclic (Subst.lookup_empty _)
  have unifiable :
      (∅ : Subst).Unifiable (.cons (.var ⟨0⟩) (.var ⟨1⟩))
        (.cons operands (.cons (.sym "f") (.var ⟨0⟩))) :=
    ⟨fun x => if x = ⟨0⟩ then operands else .cons (.sym "f") operands, nofun,
      rfl⟩
  rcases @application_postponed Empty ∅ acyclic (.quiet .expr) (.var ⟨0⟩) operands
      (.sym "f") (.var ⟨0⟩) (.var ⟨1⟩) with
    ⟨before, after, early, late, general, renames, differ⟩
  rcases @exists_atOnce_application_eq Empty _ acyclic (.quiet .expr) (.sym "f")
      (.var ⟨0⟩) (.var ⟨1⟩) (.var ⟨0⟩) operands with
    ⟨found, again, joint⟩
  have same := late.unique again
  subst same
  cases after with
  | none =>
    refine absurd ((joint.eq_none_iff unifiable).mp rfl) ?_
    exact Protocol.not_rejectsIn_of_unbound (by rw [unbound]; rfl)
      (by rw [unbound]; rfl)
  | some second =>
    cases before with
    | some first =>
      exact ⟨first, second, early, late, renames first rfl second rfl⟩
    | none =>
      have both := general second (.inr rfl)
      rcases (differ nofun).2 second (.inr rfl) with ⟨error, refused⟩
      have known : second.reify operands = operands :=
        Subst.reify_eq_of_isGround both.grows.acyclic rfl
      rw [both.both_reify_eq.1, known] at refused
      cases refused

/--
An operator is applied to an atom where the atom becomes known afterwards, and
is not where it is known before.
-/
theorem application_postponed_atom :
    let equation : Goal Empty := .eq (.var ⟨0⟩) (.int 1)
    let applied : Goal Empty :=
      application (.quiet .sequence) (.sym "f") (.var ⟨0⟩) (.var ⟨1⟩)
    (all [equation, applied]).AtOnce ∅ none ∧
      ∃ later,
        (all [applied, equation]).AtOnce ∅ (some later) ∧
          later.reify (.var ⟨1⟩) = .cons (.sym "f") (.int 1) := by
  intro equation applied
  have acyclic := Subst.acyclic_empty
  have unbound (x : Var) : (∅ : Subst).reify (.var x) = .var x :=
    Subst.reify_var_eq_self acyclic (Subst.lookup_empty _)
  have unifiable :
      (∅ : Subst).Unifiable (.cons (.var ⟨0⟩) (.var ⟨1⟩))
        (.cons (.int 1) (.cons (.sym "f") (.var ⟨0⟩))) :=
    ⟨fun x => if x = ⟨0⟩ then .int 1 else .cons (.sym "f") (.int 1), nofun, rfl⟩
  constructor
  · have unified :
        (∅ : Subst).unify (.var ⟨0⟩) (.int 1) =
          some ((∅ : Subst).bind ⟨0⟩ (.int 1)) :=
      Subst.unify_var_of_isGround acyclic
        (Subst.ends_of_lookup_eq_none (Subst.lookup_empty _)) rfl
    have wholeUnbound : ((∅ : Subst).bind ⟨0⟩ (.int 1)).lookup ⟨1⟩ = none := by
      rw [Subst.lookup_bind_of_ne _ _ (by decide), Subst.lookup_empty]
    have front := Subst.mostGeneral_of_unify acyclic unified
    rcases @exists_atOnce_eq_application Empty _ _ _ _ acyclic unified
        (.quiet .sequence) (.sym "f") (.var ⟨0⟩) (.var ⟨1⟩) with
      ⟨found, early, joint⟩
    generalize (∅ : Subst).bind ⟨0⟩ (.int 1) = middle at wholeUnbound front joint
    have operandsShown : middle.reify (.var ⟨0⟩) = .int 1 :=
      front.reify_eq.trans (Subst.reify_eq_of_isGround front.grows.acyclic rfl)
    have nothing : found = none := by
      rw [joint.eq_none_iff unifiable, Protocol.RejectsIn, operandsShown,
        Subst.reify_var_eq_self front.grows.acyclic wholeUnbound,
        Subst.reify_eq_of_isGround front.grows.acyclic (Term.isGround_sym _)]
      exact .inr ⟨rfl, rfl, rfl, _, rfl⟩
    rwa [nothing] at early
  · rcases @exists_atOnce_application_eq Empty _ acyclic (.quiet .sequence)
        (.sym "f") (.var ⟨0⟩) (.var ⟨1⟩) (.var ⟨0⟩) (.int 1) with
      ⟨found, late, joint⟩
    cases found with
    | none =>
      refine absurd ((joint.eq_none_iff unifiable).mp rfl) ?_
      exact Protocol.not_rejectsIn_of_unbound (by rw [unbound]; rfl)
        (by rw [unbound]; rfl)
    | some later =>
      have both := joint.mostGeneral later rfl
      have equal := both.both_reify_eq
      refine ⟨later, late, equal.2.trans ?_⟩
      rw [Subst.reify_cons both.grows.acyclic, equal.1,
        Subst.reify_eq_of_isGround both.grows.acyclic (Term.isGround_sym _),
        Subst.reify_eq_of_isGround both.grows.acyclic (Term.isGround_int _)]

end Goal

end RelationalSearch
