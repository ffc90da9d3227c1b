import RelationalSearch.Proofs.Relation.Refusal
import RelationalSearch.Proofs.Subst.Variant

/-!
# Applications as equations

An application looks at its arguments when it is applied, and takes the whole
apart, makes a cell of the parts, or has the protocol put them together.  In each
case it solves one equation, of the whole and the cell of the operator and the
operands, unless the protocol has something against it
(`Goal.application_composes`).

The protocol is asked about what is known at that time: about the whole, or
about both parts of an unbound whole (`Protocol.Rejects`).
-/

namespace RelationalSearch

namespace Protocol

variable {protocol : Protocol} {operator operands : Term}

/--
The protocol refuses a whole that is known, or of an unknown one the parts, if
both are known.
-/
def Rejects
    (protocol : Protocol)
    (operator operands whole : Term) : Prop :=
  (whole.isVar = false ∧ protocol.Refuses whole) ∨
    (whole.isVar = true ∧ operator.isVar = false ∧ operands.isVar = false ∧
      ∃ error, protocol.construct operator operands = .error error)

/-- The protocol rejects what the terms stand for. -/
def RejectsIn
    (protocol : Protocol)
    (subst : Subst)
    (operator operands whole : Term) : Prop :=
  protocol.Rejects (subst.reify operator) (subst.reify operands)
    (subst.reify whole)

/-- Nothing is rejected as long as the whole and the operands are unbound. -/
theorem not_rejectsIn_of_unbound
    {subst : Subst}
    {whole : Term}
    (wholeUnbound : (subst.reify whole).isVar = true)
    (operandsUnbound : (subst.reify operands).isVar = true) :
    ¬ protocol.RejectsIn subst operator operands whole := by
  rintro (⟨known, _⟩ | ⟨_, _, known, _⟩)
  · exact Bool.false_ne_true (known.symm.trans wholeUnbound)
  · exact Bool.false_ne_true (known.symm.trans operandsUnbound)

end Protocol

namespace Goal

variable {Code : Type} {subst : Subst} {decomposer : Decomposer}
  {operator operands whole : Term}

/-- What the application is made to, for what its arguments stand for. -/
def composition
    (decomposer : Decomposer)
    (operator operands whole : Term) : Goal Code :=
  if whole.isVar then
    if operator.isVar || operands.isVar then
      cons operator operands whole
    else
      match decomposer.protocol.construct operator operands with
      | .error _ => fail
      | .ok constructed => eq whole constructed
  else
    match decomposer.protocol.split whole with
    | .error _ => fail
    | .ok parts => all [eq operator parts.1, eq operands parts.2]

/-- An application is decided as the goal that it is made to. -/
theorem atOnce_application
    {found : Option Subst}
    (composed :
      (composition decomposer (subst.reify operator) (subst.reify operands)
        (subst.reify whole) : Goal Code).AtOnce subst found) :
    (application decomposer operator operands whole : Goal Code).AtOnce subst
      found := by
  refine .dynamic (fun supply => ?_) composed
  cases unknown : (subst.reify whole).isVar with
  | false =>
    simp only [composition, unknown, Bool.not_false, if_true,
      Bool.false_eq_true, if_false]
    exact made_takenApart _ _ _ _ _
  | true =>
    simp only [composition, unknown, Bool.not_true, Bool.false_eq_true,
      if_false, if_true]
    split
    · rfl
    · exact made_putTogether _ _ _ _ _

/-- What the protocol rejects fails. -/
theorem composition_eq_fail
    (rejected : decomposer.protocol.Rejects operator operands whole) :
    (composition decomposer operator operands whole : Goal Code) = fail := by
  rcases rejected with ⟨known, refused⟩ |
    ⟨unknown, operatorKnown, operandsKnown, error, refused⟩
  · rcases Protocol.refuses_iff.mp refused with ⟨error, outcome⟩
    simp [composition, known, outcome]
  · simp [composition, unknown, operatorKnown, operandsKnown, refused]

/-- What the protocol does not reject is decided as one equation of cells. -/
theorem exists_atOnce_composition
    (acyclic : subst.Acyclic)
    (accepted : ¬ decomposer.protocol.Rejects operator operands whole) :
    ∃ found,
      (composition decomposer operator operands whole : Goal Code).AtOnce subst
          found ∧
        (found = subst.unify whole (.cons operator operands) ∨
          found = subst.unify (.cons operator operands) whole) := by
  rw [composition]
  rw [Protocol.Rejects, not_or] at accepted
  cases unknown : whole.isVar with
  | false =>
    cases outcome : decomposer.protocol.split whole with
    | error error =>
      exact absurd ⟨unknown, Protocol.refuses_iff.mpr ⟨error, outcome⟩⟩
        accepted.1
    | ok parts =>
      -- The cell is unified part by part.
      have cell := Protocol.eq_cons_of_split outcome
      subst cell
      refine ⟨_, ?_, .inr rfl⟩
      rw [Subst.unify_cons acyclic]
      exact (atOnce_eq _ _).both _ fun result _ => atOnce_eq _ _
  | true =>
    simp only [if_true]
    split
    · exact ⟨_, atOnce_eq _ _, .inr rfl⟩
    · rename_i known
      rw [Bool.or_eq_true, not_or, Bool.not_eq_true, Bool.not_eq_true] at known
      cases outcome : decomposer.protocol.construct operator operands with
      | error error =>
        exact absurd ⟨unknown, known.1, known.2, error, outcome⟩ accepted.2
      | ok constructed =>
        rw [Protocol.eq_cons_of_construct outcome]
        exact ⟨_, atOnce_eq _ _, .inl rfl⟩

/-- An application decides one equation, or fails as the protocol has it. -/
theorem exists_decided_application
    (acyclic : subst.Acyclic)
    (decomposer : Decomposer)
    (operator operands whole : Term) :
    ∃ found,
      (application decomposer operator operands whole : Goal Code).AtOnce subst
          found ∧
        (decomposer.protocol.RejectsIn subst operator operands whole →
          found = none) ∧
        (¬ decomposer.protocol.RejectsIn subst operator operands whole →
          subst.Decides whole (.cons operator operands) found) := by
  by_cases rejected :
    decomposer.protocol.RejectsIn subst operator operands whole
  · refine ⟨none, atOnce_application ?_, fun _ => rfl, absurd rejected⟩
    rw [composition_eq_fail rejected]
    exact atOnce_fail
  · rcases @exists_atOnce_composition Code _ _ _ _ _ acyclic rejected with
      ⟨found, composed, same⟩
    rw [← Subst.reify_cons acyclic] at same
    refine ⟨found, atOnce_application composed, (absurd · rejected), fun _ => ?_⟩
    rcases same with rfl | rfl
    · exact Subst.decides_unify_reify acyclic _ _
    · exact (Subst.decides_unify_reify acyclic _ _).symm

/--
An application has at most one result, a most general unifier of the whole and
the cell of its parts.  It has none if there is no unifier, or if the protocol
refuses a known whole, or if it refuses to put the known parts of an unbound
whole together; otherwise it has one.
-/
theorem application_composes
    (acyclic : subst.Acyclic)
    (decomposer : Decomposer)
    (operator operands whole : Term) :
    ∃ found,
      (application decomposer operator operands whole : Goal Code).AtOnce subst
          found ∧
        (∀ later ∈ found,
          subst.MostGeneral whole (.cons operator operands) later) ∧
        (found = none ↔
          ¬ subst.Unifiable whole (.cons operator operands) ∨
            ((subst.reify whole).isVar = false ∧
              decomposer.protocol.Refuses (subst.reify whole)) ∨
            ((subst.reify whole).isVar = true ∧
              (subst.reify operator).isVar = false ∧
              (subst.reify operands).isVar = false ∧
              ∃ error,
                decomposer.protocol.construct (subst.reify operator)
                    (subst.reify operands) =
                  .error error)) := by
  rcases @exists_decided_application Code _ acyclic decomposer operator operands
      whole with
    ⟨found, atOnce, none_of_rejects, decides_of_accepts⟩
  by_cases rejected :
    decomposer.protocol.RejectsIn subst operator operands whole
  · have nothing := none_of_rejects rejected
    subst nothing
    exact ⟨none, atOnce, nofun, iff_of_true rfl (.inr rejected)⟩
  · have decides := decides_of_accepts rejected
    refine ⟨found, atOnce, decides.mostGeneral, ?_⟩
    rw [decides.eq_none_iff]
    exact (or_iff_left rejected).symm

/-- An unbound whole becomes the expression of its known parts. -/
theorem application_composes_expression :
    let operands := Term.sequence .expr [.int 1]
    ∃ later,
      (application (.quiet .expr) (.sym "f") operands (.var ⟨0⟩) :
          Goal Empty).AtOnce ∅ (some later) ∧
        later.reify (.var ⟨0⟩) = .expr (.sym "f") [.int 1] := by
  intro operands
  have acyclic := Subst.acyclic_empty
  have wholeShown : (∅ : Subst).reify (.var ⟨0⟩) = .var ⟨0⟩ :=
    Subst.reify_var_eq_self acyclic (Subst.lookup_empty _)
  have operandsShown : (∅ : Subst).reify operands = operands :=
    Subst.reify_eq_of_isGround acyclic rfl
  have unifiable : (∅ : Subst).Unifiable (.var ⟨0⟩) (.cons (.sym "f") operands) :=
    ⟨fun _ => .cons (.sym "f") operands, nofun, rfl⟩
  rcases @application_composes Empty ∅ acyclic (.quiet .expr) (.sym "f") operands
      (.var ⟨0⟩) with
    ⟨found, atOnce, general, none_iff⟩
  cases found with
  | none =>
    rw [wholeShown, operandsShown] at none_iff
    rcases none_iff.mp rfl with apart | ⟨known, _⟩ | ⟨_, _, _, error, refused⟩
    · exact absurd unifiable apart
    · cases known
    · cases refused
  | some later =>
    have composed := general later rfl
    refine ⟨later, atOnce, composed.reify_eq.trans ?_⟩
    exact Subst.reify_eq_of_isGround composed.grows.acyclic rfl

end Goal

end RelationalSearch
