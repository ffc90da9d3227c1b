import RelationalSearch.Proofs.Relation.Ending
import RelationalSearch.Proofs.Relation.Reach
import RelationalSearch.Proofs.Relation.Refusal
import RelationalSearch.Proofs.Search.Behind
import RelationalSearch.Proofs.Search.Persistence

/-!
# Where a reduction stops

From a known term `Program.reach` applies the relation once and looks at each
state that this has led to.  If the step has led to the term itself, then the
search stops there.  Otherwise it goes on from the result of the step, and stops
with it when what is reached from it has come to an end
(`Program.reach_stops_where_unchanged`).

The result of the step is compared with the term as it was before.  So a step
that binds variables of the term does not lead to the term itself, even if the
two are the same afterwards (`Program.reach_goes_on_from_same`).
-/

namespace RelationalSearch

/-! ## Results that are found at once -/

section AtOnce

variable {Code : Type} {gaps : Gaps} {start : Located Subst}

/-- What is found is the only result, and no work is left to be done. -/
def Goal.FindsAtOnce
    (gaps : Gaps)
    (goal : Goal Code)
    (start : Located Subst)
    (found : Option Subst) : Prop :=
  ∃ place,
    goal.explore gaps start = .ofOption (found.map (Located.mk place))

theorem Goal.findsAtOnce_eq
    (gaps : Gaps)
    (left right : Term)
    (start : Located Subst) :
    (eq left right : Goal Code).FindsAtOnce gaps start
      (start.value.unify left right) := by
  refine ⟨start.place, ?_⟩
  rw [explore]
  cases start.value.unify left right <;> rfl

theorem Goal.FindsAtOnce.of_dynamic
    {builder : Subst → Recipe (Goal Code)}
    {found : Option Subst}
    (built :
      ((builder start.value).goalAt gaps start).FindsAtOnce gaps
        (start.enter gaps (builder start.value)) found) :
    (dynamic builder).FindsAtOnce gaps start found := by
  rcases built with ⟨place, explored⟩
  exact ⟨place, (explore_dynamic gaps builder start).trans explored⟩

end AtOnce

namespace Program

variable {Base Custom : Type}

/-! ## One step -/

/-- The relation is called for the term and the next variable. -/
def firstStep
    (program : Program Base Custom)
    (relation : Relation Base)
    (input : Term)
    (gaps : Gaps)
    (start : Located Subst) : CodedGoal Base Custom × Nat :=
  let opening := start.place.opening gaps
  program.calling relation (start.value.reify input) (.var ⟨opening⟩)
    (opening + 1)

/-- The first step leads to the state. -/
def StepsTo
    (program : Program Base Custom)
    (relation : Relation Base)
    (input : Term)
    (gaps : Gaps)
    (start stepped : Located Subst) : Prop :=
  let step := program.firstStep relation input gaps start
  step.1.Finds program.unfold gaps
    ⟨start.place.built step.2, start.value⟩ stepped

section Stops

variable {program : Program Base Custom} {relation : Relation Base}
  {input known reduced : Term} {gaps : Gaps} {start stepped : Located Subst}

/-- The substitution grows by the step. -/
theorem StepsTo.grows
    (steps : program.StepsTo relation input gaps start stepped)
    (acyclic : start.value.Acyclic) :
    start.value.Grows stepped.value := by
  rcases Goal.Finds.nonempty_derivation steps with ⟨derivation⟩
  exact derivation.grows acyclic

/-- From a known term the search goes by way of the results of the step. -/
theorem goesByWayOf_stepsTo
    (known : (start.value.reify input).isVar = false)
    (output : Term) :
    (program.reach relation input output).GoesByWayOf program.unfold gaps start
      (program.StepsTo relation input gaps start)
      (onward relation (start.value.reify input)
        (.var ⟨start.place.opening gaps⟩) (start.value.reify output)) := by
  refine .dynamic ?_
  rw [Recipe.goalAt, Located.enter, made_reach program relation known]
  exact Goal.goesByWayOf_both program.unfold gaps
    (program.firstStep relation input gaps start).1 _ _

/-- Where the step has led to the term itself there is only an equation left. -/
theorem findsAtOnce_onward
    (same : stepped.value.reify reduced = known)
    (output : Term) :
    (onward relation known reduced output :
        CodedGoal Base Custom).FindsAtOnce gaps stepped
      (stepped.value.unify reduced output) := by
  refine .of_dynamic ?_
  rw [if_pos same]
  exact Goal.findsAtOnce_eq gaps reduced output _

/-- Elsewhere the search goes on, and comes back to the equation at its end. -/
theorem locatesInTurn_onward
    (program : Program Base Custom)
    (different : stepped.value.reify reduced ≠ known)
    (output : Term) :
    (onward relation known reduced output).LocatesInTurn program.unfold gaps
      stepped (.defer (.reach relation reduced output)) (.eq reduced output) := by
  let place := stepped.place.built (stepped.place.opening gaps)
  refine ⟨place.left, place.right.left, fun index finish => ?_⟩
  rw [onward, Goal.locates_dynamic_iff, if_neg different]
  refine Goal.locates_ordered_iff.trans ?_
  simp only [Goal.locates_ordered_fail_iff]
  exact Iff.rfl

/--
The result of the step is the term as it was just if the two are the same now and
the step has left the term as it was.
-/
theorem StepsTo.eq_reify_iff
    (steps : program.StepsTo relation input gaps start stepped)
    (acyclic : start.value.Acyclic)
    (result : Term) :
    stepped.value.reify result = start.value.reify input ↔
      stepped.value.reify result = stepped.value.reify input ∧
        stepped.value.reify input = start.value.reify input := by
  have grows := steps.grows acyclic
  constructor
  · intro same
    have unchanged :=
      calc
        stepped.value.reify input
          = stepped.value.reify (start.value.reify input) :=
            grows.reify_congr acyclic (Subst.reify_reify acyclic input).symm
        _ = stepped.value.reify (stepped.value.reify result) := by rw [same]
        _ = stepped.value.reify result := Subst.reify_reify grows.acyclic result
        _ = start.value.reify input := same
    exact ⟨same.trans unchanged.symm, unchanged⟩
  · rintro ⟨same, unchanged⟩
    exact same.trans unchanged

end Stops

/-! ## Stopping and going on -/

/--
From a known term, whatever variables it has, the search goes by way of the
states that the first step leads to.  Where the result of the step is the same
as the term, and the step has left the term as it was, there is nothing but to
stop with the result.  Elsewhere comes what is reached from the result, and if
that has an end, then the result itself.
-/
theorem reach_stops_where_unchanged
    (program : Program Base Custom)
    (relation : Relation Base)
    {input : Term}
    (output : Term)
    {subst : Subst}
    (session : Session)
    (acyclic : subst.Acyclic)
    (known : (subst.reify input).isVar = false) :
    ∃ gaps : Gaps,
      gaps.Fit program.unfold (program.reach relation input output) subst
          session ∧
        let start := Located.root subst session
        let reduced := Term.var ⟨start.place.opening gaps⟩
        let behind : CodedGoal Base Custom :=
          onward relation (subst.reify input) reduced (subst.reify output)
        (program.reach relation input output).GoesByWayOf program.unfold gaps
            start (program.StepsTo relation input gaps start) behind ∧
          ∀ stepped, program.StepsTo relation input gaps start stepped →
            (stepped.value.reify reduced = stepped.value.reify input →
              stepped.value.reify input = subst.reify input →
                behind.FindsAtOnce gaps stepped
                  (stepped.value.unify reduced (subst.reify output))) ∧
              ((stepped.value.reify reduced ≠ stepped.value.reify input ∨
                  stepped.value.reify input ≠ subst.reify input) →
                behind.LocatesInTurn program.unfold gaps stepped
                  (.defer (.reach relation reduced (subst.reify output)))
                  (.eq reduced (subst.reify output))) := by
  rcases Gaps.exists_fit program.unfold (program.reach relation input output)
    subst session with ⟨gaps, fit⟩
  refine ⟨gaps, fit, goesByWayOf_stepsTo known output, fun stepped steps => ?_⟩
  have compared := steps.eq_reify_iff acyclic
    (.var ⟨(Located.root subst session).place.opening gaps⟩)
  constructor
  · intro same unchanged
    exact findsAtOnce_onward (compared.mpr ⟨same, unchanged⟩) _
  · intro changed
    refine locatesInTurn_onward program (fun same => ?_) _
    have both := compared.mp same
    exact changed.elim (· both.1) (· both.2)

/-- A step makes its term the list of one, and leads to the term itself. -/
def becomesOne : Program Unit Empty where
  relation _ term result :=
    .done (.all [.eq term (.sequence .list [.int 1]), .eq result term])
  custom name := name.elim

/-- From a list of a variable the search goes on where the variable is bound. -/
theorem reach_stops_where_unchanged_open :
    let input : Term := .sequence .list [.var ⟨0⟩]
    let start : Located Subst := .root ∅ ⟨#["x", "q"], #[]⟩
    ∃ gaps : Gaps,
      ∀ stepped, becomesOne.StepsTo (.base ()) input gaps start stepped →
        stepped.value.reify input ≠ input →
          (onward (.base ()) input (.var ⟨start.place.opening gaps⟩)
            (.var ⟨1⟩)).LocatesInTurn becomesOne.unfold gaps stepped
              (.defer (.reach (.base ()) (.var ⟨start.place.opening gaps⟩)
                (.var ⟨1⟩)))
              (.eq (.var ⟨start.place.opening gaps⟩) (.var ⟨1⟩)) := by
  intro input start
  have inputShown : (∅ : Subst).reify input = input := by decide +kernel
  have outputShown : (∅ : Subst).reify (.var ⟨1⟩) = .var ⟨1⟩ := by
    decide +kernel
  have known : ((∅ : Subst).reify input).isVar = false := by decide +kernel
  rcases reach_stops_where_unchanged becomesOne (.base ()) (.var ⟨1⟩)
      ⟨#["x", "q"], #[]⟩ Subst.acyclic_empty known with
    ⟨gaps, _, _, stops⟩
  rw [inputShown, outputShown] at stops
  exact ⟨gaps, fun stepped steps changed => (stops stepped steps).2 (.inr changed)⟩

/--
The step from a list of a variable has one result, in which it is the same as the
list.  But the search goes on from there and finds the same again.
-/
theorem reach_goes_on_from_same :
    let input : Term := .sequence .list [.var ⟨0⟩]
    let one : Term := .sequence .list [.int 1]
    let step : CodedGoal Unit Empty :=
      .dynamic fun _ => becomesOne.relate (.base ()) input (.var ⟨1⟩)
    let reached := becomesOne.reach (.base ()) input (.var ⟨1⟩)
    let session : Session := ⟨#["x", "q"], #[]⟩
    ((step.answers becomesOne.unfold 9 9 (.cons (.var ⟨1⟩) input)).run
        session).1 = [.cons one one] ∧
      ((reached.answers becomesOne.unfold 9 9 (.var ⟨1⟩)).run session).1 =
        [one, one] := by
  refine ⟨?_, ?_⟩
  · decide +kernel
  · decide +kernel

end Program

end RelationalSearch
