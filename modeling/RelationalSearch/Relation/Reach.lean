import RelationalSearch.Goal.Plan
import RelationalSearch.Relation.Walk
import RelationalSearch.Term.Equality

/-!
# Terms reached in one or more steps

`Program.reach` relates a term to those that are reached from it by applying a
relation once or more.

From a known term, those reached by more steps come first, and a step that
leaves the term as it is ends the chain.  From an unknown term the search goes
the other way and finds the nearest terms first, usually without end.
-/

namespace RelationalSearch

variable {Base Custom : Type}

namespace Program

/-- The output is reached from the input in one or more steps. -/
def reach
    (program : Program Base Custom)
    (relation : Relation Base)
    (input output : Term) : CodedGoal Base Custom :=
  .dynamic fun subst => do
    let input := subst.reify input
    let output := subst.reify output
    let reduced ← Recipe.freshTerm "reduced"
    let step ← program.relate relation input reduced
    let stop : CodedGoal Base Custom := .eq reduced output
    let again : CodedGoal Base Custom :=
      .defer (.reach relation reduced output)
    if input.isVar then
      pure (.all [.any [[stop], [again]], step])
    else
      pure (.all
        [step,
          .dynamic fun stepped =>
            if stepped.reify reduced = input then
              .done stop
            else
              .done (.anyInOrder [[again], [stop]])])

/-- The goal that a code stands for. -/
def unfold (program : Program Base Custom) :
    Code Base Custom → Recipe (CodedGoal Base Custom)
  | .custom name => program.custom name
  | .relate relation first second => program.relate relation first second
  | .mapAll relation terminator first second =>
    mapAll relation terminator true first second
  | .mapAny relation terminator nullSucceeds cursor first second =>
    mapAny relation terminator nullSucceeds cursor first second
  | .reach relation start finish => pure (program.reach relation start finish)

/-- The meaning of the work in a stream of the program. -/
def engine (program : Program Base Custom) :
    Engine Search (Plan (Code Base Custom)) (CodedGoal Base Custom) Subst :=
  searchEngine program.unfold

end Program

end RelationalSearch
