import RelationalSearch.Relation.Application
import RelationalSearch.Relation.Pointwise

/-!
# Walking two graphs

`Program.walk` relates two terms at every level: either the node relation holds
between them, or both are compound and their subterms are related in the same
way, as the settings say.

The goal for the subterms is built before that of the node relation, and its
results come after those of the node relation.
-/

namespace RelationalSearch

variable {Base Custom : Type}

namespace Program

/-- The subterms of two graphs are walked. -/
def walkBelow
    (program : Program Base Custom)
    (node : Base)
    (settings : WalkSettings Base)
    (graphIn graphOut : Term) : Recipe (CodedGoal Base Custom) :=
  match settings.operatorRelation with
  | none =>
    settings.policy.map (.walk node settings) graphIn graphOut
      settings.mapSettings
  | some operatorRelation => do
    let operatorIn ← Recipe.freshTerm "rator_in"
    let operandsIn ← Recipe.freshTerm "rands_in"
    let operatorOut ← Recipe.freshTerm "rator_out"
    let operandsOut ← Recipe.freshTerm "rands_out"
    let operators ← program.relation operatorRelation operatorIn operatorOut
    let operands ← settings.policy.map (.walk node settings)
      operandsIn operandsOut settings.mapSettings
    pure (.all
      [.application settings.decomposer operatorIn operandsIn graphIn,
        .application settings.decomposer operatorOut operandsOut graphOut,
        operators,
        operands])

/-- The node relation relates the graphs, as a whole or in their subterms. -/
def walk
    (program : Program Base Custom)
    (node : Base)
    (settings : WalkSettings Base)
    (graphIn graphOut : Term) : CodedGoal Base Custom :=
  .dynamic fun subst => do
    let graphIn := subst.reify graphIn
    let graphOut := subst.reify graphOut
    let below ← program.walkBelow node settings graphIn graphOut
    let here ← program.relation node graphIn graphOut
    pure (.any [[here], [below]])

/-- The goal that a relation makes of two terms. -/
def relate
    (program : Program Base Custom)
    (relation : Relation Base)
    (first second : Term) : Recipe (CodedGoal Base Custom) :=
  match relation with
  | .always => pure .succeed
  | .base name => program.relation name first second
  | .walk node settings => pure (program.walk node settings first second)

end Program

end RelationalSearch
