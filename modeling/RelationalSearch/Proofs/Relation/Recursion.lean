import RelationalSearch.Proofs.Relation.Application
import RelationalSearch.Proofs.Relation.Ending

/-!
# Recursion on a known graph

A walk reifies its graphs, splits them and maps itself over their parts; all of
it is put off and may go on in turns.  If the graph that is walked is known then
there is a plain recursion with the same results, `Program.visit`.  It calls the
node relation, or it links the elements of the graph with those of the output.
The graph has finitely many elements, and each is visited in turn.

The recursion is generic if the relations treat all variables of the session
alike (`Program.generic_visit`).
-/

namespace RelationalSearch

variable {Base Custom : Type}

/-- The condition on linked sequences that a policy stands for. -/
def MapPolicy.linking
    (policy : MapPolicy)
    (kind : Option SeqKind)
    (settings : MapSettings)
    (links : List (Link Base Custom))
    (first second : Term) : Recipe (CodedGoal Base Custom) :=
  match policy with
  | all => linked kind settings.nullSucceedsAtFirstCall links first second
  | any =>
    linkedAny kind settings.nullSucceedsAtFirstCall
      (.start settings.anySucceeded) links first second

/-- The variables for the operators and the operands of two graphs. -/
structure Operation where
  operatorIn : Var
  operandsIn : Var
  operatorOut : Var
  operandsOut : Var

namespace Operation

/-- Fresh variables for the parts of both graphs. -/
def fresh : Recipe Operation :=
  .mint "rator_in" fun operatorIn =>
    .mint "rands_in" fun operandsIn =>
      .mint "rator_out" fun operatorOut =>
        .mint "rands_out" fun operandsOut =>
          .done ⟨operatorIn, operandsIn, operatorOut, operandsOut⟩

/-- The variables that are minted next. -/
def numbered (supply : Nat) : Operation :=
  ⟨⟨supply⟩, ⟨supply + 1⟩, ⟨supply + 2⟩, ⟨supply + 3⟩⟩

/-- The output is the cell of the variables that stand for its parts. -/
def cell (operation : Operation) : Term :=
  .cons (.var operation.operatorOut) (.var operation.operandsOut)

end Operation

namespace Program

variable (program : Program Base Custom) (node : Base)
  (settings : WalkSettings Base)

/--
The elements of a known graph are linked with those of the output, as the policy
says.  With a relation between operators these are the operands only, and the
operators are related.
-/
def visitBelow
    (links : List (Link Base Custom))
    (known output : Term) : Recipe (CodedGoal Base Custom) :=
  match settings.operatorRelation with
  | none =>
    settings.policy.linking known.terminator? settings.mapSettings links known
      output
  | some operatorRelation =>
    match settings.decomposer.protocol.split known with
    | .error _ => pure .fail
    | .ok (operator, operands) => do
      let operation ← Operation.fresh
      let operators ← program.relation operatorRelation
        (.var operation.operatorIn) (.var operation.operatorOut)
      let elements ← settings.policy.linking operands.terminator?
        settings.mapSettings links.tail (.var operation.operandsIn)
        (.var operation.operandsOut)
      pure (.all
        [.all [.eq (.var operation.operatorIn) operator,
            .eq (.var operation.operandsIn) operands],
          .eq operation.cell output,
          operators,
          elements])

/-- The node relation holds for a known graph, or its elements are linked. -/
def visitWith
    (links : List (Link Base Custom))
    (known output : Term) : CodedGoal Base Custom :=
  .dynamic fun subst =>
    let output := subst.reify output
    .done (.any
      [[.dynamic fun _ => program.relation node known output],
        [.dynamic fun _ => program.visitBelow settings links known output]])

/-- Each element along the spine of a known graph is visited. -/
def visits : Term → List (Link Base Custom)
  | .cons head tail =>
    (fun _ output => program.visitWith node settings (visits head) head
      output) :: visits tail
  | _ => []

/-- The recursion on a known graph. -/
def visit (known output : Term) : CodedGoal Base Custom :=
  program.visitWith node settings (program.visits node settings known) known
    output

end Program

/-! ## The recursion is generic -/

section Alike

variable {program : Program Base Custom} {node : Base}
  {settings : WalkSettings Base} {least : Nat} {pairing : Pairing}
  {codes : Pairing → Code Base Custom → Code Base Custom → Prop}

theorem Term.alike_of_isGround
    {term : Term}
    (ground : term.isGround = true) :
    Term.Alike pairing term term := by
  induction term with
  | var x => simp at ground
  | int value => exact .int value
  | sym name => exact .sym name
  | cons head tail headIH tailIH =>
    rw [isGround_cons, Bool.and_eq_true] at ground
    exact .cons (headIH ground.1) (tailIH ground.2)
  | nil kind => exact .nil kind

theorem MapPolicy.alike_linking
    (policy : MapPolicy)
    (kind : Option SeqKind)
    (mapSettings : MapSettings)
    {links otherLinks : List (Link Base Custom)}
    (each : List.Forall₂ (AlikeLinks codes pairing) links otherLinks)
    {first second otherFirst otherSecond : Term}
    (firsts : Term.Alike pairing first otherFirst)
    (seconds : Term.Alike pairing second otherSecond) :
    Recipe.Alike (Goal.Alike codes) pairing
      (policy.linking kind mapSettings links first second)
      (policy.linking kind mapSettings otherLinks otherFirst otherSecond) := by
  cases policy with
  | all => exact alike_linked each firsts seconds _ _
  | any => exact alike_linkedAny each firsts seconds _ _ _

/-- The variables are paired, one by one. -/
structure Operation.Alike (pairing : Pairing) (operation other : Operation) :
    Prop where
  operatorIn :
    Term.Alike pairing (.var operation.operatorIn) (.var other.operatorIn)
  operandsIn :
    Term.Alike pairing (.var operation.operandsIn) (.var other.operandsIn)
  operatorOut :
    Term.Alike pairing (.var operation.operatorOut) (.var other.operatorOut)
  operandsOut :
    Term.Alike pairing (.var operation.operandsOut) (.var other.operandsOut)

theorem Operation.alike_fresh :
    Recipe.Alike Operation.Alike pairing fresh fresh := by
  intro larger supply otherSupply growth
  have counted (start : Nat) : (fresh.made start).2 - start = 4 :=
    Nat.add_sub_cancel_left start 4
  rw [counted, counted]
  refine ⟨rfl, ?_⟩
  constructor
  · exact .var (.inr ⟨0, by decide, rfl, rfl⟩)
  · exact .var (.inr ⟨1, by decide, rfl, rfl⟩)
  · exact .var (.inr ⟨2, by decide, rfl, rfl⟩)
  · exact .var (.inr ⟨3, by decide, rfl, rfl⟩)

namespace Program

/-- The relations that a walk calls treat alike all variables of its session. -/
structure UniformWalk
    (codes : Pairing → Code Base Custom → Code Base Custom → Prop)
    (node : Base)
    (settings : WalkSettings Base)
    (least : Nat) : Prop where
  onNodes : (Relation.base node).Uniform codes least
  onOperators :
    ∀ operatorRelation, settings.operatorRelation = some operatorRelation →
      (Relation.base operatorRelation).Uniform codes least

theorem alike_visitBelow
    (generic : GenericCodes program.unfold codes)
    (uniform : UniformWalk codes node settings least)
    (own : ∀ x : Var, x.id < least → pairing x x)
    {links otherLinks : List (Link Base Custom)}
    (each : List.Forall₂ (AlikeLinks codes pairing) links otherLinks)
    {known output otherOutput : Term}
    (ground : known.isGround = true)
    (outputs : Term.Alike pairing output otherOutput) :
    Recipe.Alike (Goal.Alike codes) pairing
      (program.visitBelow settings links known output)
      (program.visitBelow settings otherLinks known otherOutput) := by
  cases related : settings.operatorRelation with
  | none =>
    simp only [visitBelow, related]
    exact settings.policy.alike_linking _ _ each (Term.alike_of_isGround ground)
      outputs
  | some operatorRelation =>
    cases split : settings.decomposer.protocol.split known with
    | error error =>
      simp only [visitBelow, related, split]
      exact Recipe.alike_done fun _ _ => .fail
    | ok parts =>
      rcases parts with ⟨operator, operands⟩
      rw [Protocol.eq_cons_of_split split, Term.isGround_cons,
        Bool.and_eq_true] at ground
      simp only [visitBelow, related, split]
      apply Operation.alike_fresh.andThen
      intro first operation otherOperation onFirst alike
      have ownFirst : ∀ x : Var, x.id < least → first x x :=
        fun x below => onFirst x x (own x below)
      apply ((uniform.onOperators operatorRelation related).recipes generic
        ownFirst alike.operatorIn alike.operatorOut).andThen
      intro second operators otherOperators onSecond operatorsAlike
      have tails : List.Forall₂ (AlikeLinks codes second) links.tail
          otherLinks.tail := by
        have grown : ∀ x y, pairing x y → second x y :=
          fun x y paired => onSecond x y (onFirst x y paired)
        cases each with
        | nil => exact .nil
        | cons _ rest => exact rest.imp fun _ _ links => links.mono grown
      apply (settings.policy.alike_linking _ _ tails
        (alike.operandsIn.mono onSecond)
        (alike.operandsOut.mono onSecond)).andThen
      intro third elements otherElements onThird elementsAlike
      apply Recipe.alike_done
      intro last onLast
      have afterSecond : ∀ x y, second x y → last x y :=
        fun x y paired => onLast x y (onThird x y paired)
      have afterFirst : ∀ x y, first x y → last x y :=
        fun x y paired => afterSecond x y (onSecond x y paired)
      have parts : Goal.Alike codes last
          (.all [.eq (.var operation.operatorIn) operator,
            .eq (.var operation.operandsIn) operands])
          (.all [.eq (.var otherOperation.operatorIn) operator,
            .eq (.var otherOperation.operandsIn) operands]) :=
        .both
          (.eq (alike.operatorIn.mono afterFirst)
            (Term.alike_of_isGround ground.1))
          (.eq (alike.operandsIn.mono afterFirst)
            (Term.alike_of_isGround ground.2))
      have cells : Goal.Alike codes last (.eq operation.cell output)
          (.eq otherOperation.cell otherOutput) :=
        .eq
          (.cons (alike.operatorOut.mono afterFirst)
            (alike.operandsOut.mono afterFirst))
          (outputs.mono fun x y paired =>
            afterFirst x y (onFirst x y paired))
      exact .both (.both (.both parts cells)
        (operatorsAlike.mono generic afterSecond))
        (elementsAlike.mono generic onLast)

theorem alike_visitWith
    (generic : GenericCodes program.unfold codes)
    (uniform : UniformWalk codes node settings least)
    (own : ∀ x : Var, x.id < least → pairing x x)
    {links otherLinks : List (Link Base Custom)}
    (each : List.Forall₂ (AlikeLinks codes pairing) links otherLinks)
    {known output otherOutput : Term}
    (ground : known.isGround = true)
    (outputs : Term.Alike pairing output otherOutput) :
    Goal.Alike codes pairing
      (program.visitWith node settings links known output)
      (program.visitWith node settings otherLinks known otherOutput) := by
  apply Goal.alike_dynamic
  intro larger subst other included substs
  apply Recipe.alike_done
  intro largest grown
  have all : ∀ x y, pairing x y → largest x y :=
    fun x y paired => grown x y (included x y paired)
  have ownLargest : ∀ x : Var, x.id < least → largest x x :=
    fun x below => all x x (own x below)
  have shown := (substs.reify (outputs.mono included)).mono grown
  apply Goal.Alike.either
  · exact uniform.onNodes.link generic ownLargest
      (Term.alike_of_isGround ground) shown
  · apply Goal.Alike.either _ .fail
    apply Goal.alike_dynamic
    intro last _ _ more _
    exact alike_visitBelow generic uniform
      (fun x below => more x x (ownLargest x below))
      (each.imp fun _ _ links => links.mono fun x y paired =>
        more x y (all x y paired))
      ground (shown.mono more)

theorem alike_visits
    (generic : GenericCodes program.unfold codes)
    (uniform : UniformWalk codes node settings least)
    (own : ∀ x : Var, x.id < least → pairing x x)
    {known : Term}
    (ground : known.isGround = true) :
    List.Forall₂ (AlikeLinks codes pairing)
      (program.visits node settings known)
      (program.visits node settings known) := by
  induction known generalizing pairing with
  | cons head tail headIH tailIH =>
    rw [Term.isGround_cons, Bool.and_eq_true] at ground
    apply List.Forall₂.cons _ (tailIH own ground.2)
    intro larger included _ _ _ _ _ seconds
    have ownLarger : ∀ x : Var, x.id < least → larger x x :=
      fun x below => included x x (own x below)
    exact alike_visitWith generic uniform ownLarger
      (headIH ownLarger ground.1) ground.1 seconds
  | _ => exact .nil

/-- The results of the recursion do not depend on numbers of variables. -/
theorem generic_visit
    (generic : GenericCodes program.unfold codes)
    (uniform : UniformWalk codes node settings least)
    {known output : Term}
    {subst : Subst}
    {supply : Nat}
    (ground : known.isGround = true)
    (outputLow : output.ceiling ≤ supply)
    (low : least ≤ supply)
    (within : subst.Within supply) :
    Generic program.unfold (program.visit node settings known output) subst
      supply := by
  have own : ∀ x : Var, x.id < least → Pairing.upTo supply x x :=
    fun x below => ⟨rfl, below.trans_le low⟩
  exact ⟨codes, generic,
    alike_visitWith generic uniform own (alike_visits generic uniform own ground)
      ground (Term.alike_upTo outputLow),
    within.alike_upTo⟩

end Program

end Alike

end RelationalSearch
