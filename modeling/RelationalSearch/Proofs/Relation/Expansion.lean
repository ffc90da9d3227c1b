import RelationalSearch.Proofs.Relation.Application
import RelationalSearch.Proofs.Relation.Ending
import RelationalSearch.Proofs.Search.Immediate

/-!
# Expanding an unknown term

From an unknown term `Program.reach` finds the terms from which the output is
reached, the nearest ones first.  The reference is one chain for each number of
steps (`Program.chain`), in which the last step comes first and the relation is
called for the variables between the steps.

If the relation makes immediate goals, then the search goes chain by chain:
before work is done for the first time, the chains of one step are found, and
each piece of work leads to those of one step more
(`Program.expand_nearest_first`).

A level applies its step to what the next level finds, and the next level is the
same search from a variable that is still unbound, over the substitution at the
start.  So the rounds of a level are those of the next one, each with the step
behind it, and the induction is on the number of rounds.
-/

namespace RelationalSearch

variable {Base Custom : Type}

/-- An application is an equation or two, or fails. -/
theorem Goal.Immediate.application
    {Code : Type}
    (decomposer : Decomposer)
    (operator operands whole : Term) :
    (Goal.application decomposer operator operands whole :
      Goal Code).Immediate := by
  apply Immediate.dynamic
  intro subst supply
  dsimp only
  split
  · rw [made_takenApart]
    split
    · exact .fail
    · exact .both (.eq _ _) (.eq _ _)
  · split
    · exact .cons _ _ _
    · rw [made_putTogether]
      split
      · exact .fail
      · exact .eq _ _

namespace Program

/--
The output is reached from the input in this number of steps.  What comes first
is the equation at the end of the chain, and then the steps from the last one
to the first one.
-/
def chain
    (program : Program Base Custom)
    (relation : Relation Base) : Nat → Term → Term → CodedGoal Base Custom
  | 0, input, output => .eq input output
  | count + 1, input, output => .dynamic fun _ => do
    let reduced ← Recipe.freshTerm "reduced"
    let step ← program.relate relation input reduced
    pure (.both (chain program relation count reduced output) step)

/-- All goals that the relation makes are immediate. -/
def Immediate (program : Program Base Custom) (relation : Relation Base) :
    Prop :=
  ∀ (first second : Term) (supply : Nat),
    (program.calling relation first second supply).1.Immediate

/-! ## One level -/

section Level

/-- The steps behind the first one: there are none, or the search goes on. -/
def furtherSteps
    (relation : Relation Base)
    (gaps : Gaps)
    (inside : Located Subst)
    (reduced output : Term) : Branches (Code Base Custom) :=
  ((Goal.eq reduced output).explore gaps
    ⟨inside.place.left, inside.value⟩).interleave
      (.suspended ⟨inside.place.right.left,
        .deferred (.reach relation reduced output) inside.value⟩)

variable {program : Program Base Custom} {relation : Relation Base}
  {gaps : Gaps} {start inside : Located Subst}
  {input reduced output found : Term} {x : Var}

/-- At first the output is what the first step leads to. -/
theorem reading_furtherSteps (inside : Located Subst) :
    Reading program.unfold (program.chain relation 0 reduced output)
      inside.snapshot
      ((furtherSteps relation gaps inside reduced output :
        Branches (Code Base Custom)).worked.map Located.snapshot) := by
  have immediate : (Goal.eq reduced output : CodedGoal Base Custom).Immediate :=
    .eq reduced output
  rw [furtherSteps, Stream.worked_interleave (immediate.behind_explore gaps _)]
  change Reading _ _ _ (List.map _ (_ ++ []))
  rw [List.append_nil]
  exact (immediate.listing program.unfold gaps
    ⟨inside.place.left, inside.value⟩).reading

/-- Then the same search goes on from there, over the same substitution. -/
theorem nextRound_furtherSteps :
    Branches.nextRound program.unfold gaps
        (furtherSteps relation gaps inside reduced output) =
      (program.reach relation reduced output).explore gaps
        (Located.enter gaps (.done (program.reach relation reduced output))
          ⟨inside.place.right.left, inside.value⟩) := by
  have immediate : (Goal.eq reduced output : CodedGoal Base Custom).Immediate :=
    .eq reduced output
  rw [furtherSteps, Branches.nextRound,
    Stream.behind_interleave (immediate.behind_explore gaps _)]
  exact Branches.advance_suspended program.unfold gaps _

/-- What is found for the further steps is fed to the first step. -/
theorem explore_reach
    (shown : start.value.reify input = .var x)
    (outputShown : start.value.reify output = found) :
    let opening := start.place.opening gaps
    let step := program.calling relation (.var x) (.var ⟨opening⟩) (opening + 1)
    (program.reach relation input output).explore gaps start =
      Branches.andThen gaps step.1
        (furtherSteps relation gaps ⟨start.place.built step.2, start.value⟩
          (.var ⟨opening⟩) found) := by
  rw [reach, Goal.explore_dynamic]
  simp only [Recipe.goalAt, Located.enter, shown, outputShown,
    Recipe.bind_eq_andThen, Recipe.made_andThen]
  rfl

/-- A chain of one step more has the results of the rest, fed to this step. -/
theorem reading_chain_succ
    (immediate : program.Immediate relation)
    (gaps : Gaps)
    {start : Snapshot}
    {count opening : Nat}
    {rest : Branches (Code Base Custom)}
    (later : start.supply ≤ opening)
    (reading :
      Reading program.unfold
        (program.chain relation count (.var ⟨opening⟩) output)
        ⟨start.value,
          (program.calling relation input (.var ⟨opening⟩) (opening + 1)).2⟩
        (rest.worked.map Located.snapshot)) :
    Reading program.unfold (program.chain relation (count + 1) input output)
      start
      ((Branches.andThen gaps
        (program.calling relation input (.var ⟨opening⟩) (opening + 1)).1
          rest).worked.map Located.snapshot) := by
  have step := immediate input (.var ⟨opening⟩) (opening + 1)
  rw [Branches.worked_andThen (step.behind_explore gaps)]
  apply Reading.dynamic later
  simp only [Recipe.bind_eq_andThen, Recipe.made_andThen]
  apply Reading.both_located reading
  intro middle _
  exact (step.listing program.unfold gaps middle).reading

/-- Each round of the search has the results of the chain of its length. -/
theorem reading_round
    (immediate : program.Immediate relation)
    (round : Nat)
    (gaps : Gaps)
    (start : Located Subst)
    (shown : start.value.reify input = .var x)
    (outputShown : start.value.reify output = found)
    (within : start.value.Within start.place.supply)
    (outputLow : output.ceiling ≤ start.place.supply) :
    Reading program.unfold (program.chain relation (round + 1) (.var x) found)
      start.snapshot
      (((Branches.nextRound program.unfold gaps)^[round]
        ((program.reach relation input output).explore gaps start)).worked.map
          Located.snapshot) := by
  induction round generalizing start input output x with
  | zero =>
    have opened := start.place.le_opening gaps
    rw [explore_reach shown outputShown]
    apply reading_chain_succ immediate gaps opened
    exact reading_furtherSteps ⟨start.place.built _, start.value⟩
  | succ round ih =>
    have opened := start.place.le_opening gaps
    have step := immediate (.var x) (.var ⟨start.place.opening gaps⟩)
      (start.place.opening gaps + 1)
    -- Neither the new variable nor the output is bound in the meantime.
    have unbound : start.value.reify (.var ⟨start.place.opening gaps⟩) =
        .var ⟨start.place.opening gaps⟩ :=
      Subst.reify_var_eq_self within.acyclic (within.lookup_eq_none opened)
    have foundShown : start.value.reify found = found := by
      rw [← outputShown]
      exact within.reify_reify outputLow within.acyclic fun _ _ free => free
    have foundLow : found.ceiling ≤ start.place.supply := by
      rw [← outputShown]
      exact within.ceiling_reify_le outputLow
    rw [explore_reach shown outputShown,
      Branches.rounds_andThen (step.behind_explore gaps)]
    apply reading_chain_succ immediate gaps opened
    rw [Function.iterate_succ_apply, nextRound_furtherSteps]
    let goal := program.reach relation (.var ⟨start.place.opening gaps⟩) found
    let middle : Located Subst :=
      ⟨(start.place.built (program.calling relation (.var x)
        (.var ⟨start.place.opening gaps⟩)
          (start.place.opening gaps + 1)).2).right.left, start.value⟩
    have entered : middle.place.supply ≤
        (middle.enter gaps (.done goal)).place.supply :=
      middle.supply_le_enter gaps (.done goal)
    have later : start.place.supply ≤
        (middle.enter gaps (.done goal)).place.supply := by
      apply opened.trans ((Nat.le_succ _).trans _)
      exact (Recipe.le_made _ _).trans entered
    have reading := ih (middle.enter gaps (.done goal)) unbound foundShown
      (within.mono later) (foundLow.trans later)
    exact reading.lower entered

end Level

/-! ## Chains of uniform relations -/

section Alike

variable {codes : Pairing → Code Base Custom → Code Base Custom → Prop}
  {program : Program Base Custom} {relation : Relation Base} {least : Nat}

theorem alike_chain
    (generic : GenericCodes program.unfold codes)
    (uniform : relation.Uniform codes least)
    {pairing : Pairing}
    (own : ∀ x : Var, x.id < least → pairing x x)
    (count : Nat)
    {input otherInput output otherOutput : Term}
    (inputs : Term.Alike pairing input otherInput)
    (outputs : Term.Alike pairing output otherOutput) :
    Goal.Alike codes pairing (program.chain relation count input output)
      (program.chain relation count otherInput otherOutput) := by
  induction count generalizing pairing input otherInput with
  | zero => exact .eq inputs outputs
  | succ count ih =>
    apply Goal.alike_dynamic
    intro larger _ _ included _
    apply (Recipe.alike_freshTerm "reduced" "reduced").andThen
    intro second reduced otherReduced onSecond reducedAlike
    have all : ∀ x y, pairing x y → second x y :=
      fun x y paired => onSecond x y (included x y paired)
    apply (uniform.recipes generic (fun x below => all x x (own x below))
      (inputs.mono all) reducedAlike).andThen
    intro third step otherStep onThird stepAlike
    apply Recipe.alike_done
    intro last onLast
    have further : ∀ x y, second x y → last x y :=
      fun x y paired => onLast x y (onThird x y paired)
    apply Goal.Alike.both
    · apply ih
      · exact fun x below => further x x (all x x (own x below))
      · exact reducedAlike.mono further
      · exact outputs.mono fun x y paired => further x y (all x y paired)
    · exact stepAlike.mono generic onLast

end Alike

/-! ## Main result -/

/--
If the input is unbound and the relation makes immediate goals, then each round
of the search finds what the chains of the next length lead to, so all results
of shorter chains come before those of longer ones, and none is lost.  The
numbers of the variables do not matter if the relation is uniform.
-/
theorem expand_nearest_first
    {program : Program Base Custom}
    {relation : Relation Base}
    (immediate : program.Immediate relation)
    {input output : Term}
    {subst : Subst}
    {session : Session}
    (within : subst.Within session.supply)
    (inputLow : input.ceiling ≤ session.supply)
    (outputLow : output.ceiling ≤ session.supply)
    (unbound : (subst.reify input).isVar = true) :
    let chains (round : Nat) : CodedGoal Base Custom :=
      program.chain relation (round + 1) (subst.reify input)
        (subst.reify output)
    (program.reach relation input output).UnrollsAs program.unfold chains subst
        session ∧
      ∀ codes, GenericCodes program.unfold codes →
        relation.Uniform codes session.supply →
          ∀ round, Generic program.unfold (chains round) subst
            session.supply := by
  intro chains
  have shown : ∃ x, subst.reify input = .var x := by
    cases seen : subst.reify input with
    | var x => exact ⟨x, rfl⟩
    | _ => simp [seen, Term.isVar] at unbound
  rcases shown with ⟨x, shown⟩
  rcases Gaps.exists_fit program.unfold (program.reach relation input output)
      subst session with ⟨gaps, fit⟩
  constructor
  · apply fit.unrollsAs
    intro round
    have reading := reading_round immediate round gaps (.root subst session)
      shown rfl within outputLow
    rw [← shown] at reading
    exact reading
  · intro codes generic uniform round
    have own : ∀ x : Var, x.id < session.supply →
        Pairing.upTo session.supply x x :=
      fun x below => ⟨rfl, below⟩
    have inputs := Term.alike_upTo (within.ceiling_reify_le inputLow)
    have outputs := Term.alike_upTo (within.ceiling_reify_le outputLow)
    exact ⟨codes, generic,
      alike_chain generic uniform own (round + 1) inputs outputs,
      within.alike_upTo⟩

/-- The relation takes one wrapper off a term. -/
def peeling : Program Unit Empty :=
  ⟨fun _ first second => pure (.eq first (.expr (.sym "s") [second])),
    Empty.elim⟩

/-- What is peeled once comes before what is peeled twice, and so on. -/
theorem expand_nearest_first_peeling :
    (peeling.reach (.base ()) (.var ⟨0⟩) (.sym "z")).UnrollsAs peeling.unfold
        (fun round =>
          peeling.chain (.base ()) (round + 1) ((∅ : Subst).reify (.var ⟨0⟩))
            ((∅ : Subst).reify (.sym "z")))
        ∅ ⟨#["q"], #[]⟩ ∧
      ((peeling.reach (.base ()) (.var ⟨0⟩) (.sym "z")).resultsWithin
        peeling.unfold ∅ ⟨#["q"], #[]⟩ 2).map
          (fun result => result.reify (.var ⟨0⟩)) =
        [.expr (.sym "s") [.sym "z"],
          .expr (.sym "s") [.expr (.sym "s") [.sym "z"]],
          .expr (.sym "s")
            [.expr (.sym "s") [.expr (.sym "s") [.sym "z"]]]] := by
  constructor
  · have immediate : peeling.Immediate (.base ()) := fun _ _ _ => .eq _ _
    have unbound : ((∅ : Subst).reify (.var ⟨0⟩)).isVar = true := by
      rw [Subst.reify_var_eq_self Subst.acyclic_empty (Subst.lookup_empty _)]
      rfl
    exact (expand_nearest_first immediate (Subst.within_empty _) (by decide)
      (by decide) unbound).1
  · decide +kernel

end Program

end RelationalSearch
