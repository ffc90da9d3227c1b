import RelationalSearch.Proofs.Relation.Recursion

/-!
# Walks of known graphs

A walk of a known graph ends if the calls of the relations end, and its results
are those of the recursion on the graph (`Program.walk_recursion`).  This holds
with both policies, with and without a relation between operators, and for each
protocol; the output may be anything.

The proof is an induction on the graph.  It shows of each graph that a walk of
it reads as the recursion (`Program.WalksAs`), and that mapping the walk over
its elements reads as linking them (`Program.MapsAs`).
-/

namespace RelationalSearch

variable {Base Custom : Type}

namespace Program

variable (program : Program Base Custom) (node : Base)
  (settings : WalkSettings Base)

/-! ## What is shown of each graph -/

/-- Wherever it is called, a walk of the known graph reads as the recursion. -/
def WalksAs (least : Nat) (known : Term) : Prop :=
  ∀ (gaps : Gaps) (start : Located Subst) (input output : Term),
    least ≤ start.place.supply → start.Covers input output →
      start.value.reify input = known →
        (program.walk node settings input output).ReadsAs program.unfold gaps
          (program.visit node settings known output) start fun _ => True

/--
Wherever they are related, the known graph and another sequence read as linked
ones, and the other one comes to end as the known one.
-/
def MapsAs (least : Nat) (known : Term) : Prop :=
  ∀ (gaps : Gaps) (start : Located Subst) (first second : Term) (supply : Nat),
    least ≤ start.place.supply → start.Covers first second →
      supply + 4 ≤ start.place.supply → start.value.reify first = known →
        (∀ accepted,
          ((mapAll (.walk node settings) settings.terminator accepted first
            second).made supply).1.ReadsAs program.unfold gaps
            ((linked known.terminator? accepted
              (program.visits node settings known) first second).made supply).1
            start fun subst =>
              (subst.reify second).terminator? = known.terminator?) ∧
        ∀ nullSucceeds cursor,
          ((mapAny (.walk node settings) settings.terminator nullSucceeds
            cursor first second).made supply).1.ReadsAs program.unfold gaps
            ((linkedAny known.terminator? nullSucceeds cursor
              (program.visits node settings known) first second).made supply).1
            start fun subst =>
              (subst.reify second).terminator? = known.terminator?

variable {program} {node} {settings} {least : Nat} {known : Term}

/-! ## Sequences -/

/-- A walk that is put off reads as the recursion. -/
theorem WalksAs.defer
    (walks : program.WalksAs node settings least known)
    {gaps : Gaps}
    {start : Located Subst}
    {input output : Term}
    (low : least ≤ start.place.supply)
    (covers : start.Covers input output)
    (shown : start.value.reify input = known) :
    (Goal.defer (.relate (.walk node settings) input output)).ReadsAs
      program.unfold gaps (program.visit node settings known output) start
      fun _ => True := by
  have opened := start.place.le_opening gaps
  apply Goal.ReadsAs.enter_defer
  exact walks gaps _ input output (low.trans opened)
    (covers.move (start.place.built (start.place.opening gaps)) opened) shown

/-- The parts of a known cell show on the side that is taken apart. -/
theorem reify_parts
    {cells : Cells}
    {first second head tail : Term}
    {before : Snapshot}
    {middle : Located Subst}
    (parted : Located.Parted cells first second before middle)
    (acyclic : before.value.Acyclic)
    (shown : before.value.reify first = .cons head tail)
    (ground : (Term.cons head tail).isGround = true) :
    middle.value.reify cells.firstHead = head ∧
      middle.value.reify cells.firstTail = tail := by
  have kept : middle.value.reify first = .cons head tail :=
    (parted.grows.reify_eq_of_isGround acyclic (shown ▸ ground)).trans shown
  have same := parted.parts.first_eq
  rw [kept, Subst.reify_cons parted.grows.acyclic] at same
  exact Term.cons.inj same

/-- The other sequence ends as its tail. -/
theorem terminator?_of_part
    {cells : Cells}
    {first second : Term}
    {subst : Subst}
    (part : cells.Part first second subst)
    (acyclic : subst.Acyclic) :
    (subst.reify second).terminator? =
      (subst.reify cells.secondTail).terminator? := by
  rw [← part.second_eq, Subst.reify_cons acyclic, Term.terminator?_cons]

theorem mapsAs_cons
    {head tail : Term}
    (ground : (Term.cons head tail).isGround = true)
    (onHead : program.WalksAs node settings least head)
    (onTail : program.MapsAs node settings least tail) :
    program.MapsAs node settings least (.cons head tail) := by
  intro gaps start first second supply low covers enough shown
  have acyclic := covers.within.acyclic
  have cellsLow := Cells.low_numbered enough
  have cell : (start.value.reify first).isCons = true ∨
      (start.value.reify second).isCons = true := by
    rw [shown]
    exact .inl rfl
  have heads (middle : Located Subst)
      (parted : Located.Parted (.numbered supply) first second start.snapshot
        middle) :
      (Goal.defer (.relate (.walk node settings)
        (Cells.numbered supply).firstHead
        (Cells.numbered supply).secondHead)).ReadsAs program.unfold gaps
        (program.visit node settings head
          (Cells.numbered supply).secondHead) middle fun _ => True :=
    onHead.defer (low.trans parted.later) (parted.heads cellsLow)
      (reify_parts parted acyclic shown ground).1
  have whole (middle : Located Subst)
      (parted : Located.Parted (.numbered supply) first second start.snapshot
        middle)
      (subst : Subst)
      (grows : middle.value.Grows subst)
      (ends : (subst.reify (Cells.numbered supply).secondTail).terminator? =
        tail.terminator?) :
      (subst.reify second).terminator? = tail.terminator? := by
    rw [terminator?_of_part (parted.parts.grows parted.within.acyclic grows)
      grows.acyclic, ends]
  have rest (middle : Located Subst)
      (parted : Located.Parted (.numbered supply) first second start.snapshot
        middle)
      (place : Place)
      (opening : Nat)
      (onwards : middle.place.supply ≤ place.supply)
      (reached : opening + 4 ≤ place.supply) :=
    onTail gaps ⟨place, middle.value⟩ _ _ opening
      (low.trans (parted.later.trans onwards))
      ((parted.tails cellsLow).move place onwards) reached
      (reify_parts parted acyclic shown ground).2
  constructor
  · intro accepted
    rw [Term.terminator?_cons]
    apply readsAs_mapAll_cell covers enough cell heads
    intro middle parted
    refine (readsAs_defer_mapAll fun place opening later reached => ?_).imp
      parted.within.acyclic (whole middle parted)
    exact (rest middle parted place opening (by omega) reached).1 true
  · intro nullSucceeds cursor
    rw [Term.terminator?_cons]
    apply readsAs_mapAny_cell covers enough cell heads
    intro related middle parted
    refine (readsAs_defer_mapAny fun place opening later reached => ?_).imp
      parted.within.acyclic (whole middle parted)
    exact (rest middle parted place opening (by omega) reached).2 nullSucceeds
      (cursor.next related)

theorem mapsAs_nil (kind : SeqKind) :
    program.MapsAs node settings least (.nil kind) := by
  intro gaps start first second supply _ covers enough shown
  have acyclic := covers.within.acyclic
  have ends (subst : Subst)
      (nils : subst.reify first = .nil kind ∧ subst.reify second = .nil kind) :
      (subst.reify second).terminator? = (Term.nil kind).terminator? :=
    congrArg Term.terminator? nils.2
  constructor
  · intro accepted
    exact (readsAs_mapAll_ended covers enough (.inl shown)).imp acyclic
      fun subst _ => ends subst
  · intro nullSucceeds cursor
    exact (readsAs_mapAny_ended covers enough (.inl shown)).imp acyclic
      fun subst _ => ends subst

/-- An atom is no sequence. -/
theorem mapsAs_atom
    (ground : known.isGround = true)
    (notCell : known.isCons = false)
    (notNil : ∀ kind, known ≠ .nil kind) :
    program.MapsAs node settings least known := by
  intro gaps start first second supply _ covers enough shown
  have none : known.terminator? = none ∧
      program.visits node settings known = [] := by
    cases known with
    | cons => cases notCell
    | nil kind => exact (notNil kind rfl).elim
    | _ => exact ⟨rfl, rfl⟩
  rw [none.1, none.2]
  constructor
  · intro accepted
    exact readsAs_mapAll_stuck covers enough ground notCell notNil shown
  · intro nullSucceeds cursor
    exact readsAs_mapAny_stuck covers enough ground notCell notNil shown

/-- The sequences are related as the policy says. -/
theorem MapsAs.readsAs
    (maps : program.MapsAs node settings least known)
    {gaps : Gaps}
    {start : Located Subst}
    {first second : Term}
    {supply : Nat}
    (low : least ≤ start.place.supply)
    (covers : start.Covers first second)
    (enough : supply + 4 ≤ start.place.supply)
    (shown : start.value.reify first = known) :
    ((settings.policy.map (.walk node settings) first second
      settings.mapSettings).made supply).1.ReadsAs program.unfold gaps
      ((settings.policy.linking known.terminator? settings.mapSettings
        (program.visits node settings known) first second).made supply).1 start
      fun subst => (subst.reify second).terminator? = known.terminator? := by
  rcases maps gaps start first second supply low covers enough shown with
    ⟨onAll, onAny⟩
  cases settings.policy with
  | all => exact onAll _
  | any => exact onAny _ _

/-! ## Operators and operands -/

end Program

/-- The variables are of a session. -/
structure Operation.Low (operation : Operation) (supply : Nat) : Prop where
  operatorIn : operation.operatorIn.id < supply
  operandsIn : operation.operandsIn.id < supply
  operatorOut : operation.operatorOut.id < supply
  operandsOut : operation.operandsOut.id < supply

theorem Operation.low_numbered
    {supply later : Nat}
    (enough : supply + 4 ≤ later) :
    (numbered supply).Low later := by
  constructor
  all_goals
    simp only [numbered]
    omega

theorem Operation.operatorIn_ne_operandsIn (supply : Nat) :
    (numbered supply).operatorIn ≠ (numbered supply).operandsIn := by
  simp [numbered]

/-- The state once the parts of the known graph have been bound. -/
structure Operation.Bound
    (operation : Operation)
    (operands shown : Term)
    (subst : Subst) : Prop where
  operands_eq : subst.reify (.var operation.operandsIn) = operands
  operatorOut : subst.lookup operation.operatorOut = none
  operandsOut : subst.lookup operation.operandsOut = none
  shown_eq : subst.reify shown = shown

theorem Operation.bound_of_eq
    {subst later : Subst}
    {operator operands output : Term}
    {opening : Nat}
    (within : subst.Within opening)
    (outputLow : output.ceiling ≤ opening)
    (ground : operands.isGround = true)
    (acyclic : later.Acyclic)
    (same :
      later = (subst.bind (Operation.numbered opening).operatorIn operator).bind
        (Operation.numbered opening).operandsIn operands) :
    (Operation.numbered opening).Bound operands (subst.reify output) later := by
  have apart (x : Var) (other : x.id < opening ∨ opening + 1 < x.id) :
      later.lookup x = subst.lookup x := by
    rw [same, Subst.lookup_bind_of_ne, Subst.lookup_bind_of_ne]
    all_goals
      rintro rfl
      simp only [numbered] at other
      omega
  have fresh (x : Var) (above : opening ≤ x.id) : subst.lookup x = none :=
    within.lookup_eq_none above
  constructor
  · apply Subst.reify_eq_of_ends acyclic _ ground
    apply Subst.ends_of_lookup_eq_some _ ground
    rw [same]
    exact Subst.lookup_bind_self _ _ _
  · exact (apart ⟨opening + 2⟩ (.inr (Nat.lt_succ_self (opening + 1)))).trans
      (fresh _ (Nat.le_add_right opening 2))
  · exact (apart ⟨opening + 3⟩ (.inr (Nat.add_lt_add_left (by decide) _))).trans
      (fresh _ (Nat.le_add_right opening 3))
  · apply within.reify_reify outputLow acyclic
    intro x below unbound
    rw [apart x (.inl below), unbound]

namespace Program

variable {program : Program Base Custom} {node operatorRelation : Base}
  {settings : WalkSettings Base} {least : Nat} {known : Term}

theorem made_walkBelow_operator
    (related : settings.operatorRelation = some operatorRelation)
    (graphIn graphOut : Term)
    (supply : Nat) :
    (program.walkBelow node settings graphIn graphOut).made supply =
      let operation := Operation.numbered supply
      let operators :=
        (program.relation operatorRelation (.var operation.operatorIn)
          (.var operation.operatorOut)).made (supply + 4)
      let elements :=
        (settings.policy.map (.walk node settings) (.var operation.operandsIn)
          (.var operation.operandsOut) settings.mapSettings).made operators.2
      (.both
        (.both
          (.both
            (.application settings.decomposer (.var operation.operatorIn)
              (.var operation.operandsIn) graphIn)
            (.application settings.decomposer (.var operation.operatorOut)
              (.var operation.operandsOut) graphOut))
          operators.1)
        elements.1, elements.2) := by
  rw [walkBelow, related]
  simp only [Recipe.bind_eq_andThen, Recipe.made_andThen]
  rfl

theorem made_visitBelow_operator
    (related : settings.operatorRelation = some operatorRelation)
    {operator operands : Term}
    (accepted :
      settings.decomposer.protocol.split known = .ok (operator, operands))
    (links : List (Link Base Custom))
    (output : Term)
    (supply : Nat) :
    (program.visitBelow settings links known output).made supply =
      let operation := Operation.numbered supply
      let operators :=
        (program.relation operatorRelation (.var operation.operatorIn)
          (.var operation.operatorOut)).made (supply + 4)
      let elements :=
        (settings.policy.linking operands.terminator? settings.mapSettings
          links.tail (.var operation.operandsIn)
          (.var operation.operandsOut)).made operators.2
      (.both
        (.both
          (.both
            (.all [.eq (.var operation.operatorIn) operator,
              .eq (.var operation.operandsIn) operands])
            (.eq operation.cell output))
          operators.1)
        elements.1, elements.2) := by
  simp only [visitBelow, related, accepted, Recipe.bind_eq_andThen,
    Recipe.made_andThen]
  rfl

theorem made_map
    (policy : MapPolicy)
    (relation : Relation Base)
    (first second : Term)
    (mapSettings : MapSettings)
    (supply : Nat) :
    ((policy.map relation first second mapSettings :
      Recipe (CodedGoal Base Custom)).made supply).2 = supply + 4 := by
  cases policy with
  | all => rfl
  | any => rfl

theorem made_linking_le
    (policy : MapPolicy)
    (kind : Option SeqKind)
    (mapSettings : MapSettings)
    (links : List (Link Base Custom))
    (first second : Term)
    (supply : Nat) :
    ((policy.linking kind mapSettings links first second).made supply).2 ≤
      supply + 4 := by
  cases policy with
  | all =>
    cases links with
    | nil => exact Nat.le_add_right supply 4
    | cons => exact Nat.le_refl _
  | any =>
    cases links with
    | nil => exact Nat.le_add_right supply 4
    | cons => exact Nat.le_refl _

section Level

variable {gaps : Gaps} {start : Located Subst} {operator operands output : Term}
  {opening : Nat}

/--
Behind the parts of both graphs, the operators are related and the elements
linked.
-/
theorem readsAs_both_elements
    {front frontReference : CodedGoal Base Custom}
    (ends : program.Ends least (.base operatorRelation))
    (maps : program.MapsAs node settings least operands)
    (ground : operands.isGround = true)
    (low : least ≤ opening)
    (acyclic : start.value.Acyclic)
    (reached :
      ((program.relation operatorRelation
        (.var (Operation.numbered opening).operatorIn)
        (.var (Operation.numbered opening).operatorOut)).made
          (opening + 4)).2 + 4 ≤ start.place.supply)
    (onFront :
      front.ReadsAs program.unfold gaps frontReference start fun subst =>
        subst.reify (.var (Operation.numbered opening).operandsIn) = operands ∧
          subst.reify (Operation.numbered opening).cell =
            subst.reify output) :
    let operation := Operation.numbered opening
    let operators :=
      (program.relation operatorRelation (.var operation.operatorIn)
        (.var operation.operatorOut)).made (opening + 4)
    (Goal.both (.both front operators.1)
      ((settings.policy.map (.walk node settings) (.var operation.operandsIn)
        (.var operation.operandsOut) settings.mapSettings).made
          operators.2).1).ReadsAs program.unfold gaps
      (.both (.both frontReference operators.1)
        ((settings.policy.linking operands.terminator? settings.mapSettings
          (program.visits node settings operands) (.var operation.operandsIn)
          (.var operation.operandsOut)).made operators.2).1) start
      fun subst =>
        subst.reify operation.cell = subst.reify output ∧
          (subst.reify (.var operation.operandsOut)).terminator? =
            operands.terminator? := by
  intro operation operators
  change operators.2 + 4 ≤ start.place.supply at reached
  have called : opening + 4 ≤ operators.2 := Recipe.le_made _ _
  have onOperators :
      (Goal.both front operators.1).ReadsAs program.unfold gaps
        (.both frontReference operators.1) start fun subst =>
          subst.reify (.var operation.operandsIn) = operands ∧
            subst.reify operation.cell = subst.reify output := by
    apply Goal.ReadsAs.both acyclic onFront
    rintro middle _ later within ⟨shown, same⟩
    have enough : operators.2 ≤ middle.place.supply := by omega
    have calls : operators.1.ReadsAs program.unfold gaps operators.1 middle
        fun _ => True :=
      ends.readsAs (by omega) (show opening + 1 ≤ opening + 4 by omega)
        (show opening + 3 ≤ opening + 4 by omega) enough within
    apply calls.imp within.acyclic
    intro subst grows _
    constructor
    · rw [grows.reify_eq_of_isGround within.acyclic (shown ▸ ground), shown]
    · exact grows.reify_congr within.acyclic same
  apply Goal.ReadsAs.both acyclic onOperators
  rintro middle _ later within ⟨shown, same⟩
  have covers : middle.Covers (.var operation.operandsIn)
      (.var operation.operandsOut) :=
    ⟨within, show opening + 2 ≤ _ by omega, show opening + 4 ≤ _ by omega⟩
  apply (maps.readsAs (by omega) covers (reached.trans later) shown).imp
    within.acyclic
  intro subst grows ends
  exact ⟨grows.reify_congr within.acyclic same, ends⟩

/-- A level of a walk that has been built, with the parts of a known graph. -/
structure LevelAt
    (start : Located Subst)
    (opening : Nat)
    (known operator operands output : Term) : Prop where
  within : start.value.Within opening
  enough : opening + 4 ≤ start.place.supply
  outputLow : output.ceiling ≤ opening
  ground : known.isGround = true
  cell : known = .cons operator operands

namespace LevelAt

variable (level : LevelAt start opening known operator operands output)

include level

theorem later : opening ≤ start.place.supply :=
  (Nat.le_add_right opening 4).trans level.enough

theorem groundParts : operator.isGround = true ∧ operands.isGround = true := by
  have ground := level.ground
  rwa [level.cell, Term.isGround_cons, Bool.and_eq_true] at ground

theorem low : (Operation.numbered opening).Low start.place.supply :=
  Operation.low_numbered level.enough

theorem unbound (x : Var) (new : opening ≤ x.id) :
    start.value.lookup x = none :=
  level.within.lookup_eq_none new

theorem outputReifiedLow :
    (start.value.reify output).ceiling ≤ start.place.supply :=
  (level.within.ceiling_reify_le level.outputLow).trans level.later

theorem cellLow :
    (Operation.numbered opening).cell.ceiling ≤ start.place.supply :=
  Nat.max_le.mpr ⟨level.low.operatorOut, level.low.operandsOut⟩

/-- The parts of the known graph, before anything is asked of the output. -/
theorem readsAs_front
    {front reference whole wholeReference : CodedGoal Base Custom}
    {known : Subst → Prop}
    (onFront :
      front.ReadsAs program.unfold gaps reference start fun subst =>
        subst =
          (start.value.bind (Operation.numbered opening).operatorIn
            operator).bind (Operation.numbered opening).operandsIn operands)
    (onWhole :
      ∀ middle : Located Subst,
        middle.value.Within middle.place.supply →
          start.place.supply ≤ middle.place.supply →
            (Operation.numbered opening).Bound operands
                (start.value.reify output) middle.value →
              whole.ReadsAs program.unfold gaps wholeReference middle known) :
    (Goal.both front whole).ReadsAs program.unfold gaps
      (.both reference wholeReference) start fun subst =>
        subst.reify (.var (Operation.numbered opening).operandsIn) = operands ∧
          known subst := by
  apply Goal.ReadsAs.both level.within.acyclic onFront
  intro middle _ later within same
  have bound := Operation.bound_of_eq level.within level.outputLow
    level.groundParts.2 within.acyclic same
  apply (onWhole middle within later bound).imp within.acyclic
  intro subst grows known
  refine ⟨?_, known⟩
  rw [grows.reify_eq_of_isGround within.acyclic, bound.operands_eq]
  rw [bound.operands_eq]
  exact level.groundParts.2

/-- The parts, as the recursion asks for them. -/
theorem readsAs_cells :
    let operation := Operation.numbered opening
    let front : CodedGoal Base Custom :=
      .both
        (.all [.eq (.var operation.operatorIn) operator,
          .eq (.var operation.operandsIn) operands])
        (.eq operation.cell (start.value.reify output))
    front.ReadsAs program.unfold gaps front start fun subst =>
      subst.reify (.var operation.operandsIn) = operands ∧
        subst.reify operation.cell =
          subst.reify (start.value.reify output) := by
  intro operation front
  apply level.readsAs_front
  · exact readsAs_bind_bind (level.within.mono level.later)
      level.low.operatorIn level.low.operandsIn
      (level.unbound _ (Nat.le_refl _)) (level.unbound _ (Nat.le_succ _))
      (Operation.operatorIn_ne_operandsIn opening) level.groundParts.1
      level.groundParts.2
  · intro middle within later _
    exact .eq within (level.cellLow.trans later)
      (level.outputReifiedLow.trans later)

/-- The parts of the known graph, as an application. -/
theorem readsAs_application
    {decomposer : Decomposer}
    (split : decomposer.protocol.split known = .ok (operator, operands)) :
    let operation := Operation.numbered opening
    (Goal.application decomposer (.var operation.operatorIn)
      (.var operation.operandsIn) known).ReadsAs program.unfold gaps
      (.all [.eq (.var operation.operatorIn) operator,
        .eq (.var operation.operandsIn) operands]) start fun subst =>
        subst = (start.value.bind operation.operatorIn operator).bind
          operation.operandsIn operands :=
  readsAs_application_parts (level.within.mono level.later)
    level.low.operatorIn level.low.operandsIn
    (level.unbound _ (Nat.le_refl _)) (level.unbound _ (Nat.le_succ _))
    (Operation.operatorIn_ne_operandsIn opening)
    (Subst.reify_eq_of_isGround level.within.acyclic level.ground)
    level.ground split

/-- The parts, as applications that are not refused. -/
theorem readsAs_applications
    {decomposer : Decomposer}
    (split : decomposer.protocol.split known = .ok (operator, operands))
    (accepted :
      (start.value.reify output).isVar = true ∨
        ∃ parts,
          decomposer.protocol.split (start.value.reify output) = .ok parts) :
    let operation := Operation.numbered opening
    (Goal.both
      (.application decomposer (.var operation.operatorIn)
        (.var operation.operandsIn) known)
      (.application decomposer (.var operation.operatorOut)
        (.var operation.operandsOut) (start.value.reify output))).ReadsAs
      program.unfold gaps
      (.both
        (.all [.eq (.var operation.operatorIn) operator,
          .eq (.var operation.operandsIn) operands])
        (.eq operation.cell (start.value.reify output))) start fun subst =>
        subst.reify (.var operation.operandsIn) = operands ∧
          subst.reify operation.cell =
            subst.reify (start.value.reify output) := by
  intro operation
  apply level.readsAs_front (level.readsAs_application split)
  intro middle within later bound
  exact readsAs_application_whole within
    (level.low.operatorOut.trans_le later)
    (level.low.operandsOut.trans_le later)
    (level.outputReifiedLow.trans later) bound.operatorOut bound.operandsOut
    bound.shown_eq accepted

/-- Where the output is refused, there are no results. -/
theorem listing_applications_nil
    {decomposer : Decomposer}
    {error : Protocol.Error}
    (split : decomposer.protocol.split known = .ok (operator, operands))
    (bound : (start.value.reify output).isVar = false)
    (refused :
      decomposer.protocol.split (start.value.reify output) = .error error) :
    let operation := Operation.numbered opening
    Listing program.unfold gaps
      (.both
        (.application decomposer (.var operation.operatorIn)
          (.var operation.operandsIn) known)
        (.application decomposer (.var operation.operatorOut)
          (.var operation.operandsOut) (start.value.reify output))) start
      [] := by
  intro operation
  have reads :
      (Goal.both
        (.application decomposer (.var operation.operatorIn)
          (.var operation.operandsIn) known)
        (.application decomposer (.var operation.operatorOut)
          (.var operation.operandsOut) (start.value.reify output))).ReadsAs
        program.unfold gaps
        (.both
          (.all [.eq (.var operation.operatorIn) operator,
            .eq (.var operation.operandsIn) operands])
          .fail) start fun subst =>
          subst.reify (.var operation.operandsIn) = operands ∧ False := by
    apply level.readsAs_front (level.readsAs_application split)
    intro middle within _ middleBound
    exact .none (listing_application_nil within.acyclic
      middleBound.operatorOut middleBound.operandsOut middleBound.shown_eq
      bound refused) .fail
  exact (reads.eq_nil level.within.acyclic fun _ _ known => known.2).1

end LevelAt

/-- With a relation between operators, a level reads as one of the recursion. -/
theorem readsAs_walkBelow_operator
    (related : settings.operatorRelation = some operatorRelation)
    (ends : program.Ends least (.base operatorRelation))
    (maps :
      ∀ operator operands, known = .cons operator operands →
        program.MapsAs node settings least operands)
    (ground : known.isGround = true)
    (low : least ≤ opening)
    (within : start.value.Within opening)
    (outputLow : output.ceiling ≤ opening)
    (reached :
      ((program.walkBelow node settings known
        (start.value.reify output)).made opening).2 ≤ start.place.supply) :
    ((program.walkBelow node settings known
      (start.value.reify output)).made opening).1.ReadsAs program.unfold gaps
      ((program.visitBelow settings (program.visits node settings known) known
        (start.value.reify output)).made opening).1 start fun _ => True := by
  have acyclic := within.acyclic
  have called := Recipe.le_made (program.relation operatorRelation
    (.var (Operation.numbered opening).operatorIn)
    (.var (Operation.numbered opening).operatorOut)) (opening + 4)
  rw [made_walkBelow_operator related] at reached ⊢
  simp only [made_map] at reached
  cases split : settings.decomposer.protocol.split known with
  | error error =>
    have refused : Listing program.unfold gaps
        (.application settings.decomposer
          (.var (Operation.numbered opening).operatorIn)
          (.var (Operation.numbered opening).operandsIn) known) start [] :=
      listing_application_nil acyclic
        (within.lookup_eq_none (Nat.le_refl opening))
        (within.lookup_eq_none (Nat.le_succ opening))
        (Subst.reify_eq_of_isGround acyclic ground)
        (Term.isVar_eq_false_of_isGround ground) split
    have fails : (program.visitBelow settings
        (program.visits node settings known) known
        (start.value.reify output)).made opening = (.fail, opening) := by
      simp only [visitBelow, related, split]
      rfl
    rw [fails]
    exact .none (.both_nil (.both_nil (.both_nil refused _) _) _) .fail
  | ok parts =>
    rcases parts with ⟨operator, operands⟩
    have cell := Protocol.eq_cons_of_split split
    have level : LevelAt start opening known operator operands output :=
      ⟨within, by omega, outputLow, ground, cell⟩
    have tail : (program.visits node settings known).tail =
        program.visits node settings operands := by
      rw [cell]
      rfl
    rw [made_visitBelow_operator related split, tail]
    by_cases accepted : (start.value.reify output).isVar = true ∨
        ∃ parts, settings.decomposer.protocol.split
          (start.value.reify output) = .ok parts
    · exact (readsAs_both_elements ends (maps operator operands cell)
        level.groundParts.2 low acyclic reached
        (level.readsAs_applications split accepted)).imp acyclic
          fun _ _ _ => trivial
    · rw [not_or, Bool.not_eq_true, not_exists] at accepted
      rcases accepted with ⟨bound, notAccepted⟩
      cases refused : settings.decomposer.protocol.split
          (start.value.reify output) with
      | ok parts => exact (notAccepted parts refused).elim
      | error error =>
        have plain := readsAs_both_elements ends (maps operator operands cell)
          level.groundParts.2 low acyclic reached
          (level.readsAs_cells : Goal.ReadsAs program.unfold gaps _ _ start _)
        have listing : Listing program.unfold gaps _ start [] :=
          level.listing_applications_nil split bound refused
        apply Goal.ReadsAs.none (.both_nil (.both_nil listing _) _)
        refine (plain.eq_nil acyclic ?_).2
        rintro subst grows ⟨same, ends⟩
        exact Protocol.not_reify_eq_of_split split ground refused bound
          grows.acyclic ends same

/-! ## Walks -/

/-- The level below mints as few variables as that of the walk. -/
theorem made_visitBelow_le
    (program : Program Base Custom)
    (node : Base)
    (settings : WalkSettings Base)
    (links : List (Link Base Custom))
    (known output : Term)
    (supply : Nat) :
    ((program.visitBelow settings links known output).made supply).2 ≤
      ((program.walkBelow node settings known output).made supply).2 := by
  cases related : settings.operatorRelation with
  | none =>
    simp only [visitBelow, walkBelow, related]
    rw [made_map]
    exact made_linking_le _ _ _ _ _ _ _
  | some operatorRelation =>
    cases split : settings.decomposer.protocol.split known with
    | error error =>
      simp only [visitBelow, related, split]
      exact Recipe.le_made _ supply
    | ok parts =>
      rw [made_visitBelow_operator related split,
        made_walkBelow_operator related]
      simp only [made_map]
      exact made_linking_le _ _ _ _ _ _ _

/-- The goals of one level of a walk. -/
theorem made_level
    (program : Program Base Custom)
    (node : Base)
    (settings : WalkSettings Base)
    (graphIn graphOut : Term)
    (supply : Nat) :
    (show Recipe (CodedGoal Base Custom) from do
      let below ← program.walkBelow node settings graphIn graphOut
      let here ← program.relation node graphIn graphOut
      pure (.any [[here], [below]])).made supply =
      let below := (program.walkBelow node settings graphIn graphOut).made
        supply
      let here := (program.relation node graphIn graphOut).made below.2
      (.any [[here.1], [below.1]], here.2) := by
  simp only [Recipe.bind_eq_andThen, Recipe.made_andThen]
  rfl

/--
Both branches of a level may be built where they are begun, with the numbers
that they have.
-/
theorem readsAs_level
    {built : Nat}
    {first second : CodedGoal Base Custom}
    {onNode below : Recipe (CodedGoal Base Custom)}
    {nodeOpening belowOpening : Nat}
    (nodeLater : start.place.supply ≤ nodeOpening)
    (nodeLow : (onNode.made nodeOpening).2 ≤ built)
    (belowLater : start.place.supply ≤ belowOpening)
    (belowLow : (below.made belowOpening).2 ≤ built)
    (onFirst :
      first.ReadsAs program.unfold gaps (onNode.made nodeOpening).1
        ⟨(start.place.built built).left, start.value⟩ fun _ => True)
    (onSecond :
      second.ReadsAs program.unfold gaps (below.made belowOpening).1
        ⟨(start.place.built built).right.left, start.value⟩ fun _ => True) :
    ∃ found,
      Listing program.unfold gaps (.any [[first], [second]])
          ⟨start.place.built built, start.value⟩ found ∧
        Reading program.unfold
          (.any [[.dynamic fun _ => onNode], [.dynamic fun _ => below]])
          start.snapshot (found.map Located.snapshot) ∧
        ∀ result ∈ found,
          result.value.Within result.place.supply ∧ True := by
  rcases onFirst with ⟨firsts, firstListing, firstReading, firstAll⟩
  rcases onSecond with ⟨seconds, secondListing, secondReading, secondAll⟩
  refine ⟨firsts ++ (seconds ++ []),
    .either firstListing (.either secondListing .fail), ?_, ?_⟩
  · rw [List.map_append, List.map_append]
    exact .either (.dynamic nodeLater (firstReading.lower nodeLow))
      (.either (.dynamic belowLater (secondReading.lower belowLow)) .fail)
  · simp only [List.append_nil, List.forall_mem_append]
    exact ⟨firstAll, secondAll⟩

/-- A walk reads as the recursion if the sequences do. -/
theorem walksAs_of_below
    (ends : program.Ends least (.base node))
    (ground : known.isGround = true)
    (onBelow :
      ∀ (gaps : Gaps) (start : Located Subst) (output : Term) (opening : Nat),
        least ≤ opening → start.value.Within opening →
          output.ceiling ≤ opening →
            ((program.walkBelow node settings known
              (start.value.reify output)).made opening).2 ≤
                start.place.supply →
              ((program.walkBelow node settings known
                (start.value.reify output)).made opening).1.ReadsAs
                program.unfold gaps
                ((program.visitBelow settings
                  (program.visits node settings known) known
                  (start.value.reify output)).made opening).1 start
                fun _ => True) :
    program.WalksAs node settings least known := by
  intro gaps start input output low covers shown
  let opening := start.place.opening gaps
  let shownOut := start.value.reify output
  let below := (program.walkBelow node settings known shownOut).made opening
  let here := (program.relation node known shownOut).made below.2
  have opened : start.place.supply ≤ opening := Nat.le_add_right _ _
  have belowLater : opening ≤ below.2 := Recipe.le_made _ _
  have hereLater : below.2 ≤ here.2 := Recipe.le_made _ _
  have within := covers.within.mono opened
  have outLow : shownOut.ceiling ≤ below.2 :=
    (within.ceiling_reify_le (covers.secondLow.trans opened)).trans belowLater
  have knownLow : known.ceiling ≤ below.2 := by
    rw [Term.ceiling_eq_zero_of_isGround ground]
    exact Nat.zero_le _
  have onHere : here.1.ReadsAs program.unfold gaps here.1
      ⟨(start.place.built here.2).left, start.value⟩ fun _ => True :=
    ends.readsAs (low.trans (opened.trans belowLater)) knownLow outLow
      (Nat.le_refl _) (within.mono (belowLater.trans hereLater))
  have onElements := onBelow gaps
    ⟨(start.place.built here.2).right.left, start.value⟩ output opening
    (low.trans opened) within (covers.secondLow.trans opened) hereLater
  have visited := made_visitBelow_le program node settings
    (program.visits node settings known) known shownOut opening
  rcases readsAs_level (opened.trans belowLater) (Nat.le_refl _) opened
      (visited.trans hereLater) onHere onElements with
    ⟨found, listing, reading, all⟩
  refine ⟨found, .dynamic ?_, .dynamic (Nat.le_refl _) reading, all⟩
  simp only [shown]
  rw [Recipe.goalAt, Located.enter, made_level]
  exact listing

end Level

/-- Without a relation between operators, a level goes through all elements. -/
theorem MapsAs.readsAs_walkBelow
    (maps : program.MapsAs node settings least known)
    (unrelated : settings.operatorRelation = none)
    (ground : known.isGround = true)
    {gaps : Gaps}
    {start : Located Subst}
    {output : Term}
    {opening : Nat}
    (low : least ≤ opening)
    (within : start.value.Within opening)
    (outputLow : output.ceiling ≤ opening)
    (reached :
      ((program.walkBelow node settings known
        (start.value.reify output)).made opening).2 ≤ start.place.supply) :
    ((program.walkBelow node settings known
      (start.value.reify output)).made opening).1.ReadsAs program.unfold gaps
      ((program.visitBelow settings (program.visits node settings known) known
        (start.value.reify output)).made opening).1 start fun _ => True := by
  simp only [walkBelow, visitBelow, unrelated] at reached ⊢
  rw [made_map] at reached
  have later : opening ≤ start.place.supply :=
    (Nat.le_add_right opening 4).trans reached
  have covers : start.Covers known (start.value.reify output) := by
    constructor
    · exact within.mono later
    · rw [Term.ceiling_eq_zero_of_isGround ground]
      exact Nat.zero_le _
    · exact (within.ceiling_reify_le outputLow).trans later
  exact (maps.readsAs (low.trans later) covers reached
    (Subst.reify_eq_of_isGround within.acyclic ground)).imp within.acyclic
      fun _ _ _ => trivial

/-- Each known graph is walked as the recursion goes. -/
theorem walksAs_and_mapsAs
    (nodeEnds : program.Ends least (.base node))
    (operatorEnds :
      ∀ operatorRelation, settings.operatorRelation = some operatorRelation →
        program.Ends least (.base operatorRelation))
    (ground : known.isGround = true) :
    program.WalksAs node settings least known ∧
      program.MapsAs node settings least known := by
  have walks {known : Term} (ground : known.isGround = true)
      (maps : program.MapsAs node settings least known)
      (onOperands : ∀ operator operands, known = .cons operator operands →
        program.MapsAs node settings least operands) :
      program.WalksAs node settings least known := by
    apply walksAs_of_below nodeEnds ground
    intro gaps start output opening low within outputLow reached
    cases related : settings.operatorRelation with
    | none =>
      exact maps.readsAs_walkBelow related ground low within outputLow reached
    | some operatorRelation =>
      exact readsAs_walkBelow_operator related
        (operatorEnds operatorRelation related) onOperands ground low within
        outputLow reached
  induction known with
  | var x => simp at ground
  | cons head tail headIH tailIH =>
    have parts := ground
    rw [Term.isGround_cons, Bool.and_eq_true] at parts
    have maps := mapsAs_cons ground (headIH parts.1).1 (tailIH parts.2).2
    refine ⟨walks ground maps ?_, maps⟩
    rintro operator operands same
    rw [← (Term.cons.inj same).2]
    exact (tailIH parts.2).2
  | nil kind =>
    have maps : program.MapsAs node settings least (.nil kind) :=
      mapsAs_nil kind
    exact ⟨walks ground maps nofun, maps⟩
  | int value =>
    have maps : program.MapsAs node settings least (.int value) :=
      mapsAs_atom ground rfl nofun
    exact ⟨walks ground maps nofun, maps⟩
  | sym name =>
    have maps : program.MapsAs node settings least (.sym name) :=
      mapsAs_atom ground rfl nofun
    exact ⟨walks ground maps nofun, maps⟩

/-! ## Main result -/

/--
The walk of a graph that is known ends, if all calls of the node relation and
of the relation between operators do.  Its results are those of the recursion,
which is generic if both relations treat all variables alike that are minted
later.
-/
theorem walk_recursion
    {graph graphIn graphOut : Term}
    {subst : Subst}
    {session : Session}
    (nodeEnds : program.Ends session.supply (.base node))
    (operatorEnds :
      ∀ operatorRelation, settings.operatorRelation = some operatorRelation →
        program.Ends session.supply (.base operatorRelation))
    (within : subst.Within session.supply)
    (inLow : graphIn.ceiling ≤ session.supply)
    (outLow : graphOut.ceiling ≤ session.supply)
    (shown : subst.reify graphIn = graph)
    (ground : graph.isGround = true) :
    ∃ results,
      (program.walk node settings graphIn graphOut).DrainsAs program.unfold
          (program.visit node settings graph graphOut) subst session results ∧
        ∀ codes, GenericCodes program.unfold codes →
          UniformWalk codes node settings session.supply →
            Generic program.unfold (program.visit node settings graph graphOut)
              subst session.supply := by
  rcases Gaps.exists_fit program.unfold
      (program.walk node settings graphIn graphOut) subst session with
    ⟨gaps, fit⟩
  have reads := (walksAs_and_mapsAs nodeEnds operatorEnds ground).1 gaps
    (.root subst session) graphIn graphOut (Nat.le_refl _)
    ⟨within, inLow, outLow⟩ shown
  rcases reads.exists_drains fit with ⟨results, drains, _⟩
  refine ⟨results, drains, ?_⟩
  intro codes generic uniform
  exact generic_visit generic uniform ground outLow (Nat.le_refl _) within

/-- The operands of an expression are walked, its operator is related. -/
theorem walk_recursion_expr :
    let program : Program Unit Empty := table fun _ => [.int 1, .int 2]
    let settings : WalkSettings Unit :=
      ⟨some (), .expr, .all, false, .quiet .expr⟩
    let graph : Term := .expr (.sym "f") [.int 7]
    ∃ results,
      (program.walk () settings graph (.var ⟨0⟩)).DrainsAs program.unfold
        (program.visit () settings graph (.var ⟨0⟩)) ∅ ⟨#["q"], #[]⟩
        results := by
  intro program settings graph
  have ground : ∀ value ∈ [Term.int 1, .int 2], value.isGround = true := by
    decide
  have ends : program.Ends 1 (.base ()) :=
    (ends_table fun _ => ground).mono (Nat.zero_le 1)
  have shown : (∅ : Subst).reify graph = graph :=
    Subst.reify_eq_of_isGround Subst.acyclic_empty rfl
  have operatorEnds : ∀ operatorRelation,
      settings.operatorRelation = some operatorRelation →
        program.Ends 1 (.base operatorRelation) :=
    fun _ _ => ends
  have inLow : graph.ceiling ≤ 1 := by decide
  have outLow : (Term.var ⟨0⟩).ceiling ≤ Session.supply ⟨#["q"], #[]⟩ := by
    decide
  rcases walk_recursion ends operatorEnds (Subst.within_empty _) inLow outLow
      shown rfl with ⟨results, drains, _⟩
  exact ⟨results, drains⟩

end Program

end RelationalSearch
