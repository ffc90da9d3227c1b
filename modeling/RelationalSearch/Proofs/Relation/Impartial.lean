import RelationalSearch.Proofs.Relation.Application
import RelationalSearch.Proofs.Search.Tied
import RelationalSearch.Relation.Reach

/-!
# Impartial programs

The relations of the library do not look at the numbers of variables.  Of tied
terms they make tied goals, all the way down, if the caller's relations do
(`Program.Impartial`).  So the codes of an impartial program are tied if they
have tied terms and corresponding names in them (`Program.Impartial.tiedCodes`).
-/

namespace RelationalSearch

variable {Base Custom : Type}

/-! ## Names and codes -/

/-- The names of the caller that correspond to each other under ties. -/
structure Naming (Base Custom : Type) where
  bases : Ties → Base → Base → Prop
  customs : Ties → Custom → Custom → Prop

/-- Settings with corresponding names in them. -/
structure WalkSettings.Tied
    (bases : Ties → Base → Base → Prop)
    (ties : Ties)
    (settings other : WalkSettings Base) : Prop where
  operators :
    Option.Rel (bases ties) settings.operatorRelation other.operatorRelation
  terminator : settings.terminator = other.terminator
  policy : settings.policy = other.policy
  nullSucceeds :
    settings.nullSucceedsAtFirstCall = other.nullSucceedsAtFirstCall
  decomposer : settings.decomposer = other.decomposer

/-- Relations with corresponding names in them. -/
inductive Relation.Tied (bases : Ties → Base → Base → Prop) (ties : Ties) :
    Relation Base → Relation Base → Prop where
  | always : Tied bases ties .always .always
  | base {name other : Base} (names : bases ties name other) :
      Tied bases ties (.base name) (.base other)
  | walk
      {node other : Base} {settings otherSettings : WalkSettings Base}
      (nodes : bases ties node other)
      (same : settings.Tied bases ties otherSettings) :
      Tied bases ties (.walk node settings) (.walk other otherSettings)

/-- Codes with corresponding names and tied terms in them. -/
inductive Code.Tied (naming : Naming Base Custom) (ties : Ties) :
    Code Base Custom → Code Base Custom → Prop where
  | custom {name other : Custom} (names : naming.customs ties name other) :
      Tied naming ties (.custom name) (.custom other)
  | relate
      {relation other : Relation Base}
      {first second otherFirst otherSecond : Term}
      (relations : relation.Tied naming.bases ties other)
      (firsts : Term.Alike ties.all first otherFirst)
      (seconds : Term.Alike ties.all second otherSecond) :
      Tied naming ties (.relate relation first second)
        (.relate other otherFirst otherSecond)
  | mapAll
      {relation other : Relation Base} {terminator : SeqKind}
      {first second otherFirst otherSecond : Term}
      (relations : relation.Tied naming.bases ties other)
      (firsts : Term.Alike ties.all first otherFirst)
      (seconds : Term.Alike ties.all second otherSecond) :
      Tied naming ties (.mapAll relation terminator first second)
        (.mapAll other terminator otherFirst otherSecond)
  | mapAny
      {relation other : Relation Base} {terminator : SeqKind}
      {nullSucceeds : Bool} {cursor : MapCursor}
      {first second otherFirst otherSecond : Term}
      (relations : relation.Tied naming.bases ties other)
      (firsts : Term.Alike ties.all first otherFirst)
      (seconds : Term.Alike ties.all second otherSecond) :
      Tied naming ties
        (.mapAny relation terminator nullSucceeds cursor first second)
        (.mapAny other terminator nullSucceeds cursor otherFirst otherSecond)
  | reach
      {relation other : Relation Base}
      {start finish otherStart otherFinish : Term}
      (relations : relation.Tied naming.bases ties other)
      (starts : Term.Alike ties.all start otherStart)
      (finishes : Term.Alike ties.all finish otherFinish) :
      Tied naming ties (.reach relation start finish)
        (.reach other otherStart otherFinish)

/-- Goals of a program that differ in tied variables and in names only. -/
abbrev CodedGoal.Tied (naming : Naming Base Custom) :
    Ties → CodedGoal Base Custom → CodedGoal Base Custom → Prop :=
  Goal.Tied (Code.Tied naming)

/--
The caller's relations and goals do not look at the numbers of variables: what
corresponding names stand for differs in tied variables only.
-/
structure Program.Impartial
    (program : Program Base Custom)
    (naming : Naming Base Custom) : Prop where
  basesMono :
    ∀ {ties larger : Ties} {name other : Base},
      ties.Extends larger → naming.bases ties name other →
        naming.bases larger name other
  customsMono :
    ∀ {ties larger : Ties} {name other : Custom},
      ties.Extends larger → naming.customs ties name other →
        naming.customs larger name other
  relations :
    ∀ {ties : Ties} {name other : Base}
        {first second otherFirst otherSecond : Term},
      naming.bases ties name other →
        Term.Alike ties.all first otherFirst →
        Term.Alike ties.all second otherSecond →
          Recipe.Tied (CodedGoal.Tied naming) ties
            (program.relation name first second)
            (program.relation other otherFirst otherSecond)
  customs :
    ∀ {ties : Ties} {name other : Custom},
      naming.customs ties name other →
        Recipe.Tied (CodedGoal.Tied naming) ties (program.custom name)
          (program.custom other)

/-! ## Names that stay -/

section Mono

variable {naming : Naming Base Custom} {ties larger : Ties}
  (basesMono :
    ∀ {ties larger : Ties} {name other : Base},
      ties.Extends larger → naming.bases ties name other →
        naming.bases larger name other)

include basesMono

theorem WalkSettings.Tied.mono
    {settings other : WalkSettings Base}
    (same : settings.Tied naming.bases ties other)
    (widens : ties.Extends larger) :
    settings.Tied naming.bases larger other where
  operators := rel_imp same.operators fun _ _ names => basesMono widens names
  terminator := same.terminator
  policy := same.policy
  nullSucceeds := same.nullSucceeds
  decomposer := same.decomposer

theorem Relation.Tied.mono
    {relation other : Relation Base}
    (same : relation.Tied naming.bases ties other)
    (widens : ties.Extends larger) :
    relation.Tied naming.bases larger other := by
  cases same with
  | always => exact .always
  | base names => exact .base (basesMono widens names)
  | walk nodes same =>
    exact .walk (basesMono widens nodes) (same.mono basesMono widens)

end Mono

theorem Program.Impartial.mono
    {program : Program Base Custom}
    {naming : Naming Base Custom}
    (impartial : program.Impartial naming)
    {ties larger : Ties}
    {code other : Code Base Custom}
    (widens : ties.Extends larger)
    (same : code.Tied naming ties other) :
    code.Tied naming larger other := by
  have relationToo {relation other : Relation Base}
      (same : relation.Tied naming.bases ties other) :
      relation.Tied naming.bases larger other :=
    same.mono impartial.basesMono widens
  have termToo {term other : Term} (alike : Term.Alike ties.all term other) :
      Term.Alike larger.all term other :=
    alike.mono widens.all
  cases same with
  | custom names => exact .custom (impartial.customsMono widens names)
  | relate relations firsts seconds =>
    exact .relate (relationToo relations) (termToo firsts) (termToo seconds)
  | mapAll relations firsts seconds =>
    exact .mapAll (relationToo relations) (termToo firsts) (termToo seconds)
  | mapAny relations firsts seconds =>
    exact .mapAny (relationToo relations) (termToo firsts) (termToo seconds)
  | reach relations starts finishes =>
    exact .reach (relationToo relations) (termToo starts) (termToo finishes)

/-! ## Applications -/

namespace Term.Alike

variable {pairing : Pairing} {term other : Term}

theorem isVar_eq (alike : Term.Alike pairing term other) :
    term.isVar = other.isVar := by
  cases alike <;> rfl

theorem spine (alike : Term.Alike pairing term other) :
    Term.Alike pairing term.spine.2 other.spine.2 := by
  induction alike with
  | cons _ _ _ tailIH =>
    rw [Term.spine_cons, Term.spine_cons]
    exact tailIH
  | var paired => exact .var paired
  | int value => exact .int value
  | sym name => exact .sym name
  | nil kind => exact .nil kind

end Term.Alike

namespace Protocol

variable {pairing : Pairing}

/-- Both are refused, or else the values are related. -/
inductive Judged {α : Type} (related : α → α → Prop) :
    Except Error α → Except Error α → Prop where
  | refused {error other : Error} : Judged related (.error error) (.error other)
  | accepted {value other : α} (relates : related value other) :
      Judged related (.ok value) (.ok other)

theorem judged_checkSpine
    (protocol : Protocol)
    {term other : Term}
    (alike : Term.Alike pairing term other)
    (error otherError : Error) :
    Judged (fun _ _ => True) (protocol.checkSpine term error)
      (protocol.checkSpine other otherError) := by
  have lasts := alike.spine
  rw [checkSpine, checkSpine]
  generalize term.spine.2 = last at lasts ⊢
  generalize other.spine.2 = otherLast at lasts ⊢
  cases lasts with
  | var => exact .accepted trivial
  | nil kind =>
    change Judged _ (protocol.checkKind kind) (protocol.checkKind kind)
    cases protocol.checkKind kind with
    | error => exact .refused
    | ok => exact .accepted trivial
  | int | sym | cons => exact .refused

/-- Terms that differ in their variables come apart alike. -/
theorem judged_split
    (protocol : Protocol)
    {term other : Term}
    (alike : Term.Alike pairing term other) :
    Judged
      (fun parts otherParts =>
        Term.Alike pairing parts.1 otherParts.1 ∧
          Term.Alike pairing parts.2 otherParts.2)
      (protocol.split term) (protocol.split other) := by
  have spines :=
    expr.judged_checkSpine alike (.notCompound term) (.notCompound other)
  cases alike with
  | cons heads tails =>
    cases protocol with
    | sequence => exact .accepted ⟨heads, tails⟩
    | expr =>
      rw [split, split]
      generalize checkSpine _ _ _ = verdict at spines ⊢
      generalize checkSpine _ _ _ = otherVerdict at spines ⊢
      cases spines with
      | refused => exact .refused
      | accepted => exact .accepted ⟨heads, tails⟩
  | var | int | sym | nil => cases protocol <;> exact .refused

/-- Parts that differ in their variables are put together alike. -/
theorem judged_construct
    (protocol : Protocol)
    {operator operands otherOperator otherOperands : Term}
    (operators : Term.Alike pairing operator otherOperator)
    (alike : Term.Alike pairing operands otherOperands) :
    Judged (Term.Alike pairing) (protocol.construct operator operands)
      (protocol.construct otherOperator otherOperands) := by
  have spines := protocol.judged_checkSpine alike (.improperOperands operands)
    (.improperOperands otherOperands)
  rw [construct, construct]
  generalize checkSpine protocol operands _ = verdict at spines ⊢
  generalize checkSpine protocol otherOperands _ = otherVerdict at spines ⊢
  cases spines with
  | refused => exact .refused
  | accepted => exact .accepted (.cons operators alike)

end Protocol

/-- Recipes that mint nothing are tied if what they make is. -/
theorem Recipe.tied_of_made
    {α β : Type}
    {related : Ties → α → β → Prop}
    {ties : Ties}
    {recipe : Recipe α}
    {other : Recipe β}
    {value : α}
    {otherValue : β}
    (made : ∀ supply, recipe.made supply = (value, supply))
    (otherMade : ∀ supply, other.made supply = (otherValue, supply))
    (relates :
      ∀ larger, ties.Extends larger → related larger value otherValue) :
    Recipe.Tied related ties recipe other := by
  intro larger supply otherSupply growth
  rw [made, otherMade]
  exact ⟨by simp, relates _
    (growth.widens.trans (larger.extends_extend _ _ _))⟩

section Application

variable {Code : Type} {codes : Ties → Code → Code → Prop} {ties : Ties}
  {operator operands whole otherOperator otherOperands otherWhole : Term}

theorem Goal.tied_takenApart
    (decomposer : Decomposer)
    (operators : Term.Alike ties.all operator otherOperator)
    (operandsAlike : Term.Alike ties.all operands otherOperands)
    (wholes : Term.Alike ties.all whole otherWhole) :
    Recipe.Tied (Goal.Tied codes) ties
      (takenApart decomposer operator operands whole)
      (takenApart decomposer otherOperator otherOperands otherWhole) := by
  have parts := decomposer.protocol.judged_split wholes
  refine Recipe.tied_of_made (made_takenApart _ _ _ _)
    (made_takenApart _ _ _ _) fun larger widens => ?_
  generalize decomposer.protocol.split whole = verdict at parts ⊢
  generalize decomposer.protocol.split otherWhole = otherVerdict at parts ⊢
  cases parts with
  | refused => exact .fail
  | accepted both =>
    exact .both
      (.eq (operators.mono widens.all) (both.1.mono widens.all))
      (.eq (operandsAlike.mono widens.all) (both.2.mono widens.all))

theorem Goal.tied_putTogether
    (decomposer : Decomposer)
    (operators : Term.Alike ties.all operator otherOperator)
    (operandsAlike : Term.Alike ties.all operands otherOperands)
    (wholes : Term.Alike ties.all whole otherWhole) :
    Recipe.Tied (Goal.Tied codes) ties
      (putTogether decomposer operator operands whole)
      (putTogether decomposer otherOperator otherOperands otherWhole) := by
  have constructed :=
    decomposer.protocol.judged_construct operators operandsAlike
  refine Recipe.tied_of_made (made_putTogether _ _ _ _)
    (made_putTogether _ _ _ _) fun larger widens => ?_
  generalize decomposer.protocol.construct operator operands = verdict
    at constructed ⊢
  generalize decomposer.protocol.construct otherOperator otherOperands =
    otherVerdict at constructed ⊢
  cases constructed with
  | refused => exact .fail
  | accepted made =>
    exact .eq (wholes.mono widens.all) (made.mono widens.all)

theorem Goal.tied_application
    (decomposer : Decomposer)
    (operators : Term.Alike ties.all operator otherOperator)
    (operandsAlike : Term.Alike ties.all operands otherOperands)
    (wholes : Term.Alike ties.all whole otherWhole) :
    Goal.Tied codes ties (.application decomposer operator operands whole)
      (.application decomposer otherOperator otherOperands otherWhole) := by
  refine Goal.tied_dynamic fun larger subst other widens included agree => ?_
  have shown {term otherTerm : Term}
      (alike : Term.Alike ties.all term otherTerm) :
      Term.Alike larger.all (subst.reify term) (other.reify otherTerm) :=
    Term.Alike.mono (agree.reify (alike.mono widens.all)) included
  have operators := shown operators
  have operandsAlike := shown operandsAlike
  have wholes := shown wholes
  dsimp only
  rw [operators.isVar_eq, operandsAlike.isVar_eq, wholes.isVar_eq]
  split
  · exact Goal.tied_takenApart decomposer operators operandsAlike wholes
  · split
    · exact Recipe.tied_done fun largest further =>
        Goal.tied_cons (operators.mono further.all)
          (operandsAlike.mono further.all) (wholes.mono further.all)
    · exact Goal.tied_putTogether decomposer operators operandsAlike wholes

end Application

/-! ## Sequences in step -/

/-- The parts of two sequences are tied. -/
structure Cells.Tied (ties : Ties) (cells other : Cells) : Prop where
  firstHeads : Term.Alike ties.all cells.firstHead other.firstHead
  firstTails : Term.Alike ties.all cells.firstTail other.firstTail
  secondHeads : Term.Alike ties.all cells.secondHead other.secondHead
  secondTails : Term.Alike ties.all cells.secondTail other.secondTail

theorem Cells.Tied.mono
    {ties larger : Ties}
    {cells other : Cells}
    (tied : Cells.Tied ties cells other)
    (widens : ties.Extends larger) :
    Cells.Tied larger cells other :=
  ⟨tied.firstHeads.mono widens.all, tied.firstTails.mono widens.all,
    tied.secondHeads.mono widens.all, tied.secondTails.mono widens.all⟩

theorem Cells.tied_fresh (ties : Ties) :
    Recipe.Tied Cells.Tied ties Cells.fresh Cells.fresh := by
  refine (Recipe.tied_freshTerm _ _).andThen fun first _ _ _ firstHeads => ?_
  refine (Recipe.tied_freshTerm _ _).andThen
    fun second _ _ toSecond firstTails => ?_
  refine (Recipe.tied_freshTerm _ _).andThen
    fun third _ _ toThird secondHeads => ?_
  refine (Recipe.tied_freshTerm _ _).andThen
    fun fourth _ _ toFourth secondTails => ?_
  refine Recipe.tied_done fun last toLast => ?_
  have afterThird := toFourth.trans toLast
  have afterSecond := toThird.trans afterThird
  have afterFirst := toSecond.trans afterSecond
  exact ⟨firstHeads.mono afterFirst.all, firstTails.mono afterSecond.all,
    secondHeads.mono afterThird.all, secondTails.mono toLast.all⟩

/-- What `mapAll` asks of the parts of two sequences. -/
def Cells.allOnParts
    (cells : Cells)
    (relation : Relation Base)
    (terminator : SeqKind) : List (CodedGoal Base Custom) :=
  [.defer (.relate relation cells.firstHead cells.secondHead),
    .defer (.mapAll relation terminator cells.firstTail cells.secondTail)]

/-- What `mapAny` asks of the parts of two sequences. -/
def Cells.anyOnParts
    (cells : Cells)
    (relation : Relation Base)
    (terminator : SeqKind)
    (nullSucceeds : Bool)
    (cursor : MapCursor) : List (CodedGoal Base Custom) :=
  let tails (related : Bool) : CodedGoal Base Custom :=
    .defer (.mapAny relation terminator nullSucceeds (cursor.next related)
      cells.firstTail cells.secondTail)
  [.any
    [[.defer (.relate relation cells.firstHead cells.secondHead), tails true],
      [.eq cells.firstHead cells.secondHead, tails false]]]

/-- Two sequences end, or the goals hold for their parts. -/
def Cells.opened
    (cells : Cells)
    (ending : CodedGoal Base Custom)
    (first second : Term)
    (onParts : List (CodedGoal Base Custom)) : CodedGoal Base Custom :=
  .any
    [[ending],
      .cons cells.firstHead cells.firstTail first ::
        .cons cells.secondHead cells.secondTail second :: onParts]

section Parts

variable (naming : Naming Base Custom) (relation otherRelation : Relation Base)
  (cells other : Cells)

/-- The goals are tied wherever the relations and the parts are. -/
def TiedOnParts : CodedGoal Base Custom → CodedGoal Base Custom → Prop :=
  fun goal otherGoal =>
    ∀ ties : Ties,
      relation.Tied naming.bases ties otherRelation →
        Cells.Tied ties cells other →
          CodedGoal.Tied naming ties goal otherGoal

theorem tied_heads :
    TiedOnParts naming relation otherRelation cells other
      (.defer (.relate relation cells.firstHead cells.secondHead))
      (.defer (.relate otherRelation other.firstHead other.secondHead)) :=
  fun _ relations tied =>
    .defer (.relate relations tied.firstHeads tied.secondHeads)

theorem tied_allOnParts (terminator : SeqKind) :
    List.Forall₂ (TiedOnParts naming relation otherRelation cells other)
      (cells.allOnParts relation terminator)
      (other.allOnParts otherRelation terminator) := by
  refine .cons (tied_heads _ _ _ _ _) (.cons ?_ .nil)
  intro ties relations tied
  exact .defer (.mapAll relations tied.firstTails tied.secondTails)

theorem tied_anyOnParts
    (terminator : SeqKind)
    (nullSucceeds : Bool)
    (cursor : MapCursor) :
    List.Forall₂ (TiedOnParts naming relation otherRelation cells other)
      (cells.anyOnParts relation terminator nullSucceeds cursor)
      (other.anyOnParts otherRelation terminator nullSucceeds cursor) := by
  refine .cons (fun ties relations tied => Goal.tied_any ?_) .nil
  have heads := tied_heads naming relation otherRelation cells other ties
    relations tied
  have tails (related : Bool) :
      CodedGoal.Tied naming ties
        (.defer (.mapAny relation terminator nullSucceeds
          (cursor.next related) cells.firstTail cells.secondTail))
        (.defer (.mapAny otherRelation terminator nullSucceeds
          (cursor.next related) other.firstTail other.secondTail)) :=
    .defer (.mapAny relations tied.firstTails tied.secondTails)
  exact .cons (.cons heads (.cons (tails true) .nil))
    (.cons (.cons (.eq tied.firstHeads tied.secondHeads)
      (.cons (tails false) .nil)) .nil)

end Parts

section Maps

variable {naming : Naming Base Custom} {ties : Ties}
  {relation otherRelation : Relation Base}
  {first second otherFirst otherSecond : Term}

theorem tied_nullCase
    (accepted : Bool)
    (terminator : SeqKind)
    (firsts : Term.Alike ties.all first otherFirst)
    (seconds : Term.Alike ties.all second otherSecond) :
    CodedGoal.Tied naming ties (nullCase accepted terminator first second)
      (nullCase accepted terminator otherFirst otherSecond) := by
  rw [nullCase, nullCase]
  cases accepted with
  | true => exact Goal.tied_allEmpty (.cons firsts (.cons seconds .nil)) _
  | false => exact .fail

variable
  (relations :
    ∀ {larger : Ties}, ties.Extends larger →
      relation.Tied naming.bases larger otherRelation)
  (firsts : Term.Alike ties.all first otherFirst)
  (seconds : Term.Alike ties.all second otherSecond)

include relations firsts seconds

/-- Sequences that are taken apart with fresh variables are so alike. -/
theorem tied_opened
    (accepted : Bool)
    (terminator : SeqKind)
    {onParts otherOnParts : Cells → List (CodedGoal Base Custom)}
    (parts :
      ∀ cells other,
        List.Forall₂ (TiedOnParts naming relation otherRelation cells other)
          (onParts cells) (otherOnParts other)) :
    Recipe.Tied (CodedGoal.Tied naming) ties
      (Cells.fresh.andThen fun cells =>
        .done (cells.opened (nullCase accepted terminator first second) first
          second (onParts cells)))
      (Cells.fresh.andThen fun cells =>
        .done (cells.opened
          (nullCase accepted terminator otherFirst otherSecond) otherFirst
          otherSecond (otherOnParts cells))) := by
  refine (Cells.tied_fresh ties).andThen fun _ cells other toCells tied => ?_
  refine Recipe.tied_done fun larger further => ?_
  have widens := toCells.trans further
  have tied := tied.mono further
  have firsts := firsts.mono widens.all
  have seconds := seconds.mono widens.all
  refine Goal.tied_any (.cons (.cons ?_ .nil) (.cons (.cons ?_ (.cons ?_ ?_))
    .nil))
  · exact tied_nullCase accepted terminator firsts seconds
  · exact Goal.tied_cons tied.firstHeads tied.firstTails firsts
  · exact Goal.tied_cons tied.secondHeads tied.secondTails seconds
  · exact (parts cells other).imp fun _ _ here =>
      here larger (relations widens) tied

/-- Sequences are related at every position alike. -/
theorem tied_mapAll (terminator : SeqKind) (nullSucceeds : Bool) :
    Recipe.Tied (CodedGoal.Tied naming) ties
      (mapAll relation terminator nullSucceeds first second)
      (mapAll otherRelation terminator nullSucceeds otherFirst otherSecond) :=
  tied_opened relations firsts seconds nullSucceeds terminator
    fun cells other => tied_allOnParts _ _ _ cells other terminator

/-- Sequences are related at some position alike. -/
theorem tied_mapAny
    (terminator : SeqKind)
    (nullSucceeds : Bool)
    (cursor : MapCursor) :
    Recipe.Tied (CodedGoal.Tied naming) ties
      (mapAny relation terminator nullSucceeds cursor first second)
      (mapAny otherRelation terminator nullSucceeds cursor otherFirst
        otherSecond) :=
  tied_opened relations firsts seconds (cursor.acceptsNull nullSucceeds)
    terminator fun cells other =>
      tied_anyOnParts _ _ _ cells other terminator nullSucceeds cursor

theorem tied_map (policy : MapPolicy) (settings : MapSettings) :
    Recipe.Tied (CodedGoal.Tied naming) ties
      (policy.map relation first second settings)
      (policy.map otherRelation otherFirst otherSecond settings) := by
  cases policy with
  | all => exact tied_mapAll relations firsts seconds _ _
  | any => exact tied_mapAny relations firsts seconds _ _ _

end Maps

/-! ## Relations of an impartial program -/

namespace Program.Impartial

variable {program : Program Base Custom} {naming : Naming Base Custom}
  {ties : Ties}

/-- Goals stay tied when more variables are. -/
theorem later
    (impartial : program.Impartial naming)
    {goal other : CodedGoal Base Custom}
    (goals : CodedGoal.Tied naming ties goal other)
    {larger : Ties}
    (widens : ties.Extends larger) :
    CodedGoal.Tied naming larger goal other :=
  Goal.Tied.mono (@impartial.mono) goals widens

theorem walkBelow
    (impartial : program.Impartial naming)
    {node otherNode : Base}
    {settings otherSettings : WalkSettings Base}
    (nodes : naming.bases ties node otherNode)
    (same : settings.Tied naming.bases ties otherSettings)
    {graphIn graphOut otherIn otherOut : Term}
    (ins : Term.Alike ties.all graphIn otherIn)
    (outs : Term.Alike ties.all graphOut otherOut) :
    Recipe.Tied (CodedGoal.Tied naming) ties
      (program.walkBelow node settings graphIn graphOut)
      (program.walkBelow otherNode otherSettings otherIn otherOut) := by
  have relations {larger : Ties} (widens : ties.Extends larger) :
      Relation.Tied naming.bases larger (.walk node settings)
        (.walk otherNode otherSettings) :=
    .walk (impartial.basesMono widens nodes)
      (same.mono impartial.basesMono widens)
  have operators := same.operators
  have mapSettings : settings.mapSettings = otherSettings.mapSettings := by
    rw [WalkSettings.mapSettings, WalkSettings.mapSettings, same.terminator,
      same.nullSucceeds]
  rw [Program.walkBelow, Program.walkBelow, same.policy, same.decomposer,
    mapSettings]
  generalize settings.operatorRelation = operator at operators ⊢
  generalize otherSettings.operatorRelation = otherOperator at operators ⊢
  cases operators with
  | none => exact tied_map relations ins outs _ _
  | some names =>
    refine (Recipe.tied_freshTerm _ _).andThen
      fun _ _ _ toFirst operatorsIn => ?_
    refine (Recipe.tied_freshTerm _ _).andThen
      fun _ _ _ toSecond operandsIn => ?_
    refine (Recipe.tied_freshTerm _ _).andThen
      fun _ _ _ toThird operatorsOut => ?_
    refine (Recipe.tied_freshTerm _ _).andThen
      fun fourth _ _ toFourth operandsOut => ?_
    have afterSecond := toThird.trans toFourth
    have afterFirst := toSecond.trans afterSecond
    have widens := toFirst.trans afterFirst
    have operatorsIn := operatorsIn.mono afterFirst.all
    have operandsIn := operandsIn.mono afterSecond.all
    have operatorsOut := operatorsOut.mono toFourth.all
    refine (impartial.relations (impartial.basesMono widens names) operatorsIn
      operatorsOut).andThen fun fifth _ _ toFifth operatorGoals => ?_
    have operands := tied_map
      (fun further => relations ((widens.trans toFifth).trans further))
      (operandsIn.mono toFifth.all) (operandsOut.mono toFifth.all)
      otherSettings.policy otherSettings.mapSettings
    refine operands.andThen fun _ _ _ toSixth operandGoals => ?_
    refine Recipe.tied_done fun last toLast => ?_
    have later := toSixth.trans toLast
    have all := toFifth.trans later
    refine Goal.tied_all (.cons ?_ (.cons ?_ (.cons ?_ (.cons ?_ .nil))))
    · exact Goal.tied_application _ (operatorsIn.mono all.all)
        (operandsIn.mono all.all) (ins.mono (widens.trans all).all)
    · exact Goal.tied_application _ (operatorsOut.mono all.all)
        (operandsOut.mono all.all) (outs.mono (widens.trans all).all)
    · exact impartial.later operatorGoals later
    · exact impartial.later operandGoals toLast

theorem walk
    (impartial : program.Impartial naming)
    {node otherNode : Base}
    {settings otherSettings : WalkSettings Base}
    (nodes : naming.bases ties node otherNode)
    (same : settings.Tied naming.bases ties otherSettings)
    {graphIn graphOut otherIn otherOut : Term}
    (ins : Term.Alike ties.all graphIn otherIn)
    (outs : Term.Alike ties.all graphOut otherOut) :
    CodedGoal.Tied naming ties (program.walk node settings graphIn graphOut)
      (program.walk otherNode otherSettings otherIn otherOut) := by
  refine Goal.tied_dynamic fun larger subst other widens included agree => ?_
  have nodes := impartial.basesMono widens nodes
  have same := same.mono impartial.basesMono widens
  have ins := (agree.reify (ins.mono widens.all)).mono included
  have outs := (agree.reify (outs.mono widens.all)).mono included
  refine (impartial.walkBelow nodes same ins outs).andThen
    fun middle _ _ toMiddle belows => ?_
  refine (impartial.relations (impartial.basesMono toMiddle nodes)
    (ins.mono toMiddle.all) (outs.mono toMiddle.all)).andThen
      fun _ _ _ toLater heres => ?_
  refine Recipe.tied_done fun last toLast => ?_
  refine Goal.tied_any (.cons (.cons ?_ .nil) (.cons (.cons ?_ .nil) .nil))
  · exact impartial.later heres toLast
  · exact impartial.later belows (toLater.trans toLast)

theorem relate
    (impartial : program.Impartial naming)
    {relation otherRelation : Relation Base}
    (relations : relation.Tied naming.bases ties otherRelation)
    {first second otherFirst otherSecond : Term}
    (firsts : Term.Alike ties.all first otherFirst)
    (seconds : Term.Alike ties.all second otherSecond) :
    Recipe.Tied (CodedGoal.Tied naming) ties
      (program.relate relation first second)
      (program.relate otherRelation otherFirst otherSecond) := by
  cases relations with
  | always => exact Recipe.tied_done fun _ _ => .succeed
  | base names => exact impartial.relations names firsts seconds
  | walk nodes same =>
    exact Recipe.tied_done fun larger widens =>
      impartial.later (impartial.walk nodes same firsts seconds) widens

theorem reach
    (impartial : program.Impartial naming)
    {relation otherRelation : Relation Base}
    (relations : relation.Tied naming.bases ties otherRelation)
    {input output otherInput otherOutput : Term}
    (inputs : Term.Alike ties.all input otherInput)
    (outputs : Term.Alike ties.all output otherOutput) :
    CodedGoal.Tied naming ties (program.reach relation input output)
      (program.reach otherRelation otherInput otherOutput) := by
  refine Goal.tied_dynamic fun larger subst other widens included agree => ?_
  have shownInputs := agree.reify (inputs.mono widens.all)
  have inputs := shownInputs.mono included
  have outputs := (agree.reify (outputs.mono widens.all)).mono included
  have relations := relations.mono impartial.basesMono widens
  refine (Recipe.tied_freshTerm _ _).andThen
    fun middle reduced otherReduced toMiddle reduceds => ?_
  refine (impartial.relate (relations.mono impartial.basesMono toMiddle)
    (inputs.mono toMiddle.all) reduceds).andThen
      fun later step otherStep toLater steps => ?_
  -- The parts of the chain, once all its variables are tied.
  have stops {last : Ties} (toLast : later.Extends last) :
      CodedGoal.Tied naming last (.eq reduced (subst.reify output))
        (.eq otherReduced (other.reify otherOutput)) :=
    .eq (reduceds.mono (toLater.trans toLast).all)
      (outputs.mono (toMiddle.trans (toLater.trans toLast)).all)
  have agains {last : Ties} (toLast : later.Extends last) :
      CodedGoal.Tied naming last
        (.defer (.reach relation reduced (subst.reify output)))
        (.defer (.reach otherRelation otherReduced
          (other.reify otherOutput))) := by
    have toAll := toMiddle.trans (toLater.trans toLast)
    exact .defer (.reach (relations.mono impartial.basesMono toAll)
      (reduceds.mono (toLater.trans toLast).all) (outputs.mono toAll.all))
  dsimp only
  rw [shownInputs.isVar_eq]
  split
  · refine Recipe.tied_done fun last toLast => ?_
    refine Goal.tied_all (.cons ?_ (.cons (impartial.later steps toLast) .nil))
    exact Goal.tied_any (.cons (.cons (stops toLast) .nil)
      (.cons (.cons (agains toLast) .nil) .nil))
  · refine Recipe.tied_done fun last toLast => ?_
    refine Goal.tied_all
      (.cons (impartial.later steps toLast) (.cons ?_ .nil))
    refine Goal.tied_dynamic
      fun largest stepped otherStepped further _ agreeNow => ?_
    have toStep := toLater.trans (toLast.trans further)
    have sameTest := (agreeNow.reify (reduceds.mono toStep.all)).eq_iff
      agreeNow.oneToOne (shownInputs.mono (toMiddle.trans toStep).roots)
    simp only [sameTest]
    split
    · exact Recipe.tied_done fun _ onwards =>
        stops ((toLast.trans further).trans onwards)
    · exact Recipe.tied_done fun _ onwards =>
        Goal.tied_anyInOrder
          (.cons (.cons (agains ((toLast.trans further).trans onwards)) .nil)
            (.cons (.cons (stops ((toLast.trans further).trans onwards)) .nil)
              .nil))

/-- The goals of tied codes are tied. -/
theorem tiedCodes (impartial : program.Impartial naming) :
    TiedCodes program.unfold (Code.Tied naming) where
  mono := impartial.mono
  unfolds same := by
    cases same with
    | custom names => exact impartial.customs names
    | relate relations firsts seconds =>
      exact impartial.relate relations firsts seconds
    | mapAll relations firsts seconds =>
      exact tied_mapAll
        (fun widens => relations.mono impartial.basesMono widens)
        firsts seconds _ _
    | mapAny relations firsts seconds =>
      exact tied_mapAny
        (fun widens => relations.mono impartial.basesMono widens)
        firsts seconds _ _ _
    | reach relations starts finishes =>
      exact Recipe.tied_done fun larger widens =>
        impartial.later (impartial.reach relations starts finishes) widens

end Program.Impartial

end RelationalSearch
