import RelationalSearch.Proofs.Relation.Rejection
import RelationalSearch.Proofs.Relation.Visit
import RelationalSearch.Proofs.Search.Follow

/-!
# Walks of terms that are not compound

A walk of two known terms first calls the node relation and then goes through
their subterms.  If one of the terms is refused by the protocol then nothing is
found there, and the walk has the results of the node relation
(`Program.walk_of_refuses`).

There is one exception.  Only applications ask the protocol, and a walk without
an operator relation makes none: it goes through the two terms as sequences.
Sequences of the same kind that are both empty then match if empty sequences are
to match, though no protocol takes them for compound.  Two chains that are
refused for their end are gone through all the same.
-/

namespace RelationalSearch

/-! ## Refused terms -/

theorem Subst.isVar_reify
    {subst : Subst}
    {term : Term}
    (acyclic : subst.Acyclic)
    (known : term.isVar = false) :
    (subst.reify term).isVar = false := by
  rw [reify_eq_under acyclic]
  cases term with
  | var => cases known
  | _ => rfl

/-- Following the bindings of a known term ends at once. -/
theorem Subst.ends_of_known
    {subst : Subst}
    {term : Term}
    (known : term.isVar = false) :
    subst.Ends term term := by
  apply Ends.here
  cases term with
  | var => cases known
  | _ => rfl

/-- Both terms are the same empty sequence. -/
def Term.sameNil : Term → Term → Bool
  | .nil kind, .nil other => kind = other
  | _, _ => false

/-- Empty sequences match, and the protocol is not asked whether they may. -/
def WalkSettings.matchesEmpty
    {Base : Type}
    (settings : WalkSettings Base)
    (first second : Term) : Bool :=
  settings.operatorRelation.isNone && settings.nullSucceedsAtFirstCall &&
    first.sameNil second

namespace Protocol

variable {protocol : Protocol} {term : Term}

/-- The protocol finds no operator or no operands in the term. -/
def Refuses (protocol : Protocol) (term : Term) : Prop :=
  (∃ error, protocol.operator term = .error error) ∨
    ∃ error, protocol.operands term = .error error

theorem refuses_iff :
    protocol.Refuses term ↔ ∃ error, protocol.split term = .error error := by
  simp only [Refuses, operator_eq_error_iff, operands_eq_error_iff, or_self]

/-- A cell is refused for the end of its spine only. -/
theorem refuses_cons_iff {head tail : Term} :
    protocol.Refuses (.cons head tail) ↔
      protocol = .expr ∧ tail.spine.2.isVar = false ∧
        tail.terminator? ≠ some .expr := by
  have checked := checkSpine_expr_eq_ok_iff (.cons head tail)
    (.notCompound (.cons head tail))
  rw [Term.spine_cons, Term.terminator?_cons] at checked
  rw [refuses_iff]
  cases protocol with
  | sequence => simp [split]
  | expr =>
    rw [← Bool.not_eq_true, Ne, ← not_or, ← checked, split]
    cases expr.checkSpine (.cons head tail) (.notCompound (.cons head tail))
    all_goals simp [bind, Except.bind]

/-- A term that is no cell is refused. -/
theorem refuses_of_notCell (notCell : term.isCons = false) :
    protocol.Refuses term := by
  rw [refuses_iff]
  cases term with
  | cons => cases notCell
  | _ => cases protocol <;> exact ⟨_, rfl⟩

/-- A known term that is refused is refused whatever its variables stand for. -/
theorem Refuses.under
    (refused : protocol.Refuses term)
    (known : term.isVar = false)
    (valuation : Var → Term) :
    protocol.Refuses (term.under valuation) := by
  rw [refuses_iff] at refused ⊢
  rcases refused with ⟨error, rejected⟩
  exact ⟨_, split_under_eq_error known rejected valuation⟩

/-- A known term that is refused is refused in every later state. -/
theorem Refuses.reify
    {subst : Subst}
    (refused : protocol.Refuses term)
    (known : term.isVar = false)
    (acyclic : subst.Acyclic) :
    protocol.Refuses (subst.reify term) := by
  rw [Subst.reify_eq_under acyclic]
  exact refused.under known _

end Protocol

/-! ## Goals that are decided at once -/

/-- The stream of the result, if there is one. -/
def Stream.ofOption {Later Next Result : Type} :
    Option Result → Stream Later Next Result
  | none => .empty
  | some result => .unit result

/-- Building a goal leaves it to be applied in a later session. -/
theorem run_applyRecipe
    {Code : Type}
    (recipe : Recipe (Goal Code))
    (subst : Subst)
    (session : Session) :
    ∃ built : Session,
      built.supply = (recipe.made session.supply).2 ∧
        (applyRecipe recipe subst).run session =
          ((recipe.made session.supply).1.apply subst).run built := by
  rcases recipe.run_eq_made session with ⟨goal, supply⟩
  refine ⟨(recipe.run.run session).2, supply, ?_⟩
  rw [applyRecipe_eq, ← goal]
  rfl

namespace Goal

variable {Code : Type} {subst : Subst} {found : Option Subst}

/--
Applying the goal gives the result that is found, or none, and mints no
variables.
-/
def AtOnce (goal : Goal Code) (subst : Subst) (found : Option Subst) : Prop :=
  ∀ session, ∃ later : Session,
    later.supply = session.supply ∧
      (goal.apply subst).run session = (.ofOption found, later)

theorem atOnce_fail : (fail : Goal Code).AtOnce subst none :=
  fun session => ⟨session, rfl, rfl⟩

theorem atOnce_eq (left right : Term) :
    (eq left right : Goal Code).AtOnce subst (subst.unify left right) := by
  intro session
  refine ⟨session, rfl, ?_⟩
  rw [apply]
  cases subst.unify left right <;> rfl

/-- There is only one result that is found. -/
theorem AtOnce.unique
    {goal : Goal Code}
    {other : Option Subst}
    (one : goal.AtOnce subst found)
    (two : goal.AtOnce subst other) :
    found = other := by
  rcases one .start with ⟨_, _, oneRun⟩
  rcases two .start with ⟨_, _, twoRun⟩
  have streams := congrArg Prod.fst (oneRun.symm.trans twoRun)
  cases found <;> cases other <;> cases streams <;> rfl

/-- The second goal of a conjunction is applied to what is found of the first. -/
theorem run_both (first second : Goal Code) (subst : Subst) (session : Session) :
    ((both first second).apply subst).run session =
      (Stream.andThen second.apply second
        ((first.apply subst).run session).1).run
          ((first.apply subst).run session).2 := by
  rw [apply]
  rfl

theorem AtOnce.both
    {first second : Goal Code}
    {middle : Option Subst}
    (front : first.AtOnce subst middle)
    (last : Subst → Option Subst)
    (back : ∀ result ∈ middle, second.AtOnce result (last result)) :
    (both first second).AtOnce subst (middle.bind last) := by
  intro session
  rcases front session with ⟨later, supply, stream⟩
  rw [run_both, stream]
  cases middle with
  | none => exact ⟨later, supply, rfl⟩
  | some result =>
    rcases back result rfl later with ⟨after, afterSupply, rest⟩
    have fed :
        (Stream.andThen second.apply second
            (.ofOption (some result) : Results Code)).run later =
          (((second.apply result).run later).1.interleave .empty,
            ((second.apply result).run later).2) :=
      rfl
    refine ⟨after, afterSupply.trans supply, ?_⟩
    rw [fed, rest, Stream.interleave_empty_right]
    rfl

theorem AtOnce.both_some
    {first second : Goal Code}
    {middle : Subst}
    (front : first.AtOnce subst (some middle))
    (back : second.AtOnce middle found) :
    (Goal.both first second).AtOnce subst found :=
  front.both (fun _ => found) fun result same => by
    cases same
    exact back

/-- A conjunction fails with its first goal. -/
theorem AtOnce.both_none
    {first : Goal Code}
    (front : first.AtOnce subst none)
    (second : Goal Code) :
    (Goal.both first second).AtOnce subst none :=
  front.both (fun _ => none) nofun

/-- The right goal of a disjunction is applied first. -/
theorem run_either (left right : Goal Code) (subst : Subst) (session : Session) :
    ((either left right).apply subst).run session =
      let last := (right.apply subst).run session
      let front := (left.apply subst).run last.2
      (front.1.interleave last.1, front.2) := by
  rw [apply]
  rfl

theorem AtOnce.either_none_right
    {left right : Goal Code}
    (onLeft : left.AtOnce subst found)
    (onRight : right.AtOnce subst none) :
    (Goal.either left right).AtOnce subst found := by
  intro session
  rcases onRight session with ⟨middle, middleSupply, last⟩
  rcases onLeft middle with ⟨later, supply, front⟩
  refine ⟨later, supply.trans middleSupply, ?_⟩
  rw [run_either, last]
  simp only [front]
  exact congrArg (·, later) (Stream.interleave_empty_right _)

/-- A goal that is built without variables is decided as soon as it is built. -/
theorem AtOnce.dynamic
    {builder : Subst → Recipe (Goal Code)}
    {goal : Goal Code}
    (made : ∀ supply, (builder subst).made supply = (goal, supply))
    (built : goal.AtOnce subst found) :
    (dynamic builder).AtOnce subst found := by
  intro session
  rcases run_applyRecipe (builder subst) subst session with
    ⟨opened, supply, run⟩
  rw [made] at supply run
  rcases built opened with ⟨later, laterSupply, stream⟩
  refine ⟨later, laterSupply.trans supply, ?_⟩
  rw [apply, run, stream]

/-! ## Known terms -/

/-- A cell is not unified with a known term that is none. -/
theorem atOnce_cons_of_notCell
    {whole : Term}
    (acyclic : subst.Acyclic)
    (known : whole.isVar = false)
    (notCell : whole.isCons = false)
    (head tail : Term) :
    (cons head tail whole : Goal Code).AtOnce subst none := by
  rw [← Subst.unify_cell_eq_none acyclic (Subst.ends_of_known known) known notCell]
  exact atOnce_eq _ whole

/-- Two known terms that are not both cells have no elements to go through. -/
theorem atOnce_parts
    {Base Custom : Type}
    {first second : Term}
    (acyclic : subst.Acyclic)
    (known : first.isVar = false ∧ second.isVar = false)
    (notCells : first.isCons = false ∨ second.isCons = false)
    (cells : Cells) :
    (cells.parts first second : CodedGoal Base Custom).AtOnce subst none := by
  rcases notCells with notCell | notCell
  · exact (atOnce_cons_of_notCell acyclic known.1 notCell _ _).both_none _
  · have nothing (middle : Option Subst) :
        (middle.bind fun _ => (none : Option Subst)) = none := by
      cases middle <;> rfl
    rw [← nothing]
    refine (atOnce_eq _ first).both _ fun result unified => ?_
    exact atOnce_cons_of_notCell (acyclic.unify unified) known.2 notCell _ _

/-- Terms without a common kind do not end alike. -/
theorem atOnce_allEmpty_none
    {terms : List Term}
    (disagree : subst.agreedKind? terms none = none)
    (default : SeqKind) :
    (allEmpty terms default : Goal Code).AtOnce subst none := by
  refine .dynamic (fun supply => ?_) atOnce_fail
  rw [disagree]
  rfl

/-- Two known terms end alike if they are the same empty sequence. -/
theorem atOnce_allEmpty
    {first second : Term}
    (acyclic : subst.Acyclic)
    (known : first.isVar = false ∧ second.isVar = false)
    (default : SeqKind) :
    (allEmpty [first, second] default : Goal Code).AtOnce subst
      (if first.sameNil second then some subst else none) := by
  have firstWalk := Subst.walk_eq_of_ends acyclic (Subst.ends_of_known known.1)
  have secondWalk := Subst.walk_eq_of_ends acyclic (Subst.ends_of_known known.2)
  cases agreed : subst.agreedKind? [first, second] none with
  | none =>
    have differ : first.sameNil second = false := by
      cases first <;> cases second <;> try rfl
      simp_all [Subst.agreedKind?, Term.sameNil]
    rw [differ]
    exact atOnce_allEmpty_none agreed default
  | some kind =>
    have same : ∃ shared, first = .nil shared ∧ second = .nil shared := by
      cases first <;> cases second <;> simp_all [Subst.agreedKind?, Term.isVar]
    rcases same with ⟨shared, rfl, rfl⟩
    have shared_eq : kind = some shared :=
      Subst.eq_of_agreedKind? agreed (.inr ⟨_, List.mem_cons_self, firstWalk⟩)
    subst shared_eq
    have unified : subst.unify (.nil shared) (.nil shared) = some subst :=
      Subst.unify_nil acyclic (.here rfl) (.here rfl)
    have each : (eq (.nil shared) (.nil shared) : Goal Code).AtOnce subst
        (some subst) := by
      rw [← unified]
      exact atOnce_eq _ _
    have same : Term.sameNil (.nil shared) (.nil shared) = true := by
      simp [Term.sameNil]
    rw [same]
    have both := each.both (fun _ => some subst) fun result found => by
      cases found
      exact each
    refine .dynamic (fun supply => ?_) both
    rw [agreed]
    rfl

/-- The end of two sequences, where it is accepted. -/
theorem atOnce_nullCase
    {Base Custom : Type}
    {first second : Term}
    (acyclic : subst.Acyclic)
    (known : first.isVar = false ∧ second.isVar = false)
    (accepted : Bool)
    (default : SeqKind) :
    (nullCase accepted default first second : CodedGoal Base Custom).AtOnce subst
      (if accepted && first.sameNil second then some subst else none) := by
  cases accepted with
  | false => exact atOnce_fail
  | true =>
    rw [nullCase, if_pos rfl, Bool.true_and]
    exact atOnce_allEmpty acyclic known default

/-- A known whole is taken apart, unless it is refused. -/
theorem exists_atOnce_application
    {decomposer : Decomposer}
    {whole : Term}
    (acyclic : subst.Acyclic)
    (known : (subst.reify whole).isVar = false)
    (operator operands : Term) :
    ∃ found,
      (application decomposer operator operands whole : Goal Code).AtOnce subst
          found ∧
        (∀ later ∈ found, later.Acyclic) ∧
        (decomposer.protocol.Refuses (subst.reify whole) → found = none) := by
  rw [Protocol.refuses_iff]
  cases outcome : decomposer.protocol.split (subst.reify whole) with
  | error error =>
    refine ⟨none, .dynamic (fun supply => ?_) atOnce_fail, nofun, fun _ => rfl⟩
    simp only [known, Bool.not_false, if_true, made_takenApart, outcome]
  | ok parts =>
    have apart : (all [eq (subst.reify operator) parts.1,
        eq (subst.reify operands) parts.2] : Goal Code).AtOnce subst _ :=
      (atOnce_eq _ _).both _ fun result _ => atOnce_eq _ _
    refine ⟨_, .dynamic (fun supply => ?_) apart, ?_, nofun⟩
    · simp only [known, Bool.not_false, if_true, made_takenApart, outcome]
    · intro later found
      rcases Option.bind_eq_some_iff.mp found with ⟨middle, first, second⟩
      exact (acyclic.unify first).unify second

/-- Two known terms are not both applications if one of them is refused. -/
theorem atOnce_applications
    {decomposer : Decomposer}
    {first second : Term}
    (acyclic : subst.Acyclic)
    (known : first.isVar = false ∧ second.isVar = false)
    (refused :
      decomposer.protocol.Refuses first ∨ decomposer.protocol.Refuses second)
    (operation : Operation) :
    (both
      (application decomposer (.var operation.operatorIn)
        (.var operation.operandsIn) first)
      (application decomposer (.var operation.operatorOut)
        (.var operation.operandsOut) second) : Goal Code).AtOnce subst none := by
  rcases @exists_atOnce_application Code _ decomposer _ acyclic
      (Subst.isVar_reify acyclic known.1) (.var operation.operatorIn)
      (.var operation.operandsIn) with
    ⟨found, front, keeps, firstRefused⟩
  rcases refused with refused | refused
  · rw [firstRefused (refused.reify known.1 acyclic)] at front
    exact front.both_none _
  · have nothing (middle : Option Subst) :
        (middle.bind fun _ => (none : Option Subst)) = none := by
      cases middle <;> rfl
    rw [← nothing]
    refine front.both _ fun later member => ?_
    have acyclicLater := keeps later member
    rcases @exists_atOnce_application Code _ decomposer _ acyclicLater
        (Subst.isVar_reify acyclicLater known.2) (.var operation.operatorOut)
        (.var operation.operandsOut) with
      ⟨_, last, _, secondRefused⟩
    rwa [secondRefused (refused.reify known.2 acyclicLater)] at last

end Goal

namespace Program

variable {Base Custom : Type} {program : Program Base Custom} {node : Base}
  {settings : WalkSettings Base} {subst : Subst} {first second : Term}

/-- Nothing but a match of empty sequences is found below refused terms. -/
theorem atOnce_walkBelow
    (acyclic : subst.Acyclic)
    (known : first.isVar = false ∧ second.isVar = false)
    (refused :
      settings.decomposer.protocol.Refuses first ∨
        settings.decomposer.protocol.Refuses second)
    (notCells :
      settings.operatorRelation = none →
        first.isCons = false ∨ second.isCons = false)
    (supply : Nat) :
    ((program.walkBelow node settings first second).made supply).1.AtOnce subst
      (if settings.matchesEmpty first second then some subst else none) := by
  cases related : settings.operatorRelation with
  | some operatorRelation =>
    rw [WalkSettings.matchesEmpty, related, made_walkBelow_operator related]
    exact ((Goal.atOnce_applications acyclic known refused _).both_none
      _).both_none _
  | none =>
    have parts := @Goal.atOnce_parts _ Base Custom _ _ acyclic known
      (notCells related) (.numbered supply)
    have ended := @Goal.atOnce_nullCase _ Base Custom _ _ acyclic known
      settings.nullSucceedsAtFirstCall settings.terminator
    rw [WalkSettings.matchesEmpty, related, walkBelow, related]
    cases settings.policy with
    | all =>
      exact ended.either_none_right
        (((parts.both_none _).both_none _).either_none_right Goal.atOnce_fail)
    | any =>
      exact ended.either_none_right
        ((parts.both_none _).either_none_right Goal.atOnce_fail)

/--
A walk of two known terms has the results of the node relation if the protocol
refuses one of them.  Without an operator relation the protocol is not asked,
and the start follows as another result if the terms are the same empty
sequence and such sequences match; two cells are left out then, for they are
gone through whatever the protocol says of them.
-/
theorem walk_of_refuses
    (acyclic : subst.Acyclic)
    (firstKnown : (subst.reify first).isVar = false)
    (secondKnown : (subst.reify second).isVar = false)
    (refused :
      settings.decomposer.protocol.Refuses (subst.reify first) ∨
        settings.decomposer.protocol.Refuses (subst.reify second))
    (notCells :
      settings.operatorRelation = none →
        (subst.reify first).isCons = false ∨
          (subst.reify second).isCons = false)
    (session : Session) :
    ∃ (opened : Nat) (applied : Session),
      let related :=
        (program.relation node (subst.reify first) (subst.reify second)).made
          opened
      let found := (related.1.apply subst).run applied
      session.supply ≤ opened ∧ applied.supply = related.2 ∧
        ((program.walk node settings first second).apply subst).run session =
          (found.1.interleave
            (.ofOption
              (if settings.matchesEmpty (subst.reify first)
                  (subst.reify second) then
                some subst
              else
                none)),
            found.2) := by
  let below := program.walkBelow node settings (subst.reify first)
    (subst.reify second)
  let here := program.relation node (subst.reify first) (subst.reify second)
  let recipe : Recipe (CodedGoal Base Custom) :=
    below.andThen fun below =>
      here.andThen fun here => .done (.either here (.either below .fail))
  let opened := (below.made session.supply).2
  rcases run_applyRecipe recipe subst session with ⟨built, supply, run⟩
  have made :
      recipe.made session.supply =
        (.either (here.made opened).1
          (.either (below.made session.supply).1 .fail),
          (here.made opened).2) := by
    simp only [recipe, Recipe.made_andThen]
    rfl
  rw [made] at supply run
  have nothing := (@atOnce_walkBelow _ _ program node _ _ _ _ acyclic
    ⟨firstKnown, secondKnown⟩ refused notCells session.supply).either_none_right
      Goal.atOnce_fail
  rcases nothing built with ⟨applied, appliedSupply, last⟩
  refine ⟨opened, applied, Recipe.le_made _ _, appliedSupply.trans supply, ?_⟩
  rw [Goal.run_either, last] at run
  exact run

/-- Expressions are walked, and their operators are related. -/
def walkExpressions : WalkSettings Unit where
  operatorRelation := some ()
  terminator := .expr
  policy := .any
  nullSucceedsAtFirstCall := true
  decomposer := .quiet .expr

/-- A relation that gives each term the same name. -/
def nameAll : Program Unit Empty :=
  table fun _ => [.sym "a"]

/--
A list is no expression, so a walk with a relation between operators has only
what the node relation gives.
-/
theorem walk_of_refuses_list :
    let list := Term.sequence .list [.int 1]
    Protocol.expr.Refuses list ∧
      (((nameAll.walk () walkExpressions list (.sym "a")).apply ∅).run
        .start).1 = .unit ∅ := by
  intro list
  have acyclic := Subst.acyclic_empty
  have refused : Protocol.expr.Refuses list := .inl ⟨_, rfl⟩
  have listShown : (∅ : Subst).reify list = list :=
    Subst.reify_eq_of_isGround acyclic rfl
  have nameShown : (∅ : Subst).reify (.sym "a") = .sym "a" :=
    Subst.reify_eq_of_isGround acyclic rfl
  have alone := @walk_of_refuses _ _ nameAll () walkExpressions ∅ list (.sym "a")
    acyclic (by rw [listShown]; rfl) (by rw [nameShown]; rfl)
    (by rw [listShown]; exact .inl refused) nofun .start
  rcases alone with ⟨opened, applied, _, _, run⟩
  have met : (∅ : Subst).unify (.sym "a") (.sym "a") = some ∅ :=
    Subst.unify_eq_of_run acyclic (.same (.here rfl) (.here rfl) rfl .done)
  have named : (Goal.eq (.sym "a") (.sym "a") :
      CodedGoal Unit Empty).AtOnce ∅ (some ∅) := by
    rw [← met]
    exact Goal.atOnce_eq _ _
  have related :
      ((nameAll.relation () list (.sym "a")).made opened).1.AtOnce ∅ (some ∅) :=
    Goal.AtOnce.dynamic (fun _ => rfl)
      (named.either_none_right Goal.atOnce_fail)
  rcases related applied with ⟨later, _, stream⟩
  refine ⟨refused, ?_⟩
  rw [run, listShown, nameShown, stream]
  rfl

/--
Two empty lists are no compound terms and the node relation does not hold, but a
walk with the standard settings relates them.
-/
theorem walk_empty_lists :
    let program : Program Unit Empty := table fun _ => []
    let related : CodedGoal Unit Empty :=
      .dynamic fun _ => program.relation () (.nil .list) (.nil .list)
    let walked := program.walk () .standard (.nil .list) (.nil .list)
    let session : Session := ⟨#["q"], #[]⟩
    Protocol.sequence.Refuses (.nil .list) ∧
      ((related.answers program.unfold 1 1 (.var ⟨0⟩)).run session).1 = [] ∧
      ((walked.answers program.unfold 1 1 (.var ⟨0⟩)).run session).1 =
        [.var ⟨0⟩] := by
  refine ⟨.inl ⟨_, rfl⟩, ?_, ?_⟩
  · decide +kernel
  · decide +kernel

end Program

end RelationalSearch
