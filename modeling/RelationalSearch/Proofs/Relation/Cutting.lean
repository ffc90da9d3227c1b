import RelationalSearch.Proofs.Relation.Checking
import RelationalSearch.Proofs.Relation.Cut

/-!
# Walks that cut through a graph

A walk that asks for all operands, with equal operators, replaces a known graph
as a whole or goes through each of its operands.  Its answers are the outcomes of
all cuts through the graph, each of them once (`Program.walk_finishes_cuts`).

On its way the walk always asks for an output that is open, so no more is needed
of the node relation than what it makes of a known term and a variable
(`Program.Generates`).
-/

namespace RelationalSearch

variable {Base Custom : Type}

/-! ## Open outputs -/

/-- The halves of an open output are the variables of its cell. -/
theorem Located.Halves.eq_var
    {start : Located Subst}
    {supply : Nat}
    {head tail output shownHead shownTail : Term}
    {x : Var}
    {opened : Subst}
    (halves :
      start.Halves supply head tail output (.var x) opened shownHead
        shownTail) :
    shownHead = .var ⟨supply + 2⟩ ∧ shownTail = .var ⟨supply + 3⟩ := by
  -- Each half admits a cell of itself, so neither is a known term.
  have unknown {subst : Subst} {y : Var} {shown : Term}
      (shows : subst.Shows y shown)
      (admitted : shown.admits (.cons shown shown) = true) :
      shown = .var y := by
    cases shown with
    | var z => rw [shows.eq_of_eq_var rfl]
    | cons head tail =>
      have same : head.cons tail = (head.cons tail).cons (head.cons tail) := by
        simpa [Term.admits, Term.isVar] using admitted
      have sizes := congrArg sizeOf (Term.cons.inj same).1
      simp only [Term.cons.sizeOf_spec] at sizes
      omega
    | _ => simp [Term.admits, Term.isVar] at admitted
  have both := halves.admits_eq (.cons shownHead shownHead)
    (.cons shownTail shownTail)
  rw [Term.admits, Term.isVar, Bool.true_or, eq_comm, Bool.and_eq_true] at both
  exact ⟨unknown halves.headShows both.1, unknown halves.tailShows both.2⟩

namespace Program

/-- The values are what the goal relates to the known term, for an open output. -/
def Generates
    (program : Program Base Custom)
    (recipe : Term → Term → Recipe (CodedGoal Base Custom))
    (known : Term)
    (values : List Term) : Prop :=
  ∀ (gaps : Gaps) (start : Located Subst) (input output : Term) (x : Var)
    (supply : Nat),
    start.Question supply ((recipe input output).made supply).2 input known
        output (.var x) →
      ((recipe input output).made supply).1.Gives program.unfold gaps start
        (start.Meets supply ((recipe input output).made supply).2 output
          (.var x))
        values

variable {program : Program Base Custom}
  {recipe : Term → Term → Recipe (CodedGoal Base Custom)} {known : Term}
  {values : List Term}

/-- An open output admits all values. -/
theorem filter_admits_var (x : Var) (values : List Term) :
    values.filter (Term.var x).admits = values :=
  List.filter_eq_self.mpr fun _ _ => rfl

theorem Relates.generates (relates : program.Relates recipe known values) :
    program.Generates recipe known values := by
  intro gaps start input output x supply question
  have given := relates gaps start input output (.var x) supply question
  rwa [filter_admits_var] at given

theorem Generates.shown
    (generates : program.Generates recipe known values)
    (x : Var) :
    program.RelatesShown recipe known (.var x) values :=
  fun gaps start input output supply question =>
    generates gaps start input output x supply question

/-! ## Going through operands -/

section Maps

variable {relation : Relation Base} {kind : SeqKind} {head tail : Term}
  {heads tails : List Term}

/-- At a cell the relation is asked for the head, and the rest for the tail. -/
theorem generates_mapAll_cons
    {accepted : Bool}
    (headsGround : ∀ value ∈ heads, value.isGround = true)
    (onHead : program.Generates (program.relate relation) head heads)
    (onTail : program.Generates (mapAll relation kind true) tail tails) :
    program.Generates (mapAll relation kind accepted) (.cons head tail)
      (heads.flatMap fun value => tails.map (Term.cons value)) := by
  intro gaps start input output x supply question
  rcases question.exists_parts (Nat.le_refl _) (.inl rfl)
      start.place.right.left with
    ⟨opened, shownHead, shownTail, opens, halves⟩
  rcases halves.eq_var with ⟨rfl, rfl⟩
  exact gives_mapAll_halves question opens halves headsGround (onHead.shown _)
    (onTail.shown _)

end Maps

/-! ## Operators that stay -/

section Below

variable {node operators : Base} {settings : WalkSettings Base}
  {head tail : Term} {tails : List Term}

/-- What is found for the head leaves the goal's variables for the operands alone. -/
theorem HeadFound.lookup_eq_none
    {start middle : Located Subst}
    {place : Place}
    {opened : Subst}
    {supply high : Nat}
    {input output value : Term}
    {x y : Var}
    (found : HeadFound place opened 0 0 supply (.var ⟨supply + 2⟩) middle value)
    (halves :
      start.Halves supply head tail output (.var x) opened (.var ⟨supply + 2⟩)
        (.var ⟨supply + 3⟩))
    (question :
      start.Question supply high input (.cons head tail) output (.var x))
    (room : high ≤ place.supply)
    (young : supply + 4 ≤ y.id)
    (below : y.id < high) :
    middle.value.lookup y = none := by
  have unasked : Term.var x ≠ .var y := by
    rintro ⟨⟩
    have outside := (question.apart rfl).2
    omega
  have different : Term.var ⟨supply + 2⟩ ≠ .var y := by
    rintro ⟨⟩
    dsimp only at young
    omega
  refine found.meets.spared y (below.trans_le room) (.inr (Nat.zero_le _))
    different ?_
  exact halves.spared y (.inr young) unasked (question.own y (by omega) below)

/-- Where operators are equal, a cell has the operator and what is below it. -/
theorem generates_walkBelow
    (related : settings.operatorRelation = some operators)
    (equal : ∀ first second,
      program.relation operators first second = pure (.eq first second))
    (accepted :
      settings.decomposer.protocol.split (.cons head tail) = .ok (head, tail))
    (onTail :
      program.Generates
        (fun first second =>
          settings.policy.map (.walk node settings) first second
            settings.mapSettings)
        tail tails) :
    program.Generates (program.walkBelow node settings) (.cons head tail)
      (tails.map (Term.cons head)) := by
  intro gaps start input output x supply question
  have ground := question.ground
  rw [Term.isGround_cons, Bool.and_eq_true] at ground
  rw [made_walkBelow_operator related] at question ⊢
  simp only [equal] at question ⊢
  let elements := (settings.policy.map (.walk node settings)
    (.var ⟨supply + 1⟩) (.var ⟨supply + 3⟩) settings.mapSettings :
      Recipe (CodedGoal Base Custom)).made (supply + 4)
  have enough : supply + 4 ≤ elements.2 := Recipe.le_made _ _
  change start.Question supply elements.2 _ _ _ _ at question
  change (Goal.both (.both (.both
      (.application settings.decomposer (.var ⟨supply⟩) (.var ⟨supply + 1⟩)
        input)
      (.application settings.decomposer (.var ⟨supply + 2⟩)
        (.var ⟨supply + 3⟩) output))
      (.eq (.var ⟨supply⟩) (.var ⟨supply + 2⟩))) elements.1).Gives _ _ _
    (start.Meets supply elements.2 output (.var x)) _
  rcases question.exists_applications program.unfold gaps enough accepted
      (.inl rfl) with
    ⟨place, opened, shownHead, shownTail, later, opens, halves⟩
  rcases halves.eq_var with ⟨rfl, rfl⟩
  have room : elements.2 ≤ place.supply := question.enough.trans later
  have within : opened.Within place.supply :=
    halves.within (question.within.mono later) (enough.trans room)
      fun same => (question.apart same).1.trans_le later
  have onHead : (Goal.eq (.var ⟨supply⟩) (.var ⟨supply + 2⟩)).Gives
      program.unfold gaps ⟨place, opened⟩
      (HeadFound place opened 0 0 supply (.var ⟨supply + 2⟩)) [head] :=
    gives_eq_head halves within (enough.trans room) ground.1
  have behind (middle : Located Subst) (value : Term)
      (found : HeadFound place opened 0 0 supply (.var ⟨supply + 2⟩) middle
        value) :
      elements.1.Gives program.unfold gaps middle
        (middle.Meets (supply + 4) elements.2 (.var ⟨supply + 3⟩)
          (.var ⟨supply + 3⟩)) tails := by
    have tailQuestion : middle.Question (supply + 4) elements.2
        (.var ⟨supply + 1⟩) tail (.var ⟨supply + 3⟩) (.var ⟨supply + 3⟩) := by
      refine halves.tail_question found.meets found.grows found.later
        (enough.trans room) (.inr (Nat.zero_le _)) ground.2
        (room.trans found.later) ?_ (.inl (by omega))
      intro y young below
      exact found.lookup_eq_none halves question room young below
    exact onTail gaps middle (.var ⟨supply + 1⟩) (.var ⟨supply + 3⟩)
      ⟨supply + 3⟩ (supply + 4) tailQuestion
  have cells : ([head].flatMap fun value => tails.map (Term.cons value)) =
      tails.map (Term.cons head) := List.flatMap_singleton _ _
  rw [← cells]
  refine gives_halves halves question.within.acyclic (by simpa using ground.1)
    later ?_ (.both_single opens onHead) behind
  intro y outside
  exact ⟨by omega, .inr (Nat.zero_le _), by omega⟩

end Below

/-! ## Walks -/

section Walk

variable {node operators : Base} {change : Term → Option Term} {graph : Term}

/-- What a call has bound to an open output meets the question. -/
theorem meets_of_answers
    {start result : Located Subst}
    {low high bound : Nat}
    {input output value : Term}
    {x : Var}
    (question : start.Question low high input known output (.var x))
    (answers : result.Answers bound start.value x value)
    (grows : start.value.Grows result.value)
    (later : start.place.supply ≤ bound) :
    start.Meets low high output (.var x) result value where
  within := answers.within
  reify_eq := by
    have acyclic := question.within.acyclic
    have unbound : start.value.lookup x = none :=
      question.outputEnds.next?_eq_none
    rw [← answers.reify_eq]
    refine grows.reify_congr acyclic ?_
    rw [question.reify_output, Subst.reify_var_eq_self acyclic unbound]
  spared y below _ other unbound :=
    answers.spared y (below.trans_le later) (fun same => other (same ▸ rfl))
      unbound

/-- A walk calls the node relation, and it goes on below. -/
theorem generates_walk
    {settings : WalkSettings Base}
    (acts : program.ActsAs node change)
    (below : program.Generates (program.walkBelow node settings) known values) :
    program.Generates (program.relate (.walk node settings)) known
      ((change known).toList ++ values) := by
  intro gaps start input output x supply question
  have acyclic := question.within.acyclic
  have input_eq := Subst.reify_eq_of_ends acyclic question.inputEnds
    question.ground
  have unbound : start.value.lookup x = none :=
    question.outputEnds.next?_eq_none
  refine .dynamic ?_
  simp only [input_eq, question.reify_output]
  rw [Recipe.goalAt, Located.enter, made_level]
  let opening := start.place.opening gaps
  let level := (program.walkBelow node settings known (.var x)).made opening
  let here := (program.relation node known (.var x)).made level.2
  let place := start.place.built here.2
  have opened : start.place.supply ≤ opening := start.place.le_opening gaps
  have levelLe : opening ≤ level.2 := Recipe.le_made _ _
  have hereLe : level.2 ≤ here.2 := Recipe.le_made _ _
  have onNode : here.1.Gives program.unfold gaps ⟨place.left, start.value⟩
      (start.Meets supply supply output (.var x)) (change known).toList := by
    have called := acts.calls question.ground
      (question.within.mono (opened.trans levelLe)) unbound
      ((question.apart rfl).1.trans_le (opened.trans levelLe))
    rcases called.exists_gives gaps place.left.trace with
      ⟨ordered, given, permuted⟩
    rw [eq_toList_of_perm permuted] at given
    rw [← List.map_id (change known).toList]
    refine given.imp acyclic ?_
    intro result value grows _ answers
    exact meets_of_answers question answers grows (opened.trans levelLe)
  have onLevel : level.1.Gives program.unfold gaps
      ⟨place.right.left, start.value⟩
      (start.Meets supply supply output (.var x)) values :=
    gives_again question opened levelLe hereLe
      (Subst.ends_of_isGround question.ground)
      (Subst.ends_of_lookup_eq_none unbound)
      (below gaps ⟨place.right.left, start.value⟩ known (.var x) x opening)
  exact .either onNode (.either_nil_right onLevel .fail)

end Walk

end Program

/-- Operators are related by themselves, and every operand has to be walked. -/
def WalkSettings.everyOperand (operators : Base) : WalkSettings Base :=
  { (.standard : WalkSettings Base) with
    operatorRelation := some operators
    policy := .all }

namespace Program

section Cuts

variable {program : Program Base Custom} {node operators : Base}
  {change : Term → Option Term} {graph : Term}

/-- A walk of a known term gives what comes of the cuts through it. -/
theorem generates_cuts
    (acts : program.ActsAs node change)
    (equal : ∀ first second,
      program.relation operators first second = pure (.eq first second))
    (ground : graph.isGround = true) :
    program.Generates
        (program.relate (.walk node (.everyOperand operators))) graph
        ((graph.cutsList change).map (graph.revised change)) ∧
      program.Generates
        (mapAll (.walk node (.everyOperand operators)) .expr true) graph
        ((graph.cutsEachList change).map (graph.revisedBelow change)) := by
  -- What is no cell is replaced as a whole, or it is the end of a sequence.
  have single {graph : Term} (notCell : graph.isCons = false) :
      program.Generates
        (program.relate (.walk node (.everyOperand operators))) graph
        ((graph.cutsList change).map (graph.revised change)) := by
    have refused : ∃ error, Protocol.sequence.split graph = .error error := by
      cases graph with
      | cons => cases notCell
      | _ => exact ⟨_, rfl⟩
    rcases refused with ⟨error, refused⟩
    rw [Term.map_revised_cutsList_of_single notCell,
      ← List.append_nil (change graph).toList]
    exact generates_walk acts (relates_of_refused rfl refused).generates
  induction graph with
  | cons head tail headIH tailIH =>
    rw [Term.isGround_cons, Bool.and_eq_true] at ground
    have onTail := (tailIH ground.2).2
    constructor
    · rw [Term.map_revised_cutsList_cons]
      exact generates_walk acts (generates_walkBelow rfl equal rfl onTail)
    · rw [Term.map_revisedBelow_cutsEachList]
      refine generates_mapAll_cons ?_ (headIH ground.1).1 onTail
      intro value member
      rcases List.mem_map.mp member with ⟨moves, _, rfl⟩
      exact Term.isGround_revised acts.ground ground.1 moves
  | nil kind =>
    exact ⟨single rfl, (relates_mapAll_of_notCell true rfl).generates⟩
  | _ => exact ⟨single rfl, (relates_mapAll_of_notCell true rfl).generates⟩

/--
A walk of a known graph that asks for all operands, with equal operators, ends,
and its answers are the outcomes of the cuts through the graph, each of them
once.  A cut puts there what the node relation makes of a part at each of its
positions.  All that is not above, at or below one of them stays, and operators
do so as well.
-/
theorem walk_finishes_cuts
    (acts : program.ActsAs node change)
    (equal : ∀ first second,
      program.relation operators first second = pure (.eq first second))
    (ground : graph.isGround = true)
    (ends : graph.chainsEnd = true)
    {query : Var}
    {session : Session}
    (minted : query.id < session.supply) :
    ∃ cuts : List (Cut change graph),
      cuts.Nodup ∧
        (∀ cut, cut ∈ cuts) ∧
        (program.walk node (.everyOperand operators) graph
          (.var query)).Finishes program.unfold (.var query) session
          (cuts.map Cut.result) ∧
        (∀ (cut : Cut change graph), ∀ path ∈ cut.positions,
          cut.result.at? path = (graph.at? path).bind change) ∧
        ∀ (cut : Cut change graph) (path : List Nat) (part : Term),
          graph.at? path = some part →
            (∀ other ∈ cut.positions, ¬ other <+: path ∧ ¬ path <+: other) →
              cut.result.at? path = some part := by
  rcases Gaps.exists_fit program.unfold
      (program.walk node (.everyOperand operators) graph (.var query)) ∅
      session with
    ⟨gaps, fit⟩
  have asked := question_root session ground
    (Subst.ends_of_lookup_eq_none (Subst.lookup_empty query)) (.inl rfl)
    (by rintro _ ⟨⟩; exact minted)
  rcases (generates_cuts acts equal ground).1 gaps _ _ _ _ _ asked with
    ⟨found, listing, meets⟩
  rcases listing.exists_completes with ⟨results, completes, permuted⟩
  rw [List.forall₂_map_right_iff] at meets
  rcases List.perm_comp_forall₂ permuted meets with
    ⟨moves, resultsMeet, reordered⟩
  rcases Cut.exists_list ends reordered with ⟨cuts, rfl, nodup, complete⟩
  rw [List.forall₂_map_right_iff] at resultsMeet
  refine ⟨cuts, nodup, complete, completes.finishes fit ?_,
    fun cut _ member => cut.at?_result_of_mem member,
    fun cut _ _ found apart => cut.at?_result_of_apart found apart⟩
  rw [List.forall₂_map_right_iff]
  exact resultsMeet.imp fun _ _ meets => meets.reify_eq

/-- A relation that is given by a table, and one that holds of equal terms. -/
def tableWithEqual (steps : Term → List Term) : Program Bool Empty where
  relation
    | false => tabled steps
    | true => fun first second => pure (.eq first second)
  custom name := name.elim

/-- The only answer for `add(-1, mul(-2, -3))`, where integers are replaced. -/
theorem walk_finishes_cuts_flipNegative :
    ((tableWithEqual fun term => (flipNegative term).toList).walk false
      (.everyOperand true)
      (.expr (.sym "add") [.int (-1), .expr (.sym "mul") [.int (-2), .int (-3)]])
      (.var ⟨0⟩)).Finishes
        (tableWithEqual fun term => (flipNegative term).toList).unfold
        (.var ⟨0⟩) ⟨#["q"], #[]⟩
        [.expr (.sym "add") [.int 1, .expr (.sym "mul") [.int 2, .int 3]]] := by
  let program := tableWithEqual fun term => (flipNegative term).toList
  let graph : Term :=
    .expr (.sym "add") [.int (-1), .expr (.sym "mul") [.int (-2), .int (-3)]]
  have acts : program.ActsAs false flipNegative :=
    actsAs_of_tabled (fun _ _ => rfl) isGround_of_flipNegative
  rcases @walk_finishes_cuts _ _ program false true _ graph acts
      (fun _ _ => rfl) rfl rfl ⟨0⟩ ⟨#["q"], #[]⟩ Nat.one_pos with
    ⟨cuts, nodup, complete, finishes, _⟩
  have permuted := Cut.perm_cutsList rfl nodup complete
  have results : cuts.map Cut.result =
      (cuts.map fun cut => Moves.replacing cut.positions).map
        (graph.revised flipNegative) := by
    rw [List.map_map]
    rfl
  have single : ∃ moves, graph.cutsList flipNegative = [moves] ∧
      graph.revised flipNegative moves =
        .expr (.sym "add") [.int 1, .expr (.sym "mul") [.int 2, .int 3]] :=
    ⟨_, rfl, rfl⟩
  rcases single with ⟨moves, listed, value⟩
  rw [listed, List.perm_singleton] at permuted
  rw [results, permuted, List.map_singleton, value] at finishes
  exact finishes

end Cuts

end Program

end RelationalSearch
