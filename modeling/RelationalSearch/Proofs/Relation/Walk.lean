import RelationalSearch.Proofs.Relation.Call
import RelationalSearch.Proofs.Relation.Enumeration

/-!
# Walking from a known graph

A walk relates a known graph to the terms that come of it where the node
relation is applied at some positions.  With the standard settings its answers
are those of all revisions, each of them once (`Program.walk_finishes`).

The proof goes through the graph as the search does.  A walk of a term either
calls the node relation or goes through the elements (`Program.Walks`), and at
each cell the element is either walked or left as it is
(`Program.MapsAny`).  The cells of the outcome are made of fresh variables,
which stand for the parts of the outcome as soon as these are known.
-/

namespace RelationalSearch

variable {Base Custom : Type}

namespace Program

variable (program : Program Base Custom) (node : Base)

/--
The node relation relates each ground term to the one that the function gives,
if there is one, and to no other.
-/
structure ActsAs (change : Term → Option Term) : Prop where
  ground :
    ∀ {term replaced}, term.isGround = true →
      change term = some replaced → replaced.isGround = true
  calls :
    ∀ {term x subst supply}, term.isGround = true →
      subst.Within supply → subst.lookup x = none → x.id < supply →
        program.Calls (.base node) term x subst supply (change term).toList

/-! ## What is proved of the parts of a walk -/

/-- A walk of the term gives the variable of the outcome these values. -/
def Walks (term : Term) (values : List Term) : Prop :=
  ∀ (gaps : Gaps) (start : Located Subst) (input : Term) (y : Var),
    start.value.Within start.place.supply →
    start.value.Ends input term →
    start.value.lookup y = none →
    y.id < start.place.supply →
      (program.walk node .standard input (.var y)).Gives program.unfold gaps
        start (Located.Answers start.place.supply start.value y) values

/--
Going through the rest of a sequence gives the variable of the outcome these
values.
-/
def MapsAny (cursor : MapCursor) (term : Term) (values : List Term) : Prop :=
  ∀ (gaps : Gaps) (start : Located Subst) (input : Term) (y : Var)
    (supply : Nat),
    start.value.Within supply →
    supply + 4 ≤ start.place.supply →
    start.value.Ends input term →
    start.value.lookup y = none →
    y.id < supply →
      ((mapAny (.walk node .standard) .expr true cursor input
          (.var y)).made supply).1.Gives program.unfold gaps start
        (Located.Answers supply start.value y) values

end Program

/-! ## The end of a sequence -/

section Null

variable {Code : Type} {goalOf : Code → Recipe (Goal Code)} {gaps : Gaps}
  {start : Located Subst} {input : Term} {y : Var} {supply : Nat}

/-- The end of a sequence is that of the outcome. -/
theorem Goal.gives_allEmpty_nil
    {kind : SeqKind}
    (within : start.value.Within supply)
    (enough : supply ≤ start.place.supply)
    (ends : start.value.Ends input (.nil kind))
    (unbound : start.value.lookup y = none)
    (inside : y.id < supply)
    (default : SeqKind) :
    (Goal.allEmpty [input, .var y] default).Gives goalOf gaps start
      (Located.Answers supply start.value y) [.nil kind] := by
  have yEnds := Subst.ends_of_lookup_eq_none unbound
  have agreed :
      start.value.agreedKind? [input, .var y] none = some (some kind) := by
    simp [Subst.agreedKind?, Subst.walk_eq_of_ends within.acyclic ends,
      Subst.walk_eq_of_ends within.acyclic yEnds]
  have same : start.value.unify input (.nil kind) = some start.value :=
    Subst.unify_nil within.acyclic ends (.here rfl)
  have bound := Subst.unify_var_of_isGround within.acyclic yEnds
    (Term.isGround_nil kind)
  refine .dynamic ?_
  simp only [agreed]
  refine .both_single (.unified same) (.unified bound ?_)
  refine Located.answers_bind within inside rfl ?_
  exact Nat.le_trans enough (Nat.le_add_right _ _)

/-- A term that is no empty sequence does not end a sequence. -/
theorem Goal.gives_allEmpty_of_ne
    {term : Term}
    (acyclic : start.value.Acyclic)
    (ends : start.value.Ends input term)
    (ground : term.isGround = true)
    (notNil : ∀ kind, term ≠ .nil kind)
    (default : SeqKind)
    (related : Located Subst → Term → Prop) :
    (Goal.allEmpty [input, .var y] default).Gives goalOf gaps start related
      [] := by
  have agreed : start.value.agreedKind? [input, .var y] none = none := by
    rw [Subst.agreedKind?, Subst.walk_eq_of_ends acyclic ends]
    cases term with
    | var => simp at ground
    | nil kind => exact (notNil kind rfl).elim
    | _ => rfl
  refine .dynamic ?_
  simp only [agreed]
  exact .fail

theorem gives_nullCase_of_ne
    {Base Custom : Type}
    {program : Program Base Custom}
    {before : Subst}
    {term : Term}
    (acyclic : before.Acyclic)
    (ends : before.Ends input term)
    (ground : term.isGround = true)
    (notNil : ∀ kind, term ≠ .nil kind)
    (accepted : Bool)
    (kind : SeqKind)
    (place : Place)
    (related : Located Subst → Term → Prop) :
    (nullCase accepted kind input (.var y)).Gives program.unfold gaps
      ⟨place, before⟩ related [] := by
  cases accepted with
  | true => exact Goal.gives_allEmpty_of_ne acyclic ends ground notNil kind _
  | false => exact .fail

end Null

/-! ## Cells -/

/--
A cell of the input has been taken apart, and one of the outcome has been made
of two variables that are still unbound.
-/
structure Subst.Opened
    (before opened : Subst)
    (supply : Nat)
    (y : Var)
    (head tail : Term) : Prop where
  within : opened.Within (supply + 4)
  head_eq : opened.lookup ⟨supply⟩ = some head
  tail_eq : opened.lookup ⟨supply + 1⟩ = some tail
  outcome_eq :
    opened.lookup y =
      some (.cons (.var ⟨supply + 2⟩) (.var ⟨supply + 3⟩))
  headUnbound : opened.lookup ⟨supply + 2⟩ = none
  tailUnbound : opened.lookup ⟨supply + 3⟩ = none
  spared :
    ∀ x : Var, x.id < supply → x ≠ y → before.lookup x = none →
      opened.lookup x = none

section Cell

variable {before : Subst} {supply : Nat} {y : Var} {input head tail : Term}

/-- With fresh variables a cell can be opened. -/
theorem Subst.Within.exists_opened
    (within : before.Within supply)
    (ends : before.Ends input (.cons head tail))
    (headGround : head.isGround = true)
    (tailGround : tail.isGround = true)
    (unbound : before.lookup y = none)
    (inside : y.id < supply) :
    ∃ middle opened,
      before.unify (.cons (.var ⟨supply⟩) (.var ⟨supply + 1⟩)) input =
          some middle ∧
        middle.unify (.cons (.var ⟨supply + 2⟩) (.var ⟨supply + 3⟩))
            (.var y) =
          some opened ∧
        before.Opened opened supply y head tail := by
  have fresh (index : Nat) : before.lookup ⟨supply + index⟩ = none :=
    within.lookup_eq_none (Nat.le_add_right supply index)
  have apart (index : Nat) : (⟨supply + index⟩ : Var) ≠ y := by
    rintro rfl
    exact absurd inside (by simp)
  let middle := (before.bind ⟨supply⟩ head).bind ⟨supply + 1⟩ tail
  let cell : Term := .cons (.var ⟨supply + 2⟩) (.var ⟨supply + 3⟩)
  have kept (x : Var) (first : x ≠ ⟨supply⟩) (second : x ≠ ⟨supply + 1⟩) :
      middle.lookup x = before.lookup x := by
    rw [lookup_bind_of_ne _ _ second.symm, lookup_bind_of_ne _ _ first.symm]
  have middleWithin : middle.Within (supply + 4) := by
    refine Within.bind_of_isGround ?_ (by simp) tailGround
    exact (within.mono (by omega)).bind_of_isGround (by simp) headGround
  have headFree : middle.lookup ⟨supply + 2⟩ = none := by
    rw [kept _ (by simp) (by simp), fresh 2]
  have tailFree : middle.lookup ⟨supply + 3⟩ = none := by
    rw [kept _ (by simp) (by simp), fresh 3]
  have yFree : middle.lookup y = none := by
    rw [kept y (apart 0).symm (apart 1).symm, unbound]
  have yApart : ¬ middle.Reaches cell y := by
    rw [reaches_cons_iff, reaches_var_iff headFree, reaches_var_iff tailFree]
    exact not_or.mpr ⟨apart 2, apart 3⟩
  refine ⟨middle, middle.bind y cell,
    unify_cell within.acyclic ends headGround tailGround (fresh 0) (fresh 1)
      (by simp),
    unify_eq_bind middleWithin.acyclic (.here rfl)
      (ends_of_lookup_eq_none yFree) rfl yApart, ?_⟩
  constructor
  · refine middleWithin.bind (by omega) ?_ yApart
    simp [cell, Term.ceiling]
  · have different : (⟨supply⟩ : Var) ≠ y := apart 0
    rw [lookup_bind_of_ne _ _ different.symm,
      lookup_bind_of_ne _ _ (by simp), lookup_bind_self]
  · rw [lookup_bind_of_ne _ _ (apart 1).symm, lookup_bind_self]
  · rw [lookup_bind_self]
  · rw [lookup_bind_of_ne _ _ (apart 2).symm, headFree]
  · rw [lookup_bind_of_ne _ _ (apart 3).symm, tailFree]
  · intro x low different free
    have young (index : Nat) : x ≠ ⟨supply + index⟩ := by
      rintro rfl
      exact absurd low (by simp)
    rw [lookup_bind_of_ne _ _ different.symm, kept x (young 0) (young 1),
      free]

/-- The outcome is the cell of the answers for the head and for the tail. -/
theorem Subst.Opened.answers
    {opened : Subst}
    (cells : before.Opened opened supply y head tail)
    {middle result : Located Subst}
    {headValue tailValue : Term}
    {later : Nat}
    (headGrows : opened.Grows middle.value)
    (headAnswers :
      middle.Answers (supply + 4) opened ⟨supply + 2⟩ headValue)
    (headGround : headValue.isGround = true)
    (tailGrows : middle.value.Grows result.value)
    (tailAnswers :
      result.Answers later middle.value ⟨supply + 3⟩ tailValue)
    (ordered : supply + 4 ≤ later) :
    result.Answers supply before y (.cons headValue tailValue) where
  within := tailAnswers.within
  reify_eq := by
    have acyclic := tailAnswers.within.acyclic
    have bound := tailGrows.kept (headGrows.kept cells.outcome_eq)
    have headKept := tailGrows.reify_eq_of_isGround headGrows.acyclic
      (by rw [headAnswers.reify_eq]; exact headGround)
    rw [reify_bound acyclic bound, reify_cons acyclic, tailAnswers.reify_eq,
      headKept, headAnswers.reify_eq]
  spared x low different unbound := by
    have young (index : Nat) : x ≠ ⟨supply + index⟩ := by
      rintro rfl
      exact absurd low (by simp)
    refine tailAnswers.spared x (by omega) (young 3) ?_
    refine headAnswers.spared x (by omega) (young 2) ?_
    exact cells.spared x low different unbound

end Cell

namespace Program

variable {program : Program Base Custom} {node : Base}

/-! ## Going through a sequence -/

/-- The goals of one level of a sequence. -/
theorem made_mapAny
    (relation : Relation Base)
    (kind : SeqKind)
    (nullSucceeds : Bool)
    (cursor : MapCursor)
    (first second : Term)
    (supply : Nat) :
    ((mapAny relation kind nullSucceeds cursor first second :
        Recipe (CodedGoal Base Custom)).made supply).1 =
      let head : Term := .var ⟨supply⟩
      let tail : Term := .var ⟨supply + 1⟩
      let otherHead : Term := .var ⟨supply + 2⟩
      let otherTail : Term := .var ⟨supply + 3⟩
      let tails (related : Bool) : CodedGoal Base Custom :=
        .defer (.mapAny relation kind nullSucceeds (cursor.next related) tail
          otherTail)
      .either (nullCase (cursor.acceptsNull nullSucceeds) kind first second)
        (.either
          (.both
            (.both (.cons head tail first) (.cons otherHead otherTail second))
            (.either (.both (.defer (.relate relation head otherHead))
                (tails true))
              (.either (.both (.eq head otherHead) (tails false)) .fail)))
          .fail) :=
  rfl

section Cells

variable {gaps : Gaps} {y : Var} {supply : Nat} {before : Subst}
  {head tail : Term}

/-- Behind each answer for the head come those for the tail. -/
theorem gives_both_tails
    {opened : Subst}
    {cursor : MapCursor}
    {heads tails : List Term}
    {first : CodedGoal Base Custom}
    (place : Place)
    (cells : before.Opened opened supply y head tail)
    (enough : supply + 4 ≤ place.supply)
    (tailGround : tail.isGround = true)
    (headsGround : ∀ value ∈ heads, value.isGround = true)
    (onHeads :
      first.Gives program.unfold gaps ⟨place, opened⟩
        (Located.Answers (supply + 4) opened ⟨supply + 2⟩) heads)
    (onTails : program.MapsAny node cursor tail tails) :
    (Goal.both first (.defer (.mapAny (.walk node .standard) .expr true cursor
        (.var ⟨supply + 1⟩) (.var ⟨supply + 3⟩)))).Gives program.unfold gaps
      ⟨place, opened⟩ (Located.Answers supply before y)
      (heads.flatMap fun value => tails.map (Term.cons value)) := by
  refine onHeads.both cells.within.acyclic ?_
  intro middle value member grows later answers
  have tailBound := grows.kept cells.tail_eq
  have tailFree : middle.value.lookup ⟨supply + 3⟩ = none :=
    answers.spared _ (by simp) (by simp) cells.tailUnbound
  have reached : supply + 4 ≤ middle.place.opening gaps :=
    Nat.le_trans (Nat.le_trans enough later) (Nat.le_add_right _ _)
  have behind := onTails gaps
    ⟨middle.place.built (middle.place.opening gaps + 4), middle.value⟩
    (.var ⟨supply + 1⟩) ⟨supply + 3⟩ (middle.place.opening gaps)
    (answers.within.mono (Nat.le_add_right _ _)) (Nat.le_refl _)
    (Subst.ends_of_lookup_eq_some tailBound tailGround) tailFree
    (Nat.lt_of_lt_of_le (by simp) reached)
  refine Goal.Gives.imp (.defer behind) grows.acyclic ?_
  intro result tailValue resultGrows _ tailAnswers
  exact cells.answers grows answers (headsGround value member) resultGrows
    tailAnswers reached

theorem gives_defer_walk
    {opened : Subst}
    {heads : List Term}
    (onHead : program.Walks node head heads)
    (gaps : Gaps)
    (place : Place)
    (enough : supply + 4 ≤ place.supply)
    (cells : before.Opened opened supply y head tail)
    (headGround : head.isGround = true) :
    (Goal.defer (.relate (.walk node .standard) (.var ⟨supply⟩)
        (.var ⟨supply + 2⟩))).Gives program.unfold gaps ⟨place, opened⟩
      (Located.Answers (supply + 4) opened ⟨supply + 2⟩) heads := by
  have opening : place.supply ≤ place.opening gaps := Nat.le_add_right _ _
  have walked := onHead gaps ⟨place.built (place.opening gaps), opened⟩
    (.var ⟨supply⟩) ⟨supply + 2⟩
    (cells.within.mono (Nat.le_trans enough opening))
    (Subst.ends_of_lookup_eq_some cells.head_eq headGround)
    cells.headUnbound (by simp only [Place.built]; omega)
  refine Goal.Gives.mono (.defer walked) ?_
  intro result value answers
  exact answers.mono (Nat.le_trans enough opening)

theorem gives_eq_heads
    {opened : Subst}
    (program : Program Base Custom)
    (gaps : Gaps)
    (place : Place)
    (enough : supply + 4 ≤ place.supply)
    (cells : before.Opened opened supply y head tail)
    (headGround : head.isGround = true) :
    (Goal.eq (.var ⟨supply⟩) (.var ⟨supply + 2⟩)).Gives program.unfold gaps
      ⟨place, opened⟩ (Located.Answers (supply + 4) opened ⟨supply + 2⟩)
      [head] := by
  have success := Subst.unify_of_isGround_var cells.within.acyclic
    (Subst.ends_of_lookup_eq_some cells.head_eq headGround) headGround
    (Subst.ends_of_lookup_eq_none cells.headUnbound)
  exact .unified success
    (Located.answers_bind cells.within (by simp) headGround enough)

/-- At a cell the head is walked, or else it is left as it is. -/
theorem mapsAny_cons
    {cursor : MapCursor}
    {heads tails rest : List Term}
    (headGround : head.isGround = true)
    (tailGround : tail.isGround = true)
    (headsGround : ∀ value ∈ heads, value.isGround = true)
    (onHead : program.Walks node head heads)
    (onTails : program.MapsAny node (cursor.next true) tail tails)
    (onRest : program.MapsAny node (cursor.next false) tail rest) :
    program.MapsAny node cursor (.cons head tail)
      ((heads.flatMap fun value => tails.map (Term.cons value)) ++
        rest.map (Term.cons head)) := by
  intro gaps start input y supply within enough ends unbound inside
  rcases within.exists_opened ends headGround tailGround unbound inside with
    ⟨middle, opened, first, second, cells⟩
  have ended : (nullCase (cursor.acceptsNull true) .expr input
      (.var y)).Gives program.unfold gaps ⟨start.place.left, start.value⟩
        (Located.Answers supply start.value y) [] :=
    gives_nullCase_of_ne within.acyclic ends (by simp [headGround, tailGround])
      nofun _ _ _ _
  have opens : Listing program.unfold gaps
      (.both (.cons (.var ⟨supply⟩) (.var ⟨supply + 1⟩) input)
        (.cons (.var ⟨supply + 2⟩) (.var ⟨supply + 3⟩) (.var y)))
      ⟨start.place.right.left, start.value⟩
      [⟨start.place.right.left, opened⟩] :=
    .both_single (.unified first) (.unified second)
  let related := start.place.right.left.left
  let same := start.place.right.left.right.left
  have walked := gives_defer_walk onHead gaps related enough cells headGround
  have unchanged := gives_eq_heads program gaps same enough cells headGround
  have moved := gives_both_tails related cells enough tailGround headsGround
    walked onTails
  have still := gives_both_tails same cells enough tailGround
    (by simpa using headGround) unchanged onRest
  rw [List.flatMap_singleton] at still
  have inside := Goal.Gives.both_single opens
    (.either moved (.either still .fail))
  have all := Goal.Gives.either ended (.either inside .fail)
  rw [made_mapAny]
  simpa using all

end Cells

/-- What is no cell has no elements to go through. -/
theorem gives_cells_of_notCell
    {Code : Type}
    {goalOf : Code → Recipe (Goal Code)}
    {gaps : Gaps}
    {place : Place}
    {before : Subst}
    {input term : Term}
    (acyclic : before.Acyclic)
    (ends : before.Ends input term)
    (ground : term.isGround = true)
    (notCell : term.isCons = false)
    (head tail : Term)
    (second third : Goal Code)
    (related : Located Subst → Term → Prop) :
    (Goal.either (.both (.both (.cons head tail input) second) third)
      .fail).Gives goalOf gaps ⟨place, before⟩ related [] := by
  have notVar := Term.isVar_eq_false_of_isGround ground
  have failure : before.unify (.cons head tail) input = none :=
    Subst.unify_cell_eq_none acyclic ends notVar notCell
  have first : Listing goalOf gaps (.cons head tail input)
      ⟨place.left, before⟩ [] := .clash failure
  change Goal.Gives _ _ _ _ _ ([] ++ [])
  exact .either (.both_nil (.both_nil first second) third) .fail

/-- The end of a sequence may be reached if some element has moved. -/
theorem mapsAny_nil (cursor : MapCursor) (kind : SeqKind) :
    program.MapsAny node cursor (.nil kind)
      (if cursor.acceptsNull true then [.nil kind] else []) := by
  intro gaps start input y supply within enough ends unbound inside
  have ended : (nullCase (cursor.acceptsNull true) .expr input
      (.var y)).Gives program.unfold gaps ⟨start.place.left, start.value⟩
        (Located.Answers supply start.value y)
        (if cursor.acceptsNull true then [.nil kind] else []) := by
    cases cursor.acceptsNull true with
    | true =>
      let left : Located Subst := ⟨start.place.left, start.value⟩
      exact @Goal.gives_allEmpty_nil _ _ _ left _ _ _ _ within
        (Nat.le_trans (Nat.le_add_right _ _) enough) ends unbound inside _
    | false => exact .fail
  rw [made_mapAny,
    ← List.append_nil
      (if cursor.acceptsNull true then [Term.nil kind] else [])]
  exact .either ended
    (gives_cells_of_notCell within.acyclic ends rfl rfl _ _ _ _ _)

/-- Other terms have no end that could be reached. -/
theorem mapsAny_of_ne
    {term : Term}
    (cursor : MapCursor)
    (ground : term.isGround = true)
    (notCell : term.isCons = false)
    (notNil : ∀ kind, term ≠ .nil kind) :
    program.MapsAny node cursor term [] := by
  intro gaps start input y supply within enough ends unbound inside
  rw [made_mapAny]
  change Goal.Gives _ _ _ _ _ ([] ++ [])
  exact .either
    (gives_nullCase_of_ne within.acyclic ends ground notNil _ _ _ _)
    (gives_cells_of_notCell within.acyclic ends ground notCell _ _ _ _ _)

/-! ## Walking a term -/

/-- The goals of one level of a walk, as they are built. -/
theorem made_walk
    (program : Program Base Custom)
    (node : Base)
    (graphIn graphOut : Term)
    (supply : Nat) :
    (show Recipe (CodedGoal Base Custom) from do
      let below ← program.walkBelow node .standard graphIn graphOut
      let here ← program.relation node graphIn graphOut
      pure (.any [[here], [below]])).made supply =
      let below := (mapAny (.walk node .standard) .expr true (.start false)
        graphIn graphOut).made supply
      let here := (program.relation node graphIn graphOut).made (supply + 4)
      (.either here.1 (.either below.1 .fail), here.2) := by
  simp only [Recipe.bind_eq_andThen, Recipe.made_andThen]
  rfl

/-- A walk calls the node relation, and it goes through the elements. -/
theorem walks
    {change : Term → Option Term}
    (acts : program.ActsAs node change)
    {term : Term}
    (ground : term.isGround = true)
    {values : List Term}
    (below : program.MapsAny node (.start false) term values) :
    program.Walks node term ((change term).toList ++ values) := by
  intro gaps start input y within ends unbound inside
  have input_eq := Subst.reify_eq_of_ends within.acyclic ends ground
  have output_eq := Subst.reify_var_eq_self within.acyclic unbound
  refine .dynamic ?_
  simp only [input_eq, output_eq]
  rw [Recipe.goalAt, Located.enter, made_walk]
  let opening := start.place.opening gaps
  have opened : start.place.supply ≤ opening := Nat.le_add_right _ _
  have withinOpening : start.value.Within opening := within.mono opened
  let made := (program.relation node term (.var y)).made (opening + 4)
  have enough : opening + 4 ≤ made.2 := Recipe.le_made _ _
  let place := start.place.built made.2
  have calls := acts.calls ground (withinOpening.mono (Nat.le_add_right _ 4))
    unbound (by omega)
  rcases calls.exists_gives gaps place.left.trace with
    ⟨ordered, called, permuted⟩
  have here : made.1.Gives program.unfold gaps ⟨place.left, start.value⟩
      (Located.Answers start.place.supply start.value y)
      (change term).toList := by
    rw [← eq_toList_of_perm permuted]
    refine called.mono ?_
    intro result value answers
    exact answers.mono (by omega)
  have elements := below gaps ⟨place.right.left, start.value⟩ term y opening
    withinOpening enough (Subst.ends_of_isGround ground) unbound (by omega)
  have inside : ((mapAny (.walk node .standard) .expr true (.start false) term
      (.var y)).made opening).1.Gives program.unfold gaps
      ⟨place.right.left, start.value⟩
      (Located.Answers start.place.supply start.value y) values :=
    elements.mono fun result value answers => answers.mono opened
  rw [← List.append_nil values]
  exact .either here (.either inside .fail)

/-- A walk of a known term gives what comes of its revisions. -/
theorem gives_revisions
    {change : Term → Option Term}
    (acts : program.ActsAs node change)
    {graph : Term}
    (ground : graph.isGround = true) :
    program.Walks node graph
        ((graph.movesList change).map (graph.revised change)) ∧
      ∀ cursor : MapCursor, cursor.first = false →
        program.MapsAny node cursor graph
          ((graph.linkMoves change cursor.anySucceeded).map
            (graph.revisedBelow change)) := by
  induction graph with
  | cons head tail headIH tailIH =>
    rw [Term.isGround_cons, Bool.and_eq_true] at ground
    have headsGround : ∀ value ∈
        (head.movesList change).map (head.revised change),
        value.isGround = true := by
      intro value member
      rcases List.mem_map.mp member with ⟨moves, _, rfl⟩
      exact Term.isGround_revised acts.ground ground.1 moves
    have maps (cursor : MapCursor) :
        program.MapsAny node cursor (.cons head tail)
          (((Term.cons head tail).linkMoves change cursor.anySucceeded).map
            ((Term.cons head tail).revisedBelow change)) := by
      have onTails :
          program.MapsAny node (cursor.next true) tail
            ((tail.linkMoves change true).map (tail.revisedBelow change)) := by
        simpa [MapCursor.next] using (tailIH ground.2).2 (cursor.next true) rfl
      have onRest :
          program.MapsAny node (cursor.next false) tail
            ((tail.linkMoves change cursor.anySucceeded).map
              (tail.revisedBelow change)) := by
        simpa [MapCursor.next] using (tailIH ground.2).2 (cursor.next false) rfl
      rw [Term.map_revisedBelow_linkMoves]
      exact mapsAny_cons ground.1 ground.2 headsGround (headIH ground.1).1
        onTails onRest
    refine ⟨?_, fun cursor _ => maps cursor⟩
    rw [Term.map_revised_movesList (.cons head tail) nofun]
    exact walks acts (by simp [ground]) (maps (.start false))
  | nil kind =>
    have maps (cursor : MapCursor) :
        program.MapsAny node cursor (.nil kind)
          (if cursor.acceptsNull true then [.nil kind] else []) :=
      mapsAny_nil cursor kind
    constructor
    · rw [Term.map_revised_movesList_nil]
      exact walks acts ground (maps (.start false))
    · rintro ⟨_, _ | _⟩ rfl
      · exact maps ⟨false, false⟩
      · exact maps ⟨false, true⟩
  | var => simp at ground
  | int value =>
    refine ⟨?_, fun cursor _ => mapsAny_of_ne cursor ground rfl nofun⟩
    rw [Term.map_revised_movesList (.int value) nofun]
    exact walks acts ground (mapsAny_of_ne _ ground rfl nofun)
  | sym name =>
    refine ⟨?_, fun cursor _ => mapsAny_of_ne cursor ground rfl nofun⟩
    rw [Term.map_revised_movesList (.sym name) nofun]
    exact walks acts ground (mapsAny_of_ne _ ground rfl nofun)

/-! ## All answers of a walk -/

/--
A walk of a known graph with the standard settings ends, and its answers are
the outcomes of all revisions of the graph, each of them once.  Where a revision
replaces a part it puts there what the node relation makes of the part.  If
only leaves are replaced, and there are no empty sequences, then there is an
answer for each set of such leaves except the empty one, and no answer has any
other leaf changed.
-/
theorem walk_finishes
    {change : Term → Option Term}
    (acts : program.ActsAs node change)
    {graph : Term}
    (ground : graph.isGround = true)
    {query : Var}
    {session : Session}
    (minted : query.id < session.supply) :
    ∃ revisions : List (Revision change graph),
      revisions.Nodup ∧
        (∀ revision, revision ∈ revisions) ∧
        (program.walk node .standard graph (.var query)).Finishes
          program.unfold (.var query) session
          (revisions.map Revision.result) ∧
        (∀ (revision : Revision change graph) (path : List Nat),
          revision.moves path = some .replace →
            revision.result.at? path = (graph.at? path).bind change) ∧
        ∀ positions : Finset (List Nat),
          graph.MovesLeaves change positions →
            revisions.length = 2 ^ positions.card - 1 ∧
              ∀ (revision : Revision change graph) (path : List Nat)
                (part : Term),
                graph.at? path = some part → part.isCons = false →
                  path ∉ positions →
                    revision.result.at? path = some part := by
  let goal := program.walk node .standard graph (.var query)
  rcases Gaps.exists_fit program.unfold goal ∅ session with ⟨gaps, fit⟩
  rcases (gives_revisions acts ground).1 gaps (.root ∅ session) graph query
      (Subst.within_empty _) (Subst.ends_of_isGround ground)
      (Subst.lookup_empty query) minted with
    ⟨found, listing, answers⟩
  rcases listing.exists_completes with ⟨results, completes, permuted⟩
  rw [List.forall₂_map_right_iff] at answers
  rcases List.perm_comp_forall₂ permuted answers with
    ⟨moves, resultsAnswer, reordered⟩
  rcases Term.exists_revisions reordered with ⟨revisions, rfl⟩
  have nodup := reordered.nodup_iff.mpr (Term.nodup_movesList graph)
  have complete : ∀ revision, revision ∈ revisions := by
    intro revision
    have listed := reordered.mem_iff.mpr
      ((Term.mem_movesList_iff graph revision.moves).mpr
        ⟨revision.valid, revision.any⟩)
    rcases List.mem_map.mp listed with ⟨other, member, same⟩
    exact Revision.ext same ▸ member
  have values :
      List.Forall₂ (fun result answer => result.value.reify (.var query) = answer)
        results (revisions.map Revision.result) := by
    rw [List.forall₂_map_right_iff] at resultsAnswer ⊢
    exact resultsAnswer.imp fun _ _ answers => answers.reify_eq
  refine ⟨revisions, nodup.of_map _, complete, completes.finishes fit values,
    fun revision _ made => revision.at?_result_of_replace made, ?_⟩
  intro positions leaves
  exact ⟨leaves.length_eq (nodup.of_map _) complete,
    fun revision _ _ found notCell elsewhere =>
      leaves.at?_result revision found notCell elsewhere⟩

/-- A relation that is given by the table of a partial function acts as it. -/
theorem actsAs_of_tabled
    {change : Term → Option Term}
    (given : ∀ first second, program.relation node first second =
      tabled (fun term => (change term).toList) first second)
    (ground :
      ∀ {term replaced}, term.isGround = true →
        change term = some replaced → replaced.isGround = true) :
    program.ActsAs node change where
  ground := ground
  calls termGround within unbound inside := by
    refine calls_of_tabled (given _ _) termGround ?_ within unbound inside
    intro value member
    rw [Option.mem_toList] at member
    exact ground termGround member

/-- Each partial function on ground terms is that of a relation. -/
theorem actsAs_table
    {change : Term → Option Term}
    (ground :
      ∀ {term replaced}, term.isGround = true →
        change term = some replaced → replaced.isGround = true) :
    (table fun term => (change term).toList).ActsAs () change :=
  actsAs_of_tabled (fun _ _ => rfl) ground

/-- Negative integers are replaced by their opposites. -/
def flipNegative : Term → Option Term
  | .int value => if value < 0 then some (.int (-value)) else none
  | _ => none

theorem isGround_of_flipNegative
    {term replaced : Term}
    (_ : term.isGround = true)
    (changed : flipNegative term = some replaced) :
    replaced.isGround = true := by
  cases term with
  | int value =>
    rw [flipNegative, Option.ite_none_right_eq_some] at changed
    rw [← Option.some.inj changed.2]
    rfl
  | _ => cases changed

/-- The only answer of a walk of `add(1, mul(-2, 3))`. -/
theorem walk_finishes_flipNegative :
    ((table fun term => (flipNegative term).toList).walk () .standard
      (.expr (.sym "add") [.int 1, .expr (.sym "mul") [.int (-2), .int 3]])
      (.var ⟨0⟩)).Finishes
        (table fun term => (flipNegative term).toList).unfold (.var ⟨0⟩)
        ⟨#["q"], #[]⟩
        [.expr (.sym "add") [.int 1, .expr (.sym "mul") [.int 2, .int 3]]] := by
  let graph : Term :=
    .expr (.sym "add") [.int 1, .expr (.sym "mul") [.int (-2), .int 3]]
  rcases @walk_finishes _ _ _ _ _ (actsAs_table isGround_of_flipNegative)
      graph rfl ⟨0⟩ ⟨#["q"], #[]⟩ Nat.one_pos with
    ⟨revisions, nodup, complete, finishes, _⟩
  have permuted := Revision.perm_movesList nodup complete
  have results : revisions.map Revision.result =
      (revisions.map Revision.moves).map (graph.revised flipNegative) := by
    rw [List.map_map]
    rfl
  have single : ∃ moves, graph.movesList flipNegative = [moves] ∧
      graph.revised flipNegative moves =
        .expr (.sym "add") [.int 1, .expr (.sym "mul") [.int 2, .int 3]] :=
    ⟨_, rfl, rfl⟩
  rcases single with ⟨moves, listed, value⟩
  rw [listed, List.perm_singleton] at permuted
  rw [results, permuted, List.map_singleton, value] at finishes
  exact finishes

end Program

end RelationalSearch
