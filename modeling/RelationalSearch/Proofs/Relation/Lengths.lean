import RelationalSearch.Proofs.Relation.Chain

/-!
# Sequences of the same length

`sameLength` relates two chains that come to have the same length and to end
alike.  Where one of the chains ends in an empty sequence there is at most one
result.  Where both are open there is one for each length, the shortest first,
and the new items are variables of their own (`Program.sameLength_enumerates`).

The search has one path.  At each position it delivers the state in which both
chains end, if they can, and it goes on with a cell of each, if there are such
cells.  Two pieces of work lead from one position to the next.
-/

namespace RelationalSearch

/-! ## Ends of both chains -/

/-- The kind that two ends come to have; it is the default one if both are open. -/
def Ending.shared? (default : SeqKind) : Ending → Ending → Option SeqKind
  | closed kind, closed other => if kind = other then some kind else none
  | closed kind, unbound _ => some kind
  | unbound _, closed kind => some kind
  | unbound _, unbound _ => some default

theorem Ending.eq_of_shared?
    {default kind : SeqKind}
    {one two : Ending}
    (shared : one.shared? default two = some kind) :
    (∀ other, one = .closed other → other = kind) ∧
      ∀ other, two = .closed other → other = kind := by
  cases one <;> cases two <;> simp_all [shared?]

/-- The kind and the length that two chains come to have, if there are only these. -/
def Chain.extent? (chain other : Chain) : Option (SeqKind × Nat) :=
  match chain.last, other.last with
  | .closed kind, .closed otherKind =>
    if kind = otherKind ∧ chain.items.length = other.items.length then
      some (kind, chain.items.length)
    else none
  | .closed kind, .unbound _ =>
    if other.items.length ≤ chain.items.length then
      some (kind, chain.items.length)
    else none
  | .unbound _, .closed kind =>
    if chain.items.length ≤ other.items.length then
      some (kind, other.items.length)
    else none
  | .unbound _, .unbound _ => none

/-- One of the chains ends in an empty sequence. -/
def Chain.OneCloses (chain other : Chain) : Prop :=
  ∃ kind, chain.last = .closed kind ∨ other.last = .closed kind

/-- The chain goes on in an unbound variable. -/
def Chain.IsOpen (chain : Chain) : Prop :=
  ∃ x, chain.last = .unbound x

namespace Chain

variable {chain other : Chain} {next otherNext : Var}

theorem IsOpen.not_isOver (isOpen : chain.IsOpen) : ¬ chain.IsOver := by
  rintro ⟨_, kind, closed⟩
  rcases isOpen with ⟨x, last⟩
  cases closed.symm.trans last

theorem IsOpen.rest (isOpen : chain.IsOpen) : (chain.rest next).IsOpen := by
  rcases isOpen with ⟨x, last⟩
  rcases chain with ⟨_ | ⟨item, items⟩, tail⟩
  · exact ⟨next, rfl⟩
  · exact ⟨x, last⟩

theorem length_items_rest (chain : Chain) (next : Var) :
    (chain.rest next).items.length = chain.items.length - 1 := by
  rcases chain with ⟨_ | ⟨item, items⟩, last⟩ <;> rfl

theorem oneCloses_of_isOver (isOver : chain.IsOver ∨ other.IsOver) :
    chain.OneCloses other := by
  rcases isOver with ⟨_, kind, closed⟩ | ⟨_, kind, closed⟩
  · exact ⟨kind, .inl closed⟩
  · exact ⟨kind, .inr closed⟩

theorem OneCloses.rest
    (closes : chain.OneCloses other)
    (firstGoesOn : ¬ chain.IsOver)
    (secondGoesOn : ¬ other.IsOver) :
    (chain.rest next).OneCloses (other.rest otherNext) := by
  rcases closes with ⟨kind, closed | closed⟩
  · rcases chain with ⟨_ | ⟨item, items⟩, last⟩
    · exact (firstGoesOn ⟨rfl, kind, closed⟩).elim
    · exact ⟨kind, .inl closed⟩
  · rcases other with ⟨_ | ⟨item, items⟩, last⟩
    · exact (secondGoesOn ⟨rfl, kind, closed⟩).elim
    · exact ⟨kind, .inr closed⟩

/-- Of two chains that are not over, a closed one becomes shorter. -/
theorem OneCloses.length_rest_lt
    (closes : chain.OneCloses other)
    (firstGoesOn : ¬ chain.IsOver)
    (secondGoesOn : ¬ other.IsOver) :
    (chain.rest next).items.length + (other.rest otherNext).items.length <
      chain.items.length + other.items.length := by
  have item : chain.items ≠ [] ∨ other.items ≠ [] := by
    rcases closes with ⟨kind, closed | closed⟩
    · exact .inl fun nothing => firstGoesOn ⟨nothing, kind, closed⟩
    · exact .inr fun nothing => secondGoesOn ⟨nothing, kind, closed⟩
  rw [length_items_rest, length_items_rest]
  rcases item with item | item
  · have positive := List.length_pos_of_ne_nil item
    omega
  · have positive := List.length_pos_of_ne_nil item
    omega

/-- Chains without items have the length zero. -/
theorem extent?_nil
    (closes : chain.OneCloses other)
    (firstEmpty : chain.items = [])
    (secondEmpty : other.items = [])
    (default : SeqKind) :
    chain.extent? other =
      (chain.last.shared? default other.last).map fun kind => (kind, 0) := by
  rcases closes with ⟨kind, closed⟩
  rcases chain with ⟨_, one⟩
  rcases other with ⟨_, two⟩
  cases firstEmpty
  cases secondEmpty
  cases one with
  | closed kind =>
    cases two with
    | closed other =>
      by_cases same : kind = other
      · simp [extent?, Ending.shared?, same]
      · simp [extent?, Ending.shared?, same]
    | unbound => rfl
  | unbound =>
    cases two with
    | closed => rfl
    | unbound => simp at closed

/-- A chain that is over does not become as long as one with items. -/
theorem extent?_eq_none
    (isOver : chain.IsOver ∨ other.IsOver)
    (item : chain.items ≠ [] ∨ other.items ≠ []) :
    chain.extent? other = none := by
  rcases chain with ⟨items, one⟩
  rcases other with ⟨others, two⟩
  rcases isOver with ⟨rfl, kind, rfl⟩ | ⟨rfl, kind, rfl⟩
  · cases two <;> simp_all [extent?, eq_comm]
  · cases one <;> simp_all [extent?]

/-- Behind a cell of each, the chains have one item less. -/
theorem extent?_rest
    (closes : chain.OneCloses other)
    (firstGoesOn : ¬ chain.IsOver)
    (secondGoesOn : ¬ other.IsOver)
    (next otherNext : Var) :
    chain.extent? other =
      ((chain.rest next).extent? (other.rest otherNext)).map
        fun extent => (extent.1, extent.2 + 1) := by
  rcases closes with ⟨kind, closed⟩
  rcases chain with ⟨_ | ⟨item, items⟩, _ | x⟩ <;>
    rcases other with ⟨_ | ⟨item, items⟩, _ | x⟩ <;>
      grind [extent?, rest, IsOver]

end Chain

namespace Subst

variable {subst : Subst} {first second : Term}

/-- What is found of the kinds of two ends. -/
theorem map_agreedKind?
    {one two : Ending}
    (acyclic : subst.Acyclic)
    (firstEnds : subst.Ends first one.term)
    (secondEnds : subst.Ends second two.term)
    (default : SeqKind) :
    (subst.agreedKind? [first, second] none).map (fun kind => kind.getD default) =
      one.shared? default two := by
  have firstWalk := walk_eq_of_ends acyclic firstEnds
  have secondWalk := walk_eq_of_ends acyclic secondEnds
  cases one with
  | closed kind =>
    cases two with
    | closed other =>
      by_cases same : kind = other
      · simp [agreedKind?, firstWalk, secondWalk, Ending.term, Ending.shared?,
          same]
      · simp [agreedKind?, firstWalk, secondWalk, Ending.term, Ending.shared?,
          same]
    | unbound =>
      simp [agreedKind?, firstWalk, secondWalk, Ending.term, Ending.shared?]
  | unbound =>
    cases two with
    | closed =>
      simp [agreedKind?, firstWalk, secondWalk, Ending.term, Ending.shared?]
    | unbound =>
      simp [agreedKind?, firstWalk, secondWalk, Ending.term, Ending.shared?]

end Subst

/-! ## One position -/

section Position

variable {Base Custom : Type} {subst : Subst} {supply : Nat}
  {first second : Term} {chain other : Chain} {kind : SeqKind}

/-- Chains of which one has an item do not end here. -/
theorem Subst.Faces.atOnce_nullCase_none
    (faces : subst.Faces supply first second chain other)
    (item : chain.items ≠ [] ∨ other.items ≠ [])
    (default : SeqKind) :
    (nullCase true default first second : CodedGoal Base Custom).AtOnce subst
      none := by
  have acyclic := faces.within.acyclic
  have cell {term : Term} {chain : Chain} (unrolls : subst.Unrolls term chain)
      (item : chain.items ≠ []) (member : term ∈ [first, second]) :
      subst.agreedKind? [first, second] none = none := by
    rcases chain with ⟨_ | ⟨head, items⟩, last⟩
    · exact (item rfl).elim
    · have walked := Subst.walk_eq_of_ends acyclic unrolls.ends
      refine Subst.agreedKind?_eq_none member ?_ ?_ none
      · rw [walked]
        rfl
      · rw [walked]
        nofun
  have disagree : subst.agreedKind? [first, second] none = none := by
    rcases item with item | item
    · exact cell faces.firstUnrolls item (by simp)
    · exact cell faces.secondUnrolls item (by simp)
  exact Goal.atOnce_allEmpty_none disagree default

section Ends

variable (faces : subst.Faces supply first second chain other)
  (firstEmpty : chain.items = [])
  (secondEmpty : other.items = [])

include faces firstEmpty secondEmpty

/-- The chains have come to their ends. -/
theorem Subst.Faces.ends :
    subst.Ends first chain.last.term ∧ subst.Ends second other.last.term := by
  have one := faces.firstUnrolls.ends
  have two := faces.secondUnrolls.ends
  rw [Chain.term, firstEmpty] at one
  rw [Chain.term, secondEmpty] at two
  exact ⟨one, two⟩

/-- Ends of different kinds do not end alike. -/
theorem Subst.Faces.atOnce_nullCase_disagree
    (disagree : chain.last.shared? kind other.last = none) :
    (nullCase true kind first second : CodedGoal Base Custom).AtOnce subst
      none := by
  rcases faces.ends firstEmpty secondEmpty with ⟨one, two⟩
  have kinds := Subst.map_agreedKind? faces.within.acyclic one two kind
  rw [disagree, Option.map_eq_none_iff] at kinds
  exact Goal.atOnce_allEmpty_none kinds kind

/-- Chains without items end as empty sequences. -/
theorem Subst.Faces.exists_atOnce_nullCase
    {default : SeqKind}
    (shared : chain.last.shared? default other.last = some kind)
    (bound : Nat) :
    ∃ after,
      (nullCase true default first second : CodedGoal Base Custom).AtOnce subst
          (some after) ∧
        subst.Lengthens supply bound first second chain other (kind, 0)
          after := by
  have acyclic := faces.within.acyclic
  rcases faces.ends firstEmpty secondEmpty with ⟨one, two⟩
  have kinds := Subst.map_agreedKind? acyclic one two default
  rw [shared, Option.map_eq_some_iff] at kinds
  rcases kinds with ⟨found, agreed, same⟩
  have agrees := Ending.eq_of_shared? shared
  rcases faces.firstUnrolls.exists_ended acyclic firstEmpty agrees.1 with
    ⟨middle, unified, front⟩
  have still : middle.Unrolls second other := by
    refine faces.secondUnrolls.later front.grows fun x last => ?_
    rw [front.spared x fun same => faces.apart x same last]
    exact faces.secondUnrolls.free x last
  rcases still.exists_ended front.grows.acyclic secondEmpty agrees.2 with
    ⟨after, otherUnified, back⟩
  refine ⟨after, ?_, [], [], ?_⟩
  · have one := @Goal.atOnce_eq (Code Base Custom) subst first (.nil kind)
    have two := @Goal.atOnce_eq (Code Base Custom) middle second (.nil kind)
    rw [unified] at one
    rw [otherUnified] at two
    refine .dynamic (fun supply => ?_) (one.both_some two)
    rw [agreed, ← same]
    rfl
  · have first_eq : after.reify first = .nil kind := by
      rw [back.grows.reify_congr front.grows.acyclic
        (front.reify_eq.trans (Subst.reify_eq_of_isGround front.grows.acyclic
          rfl).symm)]
      exact Subst.reify_eq_of_isGround back.grows.acyclic rfl
    exact {
      grows := front.grows.trans back.grows
      first_eq := by
        rw [first_eq, firstEmpty]
        rfl
      second_eq := by
        rw [back.reify_eq, secondEmpty]
        rfl
      first_length := by
        rw [firstEmpty]
        rfl
      second_length := by
        rw [secondEmpty]
        rfl
      first_nodup := .nil
      second_nodup := .nil
      disjoint := List.disjoint_nil_left _
      fresh := by simp
      spared := by
        intro x _ firstLast secondLast
        rw [back.spared x secondLast, front.spared x firstLast] }

end Ends

/-- There are cells of both chains unless one of them is over. -/
theorem Subst.Faces.atOnce_parts_none
    (faces : subst.Faces supply first second chain other)
    (isOver : chain.IsOver ∨ other.IsOver) :
    ((Cells.numbered supply).parts first second : CodedGoal Base Custom).AtOnce
      subst none := by
  have front := @Goal.atOnce_eq (Code Base Custom) subst
    (.cons (.var ⟨supply⟩) (.var ⟨supply + 1⟩)) first
  by_cases firstOver : chain.IsOver
  · rw [faces.firstUnrolls.unify_cons_eq_none faces.within.acyclic
      firstOver] at front
    exact front.both_none _
  · have secondOver := isOver.resolve_left firstOver
    rcases faces.exists_firstCell firstOver with
      ⟨middle, unified, one, still⟩
    have back := @Goal.atOnce_eq (Code Base Custom) middle
      (.cons (.var ⟨supply + 2⟩) (.var ⟨supply + 3⟩)) second
    rw [still.unify_cons_eq_none one.within.acyclic secondOver] at back
    rw [unified] at front
    exact front.both_some back

theorem Subst.Faces.exists_atOnce_parts
    (faces : subst.Faces supply first second chain other)
    (firstGoesOn : ¬ chain.IsOver)
    (secondGoesOn : ¬ other.IsOver) :
    ∃ middle after,
      ((Cells.numbered supply).parts first second :
          CodedGoal Base Custom).AtOnce subst (some after) ∧
        subst.TakesCell supply first chain middle ∧
        middle.TakesCell (supply + 2) second other after := by
  rcases faces.exists_cells firstGoesOn secondGoesOn with
    ⟨middle, after, unified, otherUnified, one, two⟩
  have front := @Goal.atOnce_eq (Code Base Custom) subst
    (.cons (.var ⟨supply⟩) (.var ⟨supply + 1⟩)) first
  have back := @Goal.atOnce_eq (Code Base Custom) middle
    (.cons (.var ⟨supply + 2⟩) (.var ⟨supply + 3⟩)) second
  rw [unified] at front
  rw [otherUnified] at back
  exact ⟨middle, after, front.both_some back, one, two⟩

end Position

/-! ## From one position to the next -/

/-- What is found at once is all that is found. -/
theorem Goal.AtOnce.drains
    {Code : Type}
    {goalOf : Code → Recipe (Goal Code)}
    {goal : Goal Code}
    {subst : Subst}
    {found : Option Subst}
    (atOnce : goal.AtOnce subst found)
    (session : Session) :
    goal.Drains goalOf subst session found.toList := by
  rcases atOnce session with ⟨later, _, run⟩
  rw [Goal.Drains, run]
  cases found with
  | none => exact .ended (Stream.pull_zero_empty later)
  | some result =>
    exact .result (Stream.pull_zero_ready result .empty later)
      (.ended (Stream.pull_zero_empty later))

/--
The search delivers what is found in front, and then it goes on with the search
of another goal.
-/
structure Goal.GoesOn
    {Code : Type}
    (goalOf : Code → Recipe (Goal Code))
    (goal : Goal Code)
    (subst : Subst)
    (session : Session)
    (found : Option Subst)
    (next : Goal Code)
    (after : Subst)
    (opened : Session) : Prop where
  front : ∀ result ∈ found, goal.Delivers goalOf subst session 0 result
  delivers :
    ∀ {index result}, next.Delivers goalOf after opened index result →
      goal.Delivers goalOf subst session (index + found.toList.length) result
  drains :
    ∀ {results}, next.Drains goalOf after opened results →
      goal.Drains goalOf subst session (found.toList ++ results)

/-- Pieces of work lead from one search to the other. -/
theorem Goal.GoesOn.of_run
    {Code : Type}
    {goalOf : Code → Recipe (Goal Code)}
    {goal next : Goal Code}
    {subst after : Subst}
    {session later middle opened : Session}
    {found : Option Subst}
    {rest onwards : Results Code}
    (run :
      (goal.apply subst).run session =
        ((Stream.ofOption found).interleave rest, later))
    (pending : rest.shape = .pending)
    (work :
      Stream.nextMoment (searchEngine goalOf) (rest, later) =
        (onwards, middle))
    (stillPending : onwards.shape = .pending)
    (opens :
      Stream.nextMoment (searchEngine goalOf) (onwards, middle) =
        (next.apply after).run opened) :
    goal.GoesOn goalOf subst session found next after opened := by
  constructor
  · rintro result ⟨⟩
    rw [Goal.Delivers, run]
    exact .first (Stream.pull_zero_ready _ _ _)
  · intro index result delivers
    have behind :
        Stream.Delivers (searchEngine goalOf) rest later index result := by
      refine .of_nextMoment pending ?_
      rw [work]
      refine .of_nextMoment stillPending ?_
      rw [opens]
      exact delivers
    rw [Goal.Delivers, run]
    cases found with
    | none => exact behind
    | some result => exact .later (Stream.pull_zero_ready _ _ _) behind
  · intro results drains
    have behind : Stream.Drains (searchEngine goalOf) rest later results := by
      refine .of_nextMoment pending ?_
      rw [work]
      refine .of_nextMoment stillPending ?_
      rw [opens]
      exact drains
    rw [Goal.Drains, run]
    cases found with
    | none => exact behind
    | some result => exact .result (Stream.pull_zero_ready _ _ _) behind

section Onwards

variable {Base Custom : Type} {program : Program Base Custom} {subst after : Subst}
  {supply : Nat} {first second : Term} {kind : SeqKind} {found : Option Subst}
  {session : Session}

/-- What is left of a position where a cell has been taken off each chain. -/
def cellsBehind
    (kind : SeqKind)
    (cells : Cells)
    (after : Subst) : Results (Code Base Custom) :=
  .bind
    (.suspended
      (.deferred (.relate .always cells.firstHead cells.secondHead) after))
    (.defer (.mapAll .always kind cells.firstTail cells.secondTail))

/-- The chains end here, or not at all. -/
theorem atOnce_sameLength
    (ends :
      (nullCase true kind first second : CodedGoal Base Custom).AtOnce subst
        found)
    (cells :
      ((Cells.numbered supply).parts first second :
        CodedGoal Base Custom).AtOnce subst none) :
    ((sameLength first second kind : Recipe (CodedGoal Base Custom)).made
      supply).1.AtOnce subst found :=
  ends.either_none_right
    (((cells.both_none _).both_none _).either_none_right Goal.atOnce_fail)

/-- The chains may end here, and there is a cell of each. -/
theorem exists_run_sameLength
    (ends :
      (nullCase true kind first second : CodedGoal Base Custom).AtOnce subst
        found)
    (takes :
      ((Cells.numbered supply).parts first second :
        CodedGoal Base Custom).AtOnce subst (some after))
    (session : Session) :
    ∃ later : Session,
      later.supply = session.supply ∧
        (((sameLength first second kind : Recipe (CodedGoal Base Custom)).made
            supply).1.apply subst).run session =
          ((Stream.ofOption found).interleave
            (cellsBehind kind (.numbered supply) after), later) := by
  let cells := Cells.numbered supply
  let heads : Code Base Custom :=
    .relate .always cells.firstHead cells.secondHead
  let tails : Code Base Custom :=
    .mapAll .always kind cells.firstTail cells.secondTail
  rcases takes session with ⟨middle, middleSupply, taken⟩
  rcases ends middle with ⟨later, laterSupply, ended⟩
  have onHeads :
      ((Goal.both (cells.parts first second) (.defer heads)).apply subst).run
          session =
        (.suspended (.deferred heads after), middle) := by
    rw [Goal.run_both, taken]
    rfl
  have onCells :
      ((Goal.both (.both (cells.parts first second) (.defer heads))
          (.defer tails)).apply subst).run session =
        (cellsBehind kind cells after, middle) := by
    rw [Goal.run_both, onHeads]
    rfl
  have onRight :
      ((Goal.either
          (.both (.both (cells.parts first second) (.defer heads))
            (.defer tails))
          .fail).apply subst).run session =
        (cellsBehind kind cells after, middle) := by
    rw [Goal.run_either]
    exact congrArg (fun outcome => (outcome.1.interleave .empty, outcome.2))
      onCells
  refine ⟨later, laterSupply.trans middleSupply, ?_⟩
  change (((mapAll .always kind true first second).made supply).1.apply
    subst).run session = _
  rw [made_mapAll, Goal.run_either, onRight]
  dsimp only
  rw [ended]

/-- The heads are related, whatever they are. -/
theorem nextMoment_cellsBehind
    (program : Program Base Custom)
    (kind : SeqKind)
    (cells : Cells)
    (after : Subst)
    (session : Session) :
    Stream.nextMoment (searchEngine program.unfold)
        (cellsBehind kind cells after, session) =
      (.suspended
        (.deferred (.mapAll .always kind cells.firstTail cells.secondTail)
          after), session) := by
  rw [Stream.nextMoment_of_pending _ rfl, cellsBehind, Stream.advance_bind,
    Stream.advance_suspended]
  rfl

/-- The goal for what is behind the cells is made in the session at hand. -/
theorem exists_nextMoment_tails
    (program : Program Base Custom)
    (kind : SeqKind)
    (cells : Cells)
    (after : Subst)
    (session : Session) :
    ∃ opened : Session,
      opened.supply = session.supply + 4 ∧
        Stream.nextMoment (searchEngine program.unfold)
            (.suspended
              (.deferred (.mapAll .always kind cells.firstTail cells.secondTail)
                after), session) =
          (((sameLength cells.firstTail cells.secondTail kind).made
            session.supply).1.apply after).run opened := by
  rcases run_applyRecipe
      (program.unfold (.mapAll .always kind cells.firstTail cells.secondTail))
      after session with
    ⟨opened, supply, run⟩
  refine ⟨opened, supply, ?_⟩
  rw [Stream.nextMoment_of_pending _ rfl, Stream.advance_suspended]
  exact run

/-- Between two positions, a caller gets what is found at the first one. -/
theorem exists_goesOn
    (program : Program Base Custom)
    (ends :
      (nullCase true kind first second : CodedGoal Base Custom).AtOnce subst
        found)
    (takes :
      ((Cells.numbered supply).parts first second :
        CodedGoal Base Custom).AtOnce subst (some after))
    (session : Session) :
    ∃ opened : Session,
      opened.supply = session.supply + 4 ∧
        Goal.GoesOn program.unfold
          ((sameLength first second kind).made supply).1 subst session found
          ((sameLength (.var ⟨supply + 1⟩) (.var ⟨supply + 3⟩) kind).made
            session.supply).1 after opened := by
  rcases exists_run_sameLength ends takes session with ⟨later, same, run⟩
  rcases exists_nextMoment_tails program kind (.numbered supply) after later
    with ⟨opened, enough, opens⟩
  rw [same] at enough opens
  exact ⟨opened, enough, .of_run run rfl
    (nextMoment_cellsBehind program kind _ after later) rfl opens⟩

end Onwards

/-! ## Chains of which one closes -/

section Runs

variable {Base Custom : Type} {subst : Subst} {supply : Nat}
  {first second : Term} {chain other : Chain}

/-- What is found where one of the chains is over. -/
theorem Subst.Faces.exists_drains_of_isOver
    (program : Program Base Custom)
    (faces : subst.Faces supply first second chain other)
    (isOver : chain.IsOver ∨ other.IsOver)
    (kind : SeqKind)
    (session : Session) :
    ∃ found : Option Subst,
      Goal.Drains program.unfold
          ((sameLength first second kind).made supply).1 subst session
          found.toList ∧
        Option.Rel
          (fun extent =>
            subst.Lengthens supply session.supply first second chain other
              extent)
          (chain.extent? other) found := by
  have cells : ((Cells.numbered supply).parts first second :
      CodedGoal Base Custom).AtOnce subst none :=
    faces.atOnce_parts_none isOver
  by_cases item : chain.items ≠ [] ∨ other.items ≠ []
  · refine ⟨none, (atOnce_sameLength (faces.atOnce_nullCase_none item kind)
      cells).drains session, ?_⟩
    rw [Chain.extent?_eq_none isOver item]
    exact .none
  · rw [not_or, not_not, not_not] at item
    rcases item with ⟨firstEmpty, secondEmpty⟩
    rw [Chain.extent?_nil (Chain.oneCloses_of_isOver isOver) firstEmpty
      secondEmpty kind]
    cases shared : chain.last.shared? kind other.last with
    | none =>
      exact ⟨none, (atOnce_sameLength (faces.atOnce_nullCase_disagree firstEmpty
        secondEmpty shared) cells).drains session, .none⟩
    | some agreed =>
      rcases faces.exists_atOnce_nullCase firstEmpty secondEmpty shared
          session.supply with
        ⟨after, ends, lengthens⟩
      exact ⟨some after, (atOnce_sameLength ends cells).drains session,
        .some lengthens⟩

/--
Where one of the chains closes, a caller gets the one result there may be.  The
induction is on the items that are left: a closed chain has one less behind each
cell.
-/
theorem Subst.Faces.exists_drains
    (program : Program Base Custom)
    (faces : subst.Faces supply first second chain other)
    (closes : chain.OneCloses other)
    (kind : SeqKind)
    {session : Session}
    (room : supply + 4 ≤ session.supply) :
    ∃ found : Option Subst,
      Goal.Drains program.unfold
          ((sameLength first second kind).made supply).1 subst session
          found.toList ∧
        Option.Rel
          (fun extent =>
            subst.Lengthens supply session.supply first second chain other
              extent)
          (chain.extent? other) found := by
  induction count : chain.items.length + other.items.length
    using Nat.strong_induction_on
    generalizing subst supply first second chain other session with
  | h count ih =>
  by_cases isOver : chain.IsOver ∨ other.IsOver
  · exact faces.exists_drains_of_isOver program isOver kind session
  · rw [not_or] at isOver
    rcases isOver with ⟨firstGoesOn, secondGoesOn⟩
    rcases @Subst.Faces.exists_atOnce_parts Base Custom _ _ _ _ _ _ faces
      firstGoesOn secondGoesOn with ⟨middle, after, takes, one, two⟩
    have shorter :
        (chain.rest ⟨supply + 1⟩).items.length +
            (other.rest ⟨supply + 3⟩).items.length <
          chain.items.length + other.items.length :=
      closes.length_rest_lt firstGoesOn secondGoesOn
    have item : chain.items ≠ [] ∨ other.items ≠ [] := by
      by_contra nothing
      rw [not_or, not_not, not_not] at nothing
      rw [nothing.1, nothing.2] at shorter
      exact Nat.not_lt_zero _ shorter
    rcases exists_goesOn program (faces.atOnce_nullCase_none item kind) takes
      session with ⟨opened, enough, goesOn⟩
    have laterRoom : session.supply + 4 ≤ opened.supply := by omega
    rcases ih _ (by omega) (faces.rest one two room)
        (closes.rest firstGoesOn secondGoesOn) laterRoom rfl with
      ⟨found, drains, filled⟩
    refine ⟨found, goesOn.drains drains, ?_⟩
    rw [Chain.extent?_rest closes firstGoesOn secondGoesOn ⟨supply + 1⟩
      ⟨supply + 3⟩]
    cases reached : (chain.rest ⟨supply + 1⟩).extent?
        (other.rest ⟨supply + 3⟩) with
    | none =>
      rw [reached] at filled
      cases filled
      exact .none
    | some extent =>
      rw [reached] at filled
      cases filled with
      | some lengthens =>
        exact .some (lengthens.of_rest faces one two room laterRoom rfl)

/-! ## Open chains -/

/--
Where both chains are open, a caller gets a result for each length.  The
induction is on the length: behind a cell of each chain it is one less.
-/
theorem Subst.Faces.exists_delivers
    (program : Program Base Custom)
    (faces : subst.Faces supply first second chain other)
    (firstOpen : chain.IsOpen)
    (secondOpen : other.IsOpen)
    (kind : SeqKind)
    (index : Nat)
    {session : Session}
    (room : supply + 4 ≤ session.supply) :
    ∃ result,
      Goal.Delivers program.unfold
          ((sameLength first second kind).made supply).1 subst session index
          result ∧
        subst.Lengthens supply session.supply first second chain other
          (kind, max chain.items.length other.items.length + index) result := by
  induction count : max chain.items.length other.items.length + index
    using Nat.strong_induction_on
    generalizing subst supply first second chain other session index with
  | h count ih =>
  rcases @Subst.Faces.exists_atOnce_parts Base Custom _ _ _ _ _ _ faces
    firstOpen.not_isOver secondOpen.not_isOver with
    ⟨middle, after, takes, one, two⟩
  have firstLength := chain.length_items_rest ⟨supply + 1⟩
  have secondLength := other.length_items_rest ⟨supply + 3⟩
  by_cases item : chain.items ≠ [] ∨ other.items ≠ []
  · have positive := item.imp List.length_pos_of_ne_nil
      List.length_pos_of_ne_nil
    rcases exists_goesOn program (faces.atOnce_nullCase_none item kind) takes
      session with ⟨opened, enough, goesOn⟩
    have laterRoom : session.supply + 4 ≤ opened.supply := by omega
    rcases ih _ (by omega) (faces.rest one two room) firstOpen.rest
        secondOpen.rest index laterRoom rfl with
      ⟨result, delivers, lengthens⟩
    exact ⟨result, goesOn.delivers delivers,
      lengthens.of_rest faces one two room laterRoom (by omega)⟩
  · rw [not_or, not_not, not_not] at item
    rcases item with ⟨firstEmpty, secondEmpty⟩
    have shared : chain.last.shared? kind other.last = some kind := by
      rcases firstOpen with ⟨x, firstLast⟩
      rcases secondOpen with ⟨y, secondLast⟩
      rw [firstLast, secondLast]
      rfl
    rcases faces.exists_atOnce_nullCase firstEmpty secondEmpty shared
        session.supply with
      ⟨result, ends, lengthens⟩
    rcases exists_goesOn program ends takes session with
      ⟨opened, enough, goesOn⟩
    have laterRoom : session.supply + 4 ≤ opened.supply := by omega
    have least : max chain.items.length other.items.length = 0 := by
      rw [firstEmpty, secondEmpty]
      rfl
    cases index with
    | zero =>
      rw [← count, least]
      exact ⟨result, goesOn.front result rfl, lengthens⟩
    | succ index =>
      rcases ih _ (by omega) (faces.rest one two room) firstOpen.rest
          secondOpen.rest index laterRoom rfl with
        ⟨later, delivers, behind⟩
      exact ⟨later, goesOn.delivers delivers,
        behind.of_rest faces one two room laterRoom (by omega)⟩

end Runs

/-! ## Sequences of all lengths -/

/-- From the empty substitution, chains with different ends face each other. -/
theorem Subst.faces_empty
    {first second : Chain}
    {supply : Nat}
    (firstLow : first.term.ceiling ≤ supply)
    (secondLow : second.term.ceiling ≤ supply)
    (apart : ∀ x, first.last = .unbound x → second.last ≠ .unbound x) :
    (∅ : Subst).Faces supply first.term second.term first second where
  within := within_empty supply
  firstLow := firstLow
  secondLow := secondLow
  firstUnrolls :=
    ⟨.here (next?_chain_eq_none fun x _ => lookup_empty x),
      fun x _ => lookup_empty x⟩
  secondUnrolls :=
    ⟨.here (next?_chain_eq_none fun x _ => lookup_empty x),
      fun x _ => lookup_empty x⟩
  apart := apart

namespace Program

variable {Base Custom : Type}

/--
Two chains with different ends come to have each length that they may have, once
and the shortest first.  If one of them closes there is at most one such length,
and the search ends.  If both are open there is no end to them.

Each result makes sequences of the chains, the new items of which are distinct
unbound variables; no other variables are bound than those at the ends, and
those that the search has minted.
-/
theorem sameLength_enumerates
    (program : Program Base Custom)
    {first second : Chain}
    {built : Nat}
    {session : Session}
    (firstLow : first.term.ceiling ≤ built)
    (secondLow : second.term.ceiling ≤ built)
    (enough : built + 4 ≤ session.supply)
    (apart : ∀ x, first.last = .unbound x → second.last ≠ .unbound x)
    (kind : SeqKind) :
    let goal : CodedGoal Base Custom :=
      ((sameLength first.term second.term kind).made built).1
    let lengthens :=
      (∅ : Subst).Lengthens built session.supply first.term second.term first
        second
    (first.OneCloses second →
        (∀ extent, first.extent? second = some extent →
          ∃ found,
            goal.Drains program.unfold ∅ session [found] ∧
              lengthens extent found) ∧
        (first.extent? second = none →
          goal.Drains program.unfold ∅ session [])) ∧
      (first.IsOpen → second.IsOpen →
        ∀ index, ∃ found,
          (∀ other,
            goal.Delivers program.unfold ∅ session index other ↔
              other = found) ∧
          lengthens (kind, max first.items.length second.items.length + index)
            found) := by
  have faces := Subst.faces_empty firstLow secondLow apart
  refine ⟨fun closes => ?_, fun firstOpen secondOpen index => ?_⟩
  · rcases faces.exists_drains program closes kind enough with
      ⟨found, drains, filled⟩
    constructor
    · intro extent reached
      rw [reached] at filled
      cases filled with
      | some lengthens => exact ⟨_, drains, lengthens⟩
    · intro reached
      rw [reached] at filled
      cases filled
      exact drains
  · rcases faces.exists_delivers program firstOpen secondOpen kind index
        enough with
      ⟨found, delivers, lengthens⟩
    refine ⟨found, fun other => ⟨fun also => ?_, ?_⟩, lengthens⟩
    · exact also.unique delivers
    · rintro rfl
      exact delivers

/--
A sequence of two makes one of two of a chain that has an item, and open chains
of one and two items have three items in the second result.
-/
theorem sameLength_enumerates_examples :
    (∃ found,
      Goal.Drains (table fun _ => []).unfold
          ((sameLength (.sequence .expr [.int 1, .var ⟨2⟩])
            (.chain [.int 5] (.var ⟨0⟩)) .list).made 3).1
          ∅ ⟨Array.replicate 7 "", #[]⟩ [found] ∧
        (∅ : Subst).Lengthens 3 7 (.sequence .expr [.int 1, .var ⟨2⟩])
          (.chain [.int 5] (.var ⟨0⟩))
          ⟨[.int 1, .var ⟨2⟩], .closed .expr⟩ ⟨[.int 5], .unbound ⟨0⟩⟩
          (.expr, 2) found) ∧
      ∃ found,
        (∀ other,
          Goal.Delivers (table fun _ => []).unfold
              ((sameLength (.chain [.int 1] (.var ⟨0⟩))
                (.chain [.var ⟨2⟩, .int 3] (.var ⟨1⟩)) .list).made 3).1
              ∅ ⟨Array.replicate 7 "", #[]⟩ 1 other ↔
            other = found) ∧
          (∅ : Subst).Lengthens 3 7 (.chain [.int 1] (.var ⟨0⟩))
            (.chain [.var ⟨2⟩, .int 3] (.var ⟨1⟩))
            ⟨[.int 1], .unbound ⟨0⟩⟩ ⟨[.var ⟨2⟩, .int 3], .unbound ⟨1⟩⟩
            (.list, 3) found := by
  have closed := @sameLength_enumerates Unit Empty (table fun _ => [])
    ⟨[.int 1, .var ⟨2⟩], .closed .expr⟩ ⟨[.int 5], .unbound ⟨0⟩⟩ 3
    ⟨Array.replicate 7 "", #[]⟩ (by decide) (by decide) (by decide)
    (by simp) .list
  have opened := @sameLength_enumerates Unit Empty (table fun _ => [])
    ⟨[.int 1], .unbound ⟨0⟩⟩ ⟨[.var ⟨2⟩, .int 3], .unbound ⟨1⟩⟩ 3
    ⟨Array.replicate 7 "", #[]⟩ (by decide) (by decide) (by decide)
    (by simp) .list
  exact ⟨(closed.1 ⟨.expr, .inl rfl⟩).1 (.expr, 2) rfl,
    opened.2 ⟨_, rfl⟩ ⟨_, rfl⟩ 1⟩

end Program

end RelationalSearch
