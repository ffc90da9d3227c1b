import RelationalSearch.Proofs.Relation.Question
import RelationalSearch.Proofs.Relation.Visit
import RelationalSearch.Proofs.Relation.Walk

/-!
# Walks to a known graph

A walk from a known graph to a variable finds all outcomes of the graph, and a
walk to a known graph checks that this is one of them.  If the relations of the
caller act as partial functions on ground terms, then a check has one result for
each time that the search finds the other graph
(`Program.walk_checks_what_it_finds`).  This holds of all settings.

The proof follows the search from the top of the known graph.  It shows of each
part that there is one list of values for all outputs: a variable gets each of
the values, and a known term meets those that it is equal to
(`Program.Relates`).
-/

namespace RelationalSearch

variable {Base Custom : Type}

namespace Goal.Gives

variable {Code Value : Type} {goalOf : Code → Recipe (Goal Code)}
  {gaps : Gaps} {left right : Goal Code} {start : Located Subst}
  {related : Located Subst → Value → Prop} {values : List Value}

theorem either_nil_left
    (onLeft : Listing goalOf gaps left ⟨start.place.left, start.value⟩ [])
    (onRight :
      right.Gives goalOf gaps ⟨start.place.right, start.value⟩ related
        values) :
    (Goal.either left right).Gives goalOf gaps start related values := by
  rcases onRight with ⟨found, listing, all⟩
  exact ⟨found, .either onLeft listing, all⟩

theorem either_nil_right
    (onLeft :
      left.Gives goalOf gaps ⟨start.place.left, start.value⟩ related values)
    (onRight : Listing goalOf gaps right ⟨start.place.right, start.value⟩ []) :
    (Goal.either left right).Gives goalOf gaps start related values := by
  rcases onLeft with ⟨found, listing, all⟩
  exact ⟨found, listing.either_nil onRight, all⟩

end Goal.Gives

namespace Program

/-! ## Relations that list values -/

/--
The values are what the goal relates to the known term: an output that is open
comes to be each of them, one that is known meets those it is equal to.
-/
def Relates
    (program : Program Base Custom)
    (recipe : Term → Term → Recipe (CodedGoal Base Custom))
    (known : Term)
    (values : List Term) : Prop :=
  ∀ (gaps : Gaps) (start : Located Subst) (input output shown : Term)
    (supply : Nat),
    start.Question supply ((recipe input output).made supply).2 input known
        output shown →
      ((recipe input output).made supply).1.Gives program.unfold gaps start
        (start.Meets supply ((recipe input output).made supply).2 output shown)
        (values.filter shown.admits)

/-- The same, where the goal is applied before any other variables are bound. -/
def RelatesAtOnce
    (program : Program Base Custom)
    (recipe : Term → Term → Recipe (CodedGoal Base Custom))
    (known : Term)
    (values : List Term) : Prop :=
  ∀ (gaps : Gaps) (start : Located Subst) (input output shown : Term)
    (supply : Nat),
    start.value.Within supply → output.ceiling ≤ supply →
      start.Question supply ((recipe input output).made supply).2 input known
          output shown →
        ((recipe input output).made supply).1.Gives program.unfold gaps start
          (start.Meets supply ((recipe input output).made supply).2 output
            shown)
          (values.filter shown.admits)

/-- The values are what the goal relates to the known term for such an output. -/
def RelatesShown
    (program : Program Base Custom)
    (recipe : Term → Term → Recipe (CodedGoal Base Custom))
    (known shown : Term)
    (values : List Term) : Prop :=
  ∀ (gaps : Gaps) (start : Located Subst) (input output : Term) (supply : Nat),
    start.Question supply ((recipe input output).made supply).2 input known
        output shown →
      ((recipe input output).made supply).1.Gives program.unfold gaps start
        (start.Meets supply ((recipe input output).made supply).2 output shown)
        values

/--
The relation acts as a partial function on ground terms.  Called with a known
input, its search ends: with one result if the function has a value which the
output may have, and with none otherwise.
-/
structure Computes
    (program : Program Base Custom)
    (name : Base)
    (function : Term → Option Term) : Prop where
  ground :
    ∀ {term value}, term.isGround = true → function term = some value →
      value.isGround = true
  calls :
    ∀ (gaps : Gaps) (start : Located Subst) (input known output shown : Term)
      (supply : Nat),
      start.value.Within supply → output.ceiling ≤ supply →
        start.Question supply ((program.relation name input output).made
            supply).2 input known output shown →
          ∃ results,
            ((program.relation name input output).made supply).1.Completes
                program.unfold gaps start results ∧
              List.Forall₂
                (start.Meets supply ((program.relation name input output).made
                  supply).2 output shown)
                results ((function known).toList.filter shown.admits)

variable {program : Program Base Custom}
  {recipe : Term → Term → Recipe (CodedGoal Base Custom)} {known : Term}
  {values : List Term}

theorem Relates.shown
    (relates : program.Relates recipe known values)
    (shown : Term) :
    program.RelatesShown recipe known shown (values.filter shown.admits) :=
  fun gaps start input output supply question =>
    relates gaps start input output shown supply question

theorem Relates.atOnce (relates : program.Relates recipe known values) :
    program.RelatesAtOnce recipe known values :=
  fun gaps start input output shown supply _ _ question =>
    relates gaps start input output shown supply question

/-- One result at most is in order. -/
theorem Computes.relatesAtOnce
    {name : Base}
    {function : Term → Option Term}
    (computes : program.Computes name function)
    (known : Term) :
    program.RelatesAtOnce (program.relation name) known
      (function known).toList := by
  intro gaps start input output shown supply within low question
  rcases computes.calls gaps start input known output shown supply within low
      question with
    ⟨results, completes, meets⟩
  rcases completes.exists_listing with ⟨found, listing, permuted⟩
  rcases List.perm_comp_forall₂ permuted.symm meets with
    ⟨ordered, all, reordered⟩
  rw [← Option.toList_filter] at reordered ⊢
  rw [← eq_toList_of_perm reordered]
  exact ⟨found, listing, all⟩

/-! ## Questions that are put again -/

/-- What is given where the question is put again is given for the question. -/
theorem gives_again
    {gaps : Gaps}
    {start : Located Subst}
    {low high opening later : Nat}
    {input output otherInput otherOutput shown : Term}
    {place : Place}
    {goal : CodedGoal Base Custom}
    (question : start.Question low high input known output shown)
    (opened : start.place.supply ≤ opening)
    (enough : opening ≤ later)
    (inside : later ≤ place.supply)
    (inputEnds : start.value.Ends otherInput known)
    (outputEnds : start.value.Ends otherOutput shown)
    (given :
      Located.Question ⟨place, start.value⟩ opening later otherInput known
          otherOutput shown →
        goal.Gives program.unfold gaps ⟨place, start.value⟩
          (Located.Meets ⟨place, start.value⟩ opening later otherOutput shown)
          values) :
    goal.Gives program.unfold gaps ⟨place, start.value⟩
      (start.Meets low high output shown) values := by
  have acyclic := question.within.acyclic
  have asked := question.again opened enough inside inputEnds outputEnds
  have same : start.value.reify output = start.value.reify otherOutput :=
    question.reify_output.trans asked.reify_output.symm
  rw [← List.map_id values]
  refine (given asked).imp acyclic ?_
  intro result value grows _ meets
  exact meets.of_again opened (opened.trans (enough.trans inside))
    (grows.reify_congr acyclic same)

/-- A question may be put off: the goal is then built with variables of its own. -/
theorem RelatesShown.defer
    {gaps : Gaps}
    {start : Located Subst}
    {input output shown : Term}
    {code : Code Base Custom}
    (relates : program.RelatesShown recipe known shown values)
    (unfolds : program.unfold code = recipe input output)
    (question : start.Question 0 0 input known output shown) :
    (Goal.defer code).Gives program.unfold gaps start
      (start.Meets 0 0 output shown) values := by
  refine .defer ?_
  rw [Recipe.goalAt, Located.enter, unfolds]
  exact gives_again question (start.place.le_opening gaps) (Recipe.le_made _ _)
    (Nat.le_refl _) question.inputEnds question.outputEnds
    (relates gaps _ input output _)

/-! ## Cells -/

/-- A known output that is no cell meets no cells. -/
theorem filter_cells_nil
    {shown : Term}
    (known : shown.isVar = false)
    (notCell : shown.isCons = false)
    (heads : List Term)
    (tails : Term → List Term) :
    (heads.flatMap fun value => (tails value).map (Term.cons value)).filter
      shown.admits = [] := by
  rw [List.filter_eq_nil_iff]
  intro value member
  rcases List.mem_flatMap.mp member with ⟨head, _, inside⟩
  rcases List.mem_map.mp inside with ⟨tail, _, rfl⟩
  rw [Term.admits, known, Bool.false_or, decide_eq_true_iff]
  rintro rfl
  cases notCell

section Cells

variable {start : Located Subst} {supply : Nat} {head tail output shown : Term}
  {opened : Subst} {shownHead shownTail : Term} {gaps : Gaps}

/-- The cells that an output meets are made of what its halves meet. -/
theorem filter_cells
    (halves :
      start.Halves supply head tail output shown opened shownHead shownTail)
    (heads tails : List Term) :
    (heads.flatMap fun value => tails.map (Term.cons value)).filter
        shown.admits =
      (heads.filter shownHead.admits).flatMap fun value =>
        (tails.filter shownTail.admits).map (Term.cons value) := by
  have one (value : Term) :
      (tails.map (Term.cons value)).filter shown.admits =
        if shownHead.admits value then
          (tails.filter shownTail.admits).map (Term.cons value)
        else [] := by
    rw [List.filter_map]
    have same : shown.admits ∘ Term.cons value =
        fun other => shownHead.admits value && shownTail.admits other :=
      funext (halves.admits_eq value)
    rw [same]
    cases shownHead.admits value <;> simp
  induction heads with
  | nil => rfl
  | cons value heads ih =>
    rw [List.flatMap_cons, List.filter_append, ih, one, List.filter_cons]
    cases shownHead.admits value <;> rfl

/-- What a search for the head has found, with the place where it goes on. -/
structure HeadFound
    (place : Place)
    (opened : Subst)
    (low high supply : Nat)
    (shownHead : Term)
    (middle : Located Subst)
    (value : Term) : Prop where
  meets :
    Located.Meets ⟨place, opened⟩ low high (.var ⟨supply + 2⟩) shownHead middle
      value
  grows : opened.Grows middle.value
  later : place.supply ≤ middle.place.supply

/-- From what is found for the head the search goes on to the tail. -/
theorem gives_halves
    {place : Place}
    {origin : Located Subst}
    {front back : CodedGoal Base Custom}
    {heads tails : List Term}
    {low high headLow headHigh tailLow tailHigh : Nat}
    (halves :
      start.Halves supply head tail output shown opened shownHead shownTail)
    (acyclic : origin.value.Acyclic)
    (headsGround : ∀ value ∈ heads, value.isGround = true)
    (later : start.place.supply ≤ place.supply)
    (outside :
      ∀ x : Var, x.id < low ∨ high ≤ x.id →
        (x.id < supply ∨ supply + 4 ≤ x.id) ∧
          (x.id < headLow ∨ headHigh ≤ x.id) ∧
          (x.id < tailLow ∨ tailHigh ≤ x.id))
    (onHead :
      front.Gives program.unfold gaps origin
        (HeadFound place opened headLow headHigh supply shownHead) heads)
    (onTail :
      ∀ middle value,
        HeadFound place opened headLow headHigh supply shownHead middle value →
          back.Gives program.unfold gaps middle
            (middle.Meets tailLow tailHigh (.var ⟨supply + 3⟩) shownTail)
            tails) :
    (Goal.both front back).Gives program.unfold gaps origin
      (start.Meets low high output shown)
      (heads.flatMap fun value => tails.map (Term.cons value)) := by
  refine Goal.Gives.both acyclic onHead ?_
  intro middle value member _ _ found
  refine Goal.Gives.imp (onTail middle value found) found.grows.acyclic ?_
  intro result tailValue grows _ meets
  exact halves.meets found.meets found.grows (headsGround value member) meets
    grows later found.later outside

/-- What meets the first half has been found for the head. -/
theorem gives_headFound
    {front : CodedGoal Base Custom}
    {place : Place}
    {low high : Nat}
    {heads : List Term}
    (acyclic : opened.Acyclic)
    (given :
      front.Gives program.unfold gaps ⟨place, opened⟩
        (Located.Meets ⟨place, opened⟩ low high (.var ⟨supply + 2⟩) shownHead)
        heads) :
    front.Gives program.unfold gaps ⟨place, opened⟩
      (HeadFound place opened low high supply shownHead) heads := by
  rw [← List.map_id heads]
  refine given.imp acyclic ?_
  intro middle value grows later meets
  exact ⟨meets, grows, later⟩

/-- The head is asked for as soon as the cells are taken apart. -/
theorem gives_defer_head
    {relation : Relation Base}
    {place : Place}
    {heads : List Term}
    (halves :
      start.Halves supply head tail output shown opened shownHead shownTail)
    (within : opened.Within place.supply)
    (inside : supply + 4 ≤ place.supply)
    (headGround : head.isGround = true)
    (onHead :
      program.RelatesShown (program.relate relation) head shownHead heads) :
    (Goal.defer (.relate relation (.var ⟨supply⟩)
        (.var ⟨supply + 2⟩))).Gives program.unfold gaps ⟨place, opened⟩
      (HeadFound place opened 0 0 supply shownHead) heads := by
  have question : Located.Question ⟨place, opened⟩ 0 0 (.var ⟨supply⟩) head
      (.var ⟨supply + 2⟩) shownHead :=
    halves.head_question within headGround inside (Nat.zero_le _)
      (fun x _ none => (Nat.not_lt_zero _ none).elim) (.inr (Nat.zero_le _))
  exact gives_headFound within.acyclic (onHead.defer rfl question)

/-- The tail is asked for in each result for the head. -/
theorem gives_defer_tail
    {code : Code Base Custom}
    {place : Place}
    {tails : List Term}
    {middle : Located Subst}
    {value : Term}
    (halves :
      start.Halves supply head tail output shown opened shownHead shownTail)
    (found : HeadFound place opened 0 0 supply shownHead middle value)
    (inside : supply + 4 ≤ place.supply)
    (tailGround : tail.isGround = true)
    (onTail : program.RelatesShown recipe tail shownTail tails)
    (unfolds :
      program.unfold code = recipe (.var ⟨supply + 1⟩) (.var ⟨supply + 3⟩)) :
    (Goal.defer code).Gives program.unfold gaps middle
      (middle.Meets 0 0 (.var ⟨supply + 3⟩) shownTail) tails := by
  have question : middle.Question 0 0 (.var ⟨supply + 1⟩) tail
      (.var ⟨supply + 3⟩) shownTail :=
    halves.tail_question found.meets found.grows found.later inside
      (.inr (Nat.zero_le _)) tailGround (Nat.zero_le _)
      (fun x _ none => (Nat.not_lt_zero _ none).elim) (.inr (Nat.zero_le _))
  exact onTail.defer unfolds question

/-- A cell is no end, so only the branch on its parts counts. -/
theorem gives_opened
    {low high : Nat}
    {input : Term}
    {onParts : CodedGoal Base Custom}
    {related : Located Subst → Term → Prop}
    {values : List Term}
    (question : start.Question low high input (.cons head tail) output shown)
    (accepted : Bool)
    (kind : SeqKind)
    (given :
      onParts.Gives program.unfold gaps
        ⟨start.place.right.left, start.value⟩ related values) :
    (Goal.either (nullCase accepted kind input output)
      (.either onParts .fail)).Gives program.unfold gaps start related
        values := by
  have acyclic := question.within.acyclic
  have notEnd : Listing program.unfold gaps
      (nullCase accepted kind input output)
      ⟨start.place.left, start.value⟩ [] := by
    refine listing_nullCase_of_isCons acyclic (.inl ?_) accepted
    rw [Subst.reify_eq_of_ends acyclic question.inputEnds question.ground]
    rfl
  exact .either_nil_left notEnd (.either_nil_right given .fail)

end Cells

section Maps

variable {relation : Relation Base} {kind : SeqKind} {head tail : Term}
  {heads tails rest : List Term}

/-- Where the cells are taken apart, the parts are related one after the other. -/
theorem gives_mapAll_halves
    {gaps : Gaps}
    {start : Located Subst}
    {supply : Nat}
    {input output shown shownHead shownTail : Term}
    {opened : Subst}
    {accepted : Bool}
    (question :
      start.Question supply (supply + 4) input (.cons head tail) output shown)
    (opens :
      Listing program.unfold gaps ((Cells.numbered supply).parts input output)
        ⟨start.place.right.left, start.value⟩
        [⟨start.place.right.left, opened⟩])
    (halves :
      start.Halves supply head tail output shown opened shownHead shownTail)
    (headsGround : ∀ value ∈ heads, value.isGround = true)
    (onHead :
      program.RelatesShown (program.relate relation) head shownHead heads)
    (onTail :
      program.RelatesShown (mapAll relation kind true) tail shownTail tails) :
    ((mapAll relation kind accepted input output).made supply).1.Gives
      program.unfold gaps start (start.Meets supply (supply + 4) output shown)
      (heads.flatMap fun value => tails.map (Term.cons value)) := by
  have ground := question.ground
  rw [Term.isGround_cons, Bool.and_eq_true] at ground
  let place := start.place.right.left
  have room : supply + 4 ≤ place.supply := question.enough
  have within : opened.Within place.supply :=
    halves.within question.within room fun same => (question.apart same).1
  have later : start.place.supply ≤ place.supply := Nat.le_refl _
  refine gives_opened question accepted kind ?_
  refine gives_halves halves question.within.acyclic headsGround later ?_
    (.both_single opens (gives_defer_head halves within room ground.1 onHead))
    fun middle value found =>
      gives_defer_tail halves found room ground.2 onTail rfl
  intro x outside
  exact ⟨outside, .inr (Nat.zero_le _), .inr (Nat.zero_le _)⟩

/-- At a cell the relation is asked for the head, and the rest for the tail. -/
theorem relates_mapAll_cons
    {accepted : Bool}
    (headsGround : ∀ value ∈ heads, value.isGround = true)
    (onHead : program.Relates (program.relate relation) head heads)
    (onTail : program.Relates (mapAll relation kind true) tail tails) :
    program.Relates (mapAll relation kind accepted) (.cons head tail)
      (heads.flatMap fun value => tails.map (Term.cons value)) := by
  intro gaps start input output shown supply question
  have enough : supply + 4 ≤
      ((mapAll relation kind accepted input output :
        Recipe (CodedGoal Base Custom)).made supply).2 := Nat.le_refl _
  let place := start.place.right.left
  by_cases cell : shown.isVar = true ∨ shown.isCons = true
  · rcases question.exists_parts enough cell place with
      ⟨opened, shownHead, shownTail, opens, halves⟩
    rw [filter_cells halves]
    refine gives_mapAll_halves question opens halves (fun value member => ?_)
      (onHead.shown shownHead) (onTail.shown shownTail)
    exact headsGround value (List.mem_of_mem_filter member)
  · rw [not_or, Bool.not_eq_true, Bool.not_eq_true] at cell
    rw [filter_cells_nil cell.1 cell.2]
    exact gives_opened question accepted kind (.both_nil (.both_nil
      (question.listing_parts_nil enough cell.1 cell.2 place) _) _)

/-- An element that is the same has its own value. -/
theorem gives_eq_head
    {gaps : Gaps}
    {start : Located Subst}
    {place : Place}
    {supply : Nat}
    {output shown shownHead shownTail : Term}
    {opened : Subst}
    (halves :
      start.Halves supply head tail output shown opened shownHead shownTail)
    (within : opened.Within place.supply)
    (inside : supply + 4 ≤ place.supply)
    (headGround : head.isGround = true) :
    (Goal.eq (.var ⟨supply⟩) (.var ⟨supply + 2⟩)).Gives program.unfold gaps
      ⟨place, opened⟩ (HeadFound place opened 0 0 supply shownHead)
      ([head].filter shownHead.admits) := by
  have question : Located.Question ⟨place, opened⟩ 0 0 (.var ⟨supply⟩) head
      (.var ⟨supply + 2⟩) shownHead :=
    halves.head_question within headGround inside (Nat.zero_le _)
      (fun x _ none => (Nat.not_lt_zero _ none).elim) (.inr (Nat.zero_le _))
  exact gives_headFound within.acyclic
    (question.gives_eq question.inputEnds headGround (Nat.le_refl _)).2

/-- At a cell the head is related, or else it is the same. -/
theorem relates_mapAny_cons
    {nullSucceeds : Bool}
    {cursor : MapCursor}
    (headsGround : ∀ value ∈ heads, value.isGround = true)
    (onHead : program.Relates (program.relate relation) head heads)
    (onTails :
      program.Relates (mapAny relation kind nullSucceeds (cursor.next true))
        tail tails)
    (onRest :
      program.Relates (mapAny relation kind nullSucceeds (cursor.next false))
        tail rest) :
    program.Relates (mapAny relation kind nullSucceeds cursor)
      (.cons head tail)
      ((heads.flatMap fun value => tails.map (Term.cons value)) ++
        [head].flatMap fun value => rest.map (Term.cons value)) := by
  intro gaps start input output shown supply question
  have enough : supply + 4 ≤
      ((mapAny relation kind nullSucceeds cursor input output :
        Recipe (CodedGoal Base Custom)).made supply).2 := Nat.le_refl _
  have ground := question.ground
  rw [Term.isGround_cons, Bool.and_eq_true] at ground
  have room := enough.trans question.enough
  let place := start.place.right.left
  let tailsGoal (related : Bool) : CodedGoal Base Custom :=
    .defer (.mapAny relation kind nullSucceeds (cursor.next related)
      (.var ⟨supply + 1⟩) (.var ⟨supply + 3⟩))
  rw [List.filter_append]
  suffices cells :
      (Goal.both ((Cells.numbered supply).parts input output)
        (.either
          (.both
            (.defer (.relate relation (.var ⟨supply⟩) (.var ⟨supply + 2⟩)))
            (tailsGoal true))
          (.either
            (.both (.eq (.var ⟨supply⟩) (.var ⟨supply + 2⟩)) (tailsGoal false))
            .fail))).Gives program.unfold gaps ⟨place, start.value⟩
        (start.Meets supply (supply + 4) output shown)
        ((heads.flatMap fun value => tails.map (Term.cons value)).filter
            shown.admits ++
          ([head].flatMap fun value => rest.map (Term.cons value)).filter
            shown.admits) from
    gives_opened question _ kind cells
  by_cases cell : shown.isVar = true ∨ shown.isCons = true
  · rcases question.exists_parts enough cell place with
      ⟨opened, shownHead, shownTail, opens, halves⟩
    have within : opened.Within place.supply :=
      halves.within question.within room fun same => (question.apart same).1
    have outside (x : Var) (apart : x.id < supply ∨ supply + 4 ≤ x.id) :
        (x.id < supply ∨ supply + 4 ≤ x.id) ∧ (x.id < 0 ∨ 0 ≤ x.id) ∧
          (x.id < 0 ∨ 0 ≤ x.id) :=
      ⟨apart, .inr (Nat.zero_le _), .inr (Nat.zero_le _)⟩
    have related : (Goal.both
        (.defer (.relate relation (.var ⟨supply⟩) (.var ⟨supply + 2⟩)))
        (tailsGoal true)).Gives program.unfold gaps ⟨place.left, opened⟩
        (start.Meets supply (supply + 4) output shown)
        ((heads.flatMap fun value => tails.map (Term.cons value)).filter
          shown.admits) := by
      rw [filter_cells halves]
      refine gives_halves halves within.acyclic ?_ ?_ outside
        (gives_defer_head halves within room ground.1 (onHead.shown shownHead))
        fun middle value found =>
          gives_defer_tail halves found room ground.2 (onTails.shown shownTail)
            rfl
      · intro value member
        exact headsGround value (List.mem_of_mem_filter member)
      · exact Nat.le_refl _
    have unchanged : (Goal.both (.eq (.var ⟨supply⟩) (.var ⟨supply + 2⟩))
        (tailsGoal false)).Gives program.unfold gaps ⟨place.right.left, opened⟩
        (start.Meets supply (supply + 4) output shown)
        (([head].flatMap fun value => rest.map (Term.cons value)).filter
          shown.admits) := by
      rw [filter_cells halves]
      refine gives_halves halves within.acyclic ?_ ?_ outside
        (gives_eq_head halves within room ground.1)
        fun middle value found =>
          gives_defer_tail halves found room ground.2 (onRest.shown shownTail)
            rfl
      · intro value member
        rw [List.mem_singleton.mp (List.mem_of_mem_filter member)]
        exact ground.1
      · exact Nat.le_refl _
    exact .both_single opens
      (.either related (.either_nil_right unchanged .fail))
  · rw [not_or, Bool.not_eq_true, Bool.not_eq_true] at cell
    rw [filter_cells_nil cell.1 cell.2, filter_cells_nil cell.1 cell.2]
    exact .both_nil (question.listing_parts_nil enough cell.1 cell.2 place) _

/-- A known input that is no cell is not taken apart. -/
theorem listing_parts_of_notCell
    {gaps : Gaps}
    {place : Place}
    {subst : Subst}
    {input : Term}
    (acyclic : subst.Acyclic)
    (ends : subst.Ends input known)
    (ground : known.isGround = true)
    (notCell : known.isCons = false)
    (supply : Nat)
    (output : Term) :
    Listing program.unfold gaps ((Cells.numbered supply).parts input output)
      ⟨place, subst⟩ [] :=
  .both_nil (.clash (Subst.unify_cell_eq_none acyclic ends
    (Term.isVar_eq_false_of_isGround ground) notCell)) _

/-- The end of a sequence meets an output that is open or ends alike. -/
theorem gives_nullCase_nil
    {gaps : Gaps}
    {start : Located Subst}
    {input output shown : Term}
    {low high : Nat}
    {found : SeqKind}
    (question : start.Question low high input (.nil found) output shown)
    (place : Place)
    (later : start.place.supply ≤ place.supply)
    (accepted : Bool) :
    (nullCase accepted kind input output).Gives program.unfold gaps
      ⟨place, start.value⟩ (start.Meets low high output shown)
      ((if accepted then [.nil found] else []).filter shown.admits) := by
  cases accepted with
  | false => exact .fail
  | true =>
    have acyclic := question.within.acyclic
    have inputWalk := Subst.walk_eq_of_ends acyclic question.inputEnds
    have outputWalk := Subst.walk_eq_of_ends acyclic question.outputEnds
    have nilEnds (other : SeqKind) :
        start.value.Ends (.nil other) (.nil other) := .here rfl
    rw [if_pos rfl, nullCase, if_pos rfl]
    refine .dynamic ?_
    rw [Recipe.goalAt, Located.enter]
    cases agreed : start.value.agreedKind? [input, output] none with
    | some agreement =>
      have same : agreement = some found :=
        Subst.eq_of_agreedKind? agreed (.inr ⟨input, by simp, inputWalk⟩)
      subst same
      exact .both_single
        (.unified (Subst.unify_of_ends_eq acyclic question.inputEnds
          (nilEnds found) rfl))
        (question.gives_eq (nilEnds found) rfl
          (later.trans (place.le_opening gaps))).1
    | none =>
      have refused : [Term.nil found].filter shown.admits = [] := by
        cases shown with
        | var y =>
          simp [Subst.agreedKind?, inputWalk, outputWalk] at agreed
        | nil other =>
          have differ : found ≠ other := by
            rintro rfl
            simp [Subst.agreedKind?, inputWalk, outputWalk] at agreed
          simp [Term.admits, Term.isVar, Ne.symm differ]
        | _ => simp [Term.admits, Term.isVar]
      rw [refused]
      exact .fail

/-- What a known input comes to that is no cell: its end, or nothing. -/
def endValues (accepted : Bool) : Term → List Term
  | .nil found => if accepted then [.nil found] else []
  | _ => []

theorem gives_nullCase
    {gaps : Gaps}
    {start : Located Subst}
    {input output shown : Term}
    {low high : Nat}
    (question : start.Question low high input known output shown)
    (notCell : known.isCons = false)
    (place : Place)
    (later : start.place.supply ≤ place.supply)
    (accepted : Bool) :
    (nullCase accepted kind input output).Gives program.unfold gaps
      ⟨place, start.value⟩ (start.Meets low high output shown)
      ((endValues accepted known).filter shown.admits) := by
  have acyclic := question.within.acyclic
  have stuck (notNil : ∀ found, known ≠ .nil found) :
      Listing program.unfold gaps (nullCase accepted kind input output)
        ⟨place, start.value⟩ [] :=
    listing_nullCase_of_stuck acyclic question.ground notCell notNil
      (Subst.reify_eq_of_ends acyclic question.inputEnds question.ground) _
  cases known with
  | nil found => exact gives_nullCase_nil question place later accepted
  | cons => cases notCell
  | _ => exact ⟨[], stuck (by simp), .nil⟩

theorem relates_mapAll_of_notCell
    (accepted : Bool)
    (notCell : known.isCons = false) :
    program.Relates (mapAll relation kind accepted) known
      (endValues accepted known) := by
  intro gaps start input output shown supply question
  have ends : (nullCase accepted kind input output).Gives program.unfold gaps
      ⟨start.place.left, start.value⟩ _ _ :=
    gives_nullCase question notCell start.place.left (Nat.le_refl _) accepted
  have none : Listing program.unfold gaps
      ((Cells.numbered supply).parts input output)
      ⟨start.place.right.left, start.value⟩ [] :=
    listing_parts_of_notCell question.within.acyclic question.inputEnds
      question.ground notCell supply output
  exact ends.either_nil_right
    (.either_nil (.both_nil (.both_nil none _) _) .fail)

theorem relates_mapAny_of_notCell
    (nullSucceeds : Bool)
    (cursor : MapCursor)
    (notCell : known.isCons = false) :
    program.Relates (mapAny relation kind nullSucceeds cursor) known
      (endValues (cursor.acceptsNull nullSucceeds) known) := by
  intro gaps start input output shown supply question
  have ends : (nullCase (cursor.acceptsNull nullSucceeds) kind input
      output).Gives program.unfold gaps ⟨start.place.left, start.value⟩ _ _ :=
    gives_nullCase question notCell start.place.left (Nat.le_refl _) _
  have none : Listing program.unfold gaps
      ((Cells.numbered supply).parts input output)
      ⟨start.place.right.left, start.value⟩ [] :=
    listing_parts_of_notCell question.within.acyclic question.inputEnds
      question.ground notCell supply output
  exact ends.either_nil_right (.either_nil (.both_nil none _) .fail)

end Maps

/-! ## Operators and operands -/

section Below

variable {node operatorRelation : Base} {settings : WalkSettings Base}
  {head tail : Term} {tails : List Term}

/-- Operands that end alike make an expression of any operator. -/
theorem split_cons_of_terminator
    {protocol : Protocol}
    {operator operands : Term}
    (accepted : protocol.split (.cons head tail) = .ok (head, tail))
    (ground : (Term.cons head tail).isGround = true)
    (same : operands.terminator? = tail.terminator?) :
    protocol.split (.cons operator operands) = .ok (operator, operands) := by
  cases protocol with
  | sequence => rfl
  | expr =>
    have ends := Protocol.terminator?_of_split accepted ground
    have checked := (Protocol.checkSpine_expr_eq_ok_iff (.cons operator operands)
      (.notCompound (.cons operator operands))).mpr
      (.inr (by rw [Term.terminator?_cons, same, ends]))
    rw [Protocol.split, checked]
    rfl

theorem le_made_walkBelow_operator
    (related : settings.operatorRelation = some operatorRelation)
    (graphIn graphOut : Term)
    (supply : Nat) :
    supply + 4 ≤ ((program.walkBelow node settings graphIn graphOut).made
      supply).2 := by
  rw [made_walkBelow_operator related]
  exact (Recipe.le_made _ _).trans (Recipe.le_made _ _)

/-- Terms that are refused have nothing below them. -/
theorem relates_of_refused
    {error : Protocol.Error}
    (related : settings.operatorRelation = some operatorRelation)
    (refused : settings.decomposer.protocol.split known = .error error) :
    program.Relates (program.walkBelow node settings) known [] := by
  intro gaps start input output shown supply question
  have enough :=
    @le_made_walkBelow_operator _ _ program node _ _ related input output supply
  have input_eq := Subst.reify_eq_of_ends question.within.acyclic
    question.inputEnds question.ground
  have stuck : Listing program.unfold gaps
      (.application settings.decomposer (.var ⟨supply⟩) (.var ⟨supply + 1⟩)
        input) start [] :=
    listing_application_nil question.within.acyclic
      (question.lookup_cells enough (by decide : 0 < 4))
      (question.lookup_cells enough (by decide : 1 < 4)) input_eq
      (Term.isVar_eq_false_of_isGround question.ground) refused
  rw [made_walkBelow_operator related]
  exact .both_nil (.both_nil (.both_nil stuck _) _) _

/-- The operators are related by themselves, and the operands as sequences. -/
theorem relatesAtOnce_operator
    {function : Term → Option Term}
    (related : settings.operatorRelation = some operatorRelation)
    (computes : program.Computes operatorRelation function)
    (accepted :
      settings.decomposer.protocol.split (.cons head tail) = .ok (head, tail))
    (ends : ∀ value ∈ tails, value.terminator? = tail.terminator?)
    (onTail :
      program.Relates
        (fun first second =>
          settings.policy.map (.walk node settings) first second
            settings.mapSettings)
        tail tails) :
    program.RelatesAtOnce (program.walkBelow node settings) (.cons head tail)
      ((function head).toList.flatMap fun value =>
        tails.map (Term.cons value)) := by
  intro gaps start input output shown supply within low question
  have enough :=
    @le_made_walkBelow_operator _ _ program node _ _ related input output supply
  have ground := question.ground
  rw [Term.isGround_cons, Bool.and_eq_true] at ground
  rw [made_walkBelow_operator related] at enough question ⊢
  let operators := (program.relation operatorRelation (.var ⟨supply⟩)
    (.var ⟨supply + 2⟩)).made (supply + 4)
  let elements := (settings.policy.map (.walk node settings)
    (.var ⟨supply + 1⟩) (.var ⟨supply + 3⟩) settings.mapSettings :
      Recipe (CodedGoal Base Custom)).made operators.2
  change supply + 4 ≤ elements.2 at enough
  change start.Question supply elements.2 _ _ _ _ at question
  change (Goal.both (.both (.both
      (.application settings.decomposer (.var ⟨supply⟩) (.var ⟨supply + 1⟩)
        input)
      (.application settings.decomposer (.var ⟨supply + 2⟩)
        (.var ⟨supply + 3⟩) output))
      operators.1) elements.1).Gives _ _ _
    (start.Meets supply elements.2 output shown) _
  by_cases admissible : shown.isVar = true ∨
      ∃ parts, settings.decomposer.protocol.split shown = .ok parts
  · rcases question.exists_applications program.unfold gaps enough accepted
        admissible with
      ⟨place, opened, shownHead, shownTail, later, opens, halves⟩
    have shownLow : ∀ {x : Var}, shown = .var x → x.id < supply + 4 := by
      rintro x rfl
      have ceiling := within.ceiling_ends_le question.outputEnds low
      rw [Term.ceiling] at ceiling
      omega
    have openedWithin : opened.Within (supply + 4) :=
      halves.within (within.mono (Nat.le_add_right _ _)) (Nat.le_refl _) shownLow
    have headsLe : supply + 4 ≤ operators.2 := Recipe.le_made _ _
    have tailsLe : operators.2 ≤ elements.2 := Recipe.le_made _ _
    have room : elements.2 ≤ place.supply := question.enough.trans later
    have headQuestion : Located.Question ⟨place, opened⟩ (supply + 4) operators.2
        (.var ⟨supply⟩) head (.var ⟨supply + 2⟩) shownHead :=
      halves.head_question (openedWithin.mono (enough.trans room)) ground.1
        (enough.trans room) (tailsLe.trans room)
        (fun x young _ => openedWithin.lookup_eq_none young) (.inl (by omega))
    have heads := computes.relatesAtOnce head gaps ⟨place, opened⟩
      (.var ⟨supply⟩) (.var ⟨supply + 2⟩) shownHead (supply + 4) openedWithin
      (by simp [Term.ceiling]) headQuestion
    have onHead : operators.1.Gives program.unfold gaps ⟨place, opened⟩
        (HeadFound place opened (supply + 4) operators.2 supply shownHead)
        ((function head).toList.filter shownHead.admits) :=
      gives_headFound openedWithin.acyclic heads
    have outside : ∀ x : Var, x.id < supply ∨ elements.2 ≤ x.id →
        (x.id < supply ∨ supply + 4 ≤ x.id) ∧
          (x.id < supply + 4 ∨ operators.2 ≤ x.id) ∧
          (x.id < operators.2 ∨ elements.2 ≤ x.id) := by
      intro x apart
      omega
    rw [filter_cells halves]
    refine gives_halves halves question.within.acyclic ?_ later outside
      (.both_single opens onHead) ?_
    · intro value member
      have found := Option.mem_toList.mp (List.mem_of_mem_filter member)
      exact computes.ground ground.1 found
    · intro middle value found
      have tailQuestion : middle.Question operators.2 elements.2
          (.var ⟨supply + 1⟩) tail (.var ⟨supply + 3⟩) shownTail := by
        refine halves.tail_question found.meets found.grows found.later
          (enough.trans room) (.inl (by omega)) ground.2
          (room.trans found.later) ?_ (.inl (by omega))
        intro x young below
        refine found.meets.spared x (below.trans_le room) (.inr young) ?_
          (openedWithin.lookup_eq_none (headsLe.trans young))
        intro same
        have here := halves.headShows.eq_of_eq_var same
        subst here
        dsimp only at young
        omega
      exact onTail gaps middle (.var ⟨supply + 1⟩) (.var ⟨supply + 3⟩) shownTail
        operators.2 tailQuestion
  · rw [not_or, Bool.not_eq_true] at admissible
    rcases admissible with ⟨known, refused⟩
    cases outcome : settings.decomposer.protocol.split shown with
    | ok parts => exact (refused ⟨parts, outcome⟩).elim
    | error error =>
      have none : ((function head).toList.flatMap fun value =>
          tails.map (Term.cons value)).filter shown.admits = [] := by
        rw [List.filter_eq_nil_iff]
        intro value member
        rcases List.mem_flatMap.mp member with ⟨operator, _, inside⟩
        rcases List.mem_map.mp inside with ⟨operands, listed, rfl⟩
        rw [Term.admits, known, Bool.false_or, decide_eq_true_iff]
        rintro rfl
        rw [split_cons_of_terminator accepted question.ground
          (ends operands listed)] at outcome
        cases outcome
      rw [none]
      exact .both_nil (.both_nil (question.listing_applications_refused enough
        accepted known outcome) _) _

end Below

/-! ## Walks -/

section Walk

variable {node : Base} {settings : WalkSettings Base}

/-- A walk asks for the term itself, and for what is below it. -/
theorem relates_walk
    {function : Term → Option Term}
    (computes : program.Computes node function)
    (below :
      program.RelatesAtOnce (program.walkBelow node settings) known values) :
    program.Relates (program.relate (.walk node settings)) known
      ((function known).toList ++ values) := by
  intro gaps start input output shown supply question
  have input_eq := Subst.reify_eq_of_ends question.within.acyclic
    question.inputEnds question.ground
  refine .dynamic ?_
  simp only [input_eq, question.reify_output]
  rw [Recipe.goalAt, Located.enter, made_level]
  let opening := start.place.opening gaps
  let level := (program.walkBelow node settings known shown).made opening
  let here := (program.relation node known shown).made level.2
  let place := start.place.built here.2
  have opened : start.place.supply ≤ opening := start.place.le_opening gaps
  have levelLe : opening ≤ level.2 := Recipe.le_made _ _
  have hereLe : level.2 ≤ here.2 := Recipe.le_made _ _
  have knownEnds : start.value.Ends known known :=
    Subst.ends_of_isGround question.ground
  have shownEnds : start.value.Ends shown shown :=
    .here question.outputEnds.next?_eq_none
  have shownLow : shown.ceiling ≤ start.place.supply := by
    rcases question.whole with unbound | ground
    · cases shown with
      | var y => exact (question.apart rfl).1
      | _ => cases unbound
    · rw [Term.ceiling_eq_zero_of_isGround ground]
      exact Nat.zero_le _
  have onNode : here.1.Gives program.unfold gaps ⟨place.left, start.value⟩
      (start.Meets supply supply output shown)
      ((function known).toList.filter shown.admits) :=
    gives_again question (opened.trans levelLe) hereLe (Nat.le_refl _) knownEnds
      shownEnds
      (computes.relatesAtOnce known gaps ⟨place.left, start.value⟩ known shown
        shown level.2 (question.within.mono (opened.trans levelLe))
        (shownLow.trans (opened.trans levelLe)))
  have onLevel : level.1.Gives program.unfold gaps
      ⟨place.right.left, start.value⟩ (start.Meets supply supply output shown)
      (values.filter shown.admits) :=
    gives_again question opened levelLe hereLe knownEnds shownEnds
      (below gaps ⟨place.right.left, start.value⟩ known shown shown opening
        (question.within.mono opened) (shownLow.trans opened))
  rw [List.filter_append]
  exact .either onNode (.either_nil_right onLevel .fail)

/-! ## All parts of a graph -/

/-- The goals have ground values for a known term. -/
def HasValues
    (program : Program Base Custom)
    (recipe : Term → Term → Recipe (CodedGoal Base Custom))
    (known : Term) : Prop :=
  ∃ values, (∀ value ∈ values, value.isGround = true) ∧
    program.Relates recipe known values

/-- They have such values, and these end as the known term does. -/
def HasAlikeValues
    (program : Program Base Custom)
    (recipe : Term → Term → Recipe (CodedGoal Base Custom))
    (known : Term) : Prop :=
  ∃ values, (∀ value ∈ values, value.isGround = true ∧
      value.terminator? = known.terminator?) ∧
    program.Relates recipe known values

/-- All ways to map the walk over a known sequence have values. -/
structure MapsHaveValues
    (program : Program Base Custom)
    (node : Base)
    (settings : WalkSettings Base)
    (known : Term) : Prop where
  all : ∀ accepted,
    program.HasAlikeValues
      (mapAll (.walk node settings) settings.terminator accepted) known
  any : ∀ nullSucceeds cursor,
    program.HasAlikeValues
      (mapAny (.walk node settings) settings.terminator nullSucceeds cursor)
      known

/-- Cells made of values are values of the cell. -/
theorem forall_cells
    {head tail : Term}
    {heads tails : List Term}
    (headsGround : ∀ value ∈ heads, value.isGround = true)
    (tailsAlike : ∀ value ∈ tails, value.isGround = true ∧
      value.terminator? = tail.terminator?) :
    ∀ value ∈ heads.flatMap fun value => tails.map (Term.cons value),
      value.isGround = true ∧
        value.terminator? = (Term.cons head tail).terminator? := by
  intro value member
  rcases List.mem_flatMap.mp member with ⟨front, listed, inside⟩
  rcases List.mem_map.mp inside with ⟨back, follows, rfl⟩
  rw [Term.isGround_cons, Term.terminator?_cons, Term.terminator?_cons,
    headsGround front listed, (tailsAlike back follows).1]
  exact ⟨rfl, (tailsAlike back follows).2⟩

theorem MapsHaveValues.of_cons
    {head tail : Term}
    (headGround : head.isGround = true)
    (onHead : program.HasValues (program.relate (.walk node settings)) head)
    (onTail : program.MapsHaveValues node settings tail) :
    program.MapsHaveValues node settings (.cons head tail) := by
  rcases onHead with ⟨heads, headsGround, heads_eq⟩
  constructor
  · intro accepted
    rcases onTail.all true with ⟨tails, alike, tails_eq⟩
    exact ⟨_, forall_cells headsGround alike,
      relates_mapAll_cons headsGround heads_eq tails_eq⟩
  · intro nullSucceeds cursor
    rcases onTail.any nullSucceeds (cursor.next true) with
      ⟨tails, tailsAlike, tails_eq⟩
    rcases onTail.any nullSucceeds (cursor.next false) with
      ⟨rest, restAlike, rest_eq⟩
    refine ⟨_, ?_, relates_mapAny_cons headsGround heads_eq tails_eq rest_eq⟩
    rw [List.forall_mem_append]
    exact ⟨forall_cells headsGround tailsAlike,
      forall_cells (List.forall_mem_singleton.mpr headGround) restAlike⟩

theorem MapsHaveValues.of_notCell (notCell : known.isCons = false) :
    program.MapsHaveValues node settings known := by
  have alike (accepted : Bool) : ∀ value ∈ endValues accepted known,
      value.isGround = true ∧ value.terminator? = known.terminator? := by
    cases known <;> cases accepted <;> simp [endValues]
  exact ⟨fun accepted => ⟨_, alike _, relates_mapAll_of_notCell accepted notCell⟩,
    fun nullSucceeds cursor =>
      ⟨_, alike _, relates_mapAny_of_notCell nullSucceeds cursor notCell⟩⟩

theorem MapsHaveValues.policy
    (maps : program.MapsHaveValues node settings known) :
    program.HasAlikeValues
      (fun first second =>
        settings.policy.map (.walk node settings) first second
          settings.mapSettings)
      known := by
  cases same : settings.policy with
  | all => exact maps.all _
  | any => exact maps.any _ _

/-- The parts below a known term have values, whatever is compound. -/
theorem exists_below
    (operators : ∀ name, settings.operatorRelation = some name →
      ∃ function, program.Computes name function)
    (ground : known.isGround = true)
    (onKnown : program.MapsHaveValues node settings known)
    (onTail : ∀ {head tail}, known = .cons head tail →
      program.MapsHaveValues node settings tail) :
    ∃ values, (∀ value ∈ values, value.isGround = true) ∧
      program.RelatesAtOnce (program.walkBelow node settings) known values := by
  cases related : settings.operatorRelation with
  | none =>
    rcases onKnown.policy with ⟨values, alike, relates⟩
    refine ⟨values, fun value member => (alike value member).1, ?_⟩
    have same : program.walkBelow node settings = fun first second =>
        settings.policy.map (.walk node settings) first second
          settings.mapSettings := by
      funext first second
      rw [walkBelow, related]
    rw [same]
    exact relates.atOnce
  | some name =>
    rcases operators name related with ⟨function, computes⟩
    cases accepted : settings.decomposer.protocol.split known with
    | error =>
      exact ⟨[], by simp, (relates_of_refused related accepted).atOnce⟩
    | ok parts =>
      rcases parts with ⟨operator, operands⟩
      cases Protocol.eq_cons_of_split accepted
      rw [Term.isGround_cons, Bool.and_eq_true] at ground
      rcases (onTail rfl).policy with ⟨tails, alike, relates⟩
      have headsGround : ∀ value ∈ (function operator).toList,
          value.isGround = true := fun value member =>
        computes.ground ground.1 (Option.mem_toList.mp member)
      refine ⟨_, ?_, relatesAtOnce_operator related computes accepted
        (fun value member => (alike value member).2) relates⟩
      intro value member
      exact (@forall_cells operator _ _ _ headsGround alike value member).1

/-- Every walk of a known graph has values. -/
theorem hasValues_walk
    {function : Term → Option Term}
    (computes : program.Computes node function)
    (operators : ∀ name, settings.operatorRelation = some name →
      ∃ function, program.Computes name function)
    (ground : known.isGround = true) :
    program.HasValues (program.relate (.walk node settings)) known ∧
      program.MapsHaveValues node settings known := by
  have walked (known : Term) (ground : known.isGround = true)
      (onKnown : program.MapsHaveValues node settings known)
      (onTail : ∀ {head tail}, known = .cons head tail →
        program.MapsHaveValues node settings tail) :
      program.HasValues (program.relate (.walk node settings)) known := by
    rcases exists_below operators ground onKnown onTail with
      ⟨values, allGround, relates⟩
    refine ⟨_, ?_, relates_walk computes relates⟩
    rw [List.forall_mem_append]
    exact ⟨fun value member =>
      computes.ground ground (Option.mem_toList.mp member), allGround⟩
  induction known with
  | cons head tail headIH tailIH =>
    have parts := ground
    rw [Term.isGround_cons, Bool.and_eq_true] at parts
    have maps : program.MapsHaveValues node settings (.cons head tail) :=
      .of_cons parts.1 (headIH parts.1).1 (tailIH parts.2).2
    refine ⟨walked _ ground maps ?_, maps⟩
    rintro _ _ ⟨⟩
    exact (tailIH parts.2).2
  | _ => exact ⟨walked _ ground (.of_notCell rfl) (by simp), .of_notCell rfl⟩

/-- A question about the whole graph is put where a search begins. -/
theorem question_root
    {graph output shown : Term}
    (session : Session)
    (ground : graph.isGround = true)
    (ends : Subst.Ends ∅ output shown)
    (whole : shown.isVar = true ∨ shown.isGround = true)
    (minted : ∀ {x : Var}, shown = .var x → x.id < session.supply) :
    (Located.root ∅ session).Question session.supply session.supply graph graph
      output shown where
  within := Subst.within_empty _
  enough := Nat.le_refl _
  own x _ _ := Subst.lookup_empty x
  inputEnds := Subst.ends_of_isGround ground
  ground := ground
  outputEnds := ends
  whole := whole
  apart same := ⟨minted same, .inl (minted same)⟩

/--
Checking agrees with generating, for all settings.  The walk from a known graph
to a variable ends with answers; and the walk from it to any ground term ends,
in any session, with as many results as the term has occurrences among them.
-/
theorem walk_checks_what_it_finds
    {function : Term → Option Term}
    (computes : program.Computes node function)
    (operators : ∀ name, settings.operatorRelation = some name →
      ∃ function, program.Computes name function)
    {graph : Term}
    (ground : graph.isGround = true)
    {query : Var}
    {session : Session}
    (minted : query.id < session.supply) :
    ∃ answers,
      (program.walk node settings graph (.var query)).Finishes program.unfold
          (.var query) session answers ∧
        ∀ other : Term, other.isGround = true → ∀ checking : Session,
          ∃ results,
            (program.walk node settings graph other).Drains program.unfold ∅
                checking results ∧
              results.length = answers.count other := by
  rcases (hasValues_walk computes operators ground).1 with
    ⟨values, _, relates⟩
  rcases Gaps.exists_fit program.unfold
      (program.walk node settings graph (.var query)) ∅ session with
    ⟨gaps, fit⟩
  have asked := question_root session ground
    (Subst.ends_of_lookup_eq_none (Subst.lookup_empty query)) (.inl rfl)
    (by rintro _ ⟨⟩; exact minted)
  rcases relates gaps _ _ _ _ _ asked with ⟨found, listing, meets⟩
  rcases listing.exists_completes with ⟨results, completes, permuted⟩
  rcases List.perm_comp_forall₂ permuted meets with
    ⟨answers, resultsMeet, reordered⟩
  have all : values.filter (Term.var query).admits = values :=
    List.filter_eq_self.mpr fun _ _ => rfl
  rw [all] at reordered
  have shown : List.Forall₂
      (fun result answer => result.value.reify (.var query) = answer)
      results answers :=
    resultsMeet.imp fun _ _ meets => meets.reify_eq
  refine ⟨answers, completes.finishes fit shown, ?_⟩
  intro other otherGround checking
  rcases Gaps.exists_fit program.unfold
      (program.walk node settings graph other) ∅ checking with
    ⟨otherGaps, otherFit⟩
  have checked := question_root checking ground
    (Subst.ends_of_isGround otherGround) (.inr otherGround)
    (by
      rintro _ rfl
      simp at otherGround)
  rcases relates otherGaps _ _ _ _ _ checked with ⟨met, otherListing, othersMeet⟩
  rcases otherListing.exists_completes with ⟨others, othersComplete, shuffled⟩
  refine ⟨_, othersComplete.drains otherFit, ?_⟩
  have known := Term.isVar_eq_false_of_isGround otherGround
  calc
    (others.map Located.value).length = met.length := by
      rw [List.length_map, shuffled.length_eq]
    _ = (values.filter other.admits).length := othersMeet.length_eq
    _ = values.count other := by
      rw [List.count_eq_length_filter]
      congr 1
      refine List.filter_congr fun value _ => ?_
      rw [Term.admits, known, Bool.false_or]
      exact decide_eq_decide.mpr eq_comm
    _ = answers.count other := (reordered.count_eq other).symm

/-- Every function between ground terms is computed by its table. -/
theorem computes_table
    {function : Term → Option Term}
    (ground :
      ∀ {term value}, term.isGround = true → function term = some value →
        value.isGround = true) :
    (table fun term => (function term).toList).Computes () function where
  ground := ground
  calls := by
    intro gaps start input known output shown supply within _ question
    let program := table fun term => (function term).toList
    have input_eq := Subst.reify_eq_of_ends question.within.acyclic
      question.inputEnds question.ground
    let place := start.place.built (start.place.opening gaps)
    have branches :
        (Goal.any ((function known).toList.map fun value =>
          [.eq output value])).Gives program.unfold gaps ⟨place, start.value⟩
          (start.Meets supply supply output shown)
          ((function known).toList.filter shown.admits) := by
      cases found : function known with
      | none => exact .fail
      | some value =>
        have valueGround := ground question.ground found
        exact .either_nil_right
          (question.gives_eq (Subst.ends_of_isGround valueGround) valueGround
            (start.place.le_opening gaps)).1
          .fail
    have asked : ((program.relation () input output).made supply).1.Gives
        program.unfold gaps start (start.Meets supply supply output shown)
        ((function known).toList.filter shown.admits) := by
      refine .dynamic ?_
      rw [input_eq]
      exact branches
    rcases asked with ⟨found, listing, meets⟩
    rcases listing.exists_completes with ⟨results, completes, permuted⟩
    rcases List.perm_comp_forall₂ permuted meets with
      ⟨ordered, resultsMeet, reordered⟩
    rw [← Option.toList_filter] at reordered
    rw [eq_toList_of_perm reordered, Option.toList_filter] at resultsMeet
    exact ⟨results, completes, resultsMeet⟩

/-- Operators are related as the terms are, and some operand has to be. -/
def withOperators : WalkSettings Unit :=
  { (.standard : WalkSettings Unit) with operatorRelation := some () }

/-- Walks from an expression whose operator is a negative integer. -/
theorem walk_checks_flipNegative :
    ∃ answers,
      ((table fun term => (flipNegative term).toList).walk () withOperators
          (.expr (.int (-1)) [.int (-2), .int 3]) (.var ⟨0⟩)).Finishes
          (table fun term => (flipNegative term).toList).unfold (.var ⟨0⟩)
          ⟨#["q"], #[]⟩ answers ∧
        ∀ other : Term, other.isGround = true → ∀ checking : Session,
          ∃ results,
            ((table fun term => (flipNegative term).toList).walk ()
                withOperators (.expr (.int (-1)) [.int (-2), .int 3])
                other).Drains
                (table fun term => (flipNegative term).toList).unfold ∅ checking
                results ∧
              results.length = answers.count other := by
  let graph : Term := .expr (.int (-1)) [.int (-2), .int 3]
  have operators : ∀ name, withOperators.operatorRelation = some name →
      ∃ function, (table fun term => (flipNegative term).toList).Computes name
        function := by
    rintro _ ⟨⟩
    exact ⟨_, computes_table isGround_of_flipNegative⟩
  exact @walk_checks_what_it_finds _ _ _ _ _ _
    (computes_table isGround_of_flipNegative) operators graph rfl ⟨0⟩
    ⟨#["q"], #[]⟩ Nat.one_pos

end Walk

end Program

end RelationalSearch
