import RelationalSearch.Proofs.Search.Reading
import RelationalSearch.Relation.Reach

/-!
# Sequences that are linked position by position

`linked` is the condition that two terms are sequences of one kind, as long as
a list of links, and that each link holds between the elements at its position.
It takes the sequences apart from the left, and has no branches of its own.

The relations of the library that go through two sequences in step have two
branches at every position, one for the end and one for another cell.  Where one
of the sides shows which of them it is, the other branch has no results.  So a
relation reads as `linked` for one position as soon as it does so for the rest
(`readsAs_mapAll_cell`, `readsAs_mapAny_cell`), and at the end
(`readsAs_mapAll_ended`, `readsAs_mapAny_ended`).
-/

namespace RelationalSearch

variable {Base Custom : Type}

/-! ## Conditions on sequences -/

/-- What is asked of the elements of two sequences at some position. -/
abbrev Link (Base Custom : Type) := Term → Term → CodedGoal Base Custom

/-- Both sequences end here, as sequences of the kind, if they may. -/
def ended
    (kind : Option SeqKind)
    (accepted : Bool)
    (first second : Term) : CodedGoal Base Custom :=
  match kind with
  | some kind =>
    if accepted then .all [.eq first (.nil kind), .eq second (.nil kind)]
    else .fail
  | none => .fail

/-- Two terms are the cells of these heads and tails. -/
def Cells.parts (cells : Cells) (first second : Term) :
    CodedGoal Base Custom :=
  .both (.cons cells.firstHead cells.firstTail first)
    (.cons cells.secondHead cells.secondTail second)

/--
Two sequences of the kind are as long as the list of links, and the links hold
between their elements.  Without links, the sequences have to be accepted.
-/
def linked
    (kind : Option SeqKind)
    (accepted : Bool) :
    List (Link Base Custom) → Term → Term → Recipe (CodedGoal Base Custom)
  | [], first, second => pure (ended kind accepted first second)
  | link :: links, first, second => do
    let cells ← Cells.fresh
    pure (.all
      [cells.parts first second,
        link cells.firstHead cells.secondHead,
        .dynamic fun _ =>
          linked kind true links cells.firstTail cells.secondTail])

/--
As `linked`, but elements may also be equal, as long as the cursor accepts the
end that is reached in this way.
-/
def linkedAny
    (kind : Option SeqKind)
    (nullSucceeds : Bool) :
    MapCursor → List (Link Base Custom) → Term → Term →
      Recipe (CodedGoal Base Custom)
  | cursor, [], first, second =>
    pure (ended kind (cursor.acceptsNull nullSucceeds) first second)
  | cursor, link :: links, first, second => do
    let cells ← Cells.fresh
    pure (.both (cells.parts first second)
      (.any
        [[link cells.firstHead cells.secondHead,
            .dynamic fun _ =>
              linkedAny kind nullSucceeds (cursor.next true) links
                cells.firstTail cells.secondTail],
          [.eq cells.firstHead cells.secondHead,
            .dynamic fun _ =>
              linkedAny kind nullSucceeds (cursor.next false) links
                cells.firstTail cells.secondTail]]))

/-- The cells that are made of the next variables. -/
def Cells.numbered (supply : Nat) : Cells where
  firstHead := .var ⟨supply⟩
  firstTail := .var ⟨supply + 1⟩
  secondHead := .var ⟨supply + 2⟩
  secondTail := .var ⟨supply + 3⟩

section Made

variable (relation : Relation Base) (default : SeqKind) (nullSucceeds : Bool)
  (cursor : MapCursor) (first second : Term) (supply : Nat)

/-- The goals of one level of `mapAll`. -/
theorem made_mapAll :
    ((mapAll relation default nullSucceeds first second :
        Recipe (CodedGoal Base Custom)).made supply).1 =
      let cells := Cells.numbered supply
      .either (nullCase nullSucceeds default first second)
        (.either
          (.both
            (.both (cells.parts first second)
              (.defer (.relate relation cells.firstHead cells.secondHead)))
            (.defer (.mapAll relation default cells.firstTail
              cells.secondTail)))
          .fail) :=
  rfl

/-- The goals of one level of `mapAny`. -/
theorem made_mapAny_eq :
    ((mapAny relation default nullSucceeds cursor first second :
        Recipe (CodedGoal Base Custom)).made supply).1 =
      let cells := Cells.numbered supply
      let tails (related : Bool) : CodedGoal Base Custom :=
        .defer (.mapAny relation default nullSucceeds (cursor.next related)
          cells.firstTail cells.secondTail)
      .either (nullCase (cursor.acceptsNull nullSucceeds) default first second)
        (.either
          (.both (cells.parts first second)
            (.either
              (.both
                (.defer (.relate relation cells.firstHead cells.secondHead))
                (tails true))
              (.either
                (.both (.eq cells.firstHead cells.secondHead) (tails false))
                .fail)))
          .fail) :=
  rfl

variable (kind : Option SeqKind) (link : Link Base Custom)
  (links : List (Link Base Custom))

theorem made_linked_nil :
    (linked kind nullSucceeds [] first second :
        Recipe (CodedGoal Base Custom)).made supply =
      (ended kind nullSucceeds first second, supply) :=
  rfl

theorem made_linkedAny_nil :
    (linkedAny kind nullSucceeds cursor [] first second :
        Recipe (CodedGoal Base Custom)).made supply =
      (ended kind (cursor.acceptsNull nullSucceeds) first second, supply) :=
  rfl

theorem made_linked_cons :
    (linked kind nullSucceeds (link :: links) first second).made supply =
      let cells := Cells.numbered supply
      (.both
        (.both (cells.parts first second)
          (link cells.firstHead cells.secondHead))
        (.dynamic fun _ =>
          linked kind true links cells.firstTail cells.secondTail),
        supply + 4) :=
  rfl

theorem made_linkedAny_cons :
    (linkedAny kind nullSucceeds cursor (link :: links) first second).made
        supply =
      let cells := Cells.numbered supply
      let tails (related : Bool) : CodedGoal Base Custom :=
        .dynamic fun _ =>
          linkedAny kind nullSucceeds (cursor.next related) links
            cells.firstTail cells.secondTail
      (.both (cells.parts first second)
        (.either
          (.both (link cells.firstHead cells.secondHead) (tails true))
          (.either (.both (.eq cells.firstHead cells.secondHead) (tails false))
            .fail)),
        supply + 4) :=
  rfl

end Made

/-- The parts are terms of a session. -/
structure Cells.Low (cells : Cells) (supply : Nat) : Prop where
  firstHead : cells.firstHead.ceiling ≤ supply
  firstTail : cells.firstTail.ceiling ≤ supply
  secondHead : cells.secondHead.ceiling ≤ supply
  secondTail : cells.secondTail.ceiling ≤ supply

theorem Cells.low_numbered
    {supply later : Nat}
    (enough : supply + 4 ≤ later) :
    (Cells.numbered supply).Low later := by
  constructor
  all_goals
    simp only [numbered, Term.ceiling]
    omega

theorem Cells.Low.mono
    {cells : Cells}
    {supply later : Nat}
    (low : cells.Low supply)
    (ordered : supply ≤ later) :
    cells.Low later where
  firstHead := low.firstHead.trans ordered
  firstTail := low.firstTail.trans ordered
  secondHead := low.secondHead.trans ordered
  secondTail := low.secondTail.trans ordered

/-- The substitution and both terms are of the session. -/
structure Located.Covers (start : Located Subst) (first second : Term) :
    Prop where
  within : start.value.Within start.place.supply
  firstLow : first.ceiling ≤ start.place.supply
  secondLow : second.ceiling ≤ start.place.supply

theorem Located.Covers.move
    {start : Located Subst}
    {first second : Term}
    (covers : start.Covers first second)
    (place : Place)
    (later : start.place.supply ≤ place.supply) :
    Located.Covers ⟨place, start.value⟩ first second where
  within := covers.within.mono later
  firstLow := covers.firstLow.trans later
  secondLow := covers.secondLow.trans later

/-! ## Ends of sequences -/

section Ends

variable {Code : Type} {goalOf : Code → Recipe (Goal Code)} {gaps : Gaps}
  {subst later : Subst}

theorem Subst.reify_walk
    (acyclic : subst.Acyclic)
    (term : Term) :
    subst.reify (subst.walk term) = subst.reify term :=
  (reify_eq_of_reified acyclic ((reified_reify acyclic _).of_ends
    (follow_eq_some_walk acyclic term).2)).symm

/-- What is neither unbound nor an end stands in the way of a common kind. -/
theorem Subst.agreedKind?_eq_none
    {terms : List Term}
    {term : Term}
    (member : term ∈ terms)
    (notVar : (subst.walk term).isVar = false)
    (notNil : ∀ kind, subst.walk term ≠ .nil kind)
    (found : Option SeqKind) :
    subst.agreedKind? terms found = none := by
  induction terms generalizing found with
  | nil => simp at member
  | cons other terms ih =>
    rw [agreedKind?]
    rcases List.mem_cons.mp member with rfl | inside
    · cases walked : subst.walk term with
      | var => simp [walked, Term.isVar] at notVar
      | nil kind => exact (notNil kind walked).elim
      | _ => rfl
    · cases subst.walk other with
      | var => exact ih inside found
      | nil kind =>
        change ite _ _ _ = none
        rw [ih inside, ite_self]
      | _ => rfl

/-- The common kind is that of each end. -/
theorem Subst.eq_of_agreedKind?
    {terms : List Term}
    {kind : SeqKind}
    {found agreed : Option SeqKind}
    (answer : subst.agreedKind? terms found = some agreed)
    (shown : found = some kind ∨ ∃ term ∈ terms, subst.walk term = .nil kind) :
    agreed = some kind := by
  induction terms generalizing found with
  | nil =>
    rcases shown with rfl | ⟨_, member, _⟩
    · exact (Option.some.inj answer).symm
    · simp at member
  | cons other terms ih =>
    rw [agreedKind?] at answer
    cases walked : subst.walk other with
    | var x =>
      rw [walked] at answer
      refine ih answer (shown.imp_right ?_)
      rintro ⟨term, member, ends⟩
      rcases List.mem_cons.mp member with rfl | inside
      · cases walked.symm.trans ends
      · exact ⟨term, inside, ends⟩
    | nil other =>
      simp only [walked] at answer
      split at answer
      next same =>
        refine ih answer ?_
        rcases shown with rfl | ⟨term, member, ends⟩
        · exact .inl (congrArg some same.symm)
        · rcases List.mem_cons.mp member with rfl | inside
          · cases walked.symm.trans ends
            exact .inl rfl
          · exact .inr ⟨term, inside, ends⟩
      next => cases answer
    | _ => simp [walked] at answer

/-- Without a common kind the terms do not become ends of one kind. -/
theorem Subst.Grows.exists_reify_ne
    {terms : List Term}
    {kind : SeqKind}
    {found : Option SeqKind}
    (grows : subst.Grows later)
    (acyclic : subst.Acyclic)
    (answer : subst.agreedKind? terms found = none)
    (shown : ∀ other, found = some other → other = kind) :
    ∃ term ∈ terms, later.reify term ≠ .nil kind := by
  have goesOn (term : Term) :
      later.reify term = later.reify (subst.walk term) :=
    grows.reify_congr acyclic (reify_walk acyclic term).symm
  induction terms generalizing found with
  | nil => cases answer
  | cons term terms ih =>
    rw [agreedKind?] at answer
    have here := goesOn term
    cases walked : subst.walk term with
    | var x =>
      rw [walked] at answer
      rcases ih answer shown with ⟨other, member, different⟩
      exact ⟨other, List.mem_cons_of_mem _ member, different⟩
    | nil other =>
      rw [walked, Subst.reify_eq_of_isGround grows.acyclic
        (Term.isGround_nil other)] at here
      by_cases same : other = kind
      · subst same
        have agrees : found.getD other = other := by
          cases found with
          | none => rfl
          | some kind => exact shown kind rfl
        simp only [walked, if_pos agrees] at answer
        rcases ih answer (by simp) with ⟨other, member, different⟩
        exact ⟨other, List.mem_cons_of_mem _ member, different⟩
      · refine ⟨term, List.mem_cons_self, ?_⟩
        rw [here]
        simpa using same
    | cons head tail =>
      rw [walked, reify_cons grows.acyclic] at here
      exact ⟨term, List.mem_cons_self, by simp [here]⟩
    | int value =>
      rw [walked, Subst.reify_eq_of_isGround grows.acyclic
        (Term.isGround_int value)] at here
      exact ⟨term, List.mem_cons_self, by simp [here]⟩
    | sym name =>
      rw [walked, Subst.reify_eq_of_isGround grows.acyclic
        (Term.isGround_sym name)] at here
      exact ⟨term, List.mem_cons_self, by simp [here]⟩

end Ends

section Readings

variable {program : Program Base Custom} {gaps : Gaps}
  {start : Located Subst} {first second : Term} {kind default : SeqKind}

/-- Nothing that is impossible is listed or read. -/
theorem Goal.ReadsAs.eq_nil
    {Code : Type}
    {goalOf : Code → Recipe (Goal Code)}
    {goal reference : Goal Code}
    {known : Subst → Prop}
    (reads : goal.ReadsAs goalOf gaps reference start known)
    (acyclic : start.value.Acyclic)
    (impossible : ∀ subst, start.value.Grows subst → ¬ known subst) :
    Listing goalOf gaps goal start [] ∧
      Reading goalOf reference start.snapshot [] := by
  rcases reads with ⟨found, listing, reading, all⟩
  have empty : found = [] := by
    rw [List.eq_nil_iff_forall_not_mem]
    intro result member
    exact impossible _ (listing.grows acyclic member) (all result member).2
  subst empty
  exact ⟨listing, reading⟩

/-- Both terms come to stand for the end of a sequence. -/
theorem readsAs_ends
    (covers : start.Covers first second)
    (kind : SeqKind) :
    (Goal.all [.eq first (.nil kind), .eq second (.nil kind)]).ReadsAs
      program.unfold gaps
      (.all [.eq first (.nil kind), .eq second (.nil kind)]) start
      fun subst =>
        subst.reify first = .nil kind ∧ subst.reify second = .nil kind := by
  refine Goal.ReadsAs.both covers.within.acyclic
    (.eq covers.within covers.firstLow (Nat.zero_le _)) ?_
  intro middle grows later middleWithin same
  refine (Goal.ReadsAs.eq middleWithin (covers.secondLow.trans later)
    (Nat.zero_le _)).imp middleWithin.acyclic ?_
  intro subst onwards sameSecond
  have nil := Subst.reify_eq_of_isGround onwards.acyclic
    (Term.isGround_nil kind)
  have sameFirst := onwards.reify_congr grows.acyclic same
  exact ⟨sameFirst.trans nil, sameSecond.trans nil⟩

/-- The library looks for the kind of the end, and finds that of the side. -/
theorem readsAs_nullCase
    (covers : start.Covers first second)
    (side :
      start.value.reify first = .nil kind ∨
        start.value.reify second = .nil kind)
    (accepted : Bool) :
    (nullCase accepted default first second).ReadsAs program.unfold gaps
      (ended (some kind) accepted first second) start
      fun subst =>
        subst.reify first = .nil kind ∧ subst.reify second = .nil kind := by
  cases accepted with
  | false => exact .fail
  | true =>
    have acyclic := covers.within.acyclic
    change (Goal.allEmpty [first, second] default).ReadsAs _ _
      (.all [.eq first (.nil kind), .eq second (.nil kind)]) _ _
    cases answer : start.value.agreedKind? [first, second] none with
    | none =>
      have stuck : Listing program.unfold gaps
          (.allEmpty [first, second] default) start [] := by
        refine .dynamic ?_
        rw [answer]
        exact .fail
      have ends :
          (Goal.all [.eq first (.nil kind), .eq second (.nil kind)]).ReadsAs
            program.unfold gaps
            (.all [.eq first (.nil kind), .eq second (.nil kind)]) start
            fun subst =>
              subst.reify first = .nil kind ∧
                subst.reify second = .nil kind :=
        readsAs_ends covers kind
      refine .none stuck (ends.eq_nil acyclic ?_).2
      rintro subst grows ⟨firstNil, secondNil⟩
      have apart :
          ∃ term ∈ [first, second], subst.reify term ≠ .nil kind :=
        grows.exists_reify_ne acyclic answer (by simp)
      rcases apart with ⟨term, member, different⟩
      rcases List.mem_pair.mp member with rfl | rfl
      · exact different firstNil
      · exact different secondNil
    | some agreed =>
      have shown : ∃ term ∈ [first, second],
          start.value.walk term = .nil kind := by
        rcases side with nil | nil
        · exact ⟨first, by simp, Subst.walk_eq_of_ends acyclic
            (Subst.ends_of_reify acyclic nil rfl)⟩
        · exact ⟨second, by simp, Subst.walk_eq_of_ends acyclic
            (Subst.ends_of_reify acyclic nil rfl)⟩
      have same := Subst.eq_of_agreedKind? answer (.inr shown)
      subst same
      have inside := covers.move (start.place.built (start.place.opening gaps))
        (start.place.le_opening gaps)
      apply Goal.ReadsAs.enter_dynamic
      rw [Recipe.goalAt, Located.enter, answer]
      exact readsAs_ends inside kind

/-- No sequences end where a side is neither unbound nor an end. -/
theorem listing_nullCase_nil
    {place : Place}
    {subst : Subst}
    {term : Term}
    (member : term ∈ [first, second])
    (notVar : (subst.walk term).isVar = false)
    (notNil : ∀ kind, subst.walk term ≠ .nil kind)
    (accepted : Bool) :
    Listing program.unfold gaps (nullCase accepted default first second)
      ⟨place, subst⟩ [] := by
  cases accepted with
  | false => exact .fail
  | true =>
    refine .dynamic ?_
    simp only [Subst.agreedKind?_eq_none member notVar notNil none]
    exact .fail

/-- A cell is no end. -/
theorem listing_nullCase_of_isCons
    {place : Place}
    {subst : Subst}
    (acyclic : subst.Acyclic)
    (side :
      (subst.reify first).isCons = true ∨
        (subst.reify second).isCons = true)
    (accepted : Bool) :
    Listing program.unfold gaps (nullCase accepted default first second)
      ⟨place, subst⟩ [] := by
  have shown : ∃ term ∈ [first, second],
      (subst.reify term).isCons = true := by
    rcases side with cell | cell
    · exact ⟨first, by simp, cell⟩
    · exact ⟨second, by simp, cell⟩
  rcases shown with ⟨term, member, cell⟩
  rcases Subst.exists_ends_of_isCons_reify acyclic cell with
    ⟨head, tail, ends⟩
  have walked := Subst.walk_eq_of_ends acyclic ends
  exact listing_nullCase_nil member (by rw [walked]; rfl)
    (by rw [walked]; nofun) accepted

/-- An atom is no end either. -/
theorem listing_nullCase_of_stuck
    {place : Place}
    {subst : Subst}
    {found : Term}
    (acyclic : subst.Acyclic)
    (ground : found.isGround = true)
    (notCell : found.isCons = false)
    (notNil : ∀ kind, found ≠ .nil kind)
    (shown : subst.reify first = found)
    (accepted : Bool) :
    Listing program.unfold gaps (nullCase accepted default first second)
      ⟨place, subst⟩ [] := by
  have walked := Subst.walk_eq_of_ends acyclic
    (Subst.ends_of_reify acyclic shown notCell)
  refine listing_nullCase_nil List.mem_cons_self ?_ ?_ accepted
  · rw [walked, Term.isVar_eq_false_of_isGround ground]
  · rwa [walked]

/-! ## Cells -/

/-- Two terms are known to be the cells of these heads and tails. -/
structure Cells.Part (cells : Cells) (first second : Term) (subst : Subst) :
    Prop where
  first_eq :
    subst.reify (.cons cells.firstHead cells.firstTail) = subst.reify first
  second_eq :
    subst.reify (.cons cells.secondHead cells.secondTail) = subst.reify second

theorem Cells.Part.grows
    {cells : Cells}
    {subst later : Subst}
    (parts : cells.Part first second subst)
    (acyclic : subst.Acyclic)
    (grows : subst.Grows later) :
    cells.Part first second later :=
  ⟨grows.reify_congr acyclic parts.first_eq,
    grows.reify_congr acyclic parts.second_eq⟩

/-- Two terms are taken apart into the cells. -/
theorem readsAs_parts
    {cells : Cells}
    (covers : start.Covers first second)
    (low : cells.Low start.place.supply) :
    (cells.parts first second).ReadsAs program.unfold gaps
      (cells.parts first second) start (cells.Part first second) := by
  have cellLow (head tail : Term) (headLow : head.ceiling ≤ start.place.supply)
      (tailLow : tail.ceiling ≤ start.place.supply) :
      (Term.cons head tail).ceiling ≤ start.place.supply :=
    Nat.max_le.mpr ⟨headLow, tailLow⟩
  refine Goal.ReadsAs.both covers.within.acyclic
    (.eq covers.within (cellLow _ _ low.firstHead low.firstTail)
      covers.firstLow) ?_
  intro middle grows later middleWithin same
  refine (Goal.ReadsAs.eq middleWithin
    ((cellLow _ _ low.secondHead low.secondTail).trans later)
    (covers.secondLow.trans later)).imp middleWithin.acyclic ?_
  intro subst onwards sameSecond
  exact ⟨onwards.reify_congr grows.acyclic same, sameSecond⟩

/-- What is neither unbound nor a cell is not taken apart. -/
theorem listing_parts_nil
    {cells : Cells}
    (covers : start.Covers first second)
    (low : cells.Low start.place.supply)
    {found : Term}
    (ground : found.isGround = true)
    (notCell : found.isCons = false)
    (side :
      start.value.reify first = found ∨ start.value.reify second = found) :
    Listing program.unfold gaps (cells.parts first second) start [] := by
  refine ((readsAs_parts covers low).eq_nil covers.within.acyclic ?_).1
  intro subst grows parts
  have stays {term : Term} (shown : start.value.reify term = found) :
      subst.reify term = found := by
    rw [← shown] at ground ⊢
    exact grows.reify_eq_of_isGround covers.within.acyclic ground
  have clash {head tail term : Term}
      (same : subst.reify (.cons head tail) = subst.reify term)
      (shown : start.value.reify term = found) : False := by
    rw [stays shown, Subst.reify_cons grows.acyclic] at same
    rw [← same] at notCell
    cases notCell
  rcases side with shown | shown
  · exact clash parts.first_eq shown
  · exact clash parts.second_eq shown

/-- A state behind the taking apart of two terms. -/
structure Located.Parted
    (cells : Cells)
    (first second : Term)
    (before : Snapshot)
    (middle : Located Subst) : Prop where
  grows : before.value.Grows middle.value
  later : before.supply ≤ middle.place.supply
  within : middle.value.Within middle.place.supply
  parts : cells.Part first second middle.value

/-- Something is asked after two terms have been taken apart. -/
theorem readsAs_both_parts
    {cells : Cells}
    {goal reference : CodedGoal Base Custom}
    {known : Subst → Prop}
    (covers : start.Covers first second)
    (low : cells.Low start.place.supply)
    (onParts :
      ∀ middle, Located.Parted cells first second start.snapshot middle →
        goal.ReadsAs program.unfold gaps reference middle known) :
    (Goal.both (cells.parts first second) goal).ReadsAs program.unfold gaps
      (.both (cells.parts first second) reference) start known :=
  .both covers.within.acyclic (readsAs_parts covers low)
    fun middle grows later middleWithin parts =>
      onParts middle ⟨grows, later, middleWithin, parts⟩

/-- What is known of the cells is also known later. -/
theorem readsAs_keep_parts
    {cells : Cells}
    {middle : Located Subst}
    {goal reference : CodedGoal Base Custom}
    {known : Subst → Prop}
    (parted : Located.Parted cells first second start.snapshot middle)
    (reads : goal.ReadsAs program.unfold gaps reference middle known) :
    goal.ReadsAs program.unfold gaps reference middle
      (cells.Part first second) :=
  reads.imp parted.within.acyclic fun _ grows _ =>
    parted.parts.grows parted.within.acyclic grows

theorem Located.Parted.later_of
    {cells : Cells}
    {middle last : Located Subst}
    (parted : Located.Parted cells first second start.snapshot middle)
    (grows : middle.value.Grows last.value)
    (later : middle.place.supply ≤ last.place.supply)
    (within : last.value.Within last.place.supply) :
    Located.Parted cells first second start.snapshot last where
  grows := parted.grows.trans grows
  later := parted.later.trans later
  within := within
  parts := parted.parts.grows parted.within.acyclic grows

theorem Located.Parted.heads
    {cells : Cells}
    {before : Snapshot}
    {middle : Located Subst}
    (parted : Located.Parted cells first second before middle)
    (low : cells.Low before.supply) :
    middle.Covers cells.firstHead cells.secondHead where
  within := parted.within
  firstLow := low.firstHead.trans parted.later
  secondLow := low.secondHead.trans parted.later

theorem Located.Parted.tails
    {cells : Cells}
    {before : Snapshot}
    {middle : Located Subst}
    (parted : Located.Parted cells first second before middle)
    (low : cells.Low before.supply) :
    middle.Covers cells.firstTail cells.secondTail where
  within := parted.within
  firstLow := low.firstTail.trans parted.later
  secondLow := low.secondTail.trans parted.later

/-! ## The relations of the library, position by position -/

section Positions

variable {relation : Relation Base} {supply : Nat} {known : Subst → Prop}
  {link : Link Base Custom} {links : List (Link Base Custom)}
  {target : Option SeqKind} {nullSucceeds : Bool}

/-- At a cell, if the heads and the tails read as the reference has them. -/
theorem readsAs_mapAll_cell
    (covers : start.Covers first second)
    (enough : supply + 4 ≤ start.place.supply)
    (side :
      (start.value.reify first).isCons = true ∨
        (start.value.reify second).isCons = true)
    (onHeads :
      ∀ middle,
        Located.Parted (.numbered supply) first second start.snapshot middle →
          (Goal.defer (.relate relation (Cells.numbered supply).firstHead
            (Cells.numbered supply).secondHead)).ReadsAs program.unfold gaps
            (link (Cells.numbered supply).firstHead
              (Cells.numbered supply).secondHead) middle fun _ => True)
    (onTails :
      ∀ middle,
        Located.Parted (.numbered supply) first second start.snapshot middle →
          (Goal.defer (.mapAll relation default
            (Cells.numbered supply).firstTail
            (Cells.numbered supply).secondTail)).ReadsAs program.unfold gaps
            (.dynamic fun _ =>
              linked target true links (Cells.numbered supply).firstTail
                (Cells.numbered supply).secondTail) middle known) :
    ((mapAll relation default nullSucceeds first second).made
        supply).1.ReadsAs program.unfold gaps
      ((linked target nullSucceeds (link :: links) first second).made supply).1
      start known := by
  rw [made_mapAll, made_linked_cons]
  refine .either_nil_left
    (listing_nullCase_of_isCons covers.within.acyclic side nullSucceeds)
    (.either_nil_right ?_ .fail)
  have inside := covers.move start.place.right.left (Nat.le_refl _)
  refine Goal.ReadsAs.both covers.within.acyclic
    (readsAs_both_parts inside (Cells.low_numbered enough)
      fun middle parted => readsAs_keep_parts parted (onHeads middle parted))
    ?_
  intro middle grows later middleWithin parts
  exact onTails middle ⟨grows, later, middleWithin, parts⟩

theorem readsAs_mapAny_cell
    {cursor : MapCursor}
    (covers : start.Covers first second)
    (enough : supply + 4 ≤ start.place.supply)
    (side :
      (start.value.reify first).isCons = true ∨
        (start.value.reify second).isCons = true)
    (onHeads :
      ∀ middle,
        Located.Parted (.numbered supply) first second start.snapshot middle →
          (Goal.defer (.relate relation (Cells.numbered supply).firstHead
            (Cells.numbered supply).secondHead)).ReadsAs program.unfold gaps
            (link (Cells.numbered supply).firstHead
              (Cells.numbered supply).secondHead) middle fun _ => True)
    (onTails :
      ∀ related middle,
        Located.Parted (.numbered supply) first second start.snapshot middle →
          (Goal.defer (.mapAny relation default nullSucceeds
            (cursor.next related) (Cells.numbered supply).firstTail
            (Cells.numbered supply).secondTail)).ReadsAs program.unfold gaps
            (.dynamic fun _ =>
              linkedAny target nullSucceeds (cursor.next related) links
                (Cells.numbered supply).firstTail
                (Cells.numbered supply).secondTail) middle known) :
    ((mapAny relation default nullSucceeds cursor first second).made
        supply).1.ReadsAs program.unfold gaps
      ((linkedAny target nullSucceeds cursor (link :: links) first
        second).made supply).1
      start known := by
  have low := Cells.low_numbered enough
  rw [made_mapAny_eq, made_linkedAny_cons]
  refine .either_nil_left
    (listing_nullCase_of_isCons covers.within.acyclic side _)
    (.either_nil_right ?_ .fail)
  have inside := covers.move start.place.right.left (Nat.le_refl _)
  refine readsAs_both_parts inside low ?_
  intro middle parted
  have tails (place : Place) (same : place.supply = middle.place.supply)
      (related : Bool) (last : Located Subst)
      (grows : middle.value.Grows last.value)
      (later : place.supply ≤ last.place.supply)
      (lastWithin : last.value.Within last.place.supply) :=
    onTails related last (parted.later_of grows (same ▸ later) lastWithin)
  have onLeft := onHeads ⟨middle.place.left, middle.value⟩
    ⟨parted.grows, parted.later, parted.within, parted.parts⟩
  have middleLow := low.mono parted.later
  refine .either (.both parted.within.acyclic onLeft ?_)
    (.either (.both parted.within.acyclic (.eq parted.within
      middleLow.firstHead middleLow.secondHead) ?_) .fail)
  · intro last grows later lastWithin _
    exact tails middle.place rfl true last grows later lastWithin
  · intro last grows later lastWithin _
    exact tails middle.place rfl false last grows later lastWithin

/-- No cells are found where a side shows something else. -/
theorem listing_cellCase_nil
    (program : Program Base Custom)
    (gaps : Gaps)
    (covers : start.Covers first second)
    (enough : supply + 4 ≤ start.place.supply)
    {found : Term}
    (ground : found.isGround = true)
    (notCell : found.isCons = false)
    (side :
      start.value.reify first = found ∨ start.value.reify second = found) :
    Listing program.unfold gaps ((Cells.numbered supply).parts first second)
      ⟨start.place.right.left, start.value⟩ [] :=
  listing_parts_nil (covers.move start.place.right.left (Nat.le_refl _))
    (Cells.low_numbered enough) ground notCell side

/-- At the end that one of the sides shows. -/
theorem readsAs_mapAll_ended
    (covers : start.Covers first second)
    (enough : supply + 4 ≤ start.place.supply)
    (side :
      start.value.reify first = .nil kind ∨
        start.value.reify second = .nil kind) :
    ((mapAll relation default nullSucceeds first second).made
        supply).1.ReadsAs program.unfold gaps
      ((linked (some kind) nullSucceeds [] first second).made supply).1
      start fun subst =>
        subst.reify first = .nil kind ∧ subst.reify second = .nil kind := by
  have parts := listing_cellCase_nil program gaps covers enough
    (Term.isGround_nil kind) rfl side
  have onNull := covers.move start.place.left (Nat.le_refl _)
  rw [made_mapAll, made_linked_nil]
  exact .either_nil_right (readsAs_nullCase onNull side _)
    (.either_nil (.both_nil (.both_nil parts _) _) .fail)

theorem readsAs_mapAny_ended
    {cursor : MapCursor}
    (covers : start.Covers first second)
    (enough : supply + 4 ≤ start.place.supply)
    (side :
      start.value.reify first = .nil kind ∨
        start.value.reify second = .nil kind) :
    ((mapAny relation default nullSucceeds cursor first second).made
        supply).1.ReadsAs program.unfold gaps
      ((linkedAny (some kind) nullSucceeds cursor [] first second).made
        supply).1
      start fun subst =>
        subst.reify first = .nil kind ∧ subst.reify second = .nil kind := by
  have parts := listing_cellCase_nil program gaps covers enough
    (Term.isGround_nil kind) rfl side
  have onNull := covers.move start.place.left (Nat.le_refl _)
  rw [made_mapAny_eq, made_linkedAny_nil]
  exact .either_nil_right (readsAs_nullCase onNull side _)
    (.either_nil (.both_nil parts _) .fail)

/-- Where one side shows what is neither unbound, a cell nor an end. -/
theorem readsAs_mapAll_stuck
    (covers : start.Covers first second)
    (enough : supply + 4 ≤ start.place.supply)
    {found : Term}
    (ground : found.isGround = true)
    (notCell : found.isCons = false)
    (notNil : ∀ kind, found ≠ .nil kind)
    (shown : start.value.reify first = found) :
    ((mapAll relation default nullSucceeds first second).made
        supply).1.ReadsAs program.unfold gaps
      ((linked none nullSucceeds [] first second).made supply).1
      start known := by
  have parts := listing_cellCase_nil program gaps covers enough ground notCell
    (.inl shown)
  have onNull := covers.move start.place.left (Nat.le_refl _)
  rw [made_mapAll, made_linked_nil]
  exact .none (.either_nil (listing_nullCase_of_stuck onNull.within.acyclic
    ground notCell notNil shown _) (.either_nil
      (.both_nil (.both_nil parts _) _) .fail)) .fail

theorem readsAs_mapAny_stuck
    {cursor : MapCursor}
    (covers : start.Covers first second)
    (enough : supply + 4 ≤ start.place.supply)
    {found : Term}
    (ground : found.isGround = true)
    (notCell : found.isCons = false)
    (notNil : ∀ kind, found ≠ .nil kind)
    (shown : start.value.reify first = found) :
    ((mapAny relation default nullSucceeds cursor first second).made
        supply).1.ReadsAs program.unfold gaps
      ((linkedAny none nullSucceeds cursor [] first second).made supply).1
      start known := by
  have parts := listing_cellCase_nil program gaps covers enough ground notCell
    (.inl shown)
  have onNull := covers.move start.place.left (Nat.le_refl _)
  rw [made_mapAny_eq, made_linkedAny_nil]
  exact .none (.either_nil (listing_nullCase_of_stuck onNull.within.acyclic
    ground notCell notNil shown _) (.either_nil (.both_nil parts _) .fail))
    .fail

/-- The rest of two sequences is put off. -/
theorem readsAs_defer_mapAll
    (built :
      ∀ (place : Place) (opening : Nat),
        start.place.supply ≤ opening → opening + 4 ≤ place.supply →
          ((mapAll relation default true first second).made
              opening).1.ReadsAs program.unfold gaps
            ((linked target true links first second).made opening).1
            ⟨place, start.value⟩ known) :
    (Goal.defer (.mapAll relation default first second)).ReadsAs
      program.unfold gaps
      (.dynamic fun _ => linked target true links first second) start
      known := by
  have opened := start.place.le_opening gaps
  refine .defer opened ?_
    (built (start.place.built _) _ opened (Nat.le_refl _))
  cases links with
  | nil => exact Nat.le_add_right _ 4
  | cons => exact Nat.le_refl _

theorem readsAs_defer_mapAny
    {cursor : MapCursor}
    (built :
      ∀ (place : Place) (opening : Nat),
        start.place.supply ≤ opening → opening + 4 ≤ place.supply →
          ((mapAny relation default nullSucceeds cursor first second).made
              opening).1.ReadsAs program.unfold gaps
            ((linkedAny target nullSucceeds cursor links first second).made
              opening).1
            ⟨place, start.value⟩ known) :
    (Goal.defer (.mapAny relation default nullSucceeds cursor first
        second)).ReadsAs program.unfold gaps
      (.dynamic fun _ => linkedAny target nullSucceeds cursor links first
        second) start known := by
  have opened := start.place.le_opening gaps
  refine .defer opened ?_
    (built (start.place.built _) _ opened (Nat.le_refl _))
  cases links with
  | nil => exact Nat.le_add_right _ 4
  | cons => exact Nat.le_refl _

end Positions

end Readings

end RelationalSearch
