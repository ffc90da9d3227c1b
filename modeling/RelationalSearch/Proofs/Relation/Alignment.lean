import RelationalSearch.Proofs.Relation.Elementwise
import RelationalSearch.Proofs.Search.Contents
import RelationalSearch.Proofs.Search.Immediate

/-!
# Sequences that are aligned

Whatever two terms are given to a relation that goes through two sequences in
step, also if both are unbound and the search has no end, its results make of
them two proper sequences of one kind and one length.  The derivation of a
result contains a call of the relation for the elements at every position, or
at every position at which they differ (`Program.map_aligned`).

A result takes the sequences apart one position after another, and each level
is built by the one before it.  So the proof goes along the derivation: the
trace of the end tells how many levels are still to come, and what is known at
the end of the sequences is carried back to the first position.
-/

namespace RelationalSearch

variable {Base Custom : Type} {program : Program Base Custom} {gaps : Gaps}

/-! ## Calls at positions -/

/-- A call of a relation in a search, from one place to another. -/
structure Call where
  left : Term
  right : Term
  before : Located Subst
  after : Located Subst

/-- The elements of two sequences at a position, and the call made for them. -/
structure Position where
  item : Term
  other : Term
  call : Option Call

section Positions

variable {goal inner : CodedGoal Base Custom}
  {start begin finish : Located Subst} {policy : MapPolicy}
  {relation : Relation Base} {first second : Term} {kind : SeqKind}
  {positions : List Position}

/--
The call is a part of the derivation, its result has been delivered, and the
terms that it is made for stand for the two elements in the end.
-/
structure Derivation.Relates
    (derivation : Derivation program.unfold gaps goal start finish)
    (relation : Relation Base)
    (call : Call)
    (item other : Term) : Prop where
  contains :
    derivation.Contains (.defer (.relate relation call.left call.right))
      call.before call.after
  finds :
    (Goal.defer (.relate relation call.left call.right)).Finds program.unfold
      gaps call.before call.after
  left_eq : finish.value.reify call.left = item
  right_eq : finish.value.reify call.right = other

/--
There is a call for the elements at the position.  Only if one related pair is
enough there may be none, and then the elements are equal.
-/
def Derivation.Settles
    (derivation : Derivation program.unfold gaps goal start finish)
    (policy : MapPolicy)
    (relation : Relation Base)
    (position : Position) : Prop :=
  match position.call with
  | some call =>
    derivation.Relates relation call position.item position.other
  | none => policy = .any ∧ position.item = position.other

/--
The two terms stand for proper sequences of one kind with these elements.  Each
position is settled, and the calls are made one behind the other.
-/
structure Derivation.Aligns
    (derivation : Derivation program.unfold gaps goal start finish)
    (policy : MapPolicy)
    (relation : Relation Base)
    (first second : Term)
    (kind : SeqKind)
    (positions : List Position) : Prop where
  first_eq :
    finish.value.reify first = .sequence kind (positions.map Position.item)
  second_eq :
    finish.value.reify second = .sequence kind (positions.map Position.other)
  settles :
    ∀ position ∈ positions, derivation.Settles policy relation position
  ordered :
    (positions.filterMap Position.call).Pairwise fun earlier later =>
      earlier.after.place.trace <:+ later.before.place.trace

variable {derivation : Derivation program.unfold gaps goal start finish}
  {part : Derivation program.unfold gaps inner begin finish}

theorem Derivation.Relates.lift
    {call : Call}
    {item other : Term}
    (relates : part.Relates relation call item other)
    (included :
      ∀ {goal before after},
        part.Contains goal before after →
          derivation.Contains goal before after) :
    derivation.Relates relation call item other :=
  { relates with contains := included relates.contains }

theorem Derivation.aligns_nil
    (firstEnds : finish.value.reify first = .nil kind)
    (secondEnds : finish.value.reify second = .nil kind) :
    derivation.Aligns policy relation first second kind [] :=
  ⟨firstEnds, secondEnds, nofun, .nil⟩

/-- Sequences are aligned if their tails are and the heads are settled. -/
theorem Derivation.Aligns.cons
    {cells : Cells}
    {call : Option Call}
    (tails :
      part.Aligns policy relation cells.firstTail cells.secondTail kind
        positions)
    (included :
      ∀ {goal before after},
        part.Contains goal before after →
          derivation.Contains goal before after)
    (acyclic : finish.value.Acyclic)
    (parts : cells.Part first second finish.value)
    (heads :
      derivation.Settles policy relation
        ⟨finish.value.reify cells.firstHead,
          finish.value.reify cells.secondHead, call⟩)
    (earlier :
      ∀ made ∈ call, made.after.place.trace <:+ begin.place.trace) :
    derivation.Aligns policy relation first second kind
      (⟨finish.value.reify cells.firstHead,
        finish.value.reify cells.secondHead, call⟩ :: positions) where
  first_eq := by
    rw [← parts.first_eq, Subst.reify_cons acyclic, tails.first_eq,
      List.map_cons, Term.sequence_cons]
  second_eq := by
    rw [← parts.second_eq, Subst.reify_cons acyclic, tails.second_eq,
      List.map_cons, Term.sequence_cons]
  settles := by
    rw [List.forall_mem_cons]
    refine ⟨heads, fun position member => ?_⟩
    have settled := tails.settles position member
    rcases position with ⟨item, other, _ | call⟩
    · exact settled
    · exact Relates.lift settled included
  ordered := by
    cases call with
    | none => exact tails.ordered
    | some made =>
      refine .cons (fun later member => ?_) tails.ordered
      rcases List.mem_filterMap.mp member with
        ⟨⟨item, other, called⟩, inside, rfl⟩
      have settled : part.Relates relation later item other :=
        tails.settles _ inside
      exact (earlier made rfl).trans settled.contains.trace_isSuffix

/-- The heads are settled by a call that is made before that of the tails. -/
theorem Derivation.Aligns.cons_called
    {cells : Cells}
    {before after : Located Subst}
    (tails :
      part.Aligns policy relation cells.firstTail cells.secondTail kind
        positions)
    (included :
      ∀ {goal before after},
        part.Contains goal before after →
          derivation.Contains goal before after)
    (acyclic : finish.value.Acyclic)
    (parts : cells.Part first second finish.value)
    (contains :
      derivation.Contains
        (.defer (.relate relation cells.firstHead cells.secondHead)) before
        after)
    (call :
      (Goal.defer (.relate relation cells.firstHead cells.secondHead)).Finds
        program.unfold gaps before after)
    (onwards : after.place.trace <:+ begin.place.trace) :
    derivation.Aligns policy relation first second kind
      (⟨finish.value.reify cells.firstHead,
        finish.value.reify cells.secondHead,
        some ⟨cells.firstHead, cells.secondHead, before, after⟩⟩ ::
          positions) := by
  refine tails.cons included acyclic parts ⟨contains, call, rfl, rfl⟩ ?_
  rintro made ⟨⟩
  exact onwards

/-- If one related pair is enough then equal heads are settled. -/
theorem Derivation.Aligns.cons_equal
    {cells : Cells}
    (tails :
      part.Aligns .any relation cells.firstTail cells.secondTail kind
        positions)
    (included :
      ∀ {goal before after},
        part.Contains goal before after →
          derivation.Contains goal before after)
    (acyclic : finish.value.Acyclic)
    (parts : cells.Part first second finish.value)
    (equal :
      finish.value.reify cells.firstHead =
        finish.value.reify cells.secondHead) :
    derivation.Aligns .any relation first second kind
      (⟨finish.value.reify cells.firstHead,
        finish.value.reify cells.secondHead, none⟩ :: positions) := by
  refine tails.cons included acyclic parts ⟨rfl, equal⟩ ?_
  rintro made ⟨⟩

end Positions

/-! ## One level -/

section Level

variable {start finish : Located Subst} {first second : Term}

/-- Where the sequences end they end alike. -/
theorem exists_nil_of_finds_nullCase
    {accepted : Bool}
    {default : SeqKind}
    (finds :
      (nullCase accepted default first second : CodedGoal Base Custom).Finds
        program.unfold gaps start finish)
    (acyclic : start.value.Acyclic) :
    accepted = true ∧
      ∃ kind,
        finish.value.reify first = .nil kind ∧
          finish.value.reify second = .nil kind := by
  cases accepted with
  | false => exact (Goal.not_finds_fail finds).elim
  | true =>
    refine ⟨rfl, ?_⟩
    have built := Goal.Finds.of_dynamic finds
    rcases agreed : start.value.agreedKind? [first, second] none with _ | kind
    · simp only [agreed] at built
      exact (Goal.not_finds_fail built).elim
    · simp only [agreed] at built
      rcases Goal.Finds.of_both built with ⟨middle, onFirst, onSecond⟩
      have firstEnds := onFirst.of_eq
      have secondEnds := onSecond.of_eq
      have middleAcyclic : middle.value.Acyclic := acyclic.unify firstEnds
      have grows := middleAcyclic.grows_of_unify secondEnds
      refine ⟨kind.getD default, ?_, ?_⟩
      · rw [grows.reify_congr middleAcyclic
          (Subst.reify_eq_of_unify acyclic firstEnds)]
        exact Subst.reify_eq_of_isGround grows.acyclic (Term.isGround_nil _)
      · rw [Subst.reify_eq_of_unify middleAcyclic secondEnds]
        exact Subst.reify_eq_of_isGround grows.acyclic (Term.isGround_nil _)

/-- Where they go on they are taken apart into the cells. -/
theorem part_of_finds_parts
    {cells : Cells}
    (finds :
      (cells.parts first second : CodedGoal Base Custom).Finds program.unfold
        gaps start finish)
    (acyclic : start.value.Acyclic) :
    cells.Part first second finish.value := by
  rcases finds.of_both with ⟨middle, onFirst, onSecond⟩
  have firstSame := onFirst.of_eq
  have secondSame := onSecond.of_eq
  have middleAcyclic : middle.value.Acyclic := acyclic.unify firstSame
  exact ⟨(middleAcyclic.grows_of_unify secondSame).reify_congr middleAcyclic
      (Subst.reify_eq_of_unify acyclic firstSame),
    Subst.reify_eq_of_unify middleAcyclic secondSame⟩

/-- Two terms are taken apart, and then a link between their parts holds. -/
theorem exists_linking
    {middle after : Located Subst}
    {place : Place}
    {cells : Cells}
    {link : CodedGoal Base Custom}
    (parts :
      (cells.parts first second : CodedGoal Base Custom).Finds program.unfold
        gaps start middle)
    (links : link.Finds program.unfold gaps ⟨place, middle.value⟩ after)
    (onwards : middle.place.trace <:+ place.trace)
    (acyclic : start.value.Acyclic) :
    ∃ (_ :
        Derivation program.unfold gaps (cells.parts first second) start middle)
      (_ : Derivation program.unfold gaps link ⟨place, middle.value⟩ after),
      middle.value.Acyclic ∧
        after.value.Acyclic ∧
        cells.Part first second after.value ∧
        start.place.trace.length ≤ after.place.trace.length := by
  rcases parts.nonempty_derivation with ⟨opening⟩
  rcases links.nonempty_derivation with ⟨linking⟩
  have opened := (opening.grows acyclic).acyclic
  have linked := linking.grows opened
  exact ⟨opening, linking, opened, linked.acyclic,
    (part_of_finds_parts parts acyclic).grows opened linked,
    ((opening.trace_isSuffix.trans onwards).trans
      linking.trace_isSuffix).length_le⟩

end Level

/-! ## All levels -/

/-- What is found by way of a branch has one turn more than the start. -/
theorem Goal.Finds.lt_length_of_either
    {Code : Type}
    {goalOf : Code → Recipe (Goal Code)}
    {left right : Goal Code}
    {start finish : Located Subst}
    (finds : (Goal.either left right).Finds goalOf gaps start finish) :
    start.place.trace.length < finish.place.trace.length := by
  rcases finds.nonempty_derivation with ⟨derivation⟩
  cases derivation with
  | left branch => exact branch.trace_isSuffix.length_le
  | right branch => exact branch.trace_isSuffix.length_le

theorem MapCursor.anySucceeded_next_false (cursor : MapCursor) :
    (cursor.next false).anySucceeded = cursor.anySucceeded :=
  Bool.or_false _

/-- Behind an element the sequences may end if there was a related one. -/
theorem MapCursor.acceptsNull_next_false
    (cursor : MapCursor)
    (nullSucceeds : Bool) :
    (cursor.next false).acceptsNull nullSucceeds = cursor.anySucceeded := by
  rw [acceptsNull, anySucceeded_next_false]
  exact Bool.or_false _

section Levels

variable {relation : Relation Base} {default : SeqKind}

/-- What has been found by relating elements at all positions. -/
theorem exists_aligns_of_finds_mapAll
    (levels : Nat)
    {start finish : Located Subst}
    {first second : Term}
    {supply : Nat}
    {nullSucceeds : Bool}
    (finds :
      ((mapAll relation default nullSucceeds first second).made
        supply).1.Finds program.unfold gaps start finish)
    (acyclic : start.value.Acyclic)
    (bounded :
      finish.place.trace.length ≤ start.place.trace.length + levels) :
    ∃ (derivation :
          Derivation program.unfold gaps
            ((mapAll relation default nullSucceeds first second).made supply).1
            start finish)
        (kind : SeqKind) (positions : List Position),
      derivation.Aligns .all relation first second kind positions ∧
        (positions = [] → nullSucceeds = true) := by
  induction levels generalizing start first second supply nullSucceeds with
  | zero =>
    have longer := finds.lt_length_of_either
    omega
  | succ levels ih =>
    rw [made_mapAll] at finds ⊢
    rcases finds.of_either with ends | goesOn
    · rcases exists_nil_of_finds_nullCase ends acyclic with
        ⟨accepted, kind, firstEnds, secondEnds⟩
      rcases ends.nonempty_derivation with ⟨derivation⟩
      exact ⟨.left derivation, kind, [],
        Derivation.aligns_nil firstEnds secondEnds, fun _ => accepted⟩
    · rcases goesOn.of_either with cell | nothing
      · rcases cell.of_both with ⟨after, front, tails⟩
        rcases front.of_both with ⟨before, parts, call⟩
        rcases exists_linking parts call List.suffix_rfl acyclic with
          ⟨opening, calling, _, linked, parted, passed⟩
        simp only [Place.left, Place.right, List.length_cons] at passed
        -- The tails are built at a place with one more turn.
        rcases ih tails.of_defer linked (by
            simp only [Located.enter, Place.built, List.length_cons]
            omega) with
          ⟨rest, kind, positions, aligns, _⟩
        have later := rest.grows linked
        exact ⟨.right (.left (.both (.both opening calling) (.defer rest))),
          kind, _,
          aligns.cons_called
            (fun contains => .right (.left (.back (.defer contains))))
            later.acyclic (parted.grows linked later)
            (.right (.left (.front (.back (.self _))))) call
            (List.suffix_cons _ _),
          fun nothing => (List.cons_ne_nil _ _ nothing).elim⟩
      · exact (Goal.not_finds_fail nothing).elim

/-- What has been found by relating elements at some position. -/
theorem exists_aligns_of_finds_mapAny
    (levels : Nat)
    {start finish : Located Subst}
    {first second : Term}
    {supply : Nat}
    {nullSucceeds : Bool}
    {cursor : MapCursor}
    (finds :
      ((mapAny relation default nullSucceeds cursor first second).made
        supply).1.Finds program.unfold gaps start finish)
    (acyclic : start.value.Acyclic)
    (bounded :
      finish.place.trace.length ≤ start.place.trace.length + levels) :
    ∃ (derivation :
          Derivation program.unfold gaps
            ((mapAny relation default nullSucceeds cursor first second).made
              supply).1
            start finish)
        (kind : SeqKind) (positions : List Position),
      derivation.Aligns .any relation first second kind positions ∧
        (positions = [] → cursor.acceptsNull nullSucceeds = true) ∧
        (cursor.anySucceeded = true ∨
          positions = [] ∨
          ∃ position ∈ positions, position.call.isSome = true) := by
  induction levels generalizing start first second supply cursor with
  | zero =>
    have longer := finds.lt_length_of_either
    omega
  | succ levels ih =>
    rw [made_mapAny_eq] at finds ⊢
    rcases finds.of_either with ends | goesOn
    · rcases exists_nil_of_finds_nullCase ends acyclic with
        ⟨accepted, kind, firstEnds, secondEnds⟩
      rcases ends.nonempty_derivation with ⟨derivation⟩
      exact ⟨.left derivation, kind, [],
        Derivation.aligns_nil firstEnds secondEnds, fun _ => accepted,
        .inr (.inl rfl)⟩
    · rcases goesOn.of_either with cell | nothing
      · rcases cell.of_both with ⟨before, parts, branches⟩
        rcases branches.of_either with related | otherwise
        · rcases related.of_both with ⟨after, call, tails⟩
          rcases exists_linking parts call (List.suffix_cons _ _) acyclic with
            ⟨opening, calling, _, linked, parted, passed⟩
          simp only [Place.left, Place.right, List.length_cons] at passed
          rcases ih tails.of_defer linked (by
              simp only [Located.enter, Place.built, List.length_cons]
              omega) with
            ⟨rest, kind, positions, aligns, _⟩
          have later := rest.grows linked
          exact ⟨.right (.left (.both opening
              (.left (.both calling (.defer rest))))),
            kind, _,
            aligns.cons_called
              (fun contains =>
                .right (.left (.back (.left (.back (.defer contains))))))
              later.acyclic (parted.grows linked later)
              (.right (.left (.back (.left (.front (.self _)))))) call
              (List.suffix_cons _ _),
            fun nothing => (List.cons_ne_nil _ _ nothing).elim,
            .inr (.inr ⟨_, List.mem_cons_self, rfl⟩)⟩
        · rcases otherwise.of_either with equal | nothing
          · rcases equal.of_both with ⟨after, same, tails⟩
            rcases exists_linking parts same
                ((List.suffix_cons _ _).trans (List.suffix_cons _ _))
                acyclic with
              ⟨opening, equating, opened, linked, parted, passed⟩
            simp only [Place.left, Place.right, List.length_cons] at passed
            rcases ih tails.of_defer linked (by
                simp only [Located.enter, Place.built, List.length_cons]
                omega) with
              ⟨rest, kind, positions, aligns, accepted, called⟩
            have later := rest.grows linked
            have equal := later.reify_congr linked
              (Subst.reify_eq_of_unify opened same.of_eq)
            refine ⟨.right (.left (.both opening
                (.right (.left (.both equating (.defer rest)))))),
              kind, _,
              aligns.cons_equal
                (fun contains =>
                  .right (.left (.back (.right (.left
                    (.back (.defer contains)))))))
                later.acyclic (parted.grows linked later) equal,
              fun nothing => (List.cons_ne_nil _ _ nothing).elim, ?_⟩
            rcases called with before | nothing | ⟨position, member, called⟩
            · rw [MapCursor.anySucceeded_next_false] at before
              exact .inl before
            · have ended := accepted nothing
              rw [MapCursor.acceptsNull_next_false] at ended
              exact .inl ended
            · exact .inr (.inr ⟨position, List.mem_cons_of_mem _ member,
                called⟩)
          · exact (Goal.not_finds_fail nothing).elim
      · exact (Goal.not_finds_fail nothing).elim

end Levels

/-! ## What is delivered -/

namespace Program

/-- What the search finds aligns the two terms, as the settings ask. -/
theorem exists_aligns_of_finds
    {policy : MapPolicy}
    {relation : Relation Base}
    {settings : MapSettings}
    {start finish : Located Subst}
    {first second : Term}
    {built : Nat}
    (finds :
      ((policy.map relation first second settings).made built).1.Finds
        program.unfold gaps start finish)
    (acyclic : start.value.Acyclic) :
    ∃ (derivation :
          Derivation program.unfold gaps
            ((policy.map relation first second settings).made built).1 start
            finish)
        (kind : SeqKind) (positions : List Position),
      derivation.Aligns policy relation first second kind positions ∧
        (positions = [] →
          settings.nullSucceedsAtFirstCall = true ∨
            policy = .any ∧ settings.anySucceeded = true) ∧
        (policy = .any →
          settings.anySucceeded = true ∨
            positions = [] ∨
            ∃ position ∈ positions, position.call.isSome = true) := by
  cases policy with
  | all =>
    rcases exists_aligns_of_finds_mapAll _ finds acyclic
        (Nat.le_add_left _ _) with
      ⟨derivation, kind, positions, aligns, accepted⟩
    exact ⟨derivation, kind, positions, aligns,
      fun nothing => .inl (accepted nothing), nofun⟩
  | any =>
    rcases exists_aligns_of_finds_mapAny _ finds acyclic
        (Nat.le_add_left _ _) with
      ⟨derivation, kind, positions, aligns, accepted, called⟩
    refine ⟨derivation, kind, positions, aligns, fun nothing => ?_,
      fun _ => called⟩
    have ended := accepted nothing
    rw [MapCursor.acceptsNull, Bool.or_eq_true, Bool.and_eq_true] at ended
    exact ended.symm.imp And.right (⟨rfl, ·⟩)

/--
Whatever the two terms are, each result makes proper sequences of one kind and
one length of them, which are empty only if the settings accept that.  Its
derivation contains a call of the relation for the elements at each position.
Where one related pair is enough, equal elements need no call, but at one
position at least there is one.
-/
theorem map_aligned
    (policy : MapPolicy)
    (relation : Relation Base)
    (settings : MapSettings)
    {first second : Term}
    {built : Nat}
    {subst found : Subst}
    {session : Session}
    {index : Nat}
    (acyclic : subst.Acyclic)
    (delivers :
      Goal.Delivers program.unfold
        ((policy.map relation first second settings).made built).1 subst
        session index found) :
    ∃ (gaps : Gaps) (finish : Located Subst)
        (derivation :
          Derivation program.unfold gaps
            ((policy.map relation first second settings).made built).1
            (.root subst session) finish)
        (kind : SeqKind) (positions : List Position),
      gaps.Fit program.unfold
          ((policy.map relation first second settings).made built).1 subst
          session ∧
        Goal.Locates program.unfold gaps
          ((policy.map relation first second settings).made built).1
          (.root subst session) index finish ∧
        finish.value = found ∧
        derivation.Aligns policy relation first second kind positions ∧
        (positions = [] →
          settings.nullSucceedsAtFirstCall = true ∨
            policy = .any ∧ settings.anySucceeded = true) ∧
        (policy = .any →
          settings.anySucceeded = true ∨
            positions = [] ∨
            ∃ position ∈ positions, position.call.isSome = true) := by
  rcases Gaps.exists_fit program.unfold
    ((policy.map relation first second settings).made built).1 subst session
    with ⟨gaps, fit⟩
  rcases fit.delivers_iff.mp delivers with ⟨finish, locates, same⟩
  rcases exists_aligns_of_finds locates.finds acyclic with
    ⟨derivation, kind, positions, aligned⟩
  exact ⟨gaps, finish, derivation, kind, positions, fit, locates, same,
    aligned⟩

/-- A result of a search in which neither of the sequences is known. -/
theorem map_aligned_open :
    ∃ found,
      Goal.Delivers (table fun _ => [.int 1, .int 2]).unfold
          ((MapPolicy.all.map (.base ()) (.var ⟨0⟩) (.var ⟨1⟩) .any).made 2).1
          ∅ ⟨Array.replicate 6 "", #[]⟩ 2 found ∧
        ∃ kind positions,
          found.reify (.var ⟨0⟩) =
              .sequence kind (positions.map Position.item) ∧
            found.reify (.var ⟨1⟩) =
              .sequence kind (positions.map Position.other) ∧
            positions ≠ [] := by
  have third :
      ((Goal.resultsWithin (table fun _ => [.int 1, .int 2]).unfold
        ((MapPolicy.all.map (.base ()) (.var ⟨0⟩) (.var ⟨1⟩) .any).made 2).1 ∅
        ⟨Array.replicate 6 "", #[]⟩ 9)[2]?).isSome = true := by
    decide +kernel
  rcases Option.isSome_iff_exists.mp third with ⟨found, taken⟩
  have delivers :
      Goal.Delivers (table fun _ => [.int 1, .int 2]).unfold
        ((MapPolicy.all.map (.base ()) (.var ⟨0⟩) (.var ⟨1⟩) .any).made 2).1
        ∅ ⟨Array.replicate 6 "", #[]⟩ 2 found :=
    Stream.delivers_of_takeWithin taken
  rcases map_aligned .all (.base ()) .any Subst.acyclic_empty delivers with
    ⟨_, finish, _, kind, positions, _, _, rfl, aligns, accepted, _⟩
  refine ⟨finish.value, delivers, kind, positions, aligns.first_eq,
    aligns.second_eq, fun nothing => ?_⟩
  rcases accepted nothing with accepted | ⟨other, _⟩
  · cases accepted
  · cases other

end Program

end RelationalSearch
