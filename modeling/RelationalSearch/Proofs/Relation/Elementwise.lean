import RelationalSearch.Proofs.Relation.Ending

/-!
# Relating two sequences at every position

`MapPolicy.all` relates two terms of which at least one is known to be a proper
sequence.  Whatever the other one is, the search ends, and it ends with the
results of the plain conjunction that takes both sequences apart and asks for
related elements, position by position (`Program.map_all_elementwise`).

The proof follows the side that is known.  What it stands for may be filled in
further while the search goes on, but its length and its kind stay
(`Subst.Spans`), and they decide at every position which branch goes on.
-/

namespace RelationalSearch

variable {Base Custom : Type}

/-! ## Proper sequences -/

namespace Term

@[simp]
theorem sequence_nil (kind : SeqKind) : sequence kind [] = nil kind := rfl

@[simp]
theorem sequence_cons (kind : SeqKind) (item : Term) (items : List Term) :
    sequence kind (item :: items) = cons item (sequence kind items) := rfl

theorem under_sequence
    (valuation : Var → Term)
    (kind : SeqKind)
    (items : List Term) :
    (sequence kind items).under valuation =
      sequence kind (items.map fun item => item.under valuation) := by
  induction items with
  | nil => rfl
  | cons item items ih =>
    rw [sequence_cons, under_cons, ih, List.map_cons, sequence_cons]

theorem sequence_injective
    {kind other : SeqKind}
    {items others : List Term}
    (same : sequence kind items = sequence other others) :
    kind = other ∧ items = others := by
  induction items generalizing others with
  | nil =>
    cases others with
    | nil => exact ⟨nil.inj same, rfl⟩
    | cons => cases same
  | cons item items ih =>
    cases others with
    | nil => cases same
    | cons head tail =>
      rcases cons.inj same with ⟨heads, tails⟩
      rcases ih tails with ⟨kinds, rests⟩
      exact ⟨kinds, congrArg₂ List.cons heads rests⟩

end Term

namespace Subst

/-- The term is known to be a proper sequence of this kind and length. -/
def Spans
    (subst : Subst)
    (kind : SeqKind)
    (length : Nat)
    (term : Term) : Prop :=
  ∃ items, subst.reify term = .sequence kind items ∧ items.length = length

variable {subst later : Subst} {kind : SeqKind} {length : Nat}
  {term head tail : Term}

theorem Grows.spans
    (grows : subst.Grows later)
    (acyclic : subst.Acyclic)
    (spans : subst.Spans kind length term) :
    later.Spans kind length term := by
  rcases spans with ⟨items, shown, counted⟩
  have filled := grows.reify_eq_under acyclic term
  rw [shown, Term.under_sequence] at filled
  exact ⟨_, filled, by rw [List.length_map, counted]⟩

theorem spans_zero_iff :
    subst.Spans kind 0 term ↔ subst.reify term = .nil kind := by
  constructor
  · rintro ⟨items, shown, counted⟩
    rwa [List.length_eq_zero_iff.mp counted] at shown
  · intro shown
    exact ⟨[], shown, rfl⟩

theorem Spans.isCons (spans : subst.Spans kind (length + 1) term) :
    (subst.reify term).isCons = true := by
  rcases spans with ⟨items, shown, counted⟩
  cases items with
  | nil => cases counted
  | cons item items =>
    rw [shown]
    rfl

theorem spans_cons_iff (acyclic : subst.Acyclic) :
    subst.Spans kind (length + 1) (.cons head tail) ↔
      subst.Spans kind length tail := by
  constructor
  · rintro ⟨items, shown, counted⟩
    rw [reify_cons acyclic] at shown
    cases items with
    | nil => cases counted
    | cons item items =>
      exact ⟨items, (Term.cons.inj shown).2, Nat.succ.inj counted⟩
  · rintro ⟨items, shown, counted⟩
    refine ⟨subst.reify head :: items, ?_, congrArg Nat.succ counted⟩
    rw [reify_cons acyclic, shown, Term.sequence_cons]

theorem Spans.congr
    {other : Term}
    (spans : subst.Spans kind length term)
    (same : subst.reify other = subst.reify term) :
    subst.Spans kind length other := by
  rcases spans with ⟨items, shown, counted⟩
  exact ⟨items, same.trans shown, counted⟩

theorem Spans.unique
    {otherKind : SeqKind}
    {otherLength : Nat}
    (spans : subst.Spans kind length term)
    (otherSpans : subst.Spans otherKind otherLength term) :
    kind = otherKind ∧ length = otherLength := by
  rcases spans with ⟨items, shown, rfl⟩
  rcases otherSpans with ⟨others, otherShown, rfl⟩
  rcases Term.sequence_injective (shown.symm.trans otherShown) with
    ⟨kinds, rfl⟩
  exact ⟨kinds, rfl⟩

end Subst

/-- One of two terms is known to be a proper sequence. -/
def Subst.SpansEither
    (subst : Subst)
    (kind : SeqKind)
    (length : Nat)
    (first second : Term) : Prop :=
  subst.Spans kind length first ∨ subst.Spans kind length second

/-- Both terms are known to be proper sequences. -/
def Subst.SpansBoth
    (subst : Subst)
    (kind : SeqKind)
    (length : Nat)
    (first second : Term) : Prop :=
  subst.Spans kind length first ∧ subst.Spans kind length second

section Cells

variable {subst later : Subst} {cells : Cells} {kind : SeqKind}
  {length : Nat} {first second : Term}

/-- The tails go on on the side that is known. -/
theorem Subst.SpansEither.tails
    (spans : subst.SpansEither kind (length + 1) first second)
    (grows : subst.Grows later)
    (acyclic : subst.Acyclic)
    (parts : cells.Part first second later) :
    later.SpansEither kind length cells.firstTail cells.secondTail := by
  rcases spans with spans | spans
  · have onwards := (grows.spans acyclic spans).congr parts.first_eq
    exact .inl ((spans_cons_iff grows.acyclic).mp onwards)
  · have onwards := (grows.spans acyclic spans).congr parts.second_eq
    exact .inr ((spans_cons_iff grows.acyclic).mp onwards)

/-- Where both tails are known, both sequences are. -/
theorem Subst.SpansBoth.whole
    (spans : subst.SpansBoth kind length cells.firstTail cells.secondTail)
    (acyclic : subst.Acyclic)
    (parts : cells.Part first second subst) :
    subst.SpansBoth kind (length + 1) first second :=
  ⟨((spans_cons_iff acyclic).mpr spans.1).congr parts.first_eq.symm,
    ((spans_cons_iff acyclic).mpr spans.2).congr parts.second_eq.symm⟩

/-- What is known of a side at first is still so in each result. -/
theorem Subst.SpansEither.unique_of_ne_nil
    {results : List Subst}
    (acyclic : subst.Acyclic)
    (known :
      ∀ result ∈ results,
        subst.Grows result ∧ result.SpansBoth kind length first second)
    (nonempty : results ≠ [])
    {otherKind : SeqKind}
    {otherLength : Nat}
    (other : subst.SpansEither otherKind otherLength first second) :
    otherKind = kind ∧ otherLength = length := by
  rcases List.exists_mem_of_ne_nil results nonempty with ⟨result, member⟩
  rcases known result member with ⟨grows, onFirst, onSecond⟩
  rcases other with other | other
  · exact (grows.spans acyclic other).unique onFirst
  · exact (grows.spans acyclic other).unique onSecond

end Cells

/-- What comes of two terms that end a sequence, if they may. -/
def Subst.closed
    (subst : Subst)
    (kind : SeqKind)
    (accepted : Bool)
    (first second : Term) : Option Subst :=
  if accepted then
    (subst.unify first (.nil kind)).bind fun extended =>
      extended.unify second (.nil kind)
  else none

theorem Reading.values_ended
    {unfold : Code Base Custom → Recipe (CodedGoal Base Custom)}
    {start : Snapshot}
    {found : List Snapshot}
    {kind : SeqKind}
    {accepted : Bool}
    {first second : Term}
    (reading :
      Reading unfold (ended (some kind) accepted first second) start found) :
    found.map Snapshot.value =
      (start.value.closed kind accepted first second).toList := by
  cases accepted with
  | false =>
    cases reading
    rfl
  | true => exact reading.values_both_eq

/-- A search that reads as an end of sequences has at most one result. -/
theorem Goal.DrainsAs.eq_closed
    {unfold : Code Base Custom → Recipe (CodedGoal Base Custom)}
    {goal : CodedGoal Base Custom}
    {subst : Subst}
    {session : Session}
    {results : List Subst}
    {kind : SeqKind}
    {accepted : Bool}
    {first second : Term}
    (drains :
      goal.DrainsAs unfold (ended (some kind) accepted first second) subst
        session results) :
    results = (subst.closed kind accepted first second).toList := by
  rcases drains.exists_reading with ⟨found, reading, permuted⟩
  rw [reading.values_ended] at permuted
  exact eq_toList_of_perm permuted

/-! ## The search -/

namespace Program

variable {program : Program Base Custom} {relation : Relation Base}
  {least : Nat}

/-- At every position the relation is called for the elements. -/
theorem Ends.readsAs_mapAll
    (ends : program.Ends least relation)
    {gaps : Gaps}
    {start : Located Subst}
    {first second : Term}
    {supply length : Nat}
    {kind : SeqKind}
    (default : SeqKind)
    (nullSucceeds : Bool)
    (low : least ≤ start.place.supply)
    (covers : start.Covers first second)
    (enough : supply + 4 ≤ start.place.supply)
    (side : start.value.SpansEither kind length first second) :
    ((mapAll relation default nullSucceeds first second).made
        supply).1.ReadsAs program.unfold gaps
      ((linked (some kind) nullSucceeds
        (List.replicate length (program.link relation)) first second).made
          supply).1 start
      fun subst => subst.SpansBoth kind length first second := by
  induction length generalizing start first second supply nullSucceeds with
  | zero =>
    have shown := side.imp Subst.spans_zero_iff.mp Subst.spans_zero_iff.mp
    refine (readsAs_mapAll_ended covers enough shown).imp
      covers.within.acyclic ?_
    intro subst _ nils
    exact nils.imp Subst.spans_zero_iff.mpr Subst.spans_zero_iff.mpr
  | succ length ih =>
    have cellsLow := Cells.low_numbered enough
    apply readsAs_mapAll_cell covers enough
      (side.imp Subst.Spans.isCons Subst.Spans.isCons)
    · intro middle parted
      exact ends.readsAs_defer (parted.heads cellsLow)
        (low.trans parted.later)
    · intro middle parted
      have tails := side.tails parted.grows covers.within.acyclic parted.parts
      have rest : (Goal.defer (.mapAll relation default
          (Cells.numbered supply).firstTail
          (Cells.numbered supply).secondTail)).ReadsAs program.unfold gaps
          (.dynamic fun _ => linked (some kind) true
            (List.replicate length (program.link relation))
            (Cells.numbered supply).firstTail
            (Cells.numbered supply).secondTail) middle
          fun subst => subst.SpansBoth kind length
            (Cells.numbered supply).firstTail
            (Cells.numbered supply).secondTail := by
        apply readsAs_defer_mapAll
        intro place opening later reached
        have onwards : middle.place.supply ≤ place.supply := by omega
        exact ih true (low.trans (parted.later.trans onwards))
          ((parted.tails cellsLow).move place onwards) reached tails
      refine rest.imp parted.within.acyclic ?_
      intro subst grows spans
      exact spans.whole grows.acyclic
        (parted.parts.grows parted.within.acyclic grows)

/--
Where one of two terms is a proper sequence, the search that relates them at
every position ends, with the results of the conjunction that takes both apart
and relates their elements.  Then both are sequences of this kind and length, so
there are no results if the other one is a different sequence; and two empty
sequences match if the settings say so.  For a uniform relation the conjunction
is generic, so the numbers of its variables do not matter.
-/
theorem map_all_elementwise
    (settings : MapSettings)
    {first second : Term}
    {subst : Subst}
    {session : Session}
    {built length : Nat}
    {kind : SeqKind}
    (ends : program.Ends built relation)
    (firstLow : first.ceiling ≤ built)
    (secondLow : second.ceiling ≤ built)
    (enough : built + 4 ≤ session.supply)
    (within : subst.Within session.supply)
    (side : subst.SpansEither kind length first second) :
    let goal : CodedGoal Base Custom :=
      ((MapPolicy.all.map relation first second settings).made built).1
    let reference : CodedGoal Base Custom :=
      ((linked (some kind) settings.nullSucceedsAtFirstCall
        (List.replicate length (program.link relation)) first second).made
          built).1
    ∃ results,
      goal.DrainsAs program.unfold reference subst session results ∧
        (∀ result ∈ results, result.SpansBoth kind length first second) ∧
        (results ≠ [] →
          ∀ otherKind otherLength,
            subst.SpansEither otherKind otherLength first second →
              otherKind = kind ∧ otherLength = length) ∧
        (length = 0 →
          results =
            (subst.closed kind settings.nullSucceedsAtFirstCall first
              second).toList) ∧
        ∀ codes, GenericCodes program.unfold codes →
          relation.Uniform codes built →
            Generic program.unfold reference subst session.supply := by
  intro goal reference
  have acyclic := within.acyclic
  have later : built ≤ session.supply := (Nat.le_add_right built 4).trans enough
  rcases Gaps.exists_fit program.unfold goal subst session with ⟨gaps, fit⟩
  have covers : (Located.root subst session).Covers first second :=
    ⟨within, firstLow.trans later, secondLow.trans later⟩
  have reads : goal.ReadsAs program.unfold gaps reference
      (.root subst session)
      fun result =>
        subst.Grows result ∧ result.SpansBoth kind length first second :=
    (ends.readsAs_mapAll settings.terminator settings.nullSucceedsAtFirstCall
      later covers enough side).imp acyclic fun _ grows spans => ⟨grows, spans⟩
  rcases reads.exists_drains fit with ⟨results, drains, known⟩
  refine ⟨results, drains, fun result member => (known result member).2, ?_,
    ?_, ?_⟩
  · intro nonempty otherKind otherLength other
    exact other.unique_of_ne_nil acyclic known nonempty
  · rintro rfl
    exact drains.eq_closed
  · intro codes generic uniform
    refine ⟨codes, generic, alike_self_linked generic ?_ firstLow secondLow _ _
      enough, within.alike_upTo⟩
    intro link member
    rw [List.eq_of_mem_replicate member]
    exact uniform.alikeLinks generic fun x below => ⟨rfl, below⟩

/-- A variable becomes a list that is as long as the list at its side. -/
theorem map_all_elementwise_pair :
    ∃ results,
      Goal.Drains (table fun _ => [.int 1, .int 2]).unfold
        ((MapPolicy.all.map (.base ()) (.sequence .list [.int 7, .int 8])
          (.var ⟨0⟩) .all).made 1).1
        ∅ ⟨Array.replicate 5 "", #[]⟩ results ∧
      ∀ result ∈ results, result.Spans .list 2 (.var ⟨0⟩) := by
  have ground : ∀ value ∈ [Term.int 1, .int 2], value.isGround = true := by
    decide
  have ends : (table fun _ => [.int 1, .int 2]).Ends 1 (.base ()) :=
    (ends_table fun _ => ground).mono (Nat.zero_le 1)
  have side : (∅ : Subst).SpansEither .list 2
      (.sequence .list [.int 7, .int 8]) (.var ⟨0⟩) :=
    .inl ⟨_, Subst.reify_eq_of_isGround Subst.acyclic_empty rfl, rfl⟩
  have enough : 1 + 4 ≤ Session.supply ⟨Array.replicate 5 "", #[]⟩ := by decide
  rcases map_all_elementwise .all ends (by decide) (by decide) enough
      (Subst.within_empty _) side with ⟨results, drains, spans, _⟩
  exact ⟨results, drains.drains, fun result member => (spans result member).2⟩

end Program

end RelationalSearch
