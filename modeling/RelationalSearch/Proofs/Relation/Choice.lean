import RelationalSearch.Proofs.Relation.Elementwise

/-!
# Relating two sequences at one position or more

`MapPolicy.any` asks at every position for related elements or for equal ones.
Where one of two terms is known to be a proper sequence, it has the results of
all vectors of such choices that are accepted in the end, each vector once
(`Program.map_any_choices`).

The branches of the search are nested: a choice is made after two cells have
been taken apart, and before the next two are.  In the reference the choices
come first.  `Goal.SplitsInto` moves them to the front, one position at a time.
-/

namespace RelationalSearch

variable {Base Custom Code : Type}

/-! ## Choices -/

/-- All ways to choose, for each position, related elements or equal ones. -/
def choiceVectors : Nat → List (List Bool)
  | 0 => [[]]
  | length + 1 =>
    (choiceVectors length).map (List.cons true) ++
      (choiceVectors length).map (List.cons false)

theorem mem_choiceVectors_iff {length : Nat} {choices : List Bool} :
    choices ∈ choiceVectors length ↔ choices.length = length := by
  induction length generalizing choices with
  | zero => simp [choiceVectors]
  | succ length ih =>
    cases choices with
    | nil => simp [choiceVectors]
    | cons related choices => cases related <;> simp [choiceVectors, ih]

theorem nodup_choiceVectors (length : Nat) : (choiceVectors length).Nodup := by
  induction length with
  | zero => simp [choiceVectors]
  | succ length ih =>
    rw [choiceVectors, List.nodup_append]
    refine ⟨ih.map (List.cons_injective), ih.map (List.cons_injective), ?_⟩
    simp

/-- The end is accepted where the cursor is after these choices. -/
def MapCursor.allows
    (cursor : MapCursor)
    (nullSucceeds : Bool)
    (choices : List Bool) : Bool :=
  (choices.foldl next cursor).acceptsNull nullSucceeds

/--
Sequences with these choices are accepted.  The relation holds somewhere, or is
taken to have held before; or there are no elements, which the settings allow.
-/
def MapSettings.accepts (settings : MapSettings) (choices : List Bool) : Bool :=
  settings.anySucceeded || choices.any id ||
    (choices.isEmpty && settings.nullSucceedsAtFirstCall)

theorem MapCursor.allows_eq
    (cursor : MapCursor)
    (nullSucceeds : Bool)
    (choices : List Bool) :
    cursor.allows nullSucceeds choices =
      (cursor.anySucceeded || choices.any id ||
        (choices.isEmpty && cursor.first && nullSucceeds)) := by
  induction choices generalizing cursor with
  | nil => simp [allows, acceptsNull]
  | cons related choices ih =>
    have onwards := ih (cursor.next related)
    simp only [next, Bool.and_false, Bool.false_and, Bool.or_false]
      at onwards
    simp only [List.any_cons, id, List.isEmpty_cons, Bool.false_and,
      Bool.or_false, ← Bool.or_assoc]
    exact onwards

theorem MapSettings.allows_start (settings : MapSettings) :
    (MapCursor.start settings.anySucceeded).allows
        settings.nullSucceedsAtFirstCall = settings.accepts := by
  ext choices
  simp [MapCursor.allows_eq, MapCursor.start, accepts]

/-- The choices of one position more, that of the first one. -/
theorem filter_allows_choiceVectors
    (cursor : MapCursor)
    (nullSucceeds : Bool)
    (length : Nat) :
    let after (related : Bool) : List (List Bool) :=
      (choiceVectors length).filter
        ((cursor.next related).allows nullSucceeds)
    (choiceVectors (length + 1)).filter (cursor.allows nullSucceeds) =
      (after true).map (List.cons true) ++
        (after false).map (List.cons false) := by
  rw [choiceVectors, List.filter_append, List.filter_map, List.filter_map]
  rfl

/-! ## Goals that split -/

/-- What is read of the goal is read of the parts, one after the other. -/
def Goal.SplitsInto
    (goalOf : Code → Recipe (Goal Code))
    (goal : Goal Code)
    (parts : List (Goal Code)) : Prop :=
  ∀ start found, Reading goalOf goal start found →
    ∃ each,
      List.Forall₂ (fun part => Reading goalOf part start) parts each ∧
        found.Perm each.flatten

namespace Goal.SplitsInto

variable {goalOf : Code → Recipe (Goal Code)} {goal : Goal Code}
  {parts : List (Goal Code)}

theorem refl (goal : Goal Code) : goal.SplitsInto goalOf [goal] := by
  intro start found reading
  refine ⟨[found], .cons reading .nil, ?_⟩
  rw [List.flatten_singleton]

theorem fail : Goal.fail.SplitsInto goalOf [] := by
  intro start found reading
  cases reading
  exact ⟨[], .nil, .nil⟩

theorem either
    {other : Goal Code}
    {otherParts : List (Goal Code)}
    (splits : goal.SplitsInto goalOf parts)
    (otherSplits : other.SplitsInto goalOf otherParts) :
    (Goal.either goal other).SplitsInto goalOf (parts ++ otherParts) := by
  intro start found reading
  cases reading with
  | either onLeft onRight =>
    rcases splits _ _ onLeft with ⟨lefts, leftReadings, leftPermuted⟩
    rcases otherSplits _ _ onRight with ⟨rights, rightReadings, rightPermuted⟩
    refine ⟨lefts ++ rights, List.rel_append leftReadings rightReadings, ?_⟩
    rw [List.flatten_append]
    exact leftPermuted.append rightPermuted

/--
The results of each part are collected from all entries, before those of the
next part.
-/
theorem exists_collected
    {first : Goal Code}
    {start : Snapshot}
    {entries : List (Snapshot × List Snapshot)}
    (front : Reading goalOf first start (entries.map Prod.fst))
    (each : Snapshot × List Snapshot → List (List Snapshot))
    (readings :
      ∀ entry ∈ entries,
        List.Forall₂ (fun part => Reading goalOf part entry.1) parts
          (each entry)) :
    ∃ collected,
      List.Forall₂ (fun part => Reading goalOf part start)
          (parts.map (.both first)) collected ∧
        (entries.flatMap fun entry => (each entry).flatten).Perm
          collected.flatten := by
  induction parts generalizing each with
  | nil =>
    have none : ∀ entry ∈ entries, (each entry).flatten = [] := by
      intro entry member
      rw [List.forall₂_nil_left_iff.mp (readings entry member)]
      rfl
    refine ⟨[], .nil, ?_⟩
    rw [List.flatMap_eq_nil_iff.mpr none]
    rfl
  | cons part parts ih =>
    have opened : ∀ entry ∈ entries, ∃ here others,
        Reading goalOf part entry.1 here ∧
          List.Forall₂ (fun part => Reading goalOf part entry.1) parts
            others ∧
          each entry = here :: others := by
      intro entry member
      exact List.forall₂_cons_left_iff.mp (readings entry member)
    choose! here others reads rest shape using opened
    rcases ih others rest with ⟨collected, collectedReadings, same⟩
    let own := entries.map fun entry => (entry.1, here entry)
    have ownFront : Reading goalOf first start (own.map Prod.fst) := by
      rw [List.map_map]
      exact front
    have ownBack : ∀ entry ∈ own, Reading goalOf part entry.1 entry.2 := by
      intro entry member
      rcases List.mem_map.mp member with ⟨original, inside, rfl⟩
      exact reads original inside
    have together := Reading.both ownFront ownBack
    rw [List.flatMap_map] at together
    refine ⟨_ :: collected, .cons together collectedReadings, ?_⟩
    rw [List.flatten_cons]
    calc
      entries.flatMap (fun entry => (each entry).flatten) =
          entries.flatMap fun entry =>
            here entry ++ (others entry).flatten := by
        apply List.flatMap_congr
        intro entry member
        rw [shape entry member, List.flatten_cons]
      List.Perm _ (entries.flatMap here ++
            entries.flatMap fun entry => (others entry).flatten) :=
        (List.flatMap_append_perm entries here _).symm
      List.Perm _ (entries.flatMap here ++ collected.flatten) :=
        same.append_left _

/-- Parts of the second goal are parts of the conjunction. -/
theorem both
    (first : Goal Code)
    (splits : goal.SplitsInto goalOf parts) :
    (Goal.both first goal).SplitsInto goalOf (parts.map (.both first)) := by
  intro start found reading
  rcases reading.exists_entries with ⟨entries, front, back, rfl⟩
  have behind : ∀ entry ∈ entries, ∃ each,
      List.Forall₂ (fun part => Reading goalOf part entry.1) parts each ∧
        entry.2.Perm each.flatten :=
    fun entry member => splits entry.1 entry.2 (back entry member)
  choose! each readings permuted using behind
  rcases exists_collected front each readings with
    ⟨collected, collectedReadings, same⟩
  exact ⟨collected, collectedReadings,
    (List.Perm.flatMap_left entries permuted).trans same⟩

/-- Each part may be replaced by one that reads the same. -/
theorem congr
    {others : List (Goal Code)}
    (splits : goal.SplitsInto goalOf parts)
    (same :
      List.Forall₂
        (fun part other =>
          ∀ start found,
            Reading goalOf part start found → Reading goalOf other start found)
        parts others) :
    goal.SplitsInto goalOf others := by
  intro start found reading
  rcases splits start found reading with ⟨each, readings, permuted⟩
  refine ⟨each, ?_, permuted⟩
  clear splits permuted
  induction same generalizing each with
  | nil => exact readings
  | cons here _ ih =>
    cases readings with
    | cons first rest => exact .cons (here _ _ first) (ih _ rest)

/-- A goal that is built later splits as it does where it is built. -/
theorem dynamic
    {recipe : Recipe (Goal Code)}
    {recipes : List (Recipe (Goal Code))}
    (minted :
      ∀ opening, ∀ part ∈ recipes,
        (part.made opening).2 = (recipe.made opening).2)
    (splits :
      ∀ opening,
        (recipe.made opening).1.SplitsInto goalOf
          (recipes.map fun part => (part.made opening).1)) :
    (Goal.dynamic fun _ => recipe).SplitsInto goalOf
      (recipes.map fun part => .dynamic fun _ => part) := by
  intro start found reading
  cases reading with
  | @dynamic _ _ opening _ later built =>
    rcases splits opening _ _ built with ⟨each, readings, permuted⟩
    refine ⟨each, ?_, permuted⟩
    rw [List.forall₂_map_left_iff] at readings ⊢
    have inside := (List.forall₂_and_left _ _).mpr ⟨minted opening, readings⟩
    apply inside.imp
    rintro part found ⟨same, reading⟩
    apply Reading.dynamic later
    rw [same]
    exact reading

end Goal.SplitsInto

/-- Conjunctions may be regrouped to the left. -/
theorem Reading.regroup
    {goalOf : Code → Recipe (Goal Code)}
    {first second third : Goal Code}
    {start : Snapshot}
    {found : List Snapshot}
    (reading :
      Reading goalOf (.both first (.both second third)) start found) :
    Reading goalOf (.both (.both first second) third) start found := by
  rcases reading.exists_entries with ⟨entries, front, back, rfl⟩
  have nested : ∀ entry ∈ entries, ∃ inner : List (Snapshot × List Snapshot),
      Reading goalOf second entry.1 (inner.map Prod.fst) ∧
        (∀ part ∈ inner, Reading goalOf third part.1 part.2) ∧
        entry.2 = inner.flatMap Prod.snd :=
    fun entry member => (back entry member).exists_entries
  choose! inner middles lasts same using nested
  let outer := entries.map fun entry => (entry.1, (inner entry).map Prod.fst)
  have outerFront : Reading goalOf first start (outer.map Prod.fst) := by
    rw [List.map_map]
    exact front
  have outerBack : ∀ entry ∈ outer, Reading goalOf second entry.1 entry.2 := by
    intro entry member
    rcases List.mem_map.mp member with ⟨original, inside, rfl⟩
    exact middles original inside
  have fronts := Reading.both outerFront outerBack
  rw [List.flatMap_map, ← List.map_flatMap] at fronts
  have backs : ∀ part ∈ entries.flatMap inner,
      Reading goalOf third part.1 part.2 := by
    intro part member
    rcases List.mem_flatMap.mp member with ⟨entry, inside, later⟩
    exact lasts entry inside part later
  have whole := Reading.both fronts backs
  rwa [List.flatMap_assoc, ← List.flatMap_congr same] at whole

/-- The parts of a goal, as branches of a disjunction. -/
theorem Reading.any
    {goalOf : Code → Recipe (Goal Code)}
    {parts : List (Goal Code)}
    {start : Snapshot}
    {each : List (List Snapshot)}
    (readings : List.Forall₂ (fun part => Reading goalOf part start) parts each) :
    Reading goalOf (.any (parts.map fun part => [part])) start each.flatten := by
  induction readings with
  | nil => exact .fail
  | cons here _ ih => exact .either here ih

/-! ## Choices that come first -/

namespace Program

variable (program : Program Base Custom) (relation : Relation Base)

/-- Elements at a position are related or equal, as it has been chosen. -/
def choice (related : Bool) : Link Base Custom :=
  if related then program.link relation else .eq

variable {program} {relation}

theorem made_linked_eq_made_linkedAny
    {choices : List Bool}
    {length : Nat}
    (counted : choices.length = length)
    (kind : Option SeqKind)
    (nullSucceeds : Bool)
    (cursor : MapCursor)
    (first second : Term)
    (opening : Nat) :
    ((linked kind true (choices.map (program.choice relation)) first
        second).made opening).2 =
      ((linkedAny kind nullSucceeds cursor
        (List.replicate length (program.link relation)) first second).made
          opening).2 := by
  subst counted
  cases choices with
  | nil => rfl
  | cons => rfl

/-- The choices may be made before the sequences are taken apart. -/
theorem splitsInto_linkedAny
    (kind : Option SeqKind)
    (nullSucceeds : Bool)
    (cursor : MapCursor)
    (length : Nat)
    (first second : Term)
    (opening : Nat) :
    ((linkedAny kind nullSucceeds cursor
      (List.replicate length (program.link relation)) first second).made
        opening).1.SplitsInto program.unfold
      (((choiceVectors length).filter (cursor.allows nullSucceeds)).map
        fun choices =>
          ((linked kind true (choices.map (program.choice relation)) first
            second).made opening).1) := by
  induction length generalizing cursor first second opening with
  | zero =>
    rw [List.replicate_zero, made_linkedAny_nil]
    cases accepted : cursor.acceptsNull nullSucceeds with
    | true =>
      have allowed : cursor.allows nullSucceeds [] = true := accepted
      rw [choiceVectors, List.filter_cons_of_pos allowed]
      exact .refl _
    | false =>
      have refused : ¬ cursor.allows nullSucceeds [] = true :=
        Bool.eq_false_iff.mp accepted
      rw [choiceVectors, List.filter_cons_of_neg refused]
      cases kind with
      | none => exact .fail
      | some => exact .fail
  | succ length ih =>
    let cells := Cells.numbered opening
    let after (related : Bool) : List (List Bool) :=
      (choiceVectors length).filter
        ((cursor.next related).allows nullSucceeds)
    let rest (choices : List Bool) : Recipe (CodedGoal Base Custom) :=
      linked kind true (choices.map (program.choice relation))
        cells.firstTail cells.secondTail
    have tails (related : Bool) :
        (Goal.dynamic fun _ =>
          linkedAny kind nullSucceeds (cursor.next related)
            (List.replicate length (program.link relation))
            cells.firstTail cells.secondTail).SplitsInto program.unfold
          (((after related).map rest).map fun part => .dynamic fun _ => part) := by
      apply Goal.SplitsInto.dynamic
      · intro later part member
        rcases List.mem_map.mp member with ⟨choices, inside, rfl⟩
        have counted := mem_choiceVectors_iff.mp (List.mem_filter.mp inside).1
        exact made_linked_eq_made_linkedAny counted _ _ _ _ _ _
      · intro later
        rw [List.map_map]
        exact ih (cursor.next related) cells.firstTail cells.secondTail later
    have branches :=
      Goal.SplitsInto.both (cells.parts first second)
        (((tails true).both
          (program.link relation cells.firstHead cells.secondHead)).either
        (((tails false).both
          (.eq cells.firstHead cells.secondHead)).either .fail))
    rw [List.replicate_succ, made_linkedAny_cons, filter_allows_choiceVectors]
    apply branches.congr
    simp only [List.append_nil, List.map_append, List.map_map]
    apply List.rel_append
    all_goals
      rw [List.forall₂_map_left_iff, List.forall₂_map_right_iff,
        List.forall₂_same]
      intro choices _ start found reading
      exact reading.regroup

/-! ## The search -/

variable {least : Nat}

/-- At every position the relation is called or the elements are equal. -/
theorem Ends.readsAs_mapAny
    (ends : program.Ends least relation)
    {gaps : Gaps}
    {start : Located Subst}
    {first second : Term}
    {supply length : Nat}
    {kind : SeqKind}
    (default : SeqKind)
    (nullSucceeds : Bool)
    (cursor : MapCursor)
    (low : least ≤ start.place.supply)
    (covers : start.Covers first second)
    (enough : supply + 4 ≤ start.place.supply)
    (side : start.value.SpansEither kind length first second) :
    ((mapAny relation default nullSucceeds cursor first second).made
        supply).1.ReadsAs program.unfold gaps
      ((linkedAny (some kind) nullSucceeds cursor
        (List.replicate length (program.link relation)) first second).made
          supply).1 start
      fun subst => subst.SpansBoth kind length first second := by
  induction length generalizing start first second supply cursor with
  | zero =>
    have shown := side.imp Subst.spans_zero_iff.mp Subst.spans_zero_iff.mp
    refine (readsAs_mapAny_ended covers enough shown).imp
      covers.within.acyclic ?_
    intro subst _ nils
    exact nils.imp Subst.spans_zero_iff.mpr Subst.spans_zero_iff.mpr
  | succ length ih =>
    have cellsLow := Cells.low_numbered enough
    apply readsAs_mapAny_cell covers enough
      (side.imp Subst.Spans.isCons Subst.Spans.isCons)
    · intro middle parted
      exact ends.readsAs_defer (parted.heads cellsLow)
        (low.trans parted.later)
    · intro related middle parted
      have tails := side.tails parted.grows covers.within.acyclic parted.parts
      have rest : (Goal.defer (.mapAny relation default nullSucceeds
          (cursor.next related) (Cells.numbered supply).firstTail
          (Cells.numbered supply).secondTail)).ReadsAs program.unfold gaps
          (.dynamic fun _ => linkedAny (some kind) nullSucceeds
            (cursor.next related)
            (List.replicate length (program.link relation))
            (Cells.numbered supply).firstTail
            (Cells.numbered supply).secondTail) middle
          fun subst => subst.SpansBoth kind length
            (Cells.numbered supply).firstTail
            (Cells.numbered supply).secondTail := by
        apply readsAs_defer_mapAny
        intro place opening later reached
        have onwards : middle.place.supply ≤ place.supply := by omega
        exact ih (cursor.next related)
          (low.trans (parted.later.trans onwards))
          ((parted.tails cellsLow).move place onwards) reached tails
      apply rest.imp parted.within.acyclic
      intro subst grows spans
      exact spans.whole grows.acyclic
        (parted.parts.grows parted.within.acyclic grows)

/--
Where one of two terms is a proper sequence, the search that relates them at
one position or more ends.  Its results are those of one conjunction for each
accepted vector of choices, which takes both terms apart and asks for related or
equal elements as chosen.  Then both are sequences of this kind and length, and
empty ones match if the settings say so.  For a uniform relation the
conjunctions are generic.
-/
theorem map_any_choices
    (settings : MapSettings)
    {first second : Term}
    {subst : Subst}
    {session : Session}
    {built length : Nat}
    {kind : SeqKind}
    (ends : program.Ends built relation)
    (firstLow : first.ceiling ≤ built)
    (secondLow : second.ceiling ≤ built)
    (enough : built + 4 ≤ session.supply)
    (within : subst.Within session.supply)
    (side : subst.SpansEither kind length first second) :
    let goal : CodedGoal Base Custom :=
      ((MapPolicy.any.map relation first second settings).made built).1
    let chosen (choices : List Bool) : CodedGoal Base Custom :=
      ((linked (some kind) true (choices.map (program.choice relation)) first
        second).made built).1
    let reference : CodedGoal Base Custom :=
      .any (((choiceVectors length).filter settings.accepts).map
        fun choices => [chosen choices])
    ∃ results,
      goal.DrainsAs program.unfold reference subst session results ∧
        (∀ result ∈ results, result.SpansBoth kind length first second) ∧
        (results ≠ [] →
          ∀ otherKind otherLength,
            subst.SpansEither otherKind otherLength first second →
              otherKind = kind ∧ otherLength = length) ∧
        (length = 0 →
          results =
            (subst.closed kind
              (settings.anySucceeded || settings.nullSucceedsAtFirstCall) first
              second).toList) ∧
        ∀ codes, GenericCodes program.unfold codes →
          relation.Uniform codes built →
            Generic program.unfold reference subst session.supply := by
  intro goal chosen reference
  have acyclic := within.acyclic
  have later : built ≤ session.supply := (Nat.le_add_right built 4).trans enough
  rcases Gaps.exists_fit program.unfold goal subst session with ⟨gaps, fit⟩
  have covers : (Located.root subst session).Covers first second :=
    ⟨within, firstLow.trans later, secondLow.trans later⟩
  let nested : CodedGoal Base Custom :=
    ((linkedAny (some kind) settings.nullSucceedsAtFirstCall
      (.start settings.anySucceeded)
      (List.replicate length (program.link relation)) first second).made
        built).1
  have reads : goal.ReadsAs program.unfold gaps nested (.root subst session)
      fun result =>
        subst.Grows result ∧ result.SpansBoth kind length first second :=
    (ends.readsAs_mapAny settings.terminator settings.nullSucceedsAtFirstCall
      (.start settings.anySucceeded) later covers enough side).imp acyclic
        fun _ grows spans => ⟨grows, spans⟩
  rcases reads.exists_drains fit with ⟨results, drains, known⟩
  refine ⟨results, drains.reorder ?_,
    fun result member => (known result member).2, ?_, ?_, ?_⟩
  · intro start found reading
    have splits := @splitsInto_linkedAny _ _ program relation (some kind)
      settings.nullSucceedsAtFirstCall (.start settings.anySucceeded) length
      first second built
    rw [settings.allows_start] at splits
    rcases splits start found reading with ⟨each, readings, permuted⟩
    refine ⟨each.flatten, ?_, permuted⟩
    have branches := Reading.any readings
    rwa [List.map_map] at branches
  · intro nonempty otherKind otherLength other
    exact other.unique_of_ne_nil acyclic known nonempty
  · rintro rfl
    exact drains.eq_closed
  · intro codes generic uniform
    refine ⟨codes, generic, Goal.alike_any ?_, within.alike_upTo⟩
    rw [List.forall₂_map_left_iff, List.forall₂_map_right_iff,
      List.forall₂_same]
    intro choices _
    refine .cons (alike_self_linked generic ?_ firstLow secondLow _ _ enough)
      .nil
    intro link member
    rcases List.mem_map.mp member with ⟨related, _, rfl⟩
    cases related with
    | false => exact alikeLinks_eq
    | true => exact uniform.alikeLinks generic fun x below => ⟨rfl, below⟩

/-- Two empty lists have no related elements. -/
theorem map_any_choices_nil :
    Goal.Drains (table fun _ => [.int 1, .int 2]).unfold
      ((MapPolicy.any.map (.base ()) (.nil .list) (.var ⟨0⟩) .any).made 1).1
      ∅ ⟨Array.replicate 5 "", #[]⟩ [] := by
  have ground : ∀ value ∈ [Term.int 1, .int 2], value.isGround = true := by
    decide
  have ends : (table fun _ => [.int 1, .int 2]).Ends 1 (.base ()) :=
    (ends_table fun _ => ground).mono (Nat.zero_le 1)
  have side : (∅ : Subst).SpansEither .list 0 (.nil .list) (.var ⟨0⟩) :=
    .inl ⟨[], Subst.reify_eq_of_isGround Subst.acyclic_empty rfl, rfl⟩
  have enough : 1 + 4 ≤ Session.supply ⟨Array.replicate 5 "", #[]⟩ := by decide
  rcases map_any_choices .any ends (by decide) (by decide) enough
      (Subst.within_empty _) side with ⟨results, drains, _, _, empty, _⟩
  have none : results = [] := empty rfl
  subst none
  exact drains.drains

end Program

end RelationalSearch
