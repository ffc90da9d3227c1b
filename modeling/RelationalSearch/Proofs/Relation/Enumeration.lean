import RelationalSearch.Proofs.Relation.Revision

/-!
# Listing all revisions

A search through a term decides at every position whether the part there moves
as a whole, or else goes through its elements.  Of each element it asks for
moves inside, or it leaves the element as it is; at the end of the sequence,
some element must have moved.

`Term.movesList` follows these decisions.  It has the moves of each revision
(`Term.mem_movesList_iff`) once (`Term.nodup_movesList`).
-/

namespace RelationalSearch

namespace Term

variable (change : Term → Option Term)

/-- A move of a part as a whole, or else one of those inside. -/
def rootMoves (part : Term) (inside : List Moves) : List Moves :=
  (if (change part).isSome then [.root .replace] else []) ++
    match part with
    | nil _ => [.root .keep]
    | _ => inside

/--
The moves inside the elements of a sequence from some cell on.  If no element
has moved before then one has to.
-/
def linkMoves : Term → Bool → List Moves
  | cons head tail, any =>
    (head.rootMoves change (head.linkMoves false)).flatMap
        (fun inside => (tail.linkMoves true).map inside.join) ++
      (tail.linkMoves any).map Moves.still.join
  | nil _, any => if any then [.still] else []
  | _, _ => []

/-- The moves of all revisions of a graph. -/
def movesList (graph : Term) : List Moves :=
  graph.rootMoves change (graph.linkMoves change false)

variable {change}

theorem linkMoves_cons (head tail : Term) (any : Bool) :
    (cons head tail).linkMoves change any =
      (head.movesList change).flatMap
          (fun inside => (tail.linkMoves change true).map inside.join) ++
        (tail.linkMoves change any).map Moves.still.join :=
  rfl

/-! ## Each revision is listed -/

/-- No move is made at the root of a sequence that is gone through. -/
theorem root_eq_none_of_mem_linkMoves
    {graph : Term}
    {any : Bool}
    {moves : Moves}
    (member : moves ∈ graph.linkMoves change any) :
    moves [] = none := by
  cases graph with
  | cons head tail =>
    rw [linkMoves_cons, List.mem_append, List.mem_flatMap] at member
    rcases member with ⟨inside, _, moved⟩ | unmoved
    · rcases List.mem_map.mp moved with ⟨rest, _, rfl⟩
      rfl
    · rcases List.mem_map.mp unmoved with ⟨rest, _, rfl⟩
      rfl
  | nil kind =>
    cases any with
    | false => cases member
    | true =>
      rw [linkMoves, if_pos rfl, List.mem_singleton] at member
      rw [member, Moves.still]
  | _ => cases member

theorem mem_rootMoves
    {part : Term}
    {inside : List Moves}
    {moves : Moves} :
    moves ∈ part.rootMoves change inside ↔
      (∃ move : Move, move.Allowed change part ∧ moves = .root move) ∨
        ((∀ kind, part ≠ nil kind) ∧ moves ∈ inside) := by
  have replaces : moves ∈
      (if (change part).isSome then [Moves.root .replace] else []) ↔
        (change part).isSome = true ∧ moves = .root .replace := by
    split <;> simp_all
  have moveIff :
      (∃ move : Move, move.Allowed change part ∧ moves = .root move) ↔
        ((change part).isSome = true ∧ moves = .root .replace) ∨
          ((∃ kind, part = nil kind) ∧ moves = .root .keep) := by
    constructor
    · rintro ⟨_ | _, allowed, same⟩
      · exact .inl ⟨allowed, same⟩
      · exact .inr ⟨allowed, same⟩
    · rintro (⟨allowed, same⟩ | ⟨allowed, same⟩)
      · exact ⟨.replace, allowed, same⟩
      · exact ⟨.keep, allowed, same⟩
  unfold rootMoves
  rw [List.mem_append, replaces, moveIff, or_assoc]
  cases part <;> simp

/-- Moves of a whole are those of a revision if the moves inside are. -/
theorem mem_rootMoves_iff
    {graph : Term}
    {inside : List Moves}
    (below :
      ∀ moves, moves ∈ inside ↔
        graph.elements?.isSome = true ∧ moves [] = none ∧
          moves.Valid change graph ∧ moves.Any)
    (moves : Moves) :
    moves ∈ graph.rootMoves change inside ↔
      moves.Valid change graph ∧ moves.Any := by
  rw [mem_rootMoves, below]
  constructor
  · rintro (⟨move, allowed, rfl⟩ | ⟨_, _, _, valid, some⟩)
    · exact ⟨(Moves.valid_iff_of_root rfl).mpr ⟨allowed, rfl⟩, [], rfl⟩
    · exact ⟨valid, some⟩
  · rintro ⟨valid, some⟩
    rcases made : moves [] with _ | move
    · have proper : graph.isCons = true ∧ graph.elements?.isSome = true := by
        by_contra neither
        rw [not_and_or, Bool.not_eq_true, Bool.not_eq_true] at neither
        rw [valid.eq_still made neither] at some
        exact Moves.not_any_still some
      refine .inr ⟨?_, proper.2, rfl, valid, some⟩
      rintro kind rfl
      cases proper.1
    · exact .inl ⟨move, (Moves.valid_iff_of_root made).mp valid⟩

theorem mem_linkMoves_iff
    (graph : Term)
    (any : Bool)
    (moves : Moves) :
    moves ∈ graph.linkMoves change any ↔
      graph.elements?.isSome = true ∧ moves [] = none ∧
        moves.Valid change graph ∧ (any = true ∨ moves.Any) := by
  induction graph generalizing any moves with
  | cons head tail headIH tailIH =>
    have headList : ∀ moves, moves ∈ head.movesList change ↔
        moves.Valid change head ∧ moves.Any :=
      mem_rootMoves_iff (by simpa using headIH false)
    rw [linkMoves_cons, elements?_cons, Option.isSome_map, List.mem_append,
      List.mem_flatMap]
    constructor
    · rintro (⟨inside, listed, moved⟩ | unmoved)
      · rcases List.mem_map.mp moved with ⟨rest, listedRest, rfl⟩
        rcases (tailIH true rest).mp listedRest with
          ⟨proper, restBelow, restValid, _⟩
        rcases (headList inside).mp listed with ⟨insideValid, insideAny⟩
        refine ⟨proper, rfl, ?_, .inr ?_⟩
        · rw [Moves.valid_cons_iff proper rfl, Moves.first_join,
            Moves.later_join restBelow]
          exact ⟨insideValid, restValid⟩
        · rw [Moves.any_iff_of_root_eq_none rfl, Moves.first_join]
          exact .inl insideAny
      · rcases List.mem_map.mp unmoved with ⟨rest, listedRest, rfl⟩
        rcases (tailIH any rest).mp listedRest with
          ⟨proper, restBelow, restValid, restAny⟩
        refine ⟨proper, rfl, ?_, restAny.imp_right fun some => ?_⟩
        · rw [Moves.valid_cons_iff proper rfl, Moves.first_join,
            Moves.later_join restBelow]
          exact ⟨Moves.valid_still change head, restValid⟩
        · rw [Moves.any_iff_of_root_eq_none rfl, Moves.later_join restBelow]
          exact .inr some
    · rintro ⟨proper, below, valid, some⟩
      rw [Moves.valid_cons_iff proper below] at valid
      rw [Moves.any_iff_of_root_eq_none below] at some
      by_cases inside : moves.first.Any
      · refine .inl ⟨moves.first, (headList _).mpr ⟨valid.1, inside⟩, ?_⟩
        refine List.mem_map.mpr ⟨moves.later, ?_, Moves.join_first_later below⟩
        exact (tailIH true _).mpr ⟨proper, rfl, valid.2, .inl rfl⟩
      · refine .inr (List.mem_map.mpr ⟨moves.later, ?_, ?_⟩)
        · refine (tailIH any _).mpr ⟨proper, rfl, valid.2, ?_⟩
          exact some.imp_right fun either => either.resolve_left inside
        · rw [← Moves.eq_still_of_not_any inside]
          exact Moves.join_first_later below
  | nil kind =>
    cases any with
    | true =>
      rw [linkMoves, if_pos rfl, List.mem_singleton]
      constructor
      · rintro rfl
        exact ⟨rfl, rfl, Moves.valid_still change _, .inl rfl⟩
      · rintro ⟨_, below, valid, _⟩
        exact valid.eq_still below (.inl rfl)
    | false =>
      refine iff_of_false (by simp [linkMoves]) ?_
      rintro ⟨_, below, valid, made | made⟩
      · cases made
      · rw [valid.eq_still below (.inl rfl)] at made
        exact Moves.not_any_still made
  | _ =>
    refine iff_of_false (by simp [linkMoves]) ?_
    rintro ⟨proper, _⟩
    cases proper

/-- The moves of each revision are listed, and no others. -/
theorem mem_movesList_iff (graph : Term) (moves : Moves) :
    moves ∈ graph.movesList change ↔
      moves.Valid change graph ∧ moves.Any :=
  mem_rootMoves_iff (by simpa using mem_linkMoves_iff graph false) moves

/-- Listed moves are those of revisions. -/
theorem exists_revisions
    {graph : Term}
    {list : List Moves}
    (permuted : list.Perm (graph.movesList change)) :
    ∃ revisions : List (Revision change graph),
      revisions.map Revision.moves = list := by
  have valid : ∀ moves ∈ list, moves.Valid change graph ∧ moves.Any := by
    intro moves member
    exact (mem_movesList_iff graph moves).mp (permuted.mem_iff.mp member)
  refine ⟨list.pmap (fun moves both => ⟨moves, both.1, both.2⟩) valid, ?_⟩
  rw [List.map_pmap, List.pmap_eq_map, List.map_id']

/-! ## No revision is listed twice -/

theorem nodup_rootMoves
    {graph : Term}
    {any : Bool}
    (below : (graph.linkMoves change any).Nodup) :
    (graph.rootMoves change (graph.linkMoves change any)).Nodup := by
  have different : Moves.root .keep ≠ Moves.root .replace := by
    intro same
    cases congrFun same []
  have apart : Moves.root .replace ∉ graph.linkMoves change any := by
    intro member
    cases root_eq_none_of_mem_linkMoves member
  unfold rootMoves
  cases graph with
  | nil kind => split <;> simp [different.symm]
  | _ => split <;> simp [below, apart]

theorem nodup_linkMoves (graph : Term) (any : Bool) :
    (graph.linkMoves change any).Nodup := by
  induction graph generalizing any with
  | cons head tail headIH tailIH =>
    have joined {inside other : Moves} {rest otherRest : Moves}
        (below : rest [] = none) (otherBelow : otherRest [] = none)
        (same : inside.join rest = other.join otherRest) :
        inside = other ∧ rest = otherRest := by
      constructor
      · rw [← Moves.first_join inside rest, same, Moves.first_join]
      · rw [← Moves.later_join below inside, same,
          Moves.later_join otherBelow]
    rw [linkMoves_cons, List.nodup_append']
    refine ⟨List.nodup_flatMap.mpr ⟨?_, ?_⟩, ?_, ?_⟩
    · intro inside _
      refine (tailIH true).map_on ?_
      intro rest member other otherMember same
      exact (joined (root_eq_none_of_mem_linkMoves member)
        (root_eq_none_of_mem_linkMoves otherMember) same).2
    · refine (nodup_rootMoves (headIH false)).imp ?_
      intro inside other different moves member otherMember
      rcases List.mem_map.mp member with ⟨rest, listed, rfl⟩
      rcases List.mem_map.mp otherMember with ⟨otherRest, otherListed, same⟩
      exact different (joined (root_eq_none_of_mem_linkMoves otherListed)
        (root_eq_none_of_mem_linkMoves listed) same).1.symm
    · refine (tailIH any).map_on ?_
      intro rest member other otherMember same
      exact (joined (root_eq_none_of_mem_linkMoves member)
        (root_eq_none_of_mem_linkMoves otherMember) same).2
    · intro moves member otherMember
      rcases List.mem_flatMap.mp member with ⟨inside, listed, moved⟩
      rcases List.mem_map.mp moved with ⟨rest, _, rfl⟩
      rcases List.mem_map.mp otherMember with ⟨otherRest, _, same⟩
      have still : inside = .still := by
        rw [← Moves.first_join inside rest, ← same, Moves.first_join]
      rw [still] at listed
      exact Moves.not_any_still ((mem_movesList_iff head _).mp listed).2
  | nil kind => cases any <;> simp [linkMoves]
  | _ => exact .nil

theorem nodup_movesList (graph : Term) :
    (graph.movesList change).Nodup :=
  nodup_rootMoves (nodup_linkMoves graph false)

/-! ## What becomes of the graph -/

/-- The outcomes of the moves inside a cell, element by element. -/
theorem map_revisedBelow_linkMoves (head tail : Term) (any : Bool) :
    ((cons head tail).linkMoves change any).map
        ((cons head tail).revisedBelow change) =
      (((head.movesList change).map (head.revised change)).flatMap
          fun value =>
            ((tail.linkMoves change true).map
              (tail.revisedBelow change)).map (cons value)) ++
        ((tail.linkMoves change any).map
          (tail.revisedBelow change)).map (cons head) := by
  have joined (inside : Moves) (late : Bool) :
      ∀ rest ∈ tail.linkMoves change late,
        (cons head tail).revisedBelow change (inside.join rest) =
          cons (head.revised change inside)
            (tail.revisedBelow change rest) := by
    intro rest member
    rw [revisedBelow_cons, Moves.first_join,
      Moves.later_join (root_eq_none_of_mem_linkMoves member)]
  rw [linkMoves_cons, List.map_append, List.map_flatMap, List.flatMap_map]
  simp only [List.map_map]
  congr 1
  · refine List.flatMap_congr fun inside _ => ?_
    exact List.map_congr_left (joined inside true)
  · refine List.map_congr_left fun rest member => ?_
    simpa using joined .still any rest member

/-- A move of the whole puts the replacement in its place. -/
theorem map_revised_replace (graph : Term) :
    (if (change graph).isSome then [Moves.root .replace] else []).map
        (graph.revised change) =
      (change graph).toList := by
  rcases changed : change graph with _ | replaced
  · simp
  · simp [revised, moved, Moves.root, changed]

/-- The outcomes of all revisions of a term that is not an empty sequence. -/
theorem map_revised_movesList
    (graph : Term)
    (notNil : ∀ kind, graph ≠ nil kind) :
    (graph.movesList change).map (graph.revised change) =
      (change graph).toList ++
        (graph.linkMoves change false).map (graph.revisedBelow change) := by
  have inside : (graph.linkMoves change false).map (graph.revised change) =
      (graph.linkMoves change false).map (graph.revisedBelow change) := by
    refine List.map_congr_left fun moves member => ?_
    exact revised_of_root_eq_none (root_eq_none_of_mem_linkMoves member) graph
  unfold movesList rootMoves
  rw [List.map_append, map_revised_replace]
  cases graph with
  | nil kind => exact (notNil kind rfl).elim
  | _ => rw [← inside]

/-- An empty sequence may also be kept. -/
theorem map_revised_movesList_nil (kind : SeqKind) :
    ((nil kind).movesList change).map ((nil kind).revised change) =
      (change (nil kind)).toList ++ [nil kind] := by
  unfold movesList rootMoves
  rw [List.map_append, map_revised_replace]
  rfl

end Term

/-- All revisions, each of them once, have the moves that are listed. -/
theorem Revision.perm_movesList
    {change : Term → Option Term}
    {graph : Term}
    {revisions : List (Revision change graph)}
    (nodup : revisions.Nodup)
    (complete : ∀ revision, revision ∈ revisions) :
    (revisions.map Revision.moves).Perm (graph.movesList change) := by
  have injective : Function.Injective
      (Revision.moves : Revision change graph → Moves) :=
    fun _ _ same => Revision.ext same
  rw [List.perm_ext_iff_of_nodup (nodup.map injective)
    (Term.nodup_movesList graph)]
  intro moves
  rw [Term.mem_movesList_iff, List.mem_map]
  constructor
  · rintro ⟨revision, _, rfl⟩
    exact ⟨revision.valid, revision.any⟩
  · rintro ⟨valid, some⟩
    exact ⟨⟨moves, valid, some⟩, complete _, rfl⟩

end RelationalSearch
