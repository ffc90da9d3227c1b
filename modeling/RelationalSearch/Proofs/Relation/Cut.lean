import Mathlib.Data.Set.Finite.Basic
import Mathlib.Data.Set.List
import RelationalSearch.Proofs.Relation.Enumeration

/-!
# Cuts through a term

A cut is a set of positions such that each single term among the operands is at
one of them or below one, and none of them is inside another (`Cut`).  Operators
are not cut off.  An expression without operands needs no positions at all.

`Term.cutsList` goes through a term as a search does that replaces a term as a
whole, or else each of its operands.  It has the moves of each cut
(`Term.mem_cutsList_iff`) once (`Term.nodup_cutsList`).
-/

namespace RelationalSearch

/-! ## Operands -/

namespace Term

/-- The part is at the position, and no operator is entered on the way there. -/
def HasOperand (graph : Term) (path : List Nat) (part : Term) : Prop :=
  0 ∉ path ∧ graph.at? path = some part

/-- All chains end in an empty sequence, those in operators and operands too. -/
def chainsEnd : Term → Bool
  | cons head tail =>
    head.chainsEnd && tail.chainsEnd && tail.elements?.isSome
  | _ => true

@[simp]
theorem chainsEnd_cons_iff {head tail : Term} :
    (cons head tail).chainsEnd = true ↔
      head.chainsEnd = true ∧ tail.chainsEnd = true ∧
        tail.elements?.isSome = true := by
  simp [chainsEnd, and_assoc]

end Term

/--
Positions that are not inside each other, where a function replaces the parts.
Every term that is no cell is at one of them or below one, operators apart.
-/
@[ext]
structure Cut (change : Term → Option Term) (graph : Term) where
  positions : Finset (List Nat)
  allowed :
    ∀ path ∈ positions,
      ∃ part, graph.HasOperand path part ∧ (change part).isSome = true
  apart :
    ∀ path ∈ positions, ∀ other ∈ positions, path <+: other → path = other
  covers :
    ∀ path part, graph.HasOperand path part → part.isCons = false →
      ∃ other ∈ positions, other <+: path

/-! ## The moves of a cut -/

namespace Moves

variable {change : Term → Option Term} {graph head tail : Term} {moves : Moves}

/-- The moves replace the parts at the positions of a cut. -/
structure Cuts
    (change : Term → Option Term)
    (graph : Term)
    (moves : Moves) : Prop where
  valid : moves.Valid change graph
  replaces : ∀ path move, moves path = some move → move = .replace ∧ 0 ∉ path
  covers :
    ∀ path part, graph.HasOperand path part → part.isCons = false →
      ∃ other, other <+: path ∧ (moves other).isSome = true

/-- The moves cut through each of these operands. -/
structure CutsEach
    (change : Term → Option Term)
    (operands : Term)
    (moves : Moves) : Prop where
  below : moves [] = none
  valid : moves.Valid change operands
  replaces :
    ∀ index path move, moves (index :: path) = some move →
      move = .replace ∧ 0 ∉ path
  covers :
    ∀ index path part, 0 ∉ path → operands.at? (index :: path) = some part →
      part.isCons = false →
        ∃ other, other <+: path ∧ (moves (index :: other)).isSome = true

theorem first_eq_still_iff :
    moves.first = still ↔ ∀ path, moves (0 :: path) = none :=
  funext_iff

/-- A cut at the root has no other positions. -/
theorem cuts_iff_of_root
    {move : Move}
    (made : moves [] = some move) :
    moves.Cuts change graph ↔
      (change graph).isSome = true ∧ moves = root .replace := by
  constructor
  · intro cuts
    have replaced := (cuts.replaces [] move made).1
    subst replaced
    exact (valid_iff_of_root made).mp cuts.valid
  · rintro ⟨allowed, rfl⟩
    have replaces : Move.Allowed change graph .replace := allowed
    refine ⟨(valid_iff_of_root rfl).mpr ⟨replaces, rfl⟩, ?_, ?_⟩
    · rintro (_ | ⟨index, path⟩) move made
      · cases made
        exact ⟨rfl, List.not_mem_nil⟩
      · cases made
    · intro path part _ _
      exact ⟨[], List.nil_prefix, rfl⟩

/-- A single term is cut at the root only. -/
theorem Cuts.isSome_root
    (cuts : moves.Cuts change graph)
    (notCell : graph.isCons = false) :
    (moves []).isSome = true := by
  rcases cuts.covers [] graph ⟨List.not_mem_nil, rfl⟩ notCell with
    ⟨other, nested, made⟩
  rwa [List.prefix_nil.mp nested] at made

/-- A cut below the root goes through each operand, and spares the operator. -/
theorem cuts_cons_iff
    (proper : tail.elements?.isSome = true)
    (below : moves [] = none) :
    moves.Cuts change (.cons head tail) ↔
      moves.first = still ∧ moves.later.CutsEach change tail := by
  constructor
  · intro cuts
    refine ⟨first_eq_still_iff.mpr fun path => ?_, rfl, ?_, ?_, ?_⟩
    · rw [← Option.not_isSome_iff_eq_none]
      intro made
      rcases Option.isSome_iff_exists.mp made with ⟨move, same⟩
      exact (cuts.replaces _ move same).2 List.mem_cons_self
    · exact ((valid_cons_iff proper below).mp cuts.valid).2
    · intro index path move made
      have whole := cuts.replaces ((index + 1) :: path) move made
      exact ⟨whole.1, fun member => whole.2 (List.mem_cons_of_mem _ member)⟩
    · intro index path part outside found single
      rw [← Term.at?_cons_succ head] at found
      rcases cuts.covers ((index + 1) :: path) part
          ⟨by simpa using outside, found⟩ single with
        ⟨_ | ⟨otherIndex, other⟩, nested, made⟩
      · simp [below] at made
      · rw [List.cons_prefix_cons] at nested
        rcases nested with ⟨rfl, nested⟩
        exact ⟨other, nested, made⟩
  · rintro ⟨spared, each⟩
    refine ⟨(valid_cons_iff proper below).mpr ⟨?_, each.valid⟩, ?_, ?_⟩
    · rw [spared]
      exact valid_still change head
    · rintro (_ | ⟨_ | index, path⟩) move made
      · cases below.symm.trans made
      · cases (first_eq_still_iff.mp spared path).symm.trans made
      · have inside := each.replaces index path move made
        exact ⟨inside.1, by simpa using inside.2⟩
    · rintro (_ | ⟨_ | index, path⟩) part ⟨outside, found⟩ single
      · cases found
        cases single
      · simp at outside
      · rw [Term.at?_cons_succ] at found
        rcases each.covers index path part (by simpa using outside) found
            single with
          ⟨other, nested, made⟩
        exact ⟨(index + 1) :: other, (List.prefix_cons_inj _).mpr nested, made⟩

/-- The first operand is cut, and so is each of the others. -/
theorem cutsEach_cons_iff (proper : tail.elements?.isSome = true) :
    moves.CutsEach change (.cons head tail) ↔
      moves [] = none ∧ moves.first.Cuts change head ∧
        moves.later.CutsEach change tail := by
  constructor
  · intro each
    have valid := (valid_cons_iff proper each.below).mp each.valid
    refine ⟨each.below, ⟨valid.1, ?_, ?_⟩, rfl, valid.2, ?_, ?_⟩
    · intro path move made
      exact each.replaces 0 path move made
    · rintro path part ⟨outside, found⟩ single
      rw [← Term.at?_cons_zero proper] at found
      exact each.covers 0 path part outside found single
    · intro index path move made
      exact each.replaces (index + 1) path move made
    · intro index path part outside found single
      rw [← Term.at?_cons_succ head] at found
      exact each.covers (index + 1) path part outside found single
  · rintro ⟨below, inFirst, inLater⟩
    refine ⟨below, (valid_cons_iff proper below).mpr
      ⟨inFirst.valid, inLater.valid⟩, ?_, ?_⟩
    · rintro (_ | index) path move made
      · exact inFirst.replaces path move made
      · exact inLater.replaces index path move made
    · rintro (_ | index) path part outside found single
      · rw [Term.at?_cons_zero proper] at found
        exact inFirst.covers path part ⟨outside, found⟩ single
      · rw [Term.at?_cons_succ] at found
        exact inLater.covers index path part outside found single

/-- Where there are no operands there is nothing to be cut. -/
theorem cutsEach_nil_iff {kind : SeqKind} :
    moves.CutsEach change (.nil kind) ↔ moves = still := by
  constructor
  · intro each
    exact each.valid.eq_still each.below (.inl rfl)
  · rintro rfl
    refine ⟨rfl, valid_still change _, nofun, ?_⟩
    intro index path part _ found
    cases Term.isCons_of_at? found

/-- Joined moves are made in the same parts only if they are the same. -/
theorem join_inj
    {inside other rest otherRest : Moves}
    (below : rest [] = none)
    (otherBelow : otherRest [] = none)
    (same : inside.join rest = other.join otherRest) :
    inside = other ∧ rest = otherRest := by
  constructor
  · rw [← first_join inside rest, same, first_join]
  · rw [← later_join below inside, same, later_join otherBelow]

end Moves

/-! ## Listing all cuts -/

namespace Term

variable (change : Term → Option Term)

mutual

/-- The moves of all cuts through a term. -/
def cutsList : Term → List Moves
  | cons operator operands =>
    (if (change (cons operator operands)).isSome then [.root .replace] else []) ++
      (operands.cutsEachList).map Moves.still.join
  | single => if (change single).isSome then [.root .replace] else []

/-- The moves that cut through each operand of a sequence from some cell on. -/
def cutsEachList : Term → List Moves
  | cons head tail =>
    head.cutsList.flatMap fun inside => tail.cutsEachList.map inside.join
  | nil _ => [.still]
  | _ => []

end

variable {change}

/-- Moves that cut through operands are made inside them. -/
theorem root_eq_none_of_mem_cutsEachList
    {operands : Term}
    {moves : Moves}
    (member : moves ∈ operands.cutsEachList change) :
    moves [] = none := by
  cases operands with
  | cons head tail =>
    rw [cutsEachList, List.mem_flatMap] at member
    rcases member with ⟨inside, _, joined⟩
    rcases List.mem_map.mp joined with ⟨rest, _, rfl⟩
    rfl
  | nil kind =>
    rw [cutsEachList, List.mem_singleton] at member
    rw [member, Moves.still]
  | _ => simp [cutsEachList] at member

/-! ## Each cut is listed -/

theorem mem_replacement_iff {graph : Term} {moves : Moves} :
    moves ∈ (if (change graph).isSome then [Moves.root .replace] else []) ↔
      (change graph).isSome = true ∧ moves = .root .replace := by
  split <;> simp_all

theorem cutsList_of_single {graph : Term} (notCell : graph.isCons = false) :
    graph.cutsList change =
      if (change graph).isSome then [.root .replace] else [] := by
  cases graph with
  | cons => cases notCell
  | _ => rfl

/-- A single term has no cut but the one at the root. -/
theorem mem_cutsList_iff_of_single
    {graph : Term}
    (notCell : graph.isCons = false)
    (moves : Moves) :
    moves ∈ graph.cutsList change ↔ moves.Cuts change graph := by
  rw [cutsList_of_single notCell, mem_replacement_iff]
  constructor
  · rintro ⟨allowed, rfl⟩
    exact (Moves.cuts_iff_of_root rfl).mpr ⟨allowed, rfl⟩
  · intro cuts
    rcases Option.isSome_iff_exists.mp (cuts.isSome_root notCell) with
      ⟨move, made⟩
    exact (Moves.cuts_iff_of_root made).mp cuts

section Cell

variable {head tail : Term} (proper : tail.elements?.isSome = true)
  (onTail :
    ∀ rest, rest ∈ tail.cutsEachList change ↔ rest.CutsEach change tail)

include proper onTail

theorem mem_cutsList_cons_iff (moves : Moves) :
    moves ∈ (cons head tail).cutsList change ↔
      moves.Cuts change (.cons head tail) := by
  rw [cutsList, List.mem_append, mem_replacement_iff, List.mem_map]
  constructor
  · rintro (⟨allowed, rfl⟩ | ⟨rest, member, rfl⟩)
    · exact (Moves.cuts_iff_of_root rfl).mpr ⟨allowed, rfl⟩
    · have each := (onTail rest).mp member
      rw [Moves.cuts_cons_iff proper rfl, Moves.first_join,
        Moves.later_join each.below]
      exact ⟨rfl, each⟩
  · intro cuts
    cases made : moves [] with
    | some move => exact .inl ((Moves.cuts_iff_of_root made).mp cuts)
    | none =>
      rcases (Moves.cuts_cons_iff proper made).mp cuts with ⟨spared, each⟩
      refine .inr ⟨moves.later, (onTail _).mpr each, ?_⟩
      rw [← spared, Moves.join_first_later made]

theorem mem_cutsEachList_cons_iff
    (onHead :
      ∀ inside, inside ∈ head.cutsList change ↔ inside.Cuts change head)
    (moves : Moves) :
    moves ∈ (cons head tail).cutsEachList change ↔
      moves.CutsEach change (.cons head tail) := by
  rw [cutsEachList, List.mem_flatMap, Moves.cutsEach_cons_iff proper]
  constructor
  · rintro ⟨inside, listed, joined⟩
    rcases List.mem_map.mp joined with ⟨rest, member, rfl⟩
    have each := (onTail rest).mp member
    rw [Moves.first_join, Moves.later_join each.below]
    exact ⟨rfl, (onHead inside).mp listed, each⟩
  · rintro ⟨below, inFirst, inLater⟩
    refine ⟨moves.first, (onHead _).mpr inFirst, List.mem_map.mpr ?_⟩
    exact ⟨moves.later, (onTail _).mpr inLater, Moves.join_first_later below⟩

end Cell

/-- The moves of each cut are listed, and no others. -/
theorem mem_cutsList_iff_and
    {graph : Term}
    (ends : graph.chainsEnd = true) :
    (∀ moves, moves ∈ graph.cutsList change ↔ moves.Cuts change graph) ∧
      (graph.elements?.isSome = true →
        ∀ moves, moves ∈ graph.cutsEachList change ↔
          moves.CutsEach change graph) := by
  induction graph with
  | cons head tail headIH tailIH =>
    rcases chainsEnd_cons_iff.mp ends with ⟨headEnds, tailEnds, proper⟩
    have onTail := (tailIH tailEnds).2 proper
    exact ⟨mem_cutsList_cons_iff proper onTail,
      fun _ => mem_cutsEachList_cons_iff proper onTail (headIH headEnds).1⟩
  | nil kind =>
    refine ⟨mem_cutsList_iff_of_single rfl, fun _ moves => ?_⟩
    rw [cutsEachList, List.mem_singleton, Moves.cutsEach_nil_iff]
  | _ => exact ⟨mem_cutsList_iff_of_single rfl, nofun⟩

theorem mem_cutsList_iff
    {graph : Term}
    (ends : graph.chainsEnd = true)
    (moves : Moves) :
    moves ∈ graph.cutsList change ↔ moves.Cuts change graph :=
  (mem_cutsList_iff_and ends).1 moves

/-! ## No cut is listed twice -/

theorem nodup_cutsList_and (graph : Term) :
    (graph.cutsList change).Nodup ∧ (graph.cutsEachList change).Nodup := by
  have single {graph : Term} (notCell : graph.isCons = false) :
      (graph.cutsList change).Nodup := by
    rw [cutsList_of_single notCell]
    split <;> simp
  induction graph with
  | cons head tail headIH tailIH =>
    have joined (inside : Moves) :
        ((tail.cutsEachList change).map inside.join).Nodup := by
      refine tailIH.2.map_on ?_
      intro rest member other otherMember same
      exact (Moves.join_inj (root_eq_none_of_mem_cutsEachList member)
        (root_eq_none_of_mem_cutsEachList otherMember) same).2
    constructor
    · rw [cutsList, List.nodup_append']
      refine ⟨by split <;> simp, joined .still, ?_⟩
      intro moves member otherMember
      rcases List.mem_map.mp otherMember with ⟨rest, _, rfl⟩
      cases congrFun (mem_replacement_iff.mp member).2 []
    · rw [cutsEachList, List.nodup_flatMap]
      refine ⟨fun inside _ => joined inside, headIH.1.imp ?_⟩
      intro inside other different moves member otherMember
      rcases List.mem_map.mp member with ⟨rest, listed, rfl⟩
      rcases List.mem_map.mp otherMember with ⟨otherRest, otherListed, same⟩
      exact different (Moves.join_inj
        (root_eq_none_of_mem_cutsEachList otherListed)
        (root_eq_none_of_mem_cutsEachList listed) same).1.symm
  | _ => exact ⟨single rfl, by simp [cutsEachList]⟩

theorem nodup_cutsList (graph : Term) : (graph.cutsList change).Nodup :=
  (nodup_cutsList_and graph).1

/-! ## What becomes of the graph -/

theorem map_revisedBelow_cutsEachList (head tail : Term) :
    ((cons head tail).cutsEachList change).map
        ((cons head tail).revisedBelow change) =
      ((head.cutsList change).map (head.revised change)).flatMap fun value =>
        ((tail.cutsEachList change).map (tail.revisedBelow change)).map
          (cons value) := by
  rw [cutsEachList, List.map_flatMap, List.flatMap_map]
  refine List.flatMap_congr fun inside _ => ?_
  rw [List.map_map, List.map_map]
  refine List.map_congr_left fun rest member => ?_
  simp only [Function.comp_apply]
  rw [revisedBelow_cons, Moves.first_join,
    Moves.later_join (root_eq_none_of_mem_cutsEachList member)]

/-- A cell is replaced, or the operator stays and the operands are cut. -/
theorem map_revised_cutsList_cons (operator operands : Term) :
    ((cons operator operands).cutsList change).map
        ((cons operator operands).revised change) =
      (change (cons operator operands)).toList ++
        ((operands.cutsEachList change).map
          (operands.revisedBelow change)).map (cons operator) := by
  rw [cutsList, List.map_append, map_revised_replace, List.map_map,
    List.map_map]
  congr 1
  refine List.map_congr_left fun rest member => ?_
  simp only [Function.comp_apply]
  rw [revised_of_root_eq_none rfl, revisedBelow_cons, Moves.first_join,
    Moves.later_join (root_eq_none_of_mem_cutsEachList member), revised_still]

theorem map_revised_cutsList_of_single
    {graph : Term}
    (notCell : graph.isCons = false) :
    (graph.cutsList change).map (graph.revised change) =
      (change graph).toList := by
  rw [cutsList_of_single notCell, map_revised_replace]

end Term

/-! ## Cuts and their moves -/

/-- A term has finitely many positions. -/
theorem Term.finite_positions (graph : Term) :
    {path | (graph.at? path).isSome = true}.Finite := by
  induction graph with
  | cons head tail headIH tailIH =>
    refine (((Set.finite_singleton []).union (headIH.image (0 :: ·))).union
      (tailIH.image (List.modifyHead (· + 1)))).subset ?_
    rintro (_ | ⟨_ | index, path⟩) found
    · exact .inl (.inl rfl)
    · rcases Option.isSome_iff_exists.mp found with ⟨part, same⟩
      have proper := isSome_elements?_of_at? same
      rw [elements?_cons, Option.isSome_map] at proper
      rw [Set.mem_ofPred_eq, at?_cons_zero proper] at found
      exact .inl (.inr ⟨path, found, rfl⟩)
    · rw [Set.mem_ofPred_eq, at?_cons_succ] at found
      exact .inr ⟨index :: path, found, rfl⟩
  | _ =>
    refine (Set.finite_singleton []).subset ?_
    rintro (_ | ⟨index, path⟩) found
    · rfl
    · rcases Option.isSome_iff_exists.mp found with ⟨part, same⟩
      cases isCons_of_at? same

namespace Cut

variable {change : Term → Option Term} {graph : Term}

/-- The graph after the parts at the positions of a cut are replaced. -/
def result (cut : Cut change graph) : Term :=
  graph.revised change (.replacing cut.positions)

theorem cuts_replacing (cut : Cut change graph) :
    (Moves.replacing cut.positions).Cuts change graph where
  valid := {
    allowed := by
      intro path move made
      rcases Moves.replacing_eq_some_iff.mp made with ⟨member, rfl⟩
      rcases cut.allowed path member with ⟨part, ⟨_, found⟩, allowed⟩
      exact ⟨part, found, allowed⟩
    apart := by
      intro path other made otherMade nested
      rw [Moves.isSome_replacing_iff] at made otherMade
      exact cut.apart path made other otherMade nested }
  replaces path move made := by
    rcases Moves.replacing_eq_some_iff.mp made with ⟨member, rfl⟩
    rcases cut.allowed path member with ⟨part, ⟨outside, _⟩, _⟩
    exact ⟨rfl, outside⟩
  covers path part operand single := by
    rcases cut.covers path part operand single with ⟨other, member, nested⟩
    exact ⟨other, nested, Moves.isSome_replacing_iff.mpr member⟩

/-- The positions of moves that cut through a graph are those of a cut. -/
theorem exists_of_cuts
    {moves : Moves}
    (cuts : moves.Cuts change graph) :
    ∃ cut : Cut change graph, Moves.replacing cut.positions = moves := by
  have finite : {path | (moves path).isSome = true}.Finite := by
    refine graph.finite_positions.subset fun path made => ?_
    rcases Option.isSome_iff_exists.mp made with ⟨move, same⟩
    rcases cuts.valid.allowed path move same with ⟨part, found, _⟩
    exact Option.isSome_iff_exists.mpr ⟨part, found⟩
  have mem_iff (path : List Nat) :
      path ∈ finite.toFinset ↔ moves path = some .replace := by
    rw [Set.Finite.mem_toFinset, Set.mem_ofPred_eq, Option.isSome_iff_exists]
    constructor
    · rintro ⟨move, made⟩
      rw [made, (cuts.replaces path move made).1]
    · exact fun made => ⟨_, made⟩
  refine ⟨⟨finite.toFinset, ?_, ?_, ?_⟩, ?_⟩
  · intro path member
    rw [mem_iff] at member
    rcases cuts.valid.allowed path _ member with ⟨part, found, allowed⟩
    exact ⟨part, ⟨(cuts.replaces path _ member).2, found⟩, allowed⟩
  · intro path member other otherMember nested
    rw [Set.Finite.mem_toFinset] at member otherMember
    exact cuts.valid.apart path other member otherMember nested
  · intro path part operand single
    rcases cuts.covers path part operand single with ⟨other, nested, made⟩
    exact ⟨other, finite.mem_toFinset.mpr made, nested⟩
  · funext path
    rw [Moves.replacing]
    simp only [mem_iff]
    split
    · rename_i made
      exact made.symm
    · rename_i still
      rw [eq_comm, Option.eq_none_iff_forall_ne_some]
      intro move made
      rw [(cuts.replaces path move made).1] at made
      exact still made

theorem ext_of_replacing
    {cut other : Cut change graph}
    (same : Moves.replacing cut.positions = Moves.replacing other.positions) :
    cut = other := by
  refine Cut.ext (Finset.ext fun path => ?_)
  rw [← Moves.isSome_replacing_iff, same, Moves.isSome_replacing_iff]

/-- Where all moves are listed, so are all cuts. -/
theorem exists_list
    (ends : graph.chainsEnd = true)
    {list : List Moves}
    (permuted : list.Perm (graph.cutsList change)) :
    ∃ cuts : List (Cut change graph),
      cuts.map (fun cut => Moves.replacing cut.positions) = list ∧
        cuts.Nodup ∧ ∀ cut, cut ∈ cuts := by
  have listed (moves : Moves) : moves ∈ list ↔ moves.Cuts change graph := by
    rw [permuted.mem_iff, Term.mem_cutsList_iff ends]
  have shown : list ∈ Set.range
      (List.map fun cut : Cut change graph => Moves.replacing cut.positions) := by
    rw [Set.range_list_map]
    exact fun moves member => exists_of_cuts ((listed moves).mp member)
  rcases shown with ⟨cuts, rfl⟩
  refine ⟨cuts, rfl, ?_, fun cut => ?_⟩
  · exact (permuted.nodup_iff.mpr (Term.nodup_cutsList graph)).of_map _
  · rcases List.mem_map.mp ((listed _).mpr cut.cuts_replacing) with
      ⟨other, member, same⟩
    exact ext_of_replacing same ▸ member

/-- All cuts, each of them once, have the moves that are listed. -/
theorem perm_cutsList
    (ends : graph.chainsEnd = true)
    {cuts : List (Cut change graph)}
    (nodup : cuts.Nodup)
    (complete : ∀ cut, cut ∈ cuts) :
    (cuts.map fun cut => Moves.replacing cut.positions).Perm
      (graph.cutsList change) := by
  rw [List.perm_ext_iff_of_nodup
    (nodup.map fun _ _ same => ext_of_replacing same)
    (Term.nodup_cutsList graph)]
  intro moves
  rw [Term.mem_cutsList_iff ends, List.mem_map]
  constructor
  · rintro ⟨cut, _, rfl⟩
    exact cut.cuts_replacing
  · intro cuts
    rcases exists_of_cuts cuts with ⟨cut, same⟩
    exact ⟨cut, complete cut, same⟩

/-- A cut puts the replacement of a part in its place. -/
theorem at?_result_of_mem
    (cut : Cut change graph)
    {path : List Nat}
    (member : path ∈ cut.positions) :
    cut.result.at? path = (graph.at? path).bind change := by
  have made : Moves.replacing cut.positions path = some .replace :=
    Moves.replacing_eq_some_iff.mpr ⟨member, rfl⟩
  let revision : Revision change graph :=
    ⟨_, cut.cuts_replacing.valid, path, Moves.isSome_replacing_iff.mpr member⟩
  exact revision.at?_result_of_replace made

/-- A cut leaves alone what is not above, at or below one of its positions. -/
theorem at?_result_of_apart
    (cut : Cut change graph)
    {path : List Nat}
    {part : Term}
    (found : graph.at? path = some part)
    (apart : ∀ other ∈ cut.positions, ¬ other <+: path ∧ ¬ path <+: other) :
    cut.result.at? path = some part := by
  have unmoved (other : List Nat) (nested : other <+: path ∨ path <+: other) :
      Moves.replacing cut.positions other = none := by
    rw [Moves.replacing, if_neg]
    intro member
    exact nested.elim (apart other member).1 (apart other member).2
  have still : (fun inner => Moves.replacing cut.positions (path ++ inner)) =
      Moves.still :=
    funext fun inner => unmoved _ (.inr (List.prefix_append path inner))
  rw [result, Term.at?_revised (fun other nested _ => unmoved other (.inl nested))
    found, still, Term.revised_still]

end Cut

end RelationalSearch
