import Mathlib.Data.Finset.Powerset
import Mathlib.Data.List.Nodup
import RelationalSearch.Proofs.Subst.Binding

/-!
# Revisions of a term

A position of a term is a path of indices, each that of an element of a proper
sequence (`Term.at?`).  A move at a position replaces the part there, as a
partial function says, or keeps it, which is a move of empty sequences only.
A `Revision` makes moves at positions none of which is inside another one, and
at least one move.

`Term.moves` lists the moves of all revisions in the order in which they come up
where a term is searched through depth first.  Each revision is in the list once
(`Term.mem_moves_iff`, `Term.nodup_moves`).
-/

namespace RelationalSearch

/-! ## Positions -/

namespace Term

@[simp]
theorem elements?_nil (kind : SeqKind) : (nil kind).elements? = some [] := rfl

@[simp]
theorem elements?_cons (head tail : Term) :
    (cons head tail).elements? = tail.elements?.map (head :: ·) := by
  rw [elements?, elements?, spine_cons]
  rcases tail.spine with ⟨heads, last⟩
  cases last <;> rfl

/-- The part at a position of a term. -/
def at? (term : Term) : List Nat → Option Term
  | [] => some term
  | index :: path =>
    term.elements?.bind fun elements =>
      elements[index]?.bind fun part => part.at? path

@[simp]
theorem at?_root (term : Term) : term.at? [] = some term := rfl

theorem at?_cons (term : Term) (index : Nat) (path : List Nat) :
    term.at? (index :: path) =
      term.elements?.bind fun elements =>
        elements[index]?.bind fun part => part.at? path := rfl

theorem at?_cons_zero
    {tail : Term}
    (proper : tail.elements?.isSome = true)
    (head : Term)
    (path : List Nat) :
    (cons head tail).at? (0 :: path) = head.at? path := by
  rcases Option.isSome_iff_exists.mp proper with ⟨elements, found⟩
  simp [at?_cons, found]

theorem at?_cons_succ
    (head tail : Term)
    (index : Nat)
    (path : List Nat) :
    (cons head tail).at? ((index + 1) :: path) =
      tail.at? (index :: path) := by
  rcases found : tail.elements? with _ | elements
  all_goals simp [at?_cons, found]

/-- Going on from a position is going from the part there. -/
theorem at?_append (term : Term) (path rest : List Nat) :
    term.at? (path ++ rest) = (term.at? path).bind fun part =>
      part.at? rest := by
  induction path generalizing term with
  | nil => rfl
  | cons index path ih =>
    rw [List.cons_append, at?_cons, at?_cons]
    simp only [ih, Option.bind_assoc]

/-- A term with parts other than itself is a proper sequence. -/
theorem isSome_elements?_of_at?
    {term part : Term}
    {index : Nat}
    {path : List Nat}
    (found : term.at? (index :: path) = some part) :
    term.elements?.isSome = true := by
  rw [at?_cons, Option.bind_eq_some_iff] at found
  rcases found with ⟨elements, same, _⟩
  rw [same, Option.isSome_some]

/-- Only cells have parts other than themselves. -/
theorem isCons_of_at?
    {term part : Term}
    {index : Nat}
    {path : List Nat}
    (found : term.at? (index :: path) = some part) :
    term.isCons = true := by
  cases term with
  | cons => rfl
  | _ => cases found

end Term

/-! ## Moves -/

/-- What is done with the part at a position. -/
inductive Move where
  | replace
  | keep
  deriving DecidableEq

/-- A function that replaces some terms allows a move for the part. -/
def Move.Allowed
    (change : Term → Option Term)
    (part : Term) : Move → Prop
  | replace => (change part).isSome = true
  | keep => ∃ kind, part = .nil kind

/-- The moves of a revision: which one is made at each position, if any. -/
abbrev Moves := List Nat → Option Move

namespace Moves

/-- No move. -/
def still : Moves := fun _ => none

/-- A move of the whole. -/
def root (move : Move) : Moves
  | [] => some move
  | _ :: _ => none

/-- Some move is made. -/
def Any (moves : Moves) : Prop := ∃ path, (moves path).isSome = true

/-- The moves inside the first element. -/
def first (moves : Moves) : Moves := fun path => moves (0 :: path)

/-- The moves in the elements behind the first one. -/
def later (moves : Moves) : Moves
  | [] => none
  | index :: path => moves ((index + 1) :: path)

/-- Moves inside the first element, and in those behind it. -/
def join (inside rest : Moves) : Moves
  | [] => none
  | 0 :: path => inside path
  | (index + 1) :: path => rest (index :: path)

@[simp]
theorem first_join (inside rest : Moves) : (inside.join rest).first = inside :=
  rfl

theorem later_join
    {rest : Moves}
    (below : rest [] = none)
    (inside : Moves) :
    (inside.join rest).later = rest := by
  funext path
  cases path with
  | nil => exact below.symm
  | cons => rfl

theorem join_first_later
    {moves : Moves}
    (below : moves [] = none) :
    moves.first.join moves.later = moves := by
  funext path
  rcases path with _ | ⟨_ | index, path⟩
  · exact below.symm
  · rfl
  · rfl

@[simp]
theorem first_still : still.first = still := rfl

@[simp]
theorem later_still : still.later = still := by
  funext path
  cases path <;> rfl

theorem eq_still_of_not_any {moves : Moves} (none : ¬ moves.Any) :
    moves = still := by
  funext path
  rw [still, ← Option.not_isSome_iff_eq_none]
  exact fun made => none ⟨path, made⟩

@[simp]
theorem not_any_still : ¬ still.Any := by
  rintro ⟨path, made⟩
  cases made

theorem any_iff_of_root_eq_none {moves : Moves} (below : moves [] = none) :
    moves.Any ↔ moves.first.Any ∨ moves.later.Any := by
  constructor
  · rintro ⟨_ | ⟨_ | index, path⟩, made⟩
    · simp [below] at made
    · exact .inl ⟨path, made⟩
    · exact .inr ⟨index :: path, made⟩
  · rintro (⟨path, made⟩ | ⟨_ | ⟨index, path⟩, made⟩)
    · exact ⟨0 :: path, made⟩
    · cases made
    · exact ⟨(index + 1) :: path, made⟩

/-- All moves are allowed, and none is made inside a part that moves. -/
structure Valid
    (change : Term → Option Term)
    (graph : Term)
    (moves : Moves) : Prop where
  allowed :
    ∀ path move, moves path = some move →
      ∃ part, graph.at? path = some part ∧ move.Allowed change part
  apart :
    ∀ path other, (moves path).isSome = true →
      (moves other).isSome = true → path <+: other → path = other

section Valid

variable {change : Term → Option Term} {graph head tail : Term}
  {moves : Moves}

theorem valid_still (change : Term → Option Term) (graph : Term) :
    still.Valid change graph where
  allowed path move made := by cases made
  apart path other made := by cases made

/-- A move of the whole is the only one. -/
theorem valid_iff_of_root
    {move : Move}
    (made : moves [] = some move) :
    moves.Valid change graph ↔
      move.Allowed change graph ∧ moves = root move := by
  constructor
  · intro valid
    rcases valid.allowed [] move made with ⟨part, found, allowed⟩
    cases found
    refine ⟨allowed, ?_⟩
    funext path
    cases path with
    | nil => exact made
    | cons index path =>
      rw [root, ← Option.not_isSome_iff_eq_none]
      intro inside
      have same := valid.apart [] (index :: path) (by rw [made]; rfl) inside
        (List.nil_prefix)
      cases same
  · rintro ⟨allowed, rfl⟩
    constructor
    · rintro (_ | ⟨index, path⟩) other same
      · cases same
        exact ⟨graph, rfl, allowed⟩
      · cases same
    · rintro (_ | _) (_ | _) onPath onOther nested
      · rfl
      · cases onOther
      · cases onPath
      · cases onPath

/-- Below a proper sequence moves are made element by element. -/
theorem valid_cons_iff
    (proper : tail.elements?.isSome = true)
    (below : moves [] = none) :
    moves.Valid change (.cons head tail) ↔
      moves.first.Valid change head ∧ moves.later.Valid change tail := by
  constructor
  · intro valid
    refine ⟨⟨?_, ?_⟩, ?_, ?_⟩
    · intro path move made
      rcases valid.allowed (0 :: path) move made with ⟨part, found, allowed⟩
      rw [Term.at?_cons_zero proper] at found
      exact ⟨part, found, allowed⟩
    · intro path other made otherMade nested
      have same := valid.apart (0 :: path) (0 :: other) made otherMade
        ((List.prefix_cons_inj 0).mpr nested)
      exact (List.cons.inj same).2
    · rintro (_ | ⟨index, path⟩) move made
      · cases made
      · rcases valid.allowed ((index + 1) :: path) move made with
          ⟨part, found, allowed⟩
        rw [Term.at?_cons_succ] at found
        exact ⟨part, found, allowed⟩
    · rintro (_ | ⟨index, path⟩) (_ | ⟨otherIndex, other⟩) made otherMade nested
      · cases made
      · cases made
      · cases otherMade
      · rw [List.cons_prefix_cons] at nested
        rcases nested with ⟨rfl, nested⟩
        have same := valid.apart ((index + 1) :: path) ((index + 1) :: other)
          made otherMade ((List.prefix_cons_inj _).mpr nested)
        rw [(List.cons.inj same).2]
  · rintro ⟨inFirst, inLater⟩
    constructor
    · rintro (_ | ⟨_ | index, path⟩) move made
      · cases below.symm.trans made
      · rw [Term.at?_cons_zero proper]
        exact inFirst.allowed path move made
      · rw [Term.at?_cons_succ]
        exact inLater.allowed (index :: path) move made
    · rintro (_ | ⟨_ | index, path⟩) (_ | ⟨_ | otherIndex, other⟩) made
        otherMade nested
      · rfl
      · simp [below] at made
      · simp [below] at made
      · simp [below] at otherMade
      · rw [List.cons_prefix_cons] at nested
        rw [inFirst.apart path other made otherMade nested.2]
      · simp at nested
      · simp [below] at otherMade
      · simp at nested
      · rw [List.cons_prefix_cons] at nested
        rcases nested with ⟨same, nested⟩
        cases same
        have equal := inLater.apart (index :: path) (index :: other) made
          otherMade ((List.prefix_cons_inj _).mpr nested)
        rw [(List.cons.inj equal).2]

/-- Below a term that is no cell there is nothing to move. -/
theorem Valid.eq_still
    (valid : moves.Valid change graph)
    (below : moves [] = none)
    (notProper : graph.isCons = false ∨ graph.elements?.isSome = false) :
    moves = still := by
  refine eq_still_of_not_any ?_
  rintro ⟨_ | ⟨index, path⟩, made⟩
  · simp [below] at made
  · rcases Option.isSome_iff_exists.mp made with ⟨move, same⟩
    rcases valid.allowed (index :: path) move same with ⟨part, found, _⟩
    rcases notProper with notCell | notProper
    · simp [Term.isCons_of_at? found] at notCell
    · simp [Term.isSome_elements?_of_at? found] at notProper

end Valid

end Moves

/-! ## Revised terms -/

namespace Term

/-- A part after its own move, if there is one, or else with those inside. -/
def moved
    (change : Term → Option Term)
    (part inside : Term) : Option Move → Term
  | some .replace => (change part).getD part
  | some .keep => part
  | none => inside

/-- A term after the moves inside its elements. -/
def revisedBelow
    (change : Term → Option Term) : Term → Moves → Term
  | cons head tail, moves =>
    cons
      (head.moved change (head.revisedBelow change moves.first) (moves [0]))
      (tail.revisedBelow change moves.later)
  | last, _ => last

/-- A term after the moves. -/
def revised
    (change : Term → Option Term)
    (graph : Term)
    (moves : Moves) : Term :=
  graph.moved change (graph.revisedBelow change moves) (moves [])

variable {change : Term → Option Term}

theorem revisedBelow_cons (head tail : Term) (moves : Moves) :
    (cons head tail).revisedBelow change moves =
      cons (head.revised change moves.first)
        (tail.revisedBelow change moves.later) :=
  rfl

theorem revised_of_root_eq_none
    {moves : Moves}
    (below : moves [] = none)
    (graph : Term) :
    graph.revised change moves = graph.revisedBelow change moves := by
  rw [revised, below, moved]

theorem revisedBelow_of_isCons_eq_false
    {graph : Term}
    (notCell : graph.isCons = false)
    (moves : Moves) :
    graph.revisedBelow change moves = graph := by
  cases graph with
  | cons => simp [isCons] at notCell
  | _ => rfl

@[simp]
theorem revisedBelow_still (graph : Term) :
    graph.revisedBelow change .still = graph := by
  induction graph with
  | cons head tail headIH tailIH =>
    rw [revisedBelow_cons, Moves.first_still, Moves.later_still, tailIH,
      revised_of_root_eq_none rfl, headIH]
  | _ => rfl

@[simp]
theorem revised_still (graph : Term) :
    graph.revised change .still = graph := by
  rw [revised_of_root_eq_none rfl, revisedBelow_still]

section Ground

variable (ground :
  ∀ {part replaced}, part.isGround = true → change part = some replaced →
    replaced.isGround = true)

include ground

theorem isGround_moved
    {part inside : Term}
    (partGround : part.isGround = true)
    (insideGround : inside.isGround = true)
    (move : Option Move) :
    (part.moved change inside move).isGround = true := by
  rcases move with _ | _ | _
  · exact insideGround
  · rw [moved]
    rcases changed : change part with _ | replaced
    · exact partGround
    · exact ground partGround changed
  · exact partGround

theorem isGround_revisedBelow
    {graph : Term}
    (graphGround : graph.isGround = true)
    (moves : Moves) :
    (graph.revisedBelow change moves).isGround = true := by
  induction graph generalizing moves with
  | cons head tail headIH tailIH =>
    rw [isGround_cons, Bool.and_eq_true] at graphGround
    rw [revisedBelow_cons, isGround_cons, Bool.and_eq_true]
    exact ⟨isGround_moved ground graphGround.1
      (headIH graphGround.1 moves.first) _, tailIH graphGround.2 moves.later⟩
  | _ => exact graphGround

/-- A revised term has no variables if the replacements have none. -/
theorem isGround_revised
    {graph : Term}
    (graphGround : graph.isGround = true)
    (moves : Moves) :
    (graph.revised change moves).isGround = true :=
  isGround_moved ground graphGround
    (isGround_revisedBelow ground graphGround moves) _

end Ground

/-- Moves inside the elements of a sequence keep it proper. -/
theorem isSome_elements?_revisedBelow (graph : Term) (moves : Moves) :
    (graph.revisedBelow change moves).elements?.isSome =
      graph.elements?.isSome := by
  induction graph generalizing moves with
  | cons head tail _ tailIH =>
    rw [revisedBelow_cons, elements?_cons, elements?_cons, Option.isSome_map,
      Option.isSome_map, tailIH]
  | _ => rfl

/--
At a position that is not inside a moved part, the revised term has the part
that was there, after the moves from there on.
-/
theorem at?_revised
    {graph part : Term}
    {moves : Moves}
    {path : List Nat}
    (outside :
      ∀ other, other <+: path → other ≠ path → moves other = none)
    (found : graph.at? path = some part) :
    (graph.revised change moves).at? path =
      some (part.revised change fun inner => moves (path ++ inner)) := by
  induction path generalizing graph moves with
  | nil =>
    cases found
    rfl
  | cons index path ih =>
    have below : moves [] = none := outside [] List.nil_prefix nofun
    rw [revised_of_root_eq_none below]
    -- The element is found by going along the cells of the sequence.
    induction graph generalizing index moves with
    | cons head tail _ tailIH =>
      rw [revisedBelow_cons]
      have proper : tail.elements?.isSome = true := by
        have whole := isSome_elements?_of_at? found
        rwa [elements?_cons, Option.isSome_map] at whole
      cases index with
      | zero =>
        rw [at?_cons_zero proper] at found
        rw [at?_cons_zero (by rwa [isSome_elements?_revisedBelow])]
        refine ih ?_ found
        intro other nested different
        exact outside (0 :: other) ((List.prefix_cons_inj 0).mpr nested)
          (by simpa using different)
      | succ index =>
        rw [at?_cons_succ] at found ⊢
        refine tailIH index ?_ found rfl
        rintro (_ | ⟨otherIndex, other⟩) nested different
        · rfl
        · rw [List.cons_prefix_cons] at nested
          rcases nested with ⟨rfl, nested⟩
          exact outside ((otherIndex + 1) :: other)
            ((List.prefix_cons_inj _).mpr nested) (by simpa using different)
    | _ => cases (isCons_of_at? found)

end Term

/-! ## Revisions -/

/-- One allowed move or more, at positions that are not inside each other. -/
@[ext]
structure Revision (change : Term → Option Term) (graph : Term) where
  moves : Moves
  valid : moves.Valid change graph
  any : moves.Any

namespace Revision

variable {change : Term → Option Term} {graph : Term}

/-- The graph after the moves of a revision. -/
def result (revision : Revision change graph) : Term :=
  graph.revised change revision.moves

/-- A revision puts a part that it replaces in the place of the old part. -/
theorem at?_result_of_replace
    (revision : Revision change graph)
    {path : List Nat}
    (made : revision.moves path = some .replace) :
    revision.result.at? path = (graph.at? path).bind change := by
  rcases revision.valid.allowed path .replace made with
    ⟨part, found, allowed⟩
  rcases Option.isSome_iff_exists.mp allowed with ⟨replaced, changed⟩
  have outside : ∀ other, other <+: path → other ≠ path →
      revision.moves other = none := by
    intro other nested different
    rw [← Option.not_isSome_iff_eq_none]
    intro inside
    exact different
      (revision.valid.apart other path inside (by rw [made]; rfl) nested)
  rw [result, Term.at?_revised outside found, found, Option.bind_some, changed,
    Term.revised, List.append_nil, made, Term.moved, changed,
    Option.getD_some]

/-- A revision leaves alone what is no cell and not inside a moved part. -/
theorem at?_result_of_outside
    (revision : Revision change graph)
    {path : List Nat}
    {part : Term}
    (found : graph.at? path = some part)
    (notCell : part.isCons = false)
    (outside : ∀ other, other <+: path → revision.moves other = none) :
    revision.result.at? path = some part := by
  have here := outside path List.prefix_rfl
  rw [result, Term.at?_revised (fun other nested _ => outside other nested)
      found,
    Term.revised_of_root_eq_none (by rw [List.append_nil, here]),
    Term.revisedBelow_of_isCons_eq_false notCell]

end Revision

/-! ## Counting revisions -/

/-- The parts at these positions are replaced, and nothing else is moved. -/
def Moves.replacing (positions : Finset (List Nat)) : Moves :=
  fun path => if path ∈ positions then some .replace else none

section Counting

variable {change : Term → Option Term} {graph : Term}
  {positions : Finset (List Nat)}

theorem Moves.replacing_eq_some_iff
    {path : List Nat}
    {move : Move} :
    replacing positions path = some move ↔
      path ∈ positions ∧ move = .replace := by
  rw [replacing, Option.ite_none_right_eq_some, Option.some_inj, eq_comm]

theorem Moves.isSome_replacing_iff {path : List Nat} :
    (replacing positions path).isSome = true ↔ path ∈ positions := by
  rw [replacing]
  split <;> simp_all

/-- A graph in which single terms may be replaced, and nothing else moves. -/
structure Term.MovesLeaves
    (change : Term → Option Term)
    (graph : Term)
    (positions : Finset (List Nat)) : Prop where
  mem_iff :
    ∀ path, path ∈ positions ↔
      ∃ part, graph.at? path = some part ∧ (change part).isSome = true
  notCell :
    ∀ {path part}, graph.at? path = some part →
      (change part).isSome = true → part.isCons = false
  notNil : ∀ path kind, graph.at? path ≠ some (.nil kind)

namespace Term.MovesLeaves

variable (leaves : graph.MovesLeaves change positions)

include leaves

/-- Any set of these positions may be chosen, since none is inside another. -/
theorem valid_replacing
    {chosen : Finset (List Nat)}
    (subset : chosen ⊆ positions) :
    (Moves.replacing chosen).Valid change graph where
  allowed path move made := by
    rcases Moves.replacing_eq_some_iff.mp made with ⟨member, rfl⟩
    exact (leaves.mem_iff path).mp (subset member)
  apart path other made otherMade nested := by
    rw [Moves.isSome_replacing_iff] at made otherMade
    rcases (leaves.mem_iff path).mp (subset made) with
      ⟨part, found, changed⟩
    rcases (leaves.mem_iff other).mp (subset otherMade) with
      ⟨otherPart, otherFound, _⟩
    rcases nested with ⟨_ | ⟨index, rest⟩, rfl⟩
    · rw [List.append_nil]
    · rw [Term.at?_append, found, Option.bind_some] at otherFound
      have cell := Term.isCons_of_at? otherFound
      simp [leaves.notCell found changed] at cell

/-- All that a revision does is to replace the parts at some positions. -/
theorem eq_replacing
    {moves : Moves}
    (valid : moves.Valid change graph) :
    moves =
      .replacing (positions.filter fun path => (moves path).isSome) := by
  funext path
  rcases made : moves path with _ | move
  · rw [Moves.replacing, if_neg (by simp [made])]
  · rcases valid.allowed path move made with ⟨part, found, allowed⟩
    cases move with
    | replace =>
      have member := (leaves.mem_iff path).mpr ⟨part, found, allowed⟩
      rw [Moves.replacing, if_pos (by simp [made, member])]
    | keep =>
      rcases allowed with ⟨kind, rfl⟩
      exact (leaves.notNil path kind found).elim

/-- No other term that is not a cell changes. -/
theorem at?_result
    (revision : Revision change graph)
    {path : List Nat}
    {part : Term}
    (found : graph.at? path = some part)
    (notCell : part.isCons = false)
    (elsewhere : path ∉ positions) :
    revision.result.at? path = some part := by
  refine revision.at?_result_of_outside found notCell ?_
  intro other nested
  rw [leaves.eq_replacing revision.valid, ← Option.not_isSome_iff_eq_none,
    Moves.isSome_replacing_iff]
  intro chosen
  have member := (Finset.mem_filter.mp chosen).1
  rcases (leaves.mem_iff other).mp member with ⟨above, foundAbove, changed⟩
  rcases nested with ⟨_ | ⟨index, rest⟩, rfl⟩
  · rw [List.append_nil] at elsewhere
    exact elsewhere member
  · rw [Term.at?_append, foundAbove, Option.bind_some] at found
    have cell := Term.isCons_of_at? found
    simp [leaves.notCell foundAbove changed] at cell

/-- There is one revision for each set of positions, except the empty one. -/
theorem length_eq
    {revisions : List (Revision change graph)}
    (nodup : revisions.Nodup)
    (complete : ∀ revision, revision ∈ revisions) :
    revisions.length = 2 ^ positions.card - 1 := by
  let chosen (revision : Revision change graph) : Finset (List Nat) :=
    positions.filter fun path => (revision.moves path).isSome
  have injective : Function.Injective chosen := by
    intro revision other same
    refine Revision.ext ?_
    rw [leaves.eq_replacing revision.valid, leaves.eq_replacing other.valid]
    exact congrArg Moves.replacing same
  have all : (revisions.map chosen).toFinset = positions.powerset.erase ∅ := by
    ext subset
    rw [List.mem_toFinset, List.mem_map, Finset.mem_erase,
      Finset.mem_powerset]
    constructor
    · rintro ⟨revision, _, rfl⟩
      refine ⟨?_, Finset.filter_subset _ _⟩
      rcases revision.any with ⟨path, made⟩
      rw [leaves.eq_replacing revision.valid, Moves.isSome_replacing_iff]
        at made
      exact Finset.ne_empty_of_mem made
    · rintro ⟨nonempty, inside⟩
      rcases Finset.nonempty_iff_ne_empty.mpr nonempty with ⟨path, member⟩
      refine ⟨⟨.replacing subset, leaves.valid_replacing inside, path,
        Moves.isSome_replacing_iff.mpr member⟩, complete _, ?_⟩
      ext other
      simp only [chosen, Finset.mem_filter, Moves.isSome_replacing_iff]
      exact ⟨fun both => both.2, fun member => ⟨inside member, member⟩⟩
  have counted := congrArg Finset.card all
  rwa [List.toFinset_card_of_nodup (nodup.map injective), List.length_map,
    Finset.card_erase_of_mem (Finset.empty_mem_powerset _),
    Finset.card_powerset] at counted

end Term.MovesLeaves

end Counting

end RelationalSearch
