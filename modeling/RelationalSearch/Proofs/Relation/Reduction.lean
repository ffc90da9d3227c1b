import Mathlib.Data.Finset.Lattice.Fold
import Mathlib.Data.Set.Finite.Basic
import RelationalSearch.Proofs.Stream.Shuffle
import RelationalSearch.Term.Equality

/-!
# Trees of reductions

A function that gives each term a list of others spans a tree: below a term are
those of its list, one child for each, and a child that equals its parent has no
children (`reductAt?`).  The nodes other than the root are the reducts.

An order of the reducts in which each node comes behind all that is below it is
an `Unwinding`.  Unwindings of the children of a term, one behind which the
child itself comes, may be shuffled: this gives an unwinding of the term
(`Unwinding.of_shuffle`).  A search delivers terms and not nodes, so the same is
said of the terms at the nodes (`Unwound.of_shuffle`).

Of a tree that is a single branch the terms are those of the branch, the last
one first (`ReductionChain.map_term_eq`).
-/

namespace RelationalSearch

/-! ## Nodes -/

/-- The term at a path in the tree of reductions. -/
def reductAt? (steps : Term → List Term) : Term → List Nat → Option Term
  | start, [] => some start
  | start, index :: path =>
    match (steps start)[index]? with
    | none => none
    | some child =>
      if child = start then
        if path = [] then some child else none
      else
        reductAt? steps child path

theorem reductAt?_root (steps : Term → List Term) (start : Term) :
    reductAt? steps start [] = some start := rfl

theorem reductAt?_cons
    (steps : Term → List Term)
    (start : Term)
    (index : Nat)
    (path : List Nat) :
    reductAt? steps start (index :: path) =
      match (steps start)[index]? with
      | none => none
      | some child =>
        if child = start then
          if path = [] then some child else none
        else
          reductAt? steps child path := rfl

/-- A node of the tree of reductions other than the root. -/
structure Reduct (steps : Term → List Term) (start : Term) where
  path : List Nat
  term : Term
  below : path ≠ []
  reached : reductAt? steps start path = some term

variable {steps : Term → List Term} {start child : Term}

theorem Reduct.eq_of_path_eq
    {reduct other : Reduct steps start}
    (same : reduct.path = other.path) :
    reduct = other := by
  rcases reduct with ⟨path, term, below, reached⟩
  rcases other with ⟨_, otherTerm, _, otherReached⟩
  cases same
  cases reached.symm.trans otherReached
  rfl

theorem reductAt?_of_eq
    {index : Nat}
    (found : (steps start)[index]? = some start)
    (path : List Nat) :
    reductAt? steps start (index :: path) =
      if path = [] then some start else none := by
  rw [reductAt?_cons, found]
  exact if_pos rfl

theorem reductAt?_of_ne
    {index : Nat}
    (found : (steps start)[index]? = some child)
    (different : child ≠ start)
    (path : List Nat) :
    reductAt? steps start (index :: path) = reductAt? steps child path := by
  rw [reductAt?_cons, found]
  exact if_neg different

theorem reductAt?_of_eq_none
    {index : Nat}
    (absent : (steps start)[index]? = none)
    (path : List Nat) :
    reductAt? steps start (index :: path) = none := by
  rw [reductAt?_cons, absent]

/-! ## Finite trees -/

/-- The tree of reductions has no endless branch. -/
inductive Terminates (steps : Term → List Term) : Term → Prop where
  | intro
      {start : Term}
      (next :
        ∀ child ∈ steps start, child ≠ start → Terminates steps child) :
      Terminates steps start

theorem terminates_of_length_le
    {bound : Nat}
    (bounded :
      ∀ path, (reductAt? steps start path).isSome = true →
        path.length ≤ bound) :
    Terminates steps start := by
  induction bound generalizing start with
  | zero =>
    refine .intro ?_
    intro child member different
    rcases List.mem_iff_getElem?.mp member with ⟨index, found⟩
    have long := bounded [index]
      (by rw [reductAt?_of_ne found different, reductAt?_root]; rfl)
    simp at long
  | succ bound ih =>
    refine .intro ?_
    intro child member different
    rcases List.mem_iff_getElem?.mp member with ⟨index, found⟩
    refine ih ?_
    intro path inside
    have long := bounded (index :: path)
      (by rwa [reductAt?_of_ne found different])
    exact Nat.le_of_succ_le_succ long

/-- A tree with finitely many nodes has no endless branch. -/
theorem terminates_of_finite
    (finite : {path | (reductAt? steps start path).isSome = true}.Finite) :
    Terminates steps start := by
  have bounded : ∀ path, (reductAt? steps start path).isSome = true →
      path.length ≤ finite.toFinset.sup List.length := by
    intro path inside
    exact Finset.le_sup (finite.mem_toFinset.mpr inside)
  exact terminates_of_length_le bounded

/-! ## Unwindings -/

/-- All reducts, in an order in which the nodes below a node come before it. -/
structure Unwinding
    (steps : Term → List Term)
    (start : Term)
    (paths : List (List Nat)) : Prop where
  mem_iff :
    ∀ path, path ∈ paths ↔
      path ≠ [] ∧ (reductAt? steps start path).isSome = true
  deepest : paths.Pairwise fun earlier later => ¬ earlier <+: later

/-- The paths lead to the terms, each to the one at its place. -/
abbrev Leads
    (steps : Term → List Term)
    (start : Term) : List Term → List (List Nat) → Prop :=
  List.Forall₂ fun term path => reductAt? steps start path = some term

theorem Unwinding.nodup
    {paths : List (List Nat)}
    (unwinding : Unwinding steps start paths) :
    paths.Nodup := by
  refine unwinding.deepest.imp ?_
  rintro earlier later apart rfl
  exact apart List.prefix_rfl

/--
The part of an unwinding that belongs to a child, seen from the child: what is
below it, and then the child itself.
-/
inductive Unwinding.Part
    (steps : Term → List Term)
    (start child : Term) : List (List Nat) → Prop where
  | stop (same : child = start) : Part steps start child [[]]
  | again
      {paths : List (List Nat)}
      (different : child ≠ start)
      (below : Unwinding steps child paths) :
      Part steps start child (paths ++ [[]])

namespace Unwinding.Part

variable {paths : List (List Nat)}

theorem mem_iff
    (part : Part steps start child paths)
    {index : Nat}
    (found : (steps start)[index]? = some child)
    (path : List Nat) :
    path ∈ paths ↔
      (reductAt? steps start (index :: path)).isSome = true := by
  cases part with
  | stop same =>
    subst same
    rw [reductAt?_of_eq found, List.mem_singleton]
    split <;> simp_all
  | again different below =>
    rw [reductAt?_of_ne found different, List.mem_append,
      List.mem_singleton, below.mem_iff]
    by_cases root : path = []
    · simp [root, reductAt?_root]
    · simp [root]

/-- What the paths lead to from the child they lead to from above. -/
theorem leads
    (part : Part steps start child paths)
    {index : Nat}
    (found : (steps start)[index]? = some child)
    {terms : List Term}
    (below : Leads steps child terms paths) :
    Leads steps start terms (paths.map (index :: ·)) := by
  rw [Leads, List.forall₂_map_right_iff]
  cases part with
  | stop same =>
    subst same
    cases below with
    | cons here others =>
      cases others
      rw [reductAt?_root] at here
      refine .cons ?_ .nil
      rw [reductAt?_of_eq found, if_pos rfl, here]
  | again different _ =>
    refine below.imp ?_
    intro term path here
    rwa [reductAt?_of_ne found different]

theorem deepest (part : Part steps start child paths) :
    paths.Pairwise fun earlier later => ¬ earlier <+: later := by
  cases part with
  | stop => exact List.pairwise_singleton _ _
  | again _ below =>
    refine List.pairwise_append.mpr
      ⟨below.deepest, List.pairwise_singleton _ _, ?_⟩
    intro earlier member later last
    rw [List.mem_singleton] at last
    rw [last, List.prefix_nil]
    exact ((below.mem_iff earlier).mp member).1

end Unwinding.Part

/-- The parts of the children, shuffled, unwind the whole. -/
theorem Unwinding.of_shuffle
    {parts : List (Nat × List (List Nat))}
    {paths : List (List Nat)}
    (indexes :
      (parts.map Prod.fst).Perm (List.range (steps start).length))
    (inside :
      ∀ part ∈ parts, ∃ child,
        (steps start)[part.1]? = some child ∧
          Part steps start child part.2)
    (shuffled :
      ShuffleAll (parts.map fun part => part.2.map (part.1 :: ·)) paths) :
    Unwinding steps start paths where
  mem_iff path := by
    have listed : path ∈ paths ↔
        ∃ part ∈ parts, ∃ inner ∈ part.2, part.1 :: inner = path := by
      rw [shuffled.perm.mem_iff, List.mem_flatten]
      simp
    rw [listed]
    constructor
    · rintro ⟨part, member, inner, below, rfl⟩
      rcases inside part member with ⟨child, found, unwound⟩
      exact ⟨nofun, (unwound.mem_iff found inner).mp below⟩
    · rintro ⟨nonempty, reached⟩
      rcases path with _ | ⟨index, inner⟩
      · exact (nonempty rfl).elim
      have present : ∃ child, (steps start)[index]? = some child := by
        rw [← Option.ne_none_iff_exists']
        intro absent
        simp [reductAt?_of_eq_none absent] at reached
      rcases present with ⟨child, found⟩
      have indexed : index ∈ parts.map Prod.fst := by
        rw [indexes.mem_iff, List.mem_range]
        exact (List.getElem?_eq_some_iff.mp found).1
      rcases List.mem_map.mp indexed with ⟨part, member, rfl⟩
      rcases inside part member with ⟨other, otherFound, unwound⟩
      exact ⟨part, member, inner, (unwound.mem_iff otherFound inner).mpr reached,
        rfl⟩
  deepest := by
    refine shuffled.pairwise ?_ ?_
    · intro list member
      rcases List.mem_map.mp member with ⟨part, listed, rfl⟩
      rcases inside part listed with ⟨child, _, unwound⟩
      rw [List.pairwise_map]
      refine unwound.deepest.imp ?_
      intro earlier later apart nested
      exact apart ((List.prefix_cons_inj part.1).mp nested)
    · have different : parts.Pairwise fun part other => part.1 ≠ other.1 :=
        List.pairwise_map.mp (indexes.nodup_iff.mpr List.nodup_range)
      rw [List.pairwise_map]
      refine different.imp ?_
      intro part other apart one member another otherMember
      rcases List.mem_map.mp member with ⟨path, _, rfl⟩
      rcases List.mem_map.mp otherMember with ⟨otherPath, _, rfl⟩
      rw [List.cons_prefix_cons, List.cons_prefix_cons]
      exact ⟨fun nested => apart nested.1, fun nested => apart nested.1.symm⟩

/-! ## Unwound terms -/

/-- The terms of all reducts, in the order of an unwinding. -/
def Unwound
    (steps : Term → List Term)
    (start : Term)
    (terms : List Term) : Prop :=
  ∃ paths, Unwinding steps start paths ∧ Leads steps start terms paths

/-- The part of the terms that belongs to a child. -/
def Unwound.Part
    (steps : Term → List Term)
    (start child : Term)
    (terms : List Term) : Prop :=
  ∃ paths,
    Unwinding.Part steps start child paths ∧ Leads steps child terms paths

theorem Unwound.Part.stop (steps : Term → List Term) (start : Term) :
    Part steps start start [start] :=
  ⟨[[]], .stop rfl, .cons (reductAt?_root steps start) .nil⟩

theorem Unwound.Part.again
    {terms : List Term}
    (different : child ≠ start)
    (below : Unwound steps child terms) :
    Part steps start child (terms ++ [child]) := by
  rcases below with ⟨paths, unwinding, leads⟩
  have last : Leads steps child [child] [[]] :=
    .cons (reductAt?_root steps child) .nil
  exact ⟨paths ++ [[]], .again different unwinding, List.rel_append leads last⟩

/-- The children of a term, in another order, still have their indexes. -/
theorem exists_indexes
    {children : List Term}
    (permuted : children.Perm (steps start)) :
    ∃ indexes : List Nat,
      indexes.Perm (List.range (steps start).length) ∧
        List.Forall₂ (fun child index => (steps start)[index]? = some child)
          children indexes := by
  have inOrder :
      List.Forall₂ (fun child index => (steps start)[index]? = some child)
        (steps start) (List.range (steps start).length) := by
    refine List.forall₂_iff_get.mpr ⟨by simp, ?_⟩
    intro index inside _
    simp [inside]
  rcases List.perm_comp_forall₂ permuted inOrder with
    ⟨indexes, found, reordered⟩
  exact ⟨indexes, reordered, found⟩

/-- Parts of the children, seen from the term. -/
theorem Unwound.exists_parts
    {children : List Term}
    {indexes : List Nat}
    {lists : List (List Term)}
    (found :
      List.Forall₂ (fun child index => (steps start)[index]? = some child)
        children indexes)
    (unwound : List.Forall₂ (Unwound.Part steps start) children lists) :
    ∃ parts : List (Nat × List (List Nat)),
      parts.map Prod.fst = indexes ∧
        (∀ part ∈ parts, ∃ child,
          (steps start)[part.1]? = some child ∧
            Unwinding.Part steps start child part.2) ∧
        List.Forall₂ (Leads steps start) lists
          (parts.map fun part => part.2.map (part.1 :: ·)) := by
  induction unwound generalizing indexes with
  | nil =>
    cases found
    exact ⟨[], rfl, by simp, .nil⟩
  | @cons child terms children lists own _ ih =>
    cases found with
    | @cons _ index _ indexes here others =>
      rcases ih others with ⟨parts, rfl, inside, leads⟩
      rcases own with ⟨paths, part, below⟩
      refine ⟨(index, paths) :: parts, rfl, ?_,
        .cons (part.leads here below) leads⟩
      rw [List.forall_mem_cons]
      exact ⟨⟨child, here, part⟩, inside⟩

/-- The terms that belong to the children, shuffled, are those of the whole. -/
theorem Unwound.of_shuffle
    {children terms : List Term}
    {lists : List (List Term)}
    (permuted : children.Perm (steps start))
    (parts : List.Forall₂ (Unwound.Part steps start) children lists)
    (shuffled : ShuffleAll lists terms) :
    Unwound steps start terms := by
  rcases exists_indexes permuted with ⟨indexes, reordered, found⟩
  rcases exists_parts found parts with ⟨nodes, rfl, inside, leads⟩
  rcases shuffled.exists_forall₂ leads with ⟨paths, merged, all⟩
  exact ⟨paths, .of_shuffle reordered inside merged, all⟩

/-! ## Lists of reducts -/

/--
All reducts, each of them once, such that no node comes before one that is
below it.
-/
structure Reduct.DeepestFirst (reducts : List (Reduct steps start)) : Prop where
  nodup : reducts.Nodup
  complete : ∀ reduct, reduct ∈ reducts
  deepest :
    reducts.Pairwise fun earlier later => ¬ earlier.path <+: later.path

/-- Unwound terms are those of the reducts. -/
theorem Unwound.exists_reducts
    {terms : List Term}
    (unwound : Unwound steps start terms) :
    ∃ reducts : List (Reduct steps start),
      Reduct.DeepestFirst reducts ∧ reducts.map Reduct.term = terms := by
  rcases unwound with ⟨paths, unwinding, leads⟩
  have reached : ∀ path ∈ paths,
      path ≠ [] ∧ (reductAt? steps start path).isSome = true :=
    fun path member => (unwinding.mem_iff path).mp member
  let reducts : List (Reduct steps start) :=
    paths.pmap (fun path both =>
      ⟨path, (reductAt? steps start path).get both.2, both.1, by simp⟩)
      reached
  have same : reducts.map Reduct.path = paths := by
    rw [List.map_pmap, List.pmap_eq_map, List.map_id']
  have first : Reduct.DeepestFirst reducts := by
    constructor
    · exact List.Nodup.of_map Reduct.path (same ▸ unwinding.nodup)
    · intro reduct
      have listed : reduct.path ∈ reducts.map Reduct.path := by
        rw [same, unwinding.mem_iff, reduct.reached]
        exact ⟨reduct.below, rfl⟩
      rcases List.mem_map.mp listed with ⟨other, member, equal⟩
      exact Reduct.eq_of_path_eq equal ▸ member
    · exact List.pairwise_map.mp (same ▸ unwinding.deepest)
  refine ⟨reducts, first, ?_⟩
  rw [← same, Leads, List.forall₂_map_right_iff] at leads
  rw [eq_comm, ← List.forall₂_eq_eq_eq, List.forall₂_map_right_iff]
  refine leads.imp ?_
  intro term reduct leadsThere
  exact Option.some.inj (leadsThere.symm.trans reduct.reached)

/-! ## Chains -/

/--
A term from which a single branch goes: each term on it has one step, which
leads to the next one.  The last term has no steps, or it is the one before it
once more.
-/
structure ReductionChain
    (steps : Term → List Term)
    (chain : Nat → Term)
    (last : Nat) : Prop where
  links : ∀ index < last, steps (chain index) = [chain (index + 1)]
  moves : ∀ index, index + 1 < last → chain (index + 1) ≠ chain index
  ends :
    steps (chain last) = [] ∨
      ∃ before, last = before + 1 ∧ chain last = chain before

section Chain

variable {chain : Nat → Term} {last : Nat}

/-- A chain that does not move at some place does not move from there on. -/
theorem chain_eq_of_not_moves
    (links : ∀ index < last, steps (chain index) = [chain (index + 1)])
    {index : Nat}
    (same : chain (index + 1) = chain index)
    {later : Nat}
    (behind : index ≤ later)
    (inside : later ≤ last) :
    chain later = chain index := by
  induction behind with
  | refl => rfl
  | @step later behind ih =>
    have here := ih (Nat.le_of_succ_le inside)
    have link := links later inside
    rw [here, links index (Nat.lt_of_le_of_lt behind inside), same] at link
    exact (List.singleton_inj.mp link).symm

theorem ReductionChain.of_stuck
    (links : ∀ index < last, steps (chain index) = [chain (index + 1)])
    (stuck : steps (chain last) = []) :
    ReductionChain steps chain last where
  links := links
  moves index inside same := by
    have before := Nat.lt_of_succ_lt inside
    rw [chain_eq_of_not_moves links same (Nat.le_of_lt before)
      (Nat.le_refl last), links index before] at stuck
    cases stuck
  ends := .inl stuck

/-- A chain that ends in a fixed point has one more term, the same again. -/
theorem ReductionChain.of_fixed
    (links : ∀ index < last, steps (chain index) = [chain (index + 1)])
    (moved : ∀ before, last = before + 1 → chain last ≠ chain before)
    (fixed : steps (chain last) = [chain last]) :
    ReductionChain steps (fun index => chain (min index last)) (last + 1) where
  links index inside := by
    rcases Nat.lt_succ_iff_lt_or_eq.mp inside with before | rfl
    · have here : min index last = index := Nat.min_eq_left (by omega)
      have next : min (index + 1) last = index + 1 := Nat.min_eq_left before
      simp only [here, next]
      exact links index before
    · simpa using fixed
  moves index inside same := by
    have before : index < last := Nat.lt_of_succ_lt_succ inside
    have here : min index last = index := Nat.min_eq_left (by omega)
    have next : min (index + 1) last = index + 1 := Nat.min_eq_left before
    simp only [here, next] at same
    have final := chain_eq_of_not_moves links same (Nat.le_of_lt before)
      (Nat.le_refl last)
    have almost : chain (last - 1) = chain index :=
      chain_eq_of_not_moves links same (by omega) (by omega)
    exact moved (last - 1) (by omega) (final.trans almost.symm)
  ends := .inr ⟨last, rfl, by simp⟩

variable (reductions : ReductionChain steps chain last)

include reductions

/-- The paths of a chain always take the first child. -/
theorem ReductionChain.reductAt?_iff
    {index : Nat}
    {path : List Nat}
    {term : Term}
    (inside : index ≤ last)
    (goesOn : index = last → steps (chain last) = []) :
    reductAt? steps (chain index) path = some term ↔
      index + path.length ≤ last ∧ path = List.replicate path.length 0 ∧
        term = chain (index + path.length) := by
  induction path generalizing index with
  | nil =>
    rw [reductAt?_root, Option.some_inj]
    simp [inside, eq_comm]
  | cons first path ih =>
    rw [List.length_cons, List.replicate_succ, List.cons.injEq]
    by_cases atEnd : index = last
    · have absent : (steps (chain index))[first]? = none := by
        simp [atEnd, goesOn atEnd]
      rw [reductAt?_of_eq_none absent]
      refine iff_of_false nofun ?_
      rintro ⟨long, _⟩
      omega
    · have before : index < last := by omega
      have link := reductions.links index before
      by_cases other : first = 0
      · subst other
        have found :
            (steps (chain index))[0]? = some (chain (index + 1)) := by
          rw [link]
          rfl
        by_cases same : chain (index + 1) = chain index
        · -- The chain stops here, so this is its last link.
          have final : index + 1 = last := by
            by_contra further
            exact reductions.moves index (by omega) same
          rw [same] at found
          rw [reductAt?_of_eq found]
          cases path with
          | nil => simp [← final, same, eq_comm]
          | cons => simp [← final]
        · have goesOnThere : index + 1 = last → steps (chain last) = [] := by
            intro final
            rcases reductions.ends with stuck | ⟨earlier, next, fixed⟩
            · exact stuck
            · have equal : earlier = index := by omega
              rw [← final, equal] at fixed
              exact (same fixed).elim
          rw [reductAt?_of_ne found same, ih before goesOnThere,
            show index + 1 + path.length = index + (path.length + 1) by omega]
          simp
      · have absent : (steps (chain index))[first]? = none := by
          rw [link, List.getElem?_eq_none_iff]
          exact Nat.one_le_iff_ne_zero.mpr other
        rw [reductAt?_of_eq_none absent]
        exact iff_of_false nofun fun all => other all.2.1.1

theorem ReductionChain.reached_iff {path : List Nat} {term : Term} :
    reductAt? steps (chain 0) path = some term ↔
      path <+: List.replicate last 0 ∧ term = chain path.length := by
  have goesOn : 0 = last → steps (chain last) = [] := by
    intro final
    rcases reductions.ends with stuck | ⟨before, next, _⟩
    · exact stuck
    · omega
  rw [reductions.reductAt?_iff (Nat.zero_le last) goesOn,
    List.prefix_replicate_iff, Nat.zero_add, and_assoc]

/-- The tree of a chain is finite. -/
theorem ReductionChain.finite :
    {path | (reductAt? steps (chain 0) path).isSome = true}.Finite := by
  refine (List.finite_toSet (List.replicate last 0).inits).subset ?_
  intro path inside
  rcases Option.isSome_iff_exists.mp inside with ⟨term, reached⟩
  exact (List.mem_inits _ _).mpr (reductions.reached_iff.mp reached).1

/-- Along a chain there is one order for the reducts, the last one first. -/
theorem ReductionChain.map_term_eq
    (begins : chain 0 = start)
    {reducts : List (Reduct steps start)}
    (first : Reduct.DeepestFirst reducts) :
    reducts.map Reduct.term =
      (List.range last).reverse.map fun index => chain (index + 1) := by
  subst begins
  let deep (index : Nat) : List Nat := List.replicate (index + 1) 0
  have onChain (path : List Nat) :
      path ∈ reducts.map Reduct.path ↔
        path ≠ [] ∧ path <+: List.replicate last 0 := by
    rw [List.mem_map]
    constructor
    · rintro ⟨reduct, _, rfl⟩
      exact ⟨reduct.below, (reductions.reached_iff.mp reduct.reached).1⟩
    · rintro ⟨nonempty, nested⟩
      exact ⟨⟨path, chain path.length, nonempty,
        reductions.reached_iff.mpr ⟨nested, rfl⟩⟩, first.complete _, rfl⟩
  have expected (path : List Nat) :
      path ∈ (List.range last).reverse.map deep ↔
        path ≠ [] ∧ path <+: List.replicate last 0 := by
    rw [List.prefix_replicate_iff, List.mem_map]
    constructor
    · rintro ⟨index, member, rfl⟩
      rw [List.mem_reverse, List.mem_range] at member
      simp [deep, Nat.succ_le_of_lt member]
    · rintro ⟨nonempty, long, same⟩
      have positive := List.length_pos_iff.mpr nonempty
      refine ⟨path.length - 1, ?_, ?_⟩
      · rw [List.mem_reverse, List.mem_range]
        omega
      · rw [same]
        simp only [deep, List.length_replicate]
        rw [Nat.sub_add_cancel positive]
  have injective : Function.Injective
      (Reduct.path : Reduct steps (chain 0) → List Nat) :=
    fun _ _ same => Reduct.eq_of_path_eq same
  have ordered :
      ((List.range last).reverse.map deep).Pairwise fun earlier later =>
        ¬ earlier <+: later := by
    rw [List.pairwise_map, List.pairwise_reverse]
    refine List.pairwise_lt_range.imp ?_
    intro small large less nested
    have shorter := nested.length_le
    simp only [deep, List.length_replicate] at shorter
    omega
  have nodupExpected : ((List.range last).reverse.map deep).Nodup := by
    refine ordered.imp ?_
    rintro earlier later apart rfl
    exact apart List.prefix_rfl
  have permuted :
      (reducts.map Reduct.path).Perm ((List.range last).reverse.map deep) := by
    rw [List.perm_ext_iff_of_nodup (first.nodup.map injective) nodupExpected]
    intro path
    rw [onChain, expected]
  have same : reducts.map Reduct.path = (List.range last).reverse.map deep := by
    refine permuted.eq_of_pairwise ?_ (List.pairwise_map.mpr first.deepest)
      ordered
    intro path other member otherMember apart otherApart
    -- Of two paths along the chain one goes on from the other.
    have nested := ((onChain path).mp member).2
    have otherNested := ((expected other).mp otherMember).2
    rcases List.prefix_or_prefix_of_prefix nested otherNested with
      below | above
    · exact (apart below).elim
    · exact (otherApart above).elim
  calc
    reducts.map Reduct.term =
        (reducts.map Reduct.path).map fun path => chain path.length := by
      rw [List.map_map]
      refine List.map_congr_left fun reduct _ => ?_
      exact (reductions.reached_iff.mp reduct.reached).2
    _ = (List.range last).reverse.map fun index => chain (index + 1) := by
      rw [same, List.map_map]
      refine List.map_congr_left fun index _ => ?_
      simp [deep]

end Chain

/-- Where the last term has no step the terms come in reverse. -/
theorem Reduct.DeepestFirst.map_term_eq_of_stuck
    {reducts : List (Reduct steps start)}
    (first : Reduct.DeepestFirst reducts)
    {chain : Nat → Term}
    {last : Nat}
    (begins : chain 0 = start)
    (links : ∀ index < last, steps (chain index) = [chain (index + 1)])
    (stuck : steps (chain last) = []) :
    reducts.map Reduct.term =
      (List.range last).reverse.map fun index => chain (index + 1) :=
  (ReductionChain.of_stuck links stuck).map_term_eq begins first

/-- Where the last term steps to itself it comes once more, in front. -/
theorem Reduct.DeepestFirst.map_term_eq_of_fixed
    {reducts : List (Reduct steps start)}
    (first : Reduct.DeepestFirst reducts)
    {chain : Nat → Term}
    {last : Nat}
    (begins : chain 0 = start)
    (links : ∀ index < last, steps (chain index) = [chain (index + 1)])
    (moved : ∀ before, last = before + 1 → chain last ≠ chain before)
    (fixed : steps (chain last) = [chain last]) :
    reducts.map Reduct.term =
      chain last ::
        (List.range last).reverse.map fun index => chain (index + 1) := by
  have reductions := ReductionChain.of_fixed links moved fixed
  rw [reductions.map_term_eq (by simpa using begins) first, List.range_succ,
    List.reverse_append]
  simp only [List.reverse_singleton, List.singleton_append, List.map_cons,
    List.cons.injEq]
  refine ⟨by simp, List.map_congr_left ?_⟩
  intro index member
  rw [List.mem_reverse, List.mem_range] at member
  rw [Nat.min_eq_left member]

end RelationalSearch
