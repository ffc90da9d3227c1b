import RelationalSearch.Term.Basic

/-!
# Equality and hashing of terms

Both walk a term with a list of what is still to be visited, so that neither
deep nesting nor a long spine needs a deep stack.

* `Term.sameUnder` compares pairs of terms, heads before tails.  It is told
  which pairs are known to be one and the same term, and skips those.  What it
  is told can not change its answer (`Term.sameUnder_eq_true_iff`).
* `Term.same` is told which terms are one object in memory.  A term of a few
  objects may have more nodes than could ever be visited, so this is what makes
  the comparison of such terms possible.
* `Term.tokens` lists the nodes of a term in preorder, and determines it.  The
  hash of a term is the hash of this list.
-/

namespace RelationalSearch

namespace Term

/-! ## Size -/

/-- The number of nodes of a term. -/
def size : Term → Nat
  | cons head tail => head.size + tail.size + 1
  | _ => 1

theorem size_pos (term : Term) : 0 < term.size := by
  cases term <;> simp [size]

/-- The number of nodes of a list of terms. -/
def sizes (terms : List Term) : Nat :=
  terms.foldr (fun term total => term.size + total) 0

@[simp]
theorem sizes_nil : sizes [] = 0 := rfl

@[simp]
theorem sizes_cons (term : Term) (terms : List Term) :
    sizes (term :: terms) = term.size + sizes terms :=
  rfl

/-- The size of the left-hand sides of pairs of terms. -/
def pairSizes (pairs : List (Term × Term)) : Nat :=
  sizes (pairs.map Prod.fst)

@[simp]
theorem pairSizes_cons (pair : Term × Term) (pairs : List (Term × Term)) :
    pairSizes (pair :: pairs) = pair.1.size + pairSizes pairs :=
  rfl

theorem pairSizes_append (first second : List (Term × Term)) :
    pairSizes (first ++ second) = pairSizes first + pairSizes second := by
  induction first with
  | nil => simp [pairSizes]
  | cons pair first hypothesis => simp [hypothesis, Nat.add_assoc]

/-! ## Equality of atoms -/

/-- Equality of two terms of which at most one is a cell. -/
def sameAtom : Term → Term → Bool
  | var left, var right => left = right
  | int left, int right => left = right
  | sym left, sym right => left = right
  | nil left, nil right => left = right
  | _, _ => false

theorem sameAtom_eq_true_iff
    {left right : Term}
    (notCells : left.isCons = false ∨ right.isCons = false) :
    sameAtom left right = true ↔ left = right := by
  cases left <;> cases right <;> simp_all [sameAtom, isCons]

theorem isCons_eq_false_or
    {left right : Term}
    (notBoth : ∀ leftHead leftTail rightHead rightTail,
      left = cons leftHead leftTail →
        right = cons rightHead rightTail → False) :
    left.isCons = false ∨ right.isCons = false := by
  cases left with
  | cons leftHead leftTail =>
    cases right with
    | cons rightHead rightTail => exact (notBoth _ _ _ _ rfl rfl).elim
    | _ => exact .inr rfl
  | _ => exact .inl rfl

/-! ## What is known of two terms -/

/--
Tells of two terms whether they are known to be the same.  A true answer is
right, and a false one says nothing.  Answers are squashed: no result may hang
on which of them is given.
-/
abbrev Sharing :=
  (left right : Term) → Squash { known : Bool // known = true → left = right }

namespace Sharing

/-- The answers of a function all of whose true answers are right. -/
def ofFunction
    (shared : Term → Term → Bool)
    (sound : ∀ left right, shared left right = true → left = right) : Sharing :=
  fun left right => Squash.mk ⟨shared left right, sound left right⟩

/-- Nothing is known. -/
def none : Sharing :=
  ofFunction (fun _ _ => false) (fun _ _ impossible => nomatch impossible)

end Sharing

/-! ## Equality -/

/--
The pairs that have to be equal for two terms to be: heads and tails of two
cells, and nothing for equal atoms.  There are none if the terms differ at
once.
-/
@[inline]
def pairsBelow? : Term → Term → Option (List (Term × Term))
  | cons leftHead leftTail, cons rightHead rightTail =>
    some [(leftHead, rightHead), (leftTail, rightTail)]
  | left, right => if sameAtom left right then some [] else none

theorem eq_iff_of_pairsBelow?_eq_some
    {left right : Term}
    {below : List (Term × Term)}
    (found : pairsBelow? left right = some below) :
    left = right ↔ ∀ pair ∈ below, pair.1 = pair.2 := by
  unfold pairsBelow? at found
  split at found
  next =>
    cases found
    simp
  next notBoth =>
    split at found
    next atom =>
      cases found
      rw [sameAtom_eq_true_iff (isCons_eq_false_or notBoth)] at atom
      simp [atom]
    next => simp at found

theorem ne_of_pairsBelow?_eq_none
    {left right : Term}
    (differ : pairsBelow? left right = none) : left ≠ right := by
  unfold pairsBelow? at differ
  split at differ
  next => simp at differ
  next notBoth =>
    split at differ
    next => simp at differ
    next atom => rwa [sameAtom_eq_true_iff (isCons_eq_false_or notBoth)] at atom

theorem pairSizes_lt_of_pairsBelow?_eq_some
    {left right : Term}
    {below : List (Term × Term)}
    (found : pairsBelow? left right = some below) :
    pairSizes below < left.size := by
  unfold pairsBelow? at found
  split at found
  next =>
    cases found
    simp [pairSizes, size]
  next =>
    split at found
    next =>
      cases found
      exact size_pos left
    next => simp at found

/-- An answer to the question whether all pairs are equal. -/
abbrev Verdict (pairs : List (Term × Term)) :=
  { answer : Bool // answer = true ↔ ∀ pair ∈ pairs, pair.1 = pair.2 }

instance (pairs : List (Term × Term)) : Subsingleton (Verdict pairs) :=
  ⟨fun first second =>
    Subtype.ext (Bool.eq_iff_iff.mpr (first.2.trans second.2.symm))⟩

/-- All pairs are equal.  Those that are known to be are not looked into. -/
def allSame (sharing : Sharing) : (pairs : List (Term × Term)) → Verdict pairs
  | [] => ⟨true, by simp⟩
  | (left, right) :: pairs =>
    (sharing left right).lift fun shared =>
      if known : shared.1 = true then
        ⟨(allSame sharing pairs).1, by
          simp [shared.2 known, (allSame sharing pairs).2]⟩
      else
        match found : pairsBelow? left right with
        | some below =>
          ⟨(allSame sharing (below ++ pairs)).1, by
            rw [(allSame sharing _).2, List.forall_mem_append,
              List.forall_mem_cons, eq_iff_of_pairsBelow?_eq_some found]⟩
        | none =>
          ⟨false, by simp [ne_of_pairsBelow?_eq_none found]⟩
termination_by pairs => pairSizes pairs
decreasing_by
  · have := left.size_pos
    simp only [pairSizes_cons]
    omega
  · have := pairSizes_lt_of_pairsBelow?_eq_some found
    simp only [pairSizes_append, pairSizes_cons]
    omega

/-- Two terms are equal; parts that are known to be the same are skipped. -/
def sameUnder (sharing : Sharing) (left right : Term) : Bool :=
  (allSame sharing [(left, right)]).1

/-- What is known does not change the answer. -/
theorem sameUnder_eq_true_iff (sharing : Sharing) (left right : Term) :
    sameUnder sharing left right = true ↔ left = right := by
  simp [sameUnder, (allSame sharing _).2]

/--
Terms at one address are the same.  An address alone proves nothing, so a
comparison stands behind it, which is not run where the addresses agree.
-/
def Sharing.byAddress : Sharing := fun left right =>
  withPtrAddr left
    (fun leftAddress =>
      withPtrAddr right
        (fun rightAddress =>
          Squash.mk
            ⟨leftAddress == rightAddress &&
                withPtrEq left right (fun _ => sameUnder .none left right)
                  (sameUnder_eq_true_iff .none left right).mpr, by
              simp [withPtrEq, sameUnder_eq_true_iff]⟩)
        (fun _ _ => Subsingleton.elim _ _))
    (fun _ _ => Subsingleton.elim _ _)

/-- Two terms are equal. -/
def same (left right : Term) : Bool :=
  sameUnder .byAddress left right

theorem same_eq_true_iff (left right : Term) :
    same left right = true ↔ left = right :=
  sameUnder_eq_true_iff _ left right

instance : DecidableEq Term := fun left right =>
  decidable_of_iff _ (same_eq_true_iff left right)

/-! ## Hashing -/

/-- What a node contributes to the hash of a term. -/
inductive Token where
  | var (x : Var)
  | int (value : Int64)
  | sym (name : String)
  | cons
  | nil (kind : SeqKind)
  deriving DecidableEq, Hashable

/-- The tokens of pending terms, in preorder, after those already `found`. -/
def tokensFrom (found : Array Token) : List Term → Array Token
  | [] => found
  | cons head tail :: pending =>
    tokensFrom (found.push .cons) (head :: tail :: pending)
  | var x :: pending => tokensFrom (found.push (.var x)) pending
  | int value :: pending => tokensFrom (found.push (.int value)) pending
  | sym name :: pending => tokensFrom (found.push (.sym name)) pending
  | nil kind :: pending => tokensFrom (found.push (.nil kind)) pending
termination_by pending => sizes pending
decreasing_by all_goals simp [size]; try omega

/-- The nodes of a term in preorder: node, head, tail. -/
def tokens (term : Term) : List Token :=
  (tokensFrom #[] [term]).toList

/-- The same by plain recursion. -/
def preorder : Term → List Token
  | var x => [.var x]
  | int value => [.int value]
  | sym name => [.sym name]
  | cons head tail => .cons :: (head.preorder ++ tail.preorder)
  | nil kind => [.nil kind]

theorem toList_tokensFrom (found : Array Token) (pending : List Term) :
    (tokensFrom found pending).toList =
      found.toList ++ pending.flatMap preorder := by
  fun_induction tokensFrom found pending <;> simp_all [preorder]

/-- Walking with a list of pending terms finds what plain recursion does. -/
theorem tokens_eq_preorder (term : Term) : term.tokens = term.preorder := by
  simp [tokens, toList_tokensFrom]

instance : Hashable Term := ⟨fun term => hash term.tokens⟩

end Term

end RelationalSearch
