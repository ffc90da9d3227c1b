import Mathlib.Logic.Relation
import RelationalSearch.Term.Equality

/-!
# Comparison and hashing

The loop of comparison takes pairs of terms off a list and puts the pairs below
two cells on it.  A pair of terms that are one object in memory is left out, and
which pairs these are is not to be seen in the terms: of two places with the same
pair, one may be shared and the other not.  So here it is left open.  Any pair of
one and the same term may be left out, wherever it comes up, and none has to be
(`Term.Leaves`).

However that goes, the loop ends, and with the one answer whether the terms are
the same tree (`Term.Comparison.AnswersAs`).

The hash of a term is that of its tokens.  They are a prefix code: from a list that
begins with the tokens of a term one can tell the term and the rest of the list
(`Term.tokens_append_eq_iff`).  So equal terms are just those with equal tokens.
-/

namespace RelationalSearch

namespace Term

/-! ## Turns of the loop of comparison -/

/-- The second pairs are the first ones without some pairs of one and the same term. -/
inductive Leaves : List (Term × Term) → List (Term × Term) → Prop where
  | nil : Leaves [] []
  | keep
      {pair : Term × Term} {pairs kept : List (Term × Term)}
      (rest : Leaves pairs kept) :
      Leaves (pair :: pairs) (pair :: kept)
  | skip
      {term : Term} {pairs kept : List (Term × Term)}
      (rest : Leaves pairs kept) :
      Leaves ((term, term) :: pairs) kept

namespace Leaves

variable {pairs kept : List (Term × Term)}

theorem refl (pairs : List (Term × Term)) : Leaves pairs pairs := by
  induction pairs with
  | nil => exact .nil
  | cons pair pairs ih => exact ih.keep

/-- Nothing is lost with a pair of one and the same term. -/
theorem forall_same_iff (leaves : Leaves pairs kept) :
    (∀ pair ∈ pairs, pair.1 = pair.2) ↔ ∀ pair ∈ kept, pair.1 = pair.2 := by
  induction leaves with
  | nil => rfl
  | keep _ ih => rw [List.forall_mem_cons, List.forall_mem_cons, ih]
  | skip _ ih => rw [List.forall_mem_cons, ih, and_iff_right rfl]

theorem pairSizes_le (leaves : Leaves pairs kept) :
    pairSizes kept ≤ pairSizes pairs := by
  induction leaves with
  | nil => exact Nat.le_refl _
  | keep _ ih => exact Nat.add_le_add_left ih _
  | skip _ ih => exact Nat.le_trans ih (Nat.le_add_left _ _)

end Leaves

/-- How far a comparison has come. -/
inductive Comparison where
  /-- All these pairs have to be equal, the first one is next. -/
  | pending (pairs : List (Term × Term))
  | answered (same : Bool)

namespace Comparison

/-- One turn of the loop of comparison, which ends when there is an answer. -/
inductive Turn : Comparison → Comparison → Prop where
  | done : Turn (.pending []) (.answered true)
  | differ
      {left right : Term} {pairs : List (Term × Term)}
      (differ : pairsBelow? left right = none) :
      Turn (.pending ((left, right) :: pairs)) (.answered false)
  | enter
      {left right : Term} {below kept pairs : List (Term × Term)}
      (found : pairsBelow? left right = some below)
      (leaves : Leaves below kept) :
      Turn (.pending ((left, right) :: pairs)) (.pending (kept ++ pairs))

/-- The pending pairs are equal, or the answer is that they are. -/
def Holds : Comparison → Prop
  | pending pairs => ∀ pair ∈ pairs, pair.1 = pair.2
  | answered same => same = true

/-- A bound on the number of turns. -/
def cost : Comparison → Nat
  | pending pairs => pairSizes pairs + 1
  | answered _ => 0

variable {now later : Comparison}

theorem Turn.holds_iff (turn : Turn now later) : now.Holds ↔ later.Holds := by
  cases turn with
  | done => exact iff_of_true (List.forall_mem_nil _) rfl
  | differ differ =>
    refine iff_of_false (fun all => ?_) Bool.false_ne_true
    exact ne_of_pairsBelow?_eq_none differ (List.forall_mem_cons.mp all).1
  | enter found leaves =>
    rw [Holds, Holds, List.forall_mem_cons, List.forall_mem_append,
      ← leaves.forall_same_iff, eq_iff_of_pairsBelow?_eq_some found]

theorem Turn.cost_lt (turn : Turn now later) : later.cost < now.cost := by
  cases turn with
  | done | differ => exact Nat.succ_pos _
  | enter found leaves =>
    have smaller := pairSizes_lt_of_pairsBelow?_eq_some found
    have fewer := leaves.pairSizes_le
    simp only [cost, pairSizes_append, pairSizes_cons]
    omega

theorem exists_turn (pairs : List (Term × Term)) :
    ∃ later, Turn (.pending pairs) later := by
  match pairs with
  | [] => exact ⟨_, .done⟩
  | (left, right) :: pairs =>
    cases below : pairsBelow? left right with
    | none => exact ⟨_, .differ below⟩
    | some found => exact ⟨_, .enter below (.refl found)⟩

theorem Holds.turns
    (turns : Relation.ReflTransGen Turn now later) :
    now.Holds ↔ later.Holds := by
  induction turns with
  | refl => rfl
  | tail _ turn ih => exact ih.trans turn.holds_iff

/--
No sequence of turns goes on for ever, and each goes on until there is an answer,
which is the given one.
-/
structure AnswersAs (start : Comparison) (answer : Bool) : Prop where
  ends : Acc (fun later now => Turn now later) start
  eq_answered :
    ∀ last, Relation.ReflTransGen Turn start last →
      (∃ later, Turn last later) ∨ last = .answered answer

theorem answersAs_of_iff
    {start : Comparison}
    {answer : Bool}
    (right : answer = true ↔ start.Holds) :
    AnswersAs start answer where
  ends := by
    refine Subrelation.accessible ?_ ((measure cost).wf.apply start)
    exact fun turn => turn.cost_lt
  eq_answered last turns := by
    cases last with
    | pending pairs => exact .inl (exists_turn pairs)
    | answered same =>
      rw [Bool.eq_iff_iff.mpr (right.trans (Holds.turns turns))]
      exact .inr rfl

end Comparison

/-! ## Tokens as a code -/

/-- A list in preorder shows where the term that it begins with ends. -/
theorem preorder_append_inj
    {left right : Term}
    {rest otherRest : List Token}
    (same : left.preorder ++ rest = right.preorder ++ otherRest) :
    left = right ∧ rest = otherRest := by
  induction left generalizing right rest otherRest with
  | cons head tail headIH tailIH =>
    cases right with
    | cons otherHead otherTail =>
      simp only [preorder, List.cons_append, List.append_assoc,
        List.cons.injEq, true_and] at same
      rcases headIH same with ⟨rfl, tails⟩
      rcases tailIH tails with ⟨rfl, rests⟩
      exact ⟨rfl, rests⟩
    | _ => simp [preorder] at same
  | _ => cases right <;> simp_all [preorder]

/-- From tokens with a rest behind them one can tell the term and the rest. -/
theorem tokens_append_eq_iff (left right : Term) (rest otherRest : List Token) :
    left.tokens ++ rest = right.tokens ++ otherRest ↔
      left = right ∧ rest = otherRest := by
  constructor
  · rw [tokens_eq_preorder, tokens_eq_preorder]
    exact preorder_append_inj
  · rintro ⟨rfl, rfl⟩
    rfl

/--
Comparison and hashing agree.  The loop of comparison ends, and whichever pairs of
one and the same term are left out, it answers whether the terms are the same
tree.  They are the same just if they have the same tokens, and a list that begins
with the tokens of the one begins with those of the other.
-/
theorem comparison_and_tokens_agree (left right : Term) :
    Comparison.AnswersAs (.pending [(left, right)]) (same left right) ∧
    (∀ sharing, sameUnder sharing left right = same left right) ∧
    (same left right = true ↔ left = right) ∧
    (same left right = true ↔ left.tokens = right.tokens) ∧
    ∀ rest otherRest,
      left.tokens ++ rest = right.tokens ++ otherRest ↔
        left = right ∧ rest = otherRest := by
  have answer := same_eq_true_iff left right
  refine ⟨Comparison.answersAs_of_iff ?_, fun sharing => ?_, answer, ?_,
    tokens_append_eq_iff left right⟩
  · rw [answer, Comparison.Holds, List.forall_mem_singleton]
  · rw [Bool.eq_iff_iff, sameUnder_eq_true_iff, answer]
  · have whole := tokens_append_eq_iff left right [] []
    rwa [List.append_nil, List.append_nil, and_iff_left rfl, ← answer,
      Iff.comm] at whole

end Term

end RelationalSearch
