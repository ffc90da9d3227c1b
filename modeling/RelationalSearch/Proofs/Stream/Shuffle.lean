import Mathlib.Data.List.Forall2
import Mathlib.Data.List.Perm.Basic

/-!
# Lists whose elements take turns

Where branches of a search take turns, the results of each branch keep their
order, and nothing is said of the order between branches.  `Shuffle` merges two
lists in this way and `ShuffleAll` any number of lists.
-/

namespace RelationalSearch

variable {α β : Type}

/-- The third list has the elements of the others, each list in its order. -/
inductive Shuffle : List α → List α → List α → Prop where
  | nil : Shuffle [] [] []
  | left
      {element : α} {first second all : List α}
      (rest : Shuffle first second all) :
      Shuffle (element :: first) second (element :: all)
  | right
      {element : α} {first second all : List α}
      (rest : Shuffle first second all) :
      Shuffle first (element :: second) (element :: all)

namespace Shuffle

variable {first second all : List α}

theorem nil_left (list : List α) : Shuffle [] list list := by
  induction list with
  | nil => exact .nil
  | cons element list ih => exact .right ih

theorem nil_right (list : List α) : Shuffle list [] list := by
  induction list with
  | nil => exact .nil
  | cons element list ih => exact .left ih

theorem symm (shuffle : Shuffle first second all) :
    Shuffle second first all := by
  induction shuffle with
  | nil => exact .nil
  | left _ ih => exact .right ih
  | right _ ih => exact .left ih

/-- What comes before two lists may be shuffled by itself. -/
theorem append
    {firstRest secondRest allRest : List α}
    (shuffle : Shuffle first second all)
    (rest : Shuffle firstRest secondRest allRest) :
    Shuffle (first ++ firstRest) (second ++ secondRest) (all ++ allRest) := by
  induction shuffle with
  | nil => exact rest
  | left _ ih => exact .left ih
  | right _ ih => exact .right ih

theorem perm (shuffle : Shuffle first second all) :
    all.Perm (first ++ second) := by
  induction shuffle with
  | nil => exact .nil
  | left _ ih => exact ih.cons _
  | right _ ih => exact (ih.cons _).trans List.perm_middle.symm

/-- Elements that correspond to those of two lists are shuffled like these. -/
theorem exists_forall₂
    {related : α → β → Prop}
    {others moreOthers : List β}
    (shuffle : Shuffle first second all)
    (onFirst : List.Forall₂ related first others)
    (onSecond : List.Forall₂ related second moreOthers) :
    ∃ allOthers,
      Shuffle others moreOthers allOthers ∧
        List.Forall₂ related all allOthers := by
  induction shuffle generalizing others moreOthers with
  | nil =>
    cases onFirst
    cases onSecond
    exact ⟨[], .nil, .nil⟩
  | left _ ih =>
    cases onFirst with
    | cons here onFirst =>
      rcases ih onFirst onSecond with ⟨allOthers, shuffled, onAll⟩
      exact ⟨_, .left shuffled, .cons here onAll⟩
  | right _ ih =>
    cases onSecond with
    | cons here onSecond =>
      rcases ih onFirst onSecond with ⟨allOthers, shuffled, onAll⟩
      exact ⟨_, .right shuffled, .cons here onAll⟩

/-- What holds within each list, and between the lists, holds throughout. -/
theorem pairwise
    {before : α → α → Prop}
    (shuffle : Shuffle first second all)
    (inFirst : first.Pairwise before)
    (inSecond : second.Pairwise before)
    (between :
      ∀ one ∈ first, ∀ other ∈ second, before one other ∧ before other one) :
    all.Pairwise before := by
  induction shuffle with
  | nil => exact .nil
  | left rest ih =>
    rw [List.pairwise_cons] at inFirst ⊢
    rw [List.forall_mem_cons] at between
    refine ⟨?_, ih inFirst.2 inSecond between.2⟩
    intro other member
    rcases List.mem_append.mp (rest.perm.mem_iff.mp member) with own | foreign
    · exact inFirst.1 other own
    · exact (between.1 other foreign).1
  | right rest ih =>
    rw [List.pairwise_cons] at inSecond ⊢
    refine ⟨?_, ih inFirst inSecond.2 fun one member other otherMember =>
      between one member other (List.mem_cons_of_mem _ otherMember)⟩
    intro other member
    rcases List.mem_append.mp (rest.perm.mem_iff.mp member) with foreign | own
    · exact (between other foreign _ List.mem_cons_self).2
    · exact inSecond.1 other own

end Shuffle

/-! ## Any number of lists -/

/-- The list has the elements of all of the lists, each list in its order. -/
inductive ShuffleAll : List (List α) → List α → Prop where
  | nil : ShuffleAll [] []
  | cons
      {list others all : List α} {lists : List (List α)}
      (rest : ShuffleAll lists others)
      (merged : Shuffle list others all) :
      ShuffleAll (list :: lists) all

namespace ShuffleAll

variable {lists : List (List α)} {all : List α}

theorem perm (shuffle : ShuffleAll lists all) : all.Perm lists.flatten := by
  induction shuffle with
  | nil => exact .nil
  | cons _ merged ih => exact merged.perm.trans (ih.append_left _)

theorem exists_forall₂
    {related : α → β → Prop}
    {others : List (List β)}
    (shuffle : ShuffleAll lists all)
    (onLists : List.Forall₂ (List.Forall₂ related) lists others) :
    ∃ allOthers,
      ShuffleAll others allOthers ∧ List.Forall₂ related all allOthers := by
  induction shuffle generalizing others with
  | nil =>
    cases onLists
    exact ⟨[], .nil, .nil⟩
  | cons _ merged ih =>
    cases onLists with
    | cons onList onLists =>
      rcases ih onLists with ⟨rest, shuffled, onRest⟩
      rcases merged.exists_forall₂ onList onRest with
        ⟨allOthers, mergedOthers, onAll⟩
      exact ⟨allOthers, .cons shuffled mergedOthers, onAll⟩

theorem pairwise
    {before : α → α → Prop}
    (shuffle : ShuffleAll lists all)
    (inside : ∀ list ∈ lists, list.Pairwise before)
    (between :
      lists.Pairwise fun list other =>
        ∀ one ∈ list, ∀ another ∈ other,
          before one another ∧ before another one) :
    all.Pairwise before := by
  induction shuffle with
  | nil => exact .nil
  | cons rest merged ih =>
    rw [List.forall_mem_cons] at inside
    rw [List.pairwise_cons] at between
    refine merged.pairwise inside.1 (ih inside.2 between.2) ?_
    intro one member another otherMember
    rcases List.mem_flatten.mp (rest.perm.mem_iff.mp otherMember) with
      ⟨list, listed, inList⟩
    exact between.1 list listed one member another inList

end ShuffleAll

end RelationalSearch
