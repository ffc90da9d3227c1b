import RelationalSearch.Proofs.Search.Companion
import RelationalSearch.Proofs.Subst.Reopening

/-!
# New names for the parts of terms

Two searches agree although the one has names for the parts of a term already
and the other one has new ones, which it does not use for anything else.  If all
names are unbound as yet they are tied as they are (`Located.Tied.renew`).
Later, when the old names have been bound, the new ones are bound by the
unification that takes the term apart (`Located.Tied.reopen`).
-/

namespace RelationalSearch

/-! ## Names that are not in use -/

/-- The variables with numbers in the range are unbound and in no pair. -/
structure Located.Free
    (pairing : Pairing)
    (start : Located Subst)
    (low high : Nat) : Prop where
  minted : high ≤ start.place.supply
  unbound :
    ∀ x : Var, low ≤ x.id → x.id < high → start.value.lookup x = none
  unpaired : ∀ x : Var, low ≤ x.id → x.id < high → ∀ y, ¬ pairing x y

namespace Located.Free

variable {pairing more : Pairing} {start result : Located Subst}
  {low high : Nat}

theorem mono
    (free : start.Free pairing low high)
    {newLow newHigh : Nat}
    (lower : low ≤ newLow)
    (higher : newHigh ≤ high) :
    start.Free pairing newLow newHigh where
  minted := higher.trans free.minted
  unbound x above below := free.unbound x (by omega) (by omega)
  unpaired x above below := free.unpaired x (by omega) (by omega)

/-- A search leaves alone what is in no pair. -/
theorem onward
    (free : start.Free pairing low high)
    (onward : start.Onward pairing result)
    (fresh : ∀ x y, more x y → pairing x y ∨ start.place.supply ≤ x.id) :
    result.Free more low high where
  minted := free.minted.trans onward.minted
  unbound x above below :=
    onward.spares x (Nat.lt_of_lt_of_le below free.minted)
      (free.unpaired x above below) (free.unbound x above below)
  unpaired x above below y paired := by
    rcases fresh x y paired with before | minted
    · exact free.unpaired x above below y before
    · exact Nat.not_le_of_lt (Nat.lt_of_lt_of_le below free.minted) minted

/-- Names above those that have been bound stay unbound. -/
theorem kept
    (free : start.Free pairing low high)
    {newLow : Nat}
    (lower : low ≤ newLow)
    {subst : Subst}
    (unchanged :
      ∀ x : Var, newLow ≤ x.id → subst.lookup x = start.value.lookup x) :
    Located.Free pairing ⟨start.place, subst⟩ newLow high where
  minted := free.minted
  unbound x above below :=
    (unchanged x above).trans (free.unbound x (lower.trans above) below)
  unpaired x above below := free.unpaired x (lower.trans above) below

end Located.Free

/-! ## Names that become tied -/

namespace Ties

/-- Ties variables in a row that need not come to be bound together. -/
def equate (ties : Ties) (supply other count : Nat) : Ties where
  all := ties.all.extend supply other count
  roots := ties.roots

theorem extends_equate (ties : Ties) (supply other count : Nat) :
    ties.Extends (ties.equate supply other count) :=
  ⟨fun _ _ tied => .inl tied, fun _ _ root => root⟩

end Ties

/-- Variables in a row may be paired, if they are in no pair yet. -/
theorem Pairing.OneToOne.extend_of_unpaired
    {pairing : Pairing}
    {supply other count : Nat}
    (oneToOne : pairing.OneToOne)
    (unpaired :
      ∀ x : Var, supply ≤ x.id → x.id < supply + count → ∀ y, ¬ pairing x y)
    (otherUnpaired :
      ∀ y : Var, other ≤ y.id → y.id < other + count → ∀ x, ¬ pairing x y) :
    (pairing.extend supply other count).OneToOne := by
  constructor
  · rintro x y z (pairedY | ⟨index, less, xId, yId⟩)
      (pairedZ | ⟨otherIndex, otherLess, xAgain, zId⟩)
    · exact oneToOne.right_unique pairedY pairedZ
    · exact (unpaired x (by omega) (by omega) y pairedY).elim
    · exact (unpaired x (by omega) (by omega) z pairedZ).elim
    · have sameId : y.id = z.id := by omega
      cases y
      cases z
      cases sameId
      rfl
  · rintro x y z (pairedX | ⟨index, less, xId, zId⟩)
      (pairedY | ⟨otherIndex, otherLess, yId, zAgain⟩)
    · exact oneToOne.left_unique pairedX pairedY
    · exact (otherUnpaired z (by omega) (by omega) x pairedX).elim
    · exact (otherUnpaired z (by omega) (by omega) y pairedY).elim
    · have sameId : x.id = y.id := by omega
      cases x
      cases y
      cases sameId
      rfl

namespace Located

variable {ties : Ties} {start other : Located Subst} {supply next count : Nat}

/-- Names that are in use in neither search are tied as they are. -/
theorem Tied.renew
    (tied : Located.Tied ties start other)
    (free : start.Free ties.roots supply (supply + count))
    (otherFree : other.Free (flip ties.roots) next (next + count)) :
    Located.Tied (ties.extend supply next count) start other := by
  have oneToOne := tied.proper.oneToOne.extend_of_unpaired free.unpaired
    otherFree.unpaired
  have unbound {x y : Var}
      (new : ∃ index, index < count ∧ x.id = supply + index ∧
        y.id = next + index) :
      start.value.lookup x = none ∧ other.value.lookup y = none := by
    rcases new with ⟨index, less, xId, yId⟩
    exact ⟨free.unbound x (by omega) (by omega),
      otherFree.unbound y (by omega) (by omega)⟩
  refine ⟨?_, ⟨oneToOne, ?_, ?_⟩, tied.held, tied.otherHeld⟩
  · refine tied.agree.add oneToOne (fun _ _ root => .inl root) ?_ ?_
    · exact fun x y root => root.imp_right unbound
    · refine fun x y paired => paired.imp_right fun new => ?_
      exact Subst.shown_of_unbound tied.held.acyclic tied.otherHeld.acyclic
        (.inr new) (unbound new).1 (unbound new).2
  · exact fun x y => Or.imp_left (tied.proper.included x y)
  · rintro x y (paired | ⟨index, less, xId, yId⟩)
    · exact tied.proper.within x y paired
    · have minted := free.minted
      have otherMinted := otherFree.minted
      exact ⟨by omega, by omega⟩

/--
A cell whose parts have names is taken apart once more.  The other search gives
them new names, which are tied to the old ones.
-/
theorem Tied.reopen
    (tied : Located.Tied ties start other)
    (minted : supply + 2 ≤ start.place.supply)
    (free : other.Free (flip ties.roots) next (next + 2))
    {whole otherWhole : Term}
    (wholes : Term.Alike ties.all whole otherWhole)
    (named :
      start.value.reify (.cons (.var ⟨supply⟩) (.var ⟨supply + 1⟩)) =
        start.value.reify whole) :
    ∃ opened,
      other.value.unify (.cons (.var ⟨next⟩) (.var ⟨next + 1⟩)) otherWhole =
          some opened ∧
        Located.Tied (ties.equate supply next 2) start
          ⟨other.place, opened⟩ ∧
        other.value.Grows opened ∧
        ∀ z : Var, next + 2 ≤ z.id →
          opened.lookup z = other.value.lookup z := by
  have acyclic := tied.held.acyclic
  have otherAcyclic := tied.otherHeld.acyclic
  have unbound (index : Nat) (less : index < 2) :=
    free.unbound ⟨next + index⟩ (Nat.le_add_right _ _)
      (Nat.add_lt_add_left less next)
  -- The new names do not show in what is like a term of the other search.
  have hidden (index : Nat) (less : index < 2) {term otherTerm : Term}
      (shown : Term.Alike ties.roots term otherTerm) :
      (⟨next + index⟩ : Var) ∉ otherTerm.vars := by
    intro member
    rcases (Term.Alike.flip shown).exists_mem_vars member with ⟨x, _, paired⟩
    exact free.unpaired ⟨next + index⟩ (Nat.le_add_right _ _)
      (Nat.add_lt_add_left less next) x paired
  have shown : Term.Alike ties.roots _ _ := tied.agree.reify wholes
  have parts := shown
  rw [← named, Subst.reify_cons acyclic] at parts
  generalize cell : other.value.reify otherWhole = otherCell at parts
  rcases parts with _ | _ | _ | ⟨heads, tails⟩ | _
  rcases Subst.exists_parted otherAcyclic (unbound 0 (by omega))
      (unbound 1 (by omega)) (by simp) cell (hidden 0 (by omega) shown)
      (hidden 1 (by omega) shown) with
    ⟨opened, success, parted⟩
  have otherMinted := free.minted
  have held : opened.Within other.place.supply :=
    tied.otherHeld.unify (by simp [Term.ceiling]; omega)
      (wholes.ceiling_le tied.proper.within) success
  have kept {term otherTerm : Term}
      (shown : start.value.Shown ties.roots other.value term otherTerm) :
      start.value.Shown ties.roots opened term otherTerm := by
    rw [Subst.Shown, parted.reify_eq otherAcyclic (hidden 0 (by omega) shown)
      (hidden 1 (by omega) shown)]
    exact shown
  have elsewhere (y : Var) (notFirst : y ≠ ⟨next⟩)
      (notSecond : y ≠ ⟨next + 1⟩) :
      opened.lookup y = other.value.lookup y :=
    parted.lookup_eq y notFirst notSecond
  refine ⟨opened, success, ⟨?_, ?_, tied.held, held⟩, parted.grows, ?_⟩
  · refine ⟨acyclic, parted.grows.acyclic, tied.agree.oneToOne, ?_, ?_⟩
    · intro x y root
      have apart (index : Nat) (less : index < 2) : y ≠ ⟨next + index⟩ := by
        rintro rfl
        exact free.unpaired _ (Nat.le_add_right _ _)
          (Nat.add_lt_add_left less next) x root
      rw [elsewhere y (apart 0 (by omega)) (apart 1 (by omega))]
      exact tied.agree.unbound_iff root
    · rintro ⟨x⟩ ⟨y⟩ (before | ⟨index, less, xId, yId⟩)
      · exact kept (tied.agree.reify_var before)
      · cases xId
        cases yId
        have either : index = 0 ∨ index = 1 := by omega
        rcases either with rfl | rfl
        · exact parted.head_eq ▸ heads
        · exact parted.tail_eq ▸ tails
  · refine ⟨tied.proper.oneToOne, fun x y root => .inl
      (tied.proper.included x y root), ?_⟩
    rintro x y (paired | ⟨index, less, xId, yId⟩)
    · exact tied.proper.within x y paired
    · exact ⟨by omega, by change y.id < other.place.supply; omega⟩
  · rintro ⟨z⟩ (above : next + 2 ≤ z)
    exact elsewhere ⟨z⟩ (by simp; omega) (by simp; omega)

end Located

end RelationalSearch
