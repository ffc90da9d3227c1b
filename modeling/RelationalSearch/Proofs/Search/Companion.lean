import RelationalSearch.Proofs.Search.Matching
import RelationalSearch.Proofs.Search.Relocation
import RelationalSearch.Proofs.Search.Tied

/-!
# Searches of tied goals

The located searches of two tied goals match, whatever the gaps
(`Goal.Tied.explore`).  Their results agree again, once the variables are tied
that have been minted on the way (`Located.Later`), and the searches have bound
roots only.
-/

namespace RelationalSearch

variable {Code : Type}

/-! ## Places of two searches -/

/-- The substitutions agree, and all that is tied has been minted. -/
structure Located.Tied (ties : Ties) (start other : Located Subst) : Prop where
  agree : start.value.Agree ties other.value
  proper : ties.Proper start.place.supply other.place.supply
  held : start.Held
  otherHeld : other.Held

/--
No variables of a substitution have been bound on the way to another one but
those that were paired, and those that have been minted on the way.
-/
structure Located.Onward
    (pairing : Pairing)
    (start result : Located Subst) : Prop where
  minted : start.place.supply ≤ result.place.supply
  grows : start.value.Grows result.value
  spares :
    ∀ x : Var, x.id < start.place.supply → (∀ y, ¬ pairing x y) →
      start.value.lookup x = none → result.value.lookup x = none

/-- Two searches have gone on, and tied the variables that both have minted. -/
structure Located.Later
    (ties larger : Ties)
    (start other result otherResult : Located Subst) : Prop where
  widens : ties.Extends larger
  tied : Located.Tied larger result otherResult
  fresh :
    ∀ x y, larger.roots x y →
      ties.roots x y ∨
        start.place.supply ≤ x.id ∧ other.place.supply ≤ y.id
  onward : start.Onward ties.roots result
  otherOnward : other.Onward (flip ties.roots) otherResult

/-- Two searches have gone on alike. -/
def Located.Follow (ties : Ties) (start other : Located Subst) : Correlation :=
  fun result otherResult =>
    ∃ larger : Ties, Located.Later ties larger start other result otherResult

namespace Located

variable {ties larger largest : Ties} {pairing : Pairing}
  {start other middle otherMiddle result otherResult : Located Subst}

theorem Onward.refl (held : start.Held) : start.Onward pairing start where
  minted := Nat.le_refl _
  grows := .refl held.acyclic
  spares _ _ _ unbound := unbound

/-- Later pairs are of variables minted in the meantime. -/
theorem Onward.trans
    {more : Pairing}
    (first : start.Onward pairing middle)
    (second : middle.Onward more result)
    (fresh :
      ∀ x y, more x y → pairing x y ∨ start.place.supply ≤ x.id) :
    start.Onward pairing result where
  minted := first.minted.trans second.minted
  grows := first.grows.trans second.grows
  spares x below free unbound := by
    refine second.spares x (Nat.lt_of_lt_of_le below first.minted) ?_
      (first.spares x below free unbound)
    intro y paired
    rcases fresh x y paired with before | above
    · exact free y before
    · exact Nat.not_le_of_lt below above

theorem Tied.later (tied : Located.Tied ties start other) :
    Later ties ties start other start other where
  widens := .refl ties
  tied := tied
  fresh _ _ root := .inl root
  onward := .refl tied.held
  otherOnward := .refl tied.otherHeld

/-- A turn into a disjunction changes nothing but the place. -/
theorem Tied.turn
    (tied : Located.Tied ties start other)
    (place otherPlace : Place)
    (same : place.supply = start.place.supply)
    (otherSame : otherPlace.supply = other.place.supply) :
    Later ties ties start other ⟨place, start.value⟩
      ⟨otherPlace, other.value⟩ where
  widens := .refl ties
  tied :=
    ⟨tied.agree, tied.proper.mono same.ge otherSame.ge,
      tied.held.mono same.ge, tied.otherHeld.mono otherSame.ge⟩
  fresh _ _ root := .inl root
  onward := ⟨same.ge, .refl tied.held.acyclic, fun _ _ _ free => free⟩
  otherOnward :=
    ⟨otherSame.ge, .refl tied.otherHeld.acyclic, fun _ _ _ free => free⟩

theorem Later.trans
    (first : Later ties larger start other middle otherMiddle)
    (second : Later larger largest middle otherMiddle result otherResult) :
    Later ties largest start other result otherResult where
  widens := first.widens.trans second.widens
  tied := second.tied
  fresh x y root := by
    rcases second.fresh x y root with before | above
    · exact first.fresh x y before
    · exact .inr ⟨first.onward.minted.trans above.1,
        first.otherOnward.minted.trans above.2⟩
  onward := first.onward.trans second.onward fun x y root =>
    (first.fresh x y root).imp_right And.left
  otherOnward := first.otherOnward.trans second.otherOnward fun x y root =>
    (first.fresh y x root).imp_right And.right

theorem Later.follow
    (later : Later ties larger start other middle otherMiddle)
    (follow : Follow larger middle otherMiddle result otherResult) :
    Follow ties start other result otherResult := by
  rcases follow with ⟨largest, further⟩
  exact ⟨largest, later.trans further⟩

/-! ## Steps of the searches -/

/-- Unifying tied terms leads on alike, or nowhere. -/
theorem Tied.unify
    (tied : Located.Tied ties start other)
    {left right otherLeft otherRight : Term}
    (lefts : Term.Alike ties.all left otherLeft)
    (rights : Term.Alike ties.all right otherRight) :
    Option.Rel
      (fun extended otherExtended =>
        Later ties ties start other ⟨start.place, extended⟩
          ⟨other.place, otherExtended⟩)
      (start.value.unify left right)
      (other.value.unify otherLeft otherRight) := by
  have outcomes := tied.agree.unify (tied.agree.reify lefts)
    (tied.agree.reify rights)
  have within := tied.proper.within
  have flipped : Pairing.Within (flip ties.all) other.place.supply
      start.place.supply :=
    fun x y paired => (within y x paired).symm
  have held {extended}
      (success : start.value.unify left right = some extended) :
      extended.Within start.place.supply :=
    tied.held.unify (lefts.flip.ceiling_le flipped)
      (rights.flip.ceiling_le flipped) success
  have grows {extended}
      (success : start.value.unify left right = some extended) :
      start.value.Grows extended :=
    tied.held.acyclic.grows_of_unify success
  have otherHeld {extended}
      (success : other.value.unify otherLeft otherRight = some extended) :
      extended.Within other.place.supply :=
    tied.otherHeld.unify (lefts.ceiling_le within) (rights.ceiling_le within)
      success
  have otherGrows {extended}
      (success : other.value.unify otherLeft otherRight = some extended) :
      other.value.Grows extended :=
    tied.otherHeld.acyclic.grows_of_unify success
  generalize start.value.unify left right = outcome at *
  generalize other.value.unify otherLeft otherRight = otherOutcome at *
  cases outcomes with
  | none => exact .none
  | some later =>
    refine .some ⟨.refl ties, ⟨later.agree, tied.proper, held rfl,
      otherHeld rfl⟩, fun _ _ root => .inl root, ?_, ?_⟩
    · exact ⟨Nat.le_refl _, grows rfl, fun x _ => later.spares x⟩
    · exact ⟨Nat.le_refl _, otherGrows rfl, fun x _ => later.otherSpares x⟩

/-- Variables that are minted in both searches are tied. -/
theorem Tied.mint
    (tied : Located.Tied ties start other)
    {supply otherSupply : Nat}
    (enough : start.place.supply ≤ supply)
    (otherEnough : other.place.supply ≤ otherSupply)
    (count : Nat) :
    Later ties (ties.extend supply otherSupply count) start other
      ⟨start.place.built (supply + count), start.value⟩
      ⟨other.place.built (otherSupply + count), other.value⟩ := by
  have below : start.place.supply ≤ supply + count := by omega
  have otherBelow : other.place.supply ≤ otherSupply + count := by omega
  have proper := (tied.proper.mono enough otherEnough).extend count
  have fresh {x y : Var}
      (new : ∃ index, index < count ∧ x.id = supply + index ∧
        y.id = otherSupply + index) :
      start.place.supply ≤ x.id ∧ other.place.supply ≤ y.id := by
    rcases new with ⟨index, _, xId, yId⟩
    exact ⟨by omega, by omega⟩
  have unbound {x y : Var}
      (new : ∃ index, index < count ∧ x.id = supply + index ∧
        y.id = otherSupply + index) :
      start.value.lookup x = none ∧ other.value.lookup y = none :=
    ⟨tied.held.lookup_eq_none (fresh new).1,
      tied.otherHeld.lookup_eq_none (fresh new).2⟩
  have agree : start.value.Agree (ties.extend supply otherSupply count)
      other.value := by
    refine tied.agree.add proper.oneToOne (fun _ _ root => .inl root) ?_ ?_
    · exact fun x y root => root.imp_right unbound
    · refine fun x y paired => paired.imp_right fun new => ?_
      exact Subst.shown_of_unbound tied.held.acyclic tied.otherHeld.acyclic
        (.inr new) (unbound new).1 (unbound new).2
  refine ⟨ties.extends_extend _ _ _, ⟨agree, proper, ?_, ?_⟩, ?_, ?_, ?_⟩
  · exact tied.held.mono below
  · exact tied.otherHeld.mono otherBelow
  · exact fun x y root => root.imp_right fresh
  · exact ⟨below, .refl tied.held.acyclic, fun _ _ _ free => free⟩
  · exact ⟨otherBelow, .refl tied.otherHeld.acyclic, fun _ _ _ free => free⟩

/-- Building goals with as many variables leads on alike. -/
theorem Tied.enter
    {gaps otherGaps : Gaps}
    {recipe otherRecipe : Recipe (Goal Code)}
    (tied : Located.Tied ties start other)
    (sameCount :
      (recipe.made (start.place.opening gaps)).2 - start.place.opening gaps =
        (otherRecipe.made (other.place.opening otherGaps)).2 -
          other.place.opening otherGaps) :
    Later ties
      (ties.extend (start.place.opening gaps) (other.place.opening otherGaps)
        ((recipe.made (start.place.opening gaps)).2 -
          start.place.opening gaps))
      start other (start.enter gaps recipe)
      (other.enter otherGaps otherRecipe) := by
  have minted := recipe.le_made (start.place.opening gaps)
  have otherMinted := otherRecipe.le_made (other.place.opening otherGaps)
  have later := tied.mint (start.place.le_opening gaps)
    (other.place.le_opening otherGaps)
    ((recipe.made (start.place.opening gaps)).2 - start.place.opening gaps)
  rw [Nat.add_sub_cancel' minted, sameCount,
    Nat.add_sub_cancel' otherMinted, ← sameCount] at later
  exact later

end Located

/-! ## Goals -/

section Explore

variable {goalOf : Code → Recipe (Goal Code)}
  {codes : Ties → Code → Code → Prop} {ties : Ties}
  {goal other : Goal Code}

/-- What follows later starts follows the starts. -/
theorem Located.Later.matched
    {gaps otherGaps : Gaps}
    {depth : Nat}
    {larger : Ties}
    {start otherStart middle otherMiddle : Located Subst}
    {stream otherStream : Branches Code}
    (later : Located.Later ties larger start otherStart middle otherMiddle)
    (matched :
      Branches.MatchedTo goalOf gaps otherGaps depth
        (Located.Follow larger middle otherMiddle) stream otherStream) :
    Branches.MatchedTo goalOf gaps otherGaps depth
      (Located.Follow ties start otherStart) stream otherStream :=
  matched.imp (Nat.le_refl depth) fun _ _ => later.follow

/-- Terms that are unified stand for the same where the searches go on. -/
theorem Located.Tied.matched_eq
    {gaps otherGaps : Gaps}
    {depth : Nat}
    {start otherStart : Located Subst}
    (starts : Located.Tied ties start otherStart)
    {left right otherLeft otherRight : Term}
    (lefts : Term.Alike ties.all left otherLeft)
    (rights : Term.Alike ties.all right otherRight) :
    Branches.MatchedTo goalOf gaps otherGaps depth
      (fun result otherResult =>
        Located.Later ties ties start otherStart result otherResult ∧
          result.value.reify left = result.value.reify right)
      ((Goal.eq left right).explore gaps start)
      ((Goal.eq otherLeft otherRight).explore otherGaps otherStart) := by
  refine Branches.MatchedTo.eq
    (rel_imp (rel_with_eq (starts.unify lefts rights)) ?_)
  rintro extended otherExtended ⟨success, later⟩
  exact ⟨⟨later.tied.held, later.tied.otherHeld⟩, later,
    Subst.reify_eq_of_unify starts.held.acyclic success⟩

/-- The tasks that two deferred goals leave match. -/
def DeferredMatched
    (goalOf : Code → Recipe (Goal Code))
    (codes : Ties → Code → Code → Prop)
    (gaps otherGaps : Gaps)
    (depth : Nat) : Prop :=
  ∀ {ties : Ties} {code otherCode : Code} {start other : Located Subst},
    codes ties code otherCode →
      Located.Tied ties start other →
        Task.Matched goalOf gaps otherGaps depth
          (Located.Follow ties start other)
          ⟨start.place, .deferred code start.value⟩
          ⟨other.place, .deferred otherCode other.value⟩

/-- Tied goals lead to matching searches, if goals put off do. -/
theorem Goal.Tied.explore_of_deferred
    (tiedCodes : TiedCodes goalOf codes)
    {gaps otherGaps : Gaps}
    {depth : Nat}
    (deferred : DeferredMatched goalOf codes gaps otherGaps depth)
    (goals : Goal.Tied codes ties goal other)
    {larger : Ties}
    (widens : ties.Extends larger)
    {start otherStart : Located Subst}
    (starts : Located.Tied larger start otherStart) :
    Branches.MatchedTo goalOf gaps otherGaps depth
      (Located.Follow larger start otherStart)
      (goal.explore gaps start) (other.explore otherGaps otherStart) := by
  induction goals generalizing larger start otherStart with
  | eq lefts rights =>
    exact (starts.matched_eq (lefts.mono widens.all)
      (rights.mono widens.all)).imp (Nat.le_refl depth)
        fun _ _ both => ⟨larger, both.1⟩
  | succeed =>
    exact Branches.MatchedTo.unit ⟨starts.held, starts.otherHeld⟩
      ⟨larger, starts.later⟩
  | fail => exact .empty
  | both _ _ firstIH secondIH =>
    refine Branches.MatchedTo.both (firstIH widens starts) ?_
    rintro middle otherMiddle ⟨largest, later⟩
    exact later.matched (secondIH (widens.trans later.widens) later.tied)
  | either _ _ leftIH rightIH =>
    have left := starts.turn start.place.left otherStart.place.left rfl rfl
    have right := starts.turn start.place.right otherStart.place.right rfl rfl
    exact Branches.MatchedTo.either
      (left.matched (leftIH widens left.tied))
      (right.matched (rightIH widens right.tied))
  | ordered _ _ leftIH rightIH =>
    have left := starts.turn start.place.left otherStart.place.left rfl rfl
    have right := starts.turn start.place.right otherStart.place.right rfl rfl
    exact Branches.MatchedTo.ordered ⟨starts.held, starts.otherHeld⟩
      (left.matched (leftIH widens left.tied))
      (right.matched (rightIH widens right.tied))
  | defer same =>
    exact .suspended (deferred (tiedCodes.mono widens same) starts)
  | @dynamic ties builder otherBuilder counts parts partsIH =>
    rw [explore_dynamic, explore_dynamic]
    have proper := starts.proper.mono (start.place.le_opening gaps)
      (otherStart.place.le_opening otherGaps)
    have later := starts.enter (counts ⟨widens, proper⟩ starts.agree)
    exact later.matched
      (partsIH ⟨widens, proper⟩ starts.agree (.refl _) later.tied)

/-- Tied goals lead to matching searches, whatever the gaps. -/
theorem Goal.Tied.explore
    (tiedCodes : TiedCodes goalOf codes)
    (goals : Goal.Tied codes ties goal other)
    (gaps otherGaps : Gaps)
    (depth : Nat)
    {start otherStart : Located Subst}
    (starts : Located.Tied ties start otherStart) :
    Branches.MatchedTo goalOf gaps otherGaps depth
      (Located.Follow ties start otherStart)
      (goal.explore gaps start) (other.explore otherGaps otherStart) := by
  -- By induction on the suspensions that may be forced on the way.
  have deferred : DeferredMatched goalOf codes gaps otherGaps depth := by
    induction depth with
    | zero => exact fun _ starts => ⟨starts.held, starts.otherHeld⟩
    | succ depth ih =>
      intro ties code otherCode start otherStart same starts
      have proper := starts.proper.mono (start.place.le_opening gaps)
        (otherStart.place.le_opening otherGaps)
      rcases tiedCodes.unfolds same proper.growth with ⟨sameCount, built⟩
      have later := starts.enter sameCount
      refine ⟨⟨starts.held, starts.otherHeld⟩, ?_⟩
      exact later.matched
        (built.explore_of_deferred tiedCodes ih (.refl _) later.tied)
  exact goals.explore_of_deferred tiedCodes deferred (.refl ties) starts

end Explore

end RelationalSearch
