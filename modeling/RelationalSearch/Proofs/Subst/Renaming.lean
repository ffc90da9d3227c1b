import Mathlib.Data.List.Forall2
import Mathlib.Data.Option.Basic
import RelationalSearch.Subst.Unify

/-!
# Renaming variables

A pairing says which variables correspond to each other.  Two terms are alike
if they differ in paired variables only, and two substitutions are alike if
they bind paired variables to alike terms and bind no others.

Unification does not look at the numbers of variables.  So it maps alike
substitutions and alike terms to alike outcomes, with the same numbers of steps
(`Subst.Alike.unify`).
-/

namespace RelationalSearch

/-- Pairs of variables that correspond to each other. -/
abbrev Pairing := Var → Var → Prop

/-- Each variable corresponds to at most one. -/
structure Pairing.OneToOne (pairing : Pairing) : Prop where
  right_unique :
    ∀ {x y z : Var}, pairing x y → pairing x z → y = z
  left_unique :
    ∀ {x y z : Var}, pairing x z → pairing y z → x = y

theorem Pairing.OneToOne.eq_iff
    {pairing : Pairing}
    (oneToOne : pairing.OneToOne)
    {x y other otherY : Var}
    (paired : pairing x other)
    (pairedY : pairing y otherY) :
    x = y ↔ other = otherY := by
  constructor
  · rintro rfl
    exact oneToOne.right_unique paired pairedY
  · rintro rfl
    exact oneToOne.left_unique paired pairedY

theorem exists_eq_some_of_rel
    {α β : Type}
    {related : α → β → Prop}
    {value : α}
    {other : Option β}
    (alike : Option.Rel related (some value) other) :
    ∃ otherValue, other = some otherValue ∧ related value otherValue := by
  rcases alike with ⟨same⟩
  exact ⟨_, rfl, same⟩

theorem eq_none_of_rel
    {α β : Type}
    {related : α → β → Prop}
    {other : Option β}
    (alike : Option.Rel related none other) :
    other = none := by
  cases alike
  rfl

theorem rel_imp
    {α β : Type}
    {related weaker : α → β → Prop}
    {option : Option α}
    {other : Option β}
    (alike : Option.Rel related option other)
    (weakens : ∀ value otherValue, related value otherValue →
      weaker value otherValue) :
    Option.Rel weaker option other := by
  cases alike with
  | none => exact .none
  | some same => exact .some (weakens _ _ same)

/-- Related options have their values at hand. -/
theorem rel_with_eq
    {α β : Type}
    {related : α → β → Prop}
    {option : Option α}
    {other : Option β}
    (alike : Option.Rel related option other) :
    Option.Rel
      (fun value otherValue => option = some value ∧ related value otherValue)
      option other := by
  cases alike with
  | none => exact .none
  | some same => exact .some ⟨rfl, same⟩

/-! ## Terms -/

/-- The terms differ in paired variables only. -/
inductive Term.Alike (pairing : Pairing) : Term → Term → Prop where
  | var {x y : Var} (paired : pairing x y) :
      Alike pairing (.var x) (.var y)
  | int (value : Int64) : Alike pairing (.int value) (.int value)
  | sym (name : String) : Alike pairing (.sym name) (.sym name)
  | cons
      {head tail otherHead otherTail : Term}
      (heads : Alike pairing head otherHead)
      (tails : Alike pairing tail otherTail) :
      Alike pairing (.cons head tail) (.cons otherHead otherTail)
  | nil (kind : SeqKind) : Alike pairing (.nil kind) (.nil kind)

namespace Term.Alike

variable {pairing : Pairing} {term other : Term}

theorem mono
    (alike : Term.Alike pairing term other)
    {larger : Pairing}
    (included : ∀ x y, pairing x y → larger x y) :
    Term.Alike larger term other := by
  induction alike with
  | var paired => exact .var (included _ _ paired)
  | int value => exact .int value
  | sym name => exact .sym name
  | cons _ _ headIH tailIH => exact .cons headIH tailIH
  | nil kind => exact .nil kind

theorem isGround_eq (alike : Term.Alike pairing term other) :
    term.isGround = other.isGround := by
  induction alike with
  | cons _ _ headIH tailIH => simp [headIH, tailIH]
  | var | int | sym | nil => rfl

end Term.Alike

namespace Subst

/-- Both terms are missing, or none is and they are alike. -/
abbrev AlikeTerms (pairing : Pairing) : Option Term → Option Term → Prop :=
  Option.Rel (Term.Alike pairing)

theorem AlikeTerms.mono
    {pairing larger : Pairing}
    {term other : Option Term}
    (alike : AlikeTerms pairing term other)
    (included : ∀ x y, pairing x y → larger x y) :
    AlikeTerms larger term other := by
  cases alike with
  | some terms => exact .some (terms.mono included)
  | none => exact .none

/--
The substitutions bind paired variables to alike terms, and no other variables.
-/
structure Alike (pairing : Pairing) (subst other : Subst) : Prop where
  lookup :
    ∀ {x y : Var}, pairing x y →
      AlikeTerms pairing (subst.lookup x) (other.lookup y)
  left_covered :
    ∀ {x : Var}, (∀ y, ¬ pairing x y) → subst.lookup x = none
  right_covered :
    ∀ {y : Var}, (∀ x, ¬ pairing x y) → other.lookup y = none
  size_eq : subst.size = other.size

variable {pairing : Pairing} {subst other : Subst}

/-- Substitutions stay alike when pairs are added. -/
theorem Alike.mono
    (alike : subst.Alike pairing other)
    {larger : Pairing}
    (oneToOne : larger.OneToOne)
    (included : ∀ x y, pairing x y → larger x y) :
    subst.Alike larger other := by
  constructor
  · intro x y paired
    by_cases old : pairing x y
    · exact AlikeTerms.mono (alike.lookup old) included
    · -- A pair that is new is of variables that were not paired before.
      have leftFree : ∀ z, ¬ pairing x z := by
        intro z pairedBefore
        cases oneToOne.right_unique paired (included _ _ pairedBefore)
        exact old pairedBefore
      have rightFree : ∀ z, ¬ pairing z y := by
        intro z pairedBefore
        cases oneToOne.left_unique paired (included _ _ pairedBefore)
        exact old pairedBefore
      rw [alike.left_covered leftFree, alike.right_covered rightFree]
      exact .none
  · intro x free
    exact alike.left_covered fun y paired => free y (included _ _ paired)
  · intro y free
    exact alike.right_covered fun x paired => free x (included _ _ paired)
  · exact alike.size_eq

theorem Alike.bind
    (alike : subst.Alike pairing other)
    (oneToOne : pairing.OneToOne)
    {x y : Var}
    (paired : pairing x y)
    {term otherTerm : Term}
    (terms : Term.Alike pairing term otherTerm)
    (unbound : subst.lookup x = none) :
    (subst.bind x term).Alike pairing (other.bind y otherTerm) := by
  have otherUnbound : other.lookup y = none := by
    have lookups := alike.lookup paired
    rw [unbound] at lookups
    cases found : other.lookup y with
    | none => rfl
    | some value =>
      rw [found] at lookups
      cases lookups
  constructor
  · intro z otherZ pairedZ
    rw [lookup_bind, lookup_bind]
    by_cases same : x = z
    · rw [if_pos same, if_pos ((oneToOne.eq_iff paired pairedZ).mp same)]
      exact .some terms
    · have different : y ≠ otherZ := by
        intro equal
        exact same ((oneToOne.eq_iff paired pairedZ).mpr equal)
      rw [if_neg same, if_neg different]
      exact alike.lookup pairedZ
  · intro z free
    have different : x ≠ z := by
      rintro rfl
      exact free y paired
    rw [lookup_bind_of_ne _ _ different]
    exact alike.left_covered free
  · intro z free
    have different : y ≠ z := by
      rintro rfl
      exact free x paired
    rw [lookup_bind_of_ne _ _ different]
    exact alike.right_covered free
  · rw [size_bind_of_lookup_eq_none unbound,
      size_bind_of_lookup_eq_none otherUnbound, alike.size_eq]

/-! ## Following bindings -/

/-- What is left of a budget, and the term reached with it. -/
abbrev AlikeEnds (pairing : Pairing) :
    Option (Nat × Term) → Option (Nat × Term) → Prop :=
  Option.Rel fun reached other =>
    reached.1 = other.1 ∧ Term.Alike pairing reached.2 other.2

theorem AlikeEnds.exists_eq_some
    {pairing : Pairing}
    {rest : Nat}
    {found : Term}
    {other : Option (Nat × Term)}
    (alike : AlikeEnds pairing (some (rest, found)) other) :
    ∃ otherFound, other = some (rest, otherFound) ∧
      Term.Alike pairing found otherFound := by
  rcases exists_eq_some_of_rel alike with ⟨⟨_, otherFound⟩, rfl, rfl, terms⟩
  exact ⟨otherFound, rfl, terms⟩

theorem Alike.next?
    (alike : subst.Alike pairing other)
    {term otherTerm : Term}
    (terms : Term.Alike pairing term otherTerm) :
    AlikeTerms pairing (subst.next? term) (other.next? otherTerm) := by
  cases terms with
  | var paired => exact alike.lookup paired
  | int | sym | cons | nil => exact .none

theorem Alike.follow
    (alike : subst.Alike pairing other)
    (budget : Nat)
    {term otherTerm : Term}
    (terms : Term.Alike pairing term otherTerm) :
    AlikeEnds pairing (subst.follow budget term)
      (other.follow budget otherTerm) := by
  induction budget generalizing term otherTerm with
  | zero =>
    have nexts := alike.next? terms
    rw [follow_zero, follow_zero]
    generalize subst.next? term = next at nexts
    generalize other.next? otherTerm = otherNext at nexts
    cases nexts with
    | none => exact .some ⟨rfl, terms⟩
    | some _ => exact .none
  | succ budget ih =>
    have nexts := alike.next? terms
    rw [follow_succ, follow_succ]
    generalize subst.next? term = next at nexts
    generalize other.next? otherTerm = otherNext at nexts
    cases nexts with
    | none => exact .some ⟨rfl, terms⟩
    | some following => exact ih following

theorem Alike.walk
    (alike : subst.Alike pairing other)
    {term otherTerm : Term}
    (terms : Term.Alike pairing term otherTerm) :
    Term.Alike pairing (subst.walk term) (other.walk otherTerm) := by
  have ends := alike.follow subst.size terms
  rw [Subst.walk, Subst.walk, ← alike.size_eq]
  generalize subst.follow _ term = reached at ends ⊢
  generalize other.follow _ otherTerm = otherReached at ends ⊢
  cases ends with
  | some found => exact found.2
  | none => exact terms

/-! ## The occurs check -/

/-- Terms to be visited with the same budgets. -/
abbrev AlikePending (pairing : Pairing) :
    List (Nat × Term) → List (Nat × Term) → Prop :=
  List.Forall₂ fun item other =>
    item.1 = other.1 ∧ Term.Alike pairing item.2 other.2

theorem AlikePending.exists_eq_cons
    {pairing : Pairing}
    {budget : Nat}
    {term : Term}
    {pending others : List (Nat × Term)}
    (alike : AlikePending pairing ((budget, term) :: pending) others) :
    ∃ otherTerm rest,
      others = (budget, otherTerm) :: rest ∧
        Term.Alike pairing term otherTerm ∧
        AlikePending pairing pending rest := by
  rcases others with _ | ⟨⟨otherBudget, otherTerm⟩, rest⟩
  · cases alike
  · rcases alike with _ | ⟨⟨rfl, terms⟩, rests⟩
    exact ⟨otherTerm, rest, rfl, terms, rests⟩

theorem Alike.occursIn
    (alike : subst.Alike pairing other)
    (oneToOne : pairing.OneToOne)
    {x y : Var}
    (paired : pairing x y)
    {pending otherPending : List (Nat × Term)}
    (items : AlikePending pairing pending otherPending) :
    subst.occursIn x pending = other.occursIn y otherPending := by
  induction pending using Subst.occursIn.induct subst x
    generalizing otherPending with
  | case1 =>
    cases items
    rw [Subst.occursIn, Subst.occursIn]
  | case2 budget term pending ground ih =>
    rcases items.exists_eq_cons with ⟨otherTerm, _, rfl, terms, rest⟩
    have otherGround := terms.isGround_eq ▸ ground
    rw [subst.occursIn_cons, if_pos ground, other.occursIn_cons,
      if_pos otherGround]
    exact ih rest
  | case3 budget term pending notGround failed =>
    rcases items.exists_eq_cons with ⟨otherTerm, _, rfl, terms, rest⟩
    have reached := alike.follow budget terms
    rw [failed] at reached
    have otherNotGround := terms.isGround_eq ▸ notGround
    rw [subst.occursIn_cons, if_neg notGround, failed, other.occursIn_cons,
      if_neg otherNotGround]
    generalize other.follow _ otherTerm = found at reached ⊢
    cases reached
    rfl
  | case4 budget term pending notGround left followed =>
    rcases items.exists_eq_cons with ⟨otherTerm, _, rfl, terms, rest⟩
    have reached := alike.follow budget terms
    rw [followed] at reached
    rcases reached.exists_eq_some with ⟨_, otherFollowed, ends⟩
    have otherNotGround := terms.isGround_eq ▸ notGround
    rw [subst.occursIn_cons, if_neg notGround, followed, other.occursIn_cons,
      if_neg otherNotGround, otherFollowed]
    rcases ends with ⟨pairedEnd⟩
    cases oneToOne.right_unique paired pairedEnd
    exact (if_pos rfl).trans (if_pos rfl).symm
  | case5 budget term pending notGround left z followed different ih =>
    rcases items.exists_eq_cons with ⟨otherTerm, _, rfl, terms, rest⟩
    have reached := alike.follow budget terms
    rw [followed] at reached
    rcases reached.exists_eq_some with ⟨_, otherFollowed, ends⟩
    have otherNotGround := terms.isGround_eq ▸ notGround
    rw [subst.occursIn_cons, if_neg notGround, followed, other.occursIn_cons,
      if_neg otherNotGround, otherFollowed]
    rcases ends with ⟨pairedEnd⟩
    have otherDifferent :=
      mt (oneToOne.eq_iff pairedEnd paired).mpr different
    exact (if_neg different).trans
      ((ih rest).trans (if_neg otherDifferent).symm)
  | case6 budget term pending notGround left head tail followed ih =>
    rcases items.exists_eq_cons with ⟨otherTerm, _, rfl, terms, rest⟩
    have reached := alike.follow budget terms
    rw [followed] at reached
    rcases reached.exists_eq_some with ⟨_, otherFollowed, ends⟩
    have otherNotGround := terms.isGround_eq ▸ notGround
    rw [subst.occursIn_cons, if_neg notGround, followed, other.occursIn_cons,
      if_neg otherNotGround, otherFollowed]
    rcases ends with _ | _ | _ | ⟨heads, tails⟩
    exact ih (.cons ⟨rfl, tails⟩ (.cons ⟨rfl, heads⟩ rest))
  | case7 budget term pending notGround found notVar notCell followed ih =>
    rcases items.exists_eq_cons with ⟨otherTerm, _, rfl, terms, rest⟩
    have reached := alike.follow budget terms
    rw [followed] at reached
    rcases found with ⟨left, found⟩
    rcases reached.exists_eq_some with ⟨_, otherFollowed, ends⟩
    have otherNotGround := terms.isGround_eq ▸ notGround
    rw [subst.occursIn_cons, if_neg notGround, followed, other.occursIn_cons,
      if_neg otherNotGround, otherFollowed]
    cases ends with
    | var => exact (notVar _ _ rfl).elim
    | cons => exact (notCell _ _ _ rfl).elim
    | int | sym | nil => exact ih rest

theorem Alike.extend?
    (alike : subst.Alike pairing other)
    (oneToOne : pairing.OneToOne)
    {x y : Var}
    (paired : pairing x y)
    {term otherTerm : Term}
    (terms : Term.Alike pairing term otherTerm)
    (unbound : subst.lookup x = none) :
    Option.Rel (Subst.Alike pairing) (subst.extend? x term)
      (other.extend? y otherTerm) := by
  have searched :
      subst.occursIn x [(subst.size, term)] =
        other.occursIn y [(other.size, otherTerm)] :=
    alike.occursIn oneToOne paired (.cons ⟨alike.size_eq, terms⟩ .nil)
  have occurs : subst.occurs x term = other.occurs y otherTerm := by
    rw [Subst.occurs, Subst.occurs, searched]
  rw [Subst.extend?, Subst.extend?, occurs]
  split
  · exact .none
  · exact .some (alike.bind oneToOne paired terms unbound)

/-! ## Unification -/

/-- What two pairs of alike terms ask for. -/
inductive Meeting.Alike (pairing : Pairing) : Meeting → Meeting → Prop where
  | same : Alike pairing .same .same
  | clash : Alike pairing .clash .clash
  | assign
      {x y : Var} {term otherTerm : Term}
      (paired : pairing x y)
      (terms : Term.Alike pairing term otherTerm) :
      Alike pairing (.assign x term) (.assign y otherTerm)
  | descend
      {leftHead rightHead leftTail rightTail : Term}
      {otherLeftHead otherRightHead otherLeftTail otherRightTail : Term}
      (leftHeads : Term.Alike pairing leftHead otherLeftHead)
      (rightHeads : Term.Alike pairing rightHead otherRightHead)
      (leftTails : Term.Alike pairing leftTail otherLeftTail)
      (rightTails : Term.Alike pairing rightTail otherRightTail) :
      Alike pairing (.descend leftHead rightHead leftTail rightTail)
        (.descend otherLeftHead otherRightHead otherLeftTail otherRightTail)

theorem meet_alike
    (oneToOne : pairing.OneToOne)
    {left right otherLeft otherRight : Term}
    (lefts : Term.Alike pairing left otherLeft)
    (rights : Term.Alike pairing right otherRight) :
    Meeting.Alike pairing (meet left right) (meet otherLeft otherRight) := by
  cases lefts with
  | var paired =>
    rename_i x y
    rw [meet, meet]
    have sameVar : right.asVar? = some x ↔ otherRight.asVar? = some y := by
      cases rights with
      | var pairedRight =>
        simpa [Term.asVar?] using oneToOne.eq_iff pairedRight paired
      | int | sym | cons | nil => simp [Term.asVar?]
    by_cases equal : right.asVar? = some x
    · rw [if_pos equal, if_pos (sameVar.mp equal)]
      exact .same
    · rw [if_neg equal, if_neg (mt sameVar.mpr equal)]
      exact .assign paired rights
  | cons heads tails =>
    cases rights with
    | var paired => exact .assign paired (.cons heads tails)
    | cons rightHeads rightTails =>
      exact .descend heads rightHeads tails rightTails
    | int | sym | nil => exact .clash
  | int | sym | nil =>
    cases rights with
    | var paired => exact .assign paired (by constructor)
    | cons => exact .clash
    | int | sym | nil =>
      rw [meet]
      · split
        · exact .same
        · exact .clash
      all_goals simp

/-- Sides to which the same number of bindings has led. -/
structure Side.Alike (pairing : Pairing) (side other : Side) : Prop where
  used_eq : side.used = other.used
  terms : Term.Alike pairing side.term other.term

theorem Alike.resolve
    (alike : subst.Alike pairing other)
    {side otherSide : Side}
    (sides : Side.Alike pairing side otherSide) :
    Option.Rel (Side.Alike pairing) (subst.resolve side)
      (other.resolve otherSide) := by
  have reached := alike.follow (subst.size - side.used) sides.terms
  rw [Subst.resolve, Subst.resolve, ← alike.size_eq, ← sides.used_eq]
  generalize subst.follow _ side.term = found at reached
  generalize other.follow _ otherSide.term = otherFound at reached
  cases reached with
  | none => exact .none
  | some ends =>
    rcases ends with ⟨same, terms⟩
    exact .some ⟨congrArg (subst.size - ·) same, terms⟩

abbrev AlikePairs (pairing : Pairing) :
    List (Side × Side) → List (Side × Side) → Prop :=
  List.Forall₂ fun pair other =>
    Side.Alike pairing pair.1 other.1 ∧ Side.Alike pairing pair.2 other.2

/-- What becomes of pairs that are alike. -/
inductive Settled.Alike (pairing : Pairing) (subst : Subst) :
    Settled → Settled → Prop where
  | equal : Alike pairing subst .equal .equal
  | clash : Alike pairing subst .clash .clash
  | circular : Alike pairing subst .circular .circular
  | assign
      {x y : Var} {term otherTerm : Term}
      {rest otherRest : List (Side × Side)}
      (paired : pairing x y)
      (unbound : subst.lookup x = none)
      (terms : Term.Alike pairing term otherTerm)
      (pairs : AlikePairs pairing rest otherRest) :
      Alike pairing subst (.assign x term rest)
        (.assign y otherTerm otherRest)

/-- One step of settling. -/
theorem settle_cons
    (subst : Subst)
    (left right : Side)
    (pairs : List (Side × Side)) :
    subst.settle ((left, right) :: pairs) =
      match subst.resolve left, subst.resolve right with
      | some leftFound, some rightFound =>
        match meet leftFound.term rightFound.term with
        | .same => subst.settle pairs
        | .clash => .clash
        | .assign x term => .assign x term pairs
        | .descend leftHead rightHead leftTail rightTail =>
          subst.settle
            ((⟨leftFound.used, leftHead⟩, ⟨rightFound.used, rightHead⟩) ::
              (⟨leftFound.used, leftTail⟩, ⟨rightFound.used, rightTail⟩) ::
              pairs)
      | _, _ => .circular := by
  rw [Subst.settle]
  split
  · rename_i leftResolved rightResolved
    rw [leftResolved, rightResolved]
    split <;> simp_all
  · simp_all

theorem AlikePairs.exists_eq_cons
    {left right : Side}
    {pairs others : List (Side × Side)}
    (alike : AlikePairs pairing ((left, right) :: pairs) others) :
    ∃ otherLeft otherRight rest,
      others = (otherLeft, otherRight) :: rest ∧
        Side.Alike pairing left otherLeft ∧
        Side.Alike pairing right otherRight ∧
        AlikePairs pairing pairs rest := by
  rcases others with _ | ⟨⟨otherLeft, otherRight⟩, rest⟩
  · cases alike
  · rcases alike with _ | ⟨⟨lefts, rights⟩, rests⟩
    exact ⟨otherLeft, otherRight, rest, rfl, lefts, rights, rests⟩

/-- Sides that are alike are resolved alike and then meet alike. -/
theorem Alike.exists_resolve
    (alike : subst.Alike pairing other)
    (oneToOne : pairing.OneToOne)
    {left right leftFound rightFound otherLeft otherRight : Side}
    (lefts : Side.Alike pairing left otherLeft)
    (rights : Side.Alike pairing right otherRight)
    (leftResolved : subst.resolve left = some leftFound)
    (rightResolved : subst.resolve right = some rightFound) :
    ∃ otherLeftFound otherRightFound,
      other.resolve otherLeft = some otherLeftFound ∧
        other.resolve otherRight = some otherRightFound ∧
        leftFound.used = otherLeftFound.used ∧
        rightFound.used = otherRightFound.used ∧
        Meeting.Alike pairing (meet leftFound.term rightFound.term)
          (meet otherLeftFound.term otherRightFound.term) := by
  have leftAlike := alike.resolve lefts
  have rightAlike := alike.resolve rights
  rw [leftResolved] at leftAlike
  rw [rightResolved] at rightAlike
  rcases exists_eq_some_of_rel leftAlike with ⟨_, leftAgain, leftEnds⟩
  rcases exists_eq_some_of_rel rightAlike with ⟨_, rightAgain, rightEnds⟩
  exact ⟨_, _, leftAgain, rightAgain, leftEnds.used_eq, rightEnds.used_eq,
    meet_alike oneToOne leftEnds.terms rightEnds.terms⟩

theorem Alike.settle
    (alike : subst.Alike pairing other)
    (oneToOne : pairing.OneToOne)
    {pairs otherPairs : List (Side × Side)}
    (sides : AlikePairs pairing pairs otherPairs) :
    Settled.Alike pairing subst (subst.settle pairs)
      (other.settle otherPairs) := by
  fun_induction subst.settle pairs generalizing otherPairs with
  | case1 =>
    cases sides
    rw [Subst.settle]
    exact .equal
  | case2 left right pairs leftFound rightFound leftResolved rightResolved met
      ih =>
    rcases sides.exists_eq_cons with ⟨_, _, _, rfl, lefts, rights, rest⟩
    rcases alike.exists_resolve oneToOne lefts rights leftResolved
        rightResolved with ⟨_, _, leftAgain, rightAgain, _, _, meets⟩
    rw [met] at meets
    rw [other.settle_cons]
    generalize otherMet : meet _ _ = meeting at meets
    cases meets
    simp only [leftAgain, rightAgain, otherMet]
    exact ih rest
  | case3 left right pairs leftFound rightFound leftResolved rightResolved
      met =>
    rcases sides.exists_eq_cons with ⟨_, _, _, rfl, lefts, rights, rest⟩
    rcases alike.exists_resolve oneToOne lefts rights leftResolved
        rightResolved with ⟨_, _, leftAgain, rightAgain, _, _, meets⟩
    rw [met] at meets
    rw [other.settle_cons]
    generalize otherMet : meet _ _ = meeting at meets
    cases meets
    simp only [leftAgain, rightAgain, otherMet]
    exact .clash
  | case4 left right pairs leftFound rightFound leftResolved rightResolved x
      term met =>
    rcases sides.exists_eq_cons with ⟨_, _, _, rfl, lefts, rights, rest⟩
    rcases alike.exists_resolve oneToOne lefts rights leftResolved
        rightResolved with ⟨_, _, leftAgain, rightAgain, _, _, meets⟩
    have unbound : subst.lookup x = none := by
      rcases eq_var_of_meet_eq_assign met with ⟨isVar, _⟩ | ⟨isVar, _⟩
      · rcases leftFound with ⟨used, found⟩
        cases isVar
        exact lookup_eq_none_of_resolve leftResolved
      · rcases rightFound with ⟨used, found⟩
        cases isVar
        exact lookup_eq_none_of_resolve rightResolved
    rw [met] at meets
    rw [other.settle_cons]
    generalize otherMet : meet _ _ = meeting at meets
    rcases meets with _ | _ | ⟨paired, terms⟩
    simp only [leftAgain, rightAgain, otherMet]
    exact .assign paired unbound terms rest
  | case5 left right pairs leftFound rightFound leftResolved rightResolved
      leftHead rightHead leftTail rightTail met ih =>
    rcases sides.exists_eq_cons with ⟨_, _, _, rfl, lefts, rights, rest⟩
    rcases alike.exists_resolve oneToOne lefts rights leftResolved
        rightResolved with
      ⟨_, _, leftAgain, rightAgain, leftUsed, rightUsed, meets⟩
    rw [met] at meets
    rw [other.settle_cons]
    generalize otherMet : meet _ _ = meeting at meets
    rcases meets with
      _ | _ | _ | ⟨leftHeads, rightHeads, leftTails, rightTails⟩
    simp only [leftAgain, rightAgain, otherMet]
    exact ih (.cons ⟨⟨leftUsed, leftHeads⟩, ⟨rightUsed, rightHeads⟩⟩
      (.cons ⟨⟨leftUsed, leftTails⟩, ⟨rightUsed, rightTails⟩⟩ rest))
  | case6 left right pairs failed =>
    rcases sides.exists_eq_cons with ⟨_, _, _, rfl, lefts, rights, rest⟩
    rw [other.settle_cons]
    rcases leftResolved : subst.resolve left with _ | leftFound
    · have leftAlike := alike.resolve lefts
      rw [leftResolved] at leftAlike
      rw [eq_none_of_rel leftAlike]
      exact .circular
    · rcases rightResolved : subst.resolve right with _ | rightFound
      · have rightAlike := alike.resolve rights
        rw [rightResolved] at rightAlike
        rw [eq_none_of_rel rightAlike]
        split
        · rename_i impossible
          cases impossible
        · exact .circular
      · exact (failed _ _ leftResolved rightResolved).elim

/-- One step of unification. -/
theorem unifyPairs_eq (subst : Subst) (pairs : List (Side × Side)) :
    subst.unifyPairs pairs =
      match subst.settle pairs with
      | .equal => some (some subst)
      | .clash => some none
      | .circular => none
      | .assign x term rest =>
        match subst.extend? x term with
        | some extended => extended.unifyPairs rest
        | none => some none := by
  rw [Subst.unifyPairs]
  split
  · simp_all
  · simp_all
  · simp_all
  · rename_i settled
    rw [settled]
    split <;> simp_all

/-- The substitutions are alike, or both attempts have failed alike. -/
abbrev AlikeOutcomes (pairing : Pairing) :
    Option (Option Subst) → Option (Option Subst) → Prop :=
  Option.Rel (Option.Rel (Subst.Alike pairing))

theorem Alike.unifyPairs
    (oneToOne : pairing.OneToOne)
    (alike : subst.Alike pairing other)
    {pairs otherPairs : List (Side × Side)}
    (sides : AlikePairs pairing pairs otherPairs) :
    AlikeOutcomes pairing (subst.unifyPairs pairs)
      (other.unifyPairs otherPairs) := by
  fun_induction subst.unifyPairs pairs generalizing other otherPairs with
  | case1 subst pairs settled =>
    have settles := alike.settle oneToOne sides
    rw [settled] at settles
    rw [other.unifyPairs_eq]
    generalize other.settle otherPairs = otherSettled at settles
    cases settles
    exact .some (.some alike)
  | case2 subst pairs settled =>
    have settles := alike.settle oneToOne sides
    rw [settled] at settles
    rw [other.unifyPairs_eq]
    generalize other.settle otherPairs = otherSettled at settles
    cases settles
    exact .some .none
  | case3 subst pairs settled =>
    have settles := alike.settle oneToOne sides
    rw [settled] at settles
    rw [other.unifyPairs_eq]
    generalize other.settle otherPairs = otherSettled at settles
    cases settles
    exact .none
  | case4 subst pairs x term rest settled extended success ih =>
    have settles := alike.settle oneToOne sides
    rw [settled] at settles
    rw [other.unifyPairs_eq]
    generalize other.settle otherPairs = otherSettled at settles
    rcases settles with _ | _ | _ | ⟨paired, unbound, terms, rests⟩
    have extending := alike.extend? oneToOne paired terms unbound
    rw [success] at extending
    rcases exists_eq_some_of_rel extending with ⟨_, otherSuccess, extensions⟩
    simp only [otherSuccess]
    exact ih extensions rests
  | case5 subst pairs x term rest settled refused =>
    have settles := alike.settle oneToOne sides
    rw [settled] at settles
    rw [other.unifyPairs_eq]
    generalize other.settle otherPairs = otherSettled at settles
    rcases settles with _ | _ | _ | ⟨paired, unbound, terms, rests⟩
    have extending := alike.extend? oneToOne paired terms unbound
    rw [refused] at extending
    simp only [eq_none_of_rel extending]
    exact .some .none

/-- Alike substitutions and alike terms have alike unifiers. -/
theorem Alike.unify
    (alike : subst.Alike pairing other)
    (oneToOne : pairing.OneToOne)
    {left right otherLeft otherRight : Term}
    (lefts : Term.Alike pairing left otherLeft)
    (rights : Term.Alike pairing right otherRight) :
    Option.Rel (Subst.Alike pairing) (subst.unify left right)
      (other.unify otherLeft otherRight) := by
  have outcomes :
      AlikeOutcomes pairing
        (subst.unifyPairs [(.start left, .start right)])
        (other.unifyPairs [(.start otherLeft, .start otherRight)]) :=
    alike.unifyPairs oneToOne (.cons ⟨⟨rfl, lefts⟩, ⟨rfl, rights⟩⟩ .nil)
  rw [Subst.unify, Subst.unify]
  generalize subst.unifyPairs _ = outcome at outcomes
  generalize other.unifyPairs _ = otherOutcome at outcomes
  cases outcomes with
  | none => exact .none
  | some same => exact same

end Subst

end RelationalSearch
