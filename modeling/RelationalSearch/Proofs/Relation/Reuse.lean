import RelationalSearch.Proofs.Relation.Linking
import RelationalSearch.Proofs.Script.Closed
import RelationalSearch.Proofs.Search.Abreast
import RelationalSearch.Proofs.Search.Renewal
import RelationalSearch.Proofs.Subst.Permutation

/-!
# Goals that are used more than once

The variables for the parts of two sequences are minted when `mapAll` or
`mapAny` builds its goal.  If the goal is used again behind itself then they may
be bound already.  This makes no difference: with a separate goal for each use
the results are the same in the same order, up to a permutation of variables
that leaves the caller's alone (`Program.Impartial.share_separate`).

At each point of the two searches either the variables are unbound as yet, or
they stand for the parts of the two sequences (`Reusable`).
-/

namespace RelationalSearch

/-! ## Uses of a goal -/

/-- A goal with places in it at which another goal is used. -/
inductive Usage (Code : Type) where
  | use
  | other (goal : Goal Code)
  | both (first second : Usage Code)
  | either (left right : Usage Code)
  | ordered (left right : Usage Code)

namespace Usage

variable {Code : Type}

/-- The goal is put at all places. -/
def share (goal : Goal Code) : Usage Code → Goal Code
  | use => goal
  | other between => between
  | both first second => .both (share goal first) (share goal second)
  | either left right => .either (share goal left) (share goal right)
  | ordered left right => .ordered (share goal left) (share goal right)

/-- For each place a goal of its own is built. -/
def separate (recipe : Recipe (Goal Code)) : Usage Code → Recipe (Goal Code)
  | use => recipe
  | other between => pure between
  | both first second =>
    return .both (← separate recipe first) (← separate recipe second)
  | either left right =>
    return .either (← separate recipe left) (← separate recipe right)
  | ordered left right =>
    return .ordered (← separate recipe left) (← separate recipe right)

/-- The number of places. -/
def uses : Usage Code → Nat
  | use => 1
  | other _ => 0
  | both first second => uses first + uses second
  | either left right => uses left + uses right
  | ordered left right => uses left + uses right

/-- All other goals have the property. -/
def Between (holds : Goal Code → Prop) : Usage Code → Prop
  | use => True
  | other between => holds between
  | both first second => Between holds first ∧ Between holds second
  | either left right => Between holds left ∧ Between holds right
  | ordered left right => Between holds left ∧ Between holds right

/-- The goals for the places are built with four variables each. -/
def separated (build : Nat → Goal Code) : Usage Code → Nat → Goal Code
  | use, next => build next
  | other between, _ => between
  | both first second, next =>
    .both (separated build first next)
      (separated build second (next + 4 * first.uses))
  | either left right, next =>
    .either (separated build left next)
      (separated build right (next + 4 * left.uses))
  | ordered left right, next =>
    .ordered (separated build left next)
      (separated build right (next + 4 * left.uses))

theorem made_separate
    {recipe : Recipe (Goal Code)}
    {build : Nat → Goal Code}
    (made : ∀ supply, recipe.made supply = (build supply, supply + 4))
    (usage : Usage Code)
    (next : Nat) :
    (usage.separate recipe).made next =
      (usage.separated build next, next + 4 * usage.uses) := by
  induction usage generalizing next with
  | use => exact made next
  | other => rfl
  | both _ _ firstIH secondIH
  | either _ _ firstIH secondIH
  | ordered _ _ firstIH secondIH =>
    simp [separate, Recipe.made_andThen, firstIH, secondIH, separated, uses,
      Recipe.made, Nat.mul_add, Nat.add_assoc]

end Usage

/-! ## The goals of the two policies -/

namespace Cells

theorem tied_numbered
    {ties : Ties}
    {supply next : Nat}
    (tied : ∀ index < 4, ties.all ⟨supply + index⟩ ⟨next + index⟩) :
    Cells.Tied ties (numbered supply) (numbered next) where
  firstHeads := .var (tied 0 (by omega))
  firstTails := .var (tied 1 (by omega))
  secondHeads := .var (tied 2 (by omega))
  secondTails := .var (tied 3 (by omega))

/-- The cells stand for what the two terms stand for. -/
structure Name (cells : Cells) (subst : Subst) (first second : Term) :
    Prop where
  firsts :
    subst.reify (.cons cells.firstHead cells.firstTail) = subst.reify first
  seconds :
    subst.reify (.cons cells.secondHead cells.secondTail) = subst.reify second

theorem Name.grows
    {cells : Cells}
    {subst extended : Subst}
    {first second : Term}
    (names : cells.Name subst first second)
    (acyclic : subst.Acyclic)
    (grows : subst.Grows extended) :
    cells.Name extended first second :=
  ⟨grows.reify_congr acyclic names.firsts,
    grows.reify_congr acyclic names.seconds⟩

end Cells

/-- The names of the one search are tied to those of the other, cell by cell. -/
theorem Ties.tied_equate_numbered (ties : Ties) {supply next : Nat} :
    Cells.Tied ((ties.equate supply next 2).equate (supply + 2) (next + 2) 2)
      (.numbered supply) (.numbered next) := by
  refine Cells.tied_numbered fun index less => ?_
  by_cases early : index < 2
  · exact .inl (.inr ⟨index, early, rfl, rfl⟩)
  · exact .inr ⟨index - 2, by omega, by change supply + index = _; omega,
      by change next + index = _; omega⟩

namespace MapPolicy

variable {Base Custom : Type}

/-- Two empty sequences are related at the first call. -/
def acceptsNull (policy : MapPolicy) (settings : MapSettings) : Bool :=
  match policy with
  | all => settings.nullSucceedsAtFirstCall
  | any =>
    (MapCursor.start settings.anySucceeded).acceptsNull
      settings.nullSucceedsAtFirstCall

/-- What is asked of the parts of two sequences. -/
def onParts
    (policy : MapPolicy)
    (relation : Relation Base)
    (settings : MapSettings)
    (cells : Cells) : List (CodedGoal Base Custom) :=
  match policy with
  | all => cells.allOnParts relation settings.terminator
  | any =>
    cells.anyOnParts relation settings.terminator
      settings.nullSucceedsAtFirstCall (.start settings.anySucceeded)

/-- The goal that a policy builds with the parts of two sequences. -/
def goalWith
    (policy : MapPolicy)
    (relation : Relation Base)
    (first second : Term)
    (settings : MapSettings)
    (cells : Cells) : CodedGoal Base Custom :=
  cells.opened
    (nullCase (policy.acceptsNull settings) settings.terminator first second)
    first second (policy.onParts relation settings cells)

theorem made_map
    (policy : MapPolicy)
    (relation : Relation Base)
    (first second : Term)
    (settings : MapSettings)
    (supply : Nat) :
    (policy.map relation first second settings :
        Recipe (CodedGoal Base Custom)).made supply =
      (policy.goalWith relation first second settings (.numbered supply),
        supply + 4) := by
  cases policy <;> rfl

theorem tied_onParts
    (naming : Naming Base Custom)
    (policy : MapPolicy)
    (relation : Relation Base)
    (settings : MapSettings)
    (cells other : Cells) :
    List.Forall₂ (TiedOnParts naming relation relation cells other)
      (policy.onParts relation settings cells)
      (policy.onParts relation settings other) := by
  cases policy with
  | all => exact tied_allOnParts _ _ _ _ _ _
  | any => exact tied_anyOnParts _ _ _ _ _ _ _ _

end MapPolicy

/-! ## Points at which a goal can be used again -/

theorem Term.alike_known
    {known : Set Var}
    {term : Term}
    (inside : ∀ x ∈ term.vars, x ∈ known) :
    Term.Alike (Ties.renamed known id).all term term := by
  have alike :
      Term.Alike (Ties.renamed known id).all term (term.renamed id) :=
    Term.alike_renamed fun x member => ⟨inside x member, rfl⟩
  rwa [Term.renamed_id] at alike

/--
The two searches agree on what has been there before, and the one goal can be
used: its variables are unbound and not tied, or name the parts of the two
terms.  For the separate goals that are still to be used the other search has
unbound variables.
-/
structure Reusable
    (known : Set Var)
    (supply : Nat)
    (first second : Term)
    (ties : Ties)
    (next limit : Nat)
    (start other : Located Subst) : Prop where
  base : (Ties.renamed known id).Extends ties
  tied : Located.Tied ties start other
  minted : supply + 4 ≤ start.place.supply
  ready :
    start.Free ties.roots supply (supply + 4) ∨
      (Cells.numbered supply).Name start.value first second
  pending : other.Free (flip ties.roots) next limit

/-- The one goal can be used again at the results. -/
def StillReusable
    (known : Set Var)
    (supply : Nat)
    (first second : Term)
    (next limit : Nat) : Correlation :=
  fun result otherResult =>
    ∃ ties,
      Reusable known supply first second ties next limit result otherResult

namespace Reusable

variable {known : Set Var} {supply next limit : Nat} {first second : Term}
  {ties larger : Ties} {start other result otherResult : Located Subst}

theorem skip
    (point : Reusable known supply first second ties next limit start other)
    {later : Nat}
    (ordered : next ≤ later) :
    Reusable known supply first second ties later limit start other where
  base := point.base
  tied := point.tied
  minted := point.minted
  ready := point.ready
  pending := point.pending.mono ordered (Nat.le_refl limit)

/-- Searches that go on alike do not touch the variables of the goals. -/
theorem later
    (point : Reusable known supply first second ties next limit start other)
    (further :
      Located.Later ties larger start other result otherResult) :
    Reusable known supply first second larger next limit result
      otherResult where
  base := point.base.trans further.widens
  tied := further.tied
  minted := point.minted.trans further.onward.minted
  ready := point.ready.imp
    (fun free => free.onward further.onward fun x y root =>
      (further.fresh x y root).imp_right And.left)
    (fun names => names.grows point.tied.held.acyclic further.onward.grows)
  pending := point.pending.onward further.otherOnward fun x y root =>
    (further.fresh y x root).imp_right And.right

theorem onLeft
    (point : Reusable known supply first second ties next limit start other) :
    Reusable known supply first second ties next limit
      ⟨start.place.left, start.value⟩ ⟨other.place.left, other.value⟩ :=
  point.later (point.tied.turn start.place.left other.place.left rfl rfl)

theorem onRight
    (point : Reusable known supply first second ties next limit start other) :
    Reusable known supply first second ties next limit
      ⟨start.place.right, start.value⟩ ⟨other.place.right, other.value⟩ :=
  point.later (point.tied.turn start.place.right other.place.right rfl rfl)

end Reusable

/-! ## Using the goal -/

section Use

variable {Base Custom : Type} {program : Program Base Custom}
  {naming : Naming Base Custom} {gaps otherGaps : Gaps} {depth : Nat}
  {known : Set Var} {supply next limit : Nat} {first second : Term}
  {ties : Ties} {start other : Located Subst}

/-- At the results the names of the parts are tied, and can be used again. -/
def PartsTied
    (known : Set Var)
    (supply : Nat)
    (first second : Term)
    (next limit : Nat) : Correlation :=
  fun result otherResult =>
    ∃ ties,
      Reusable known supply first second ties (next + 4) limit result
          otherResult ∧
        Cells.Tied ties (.numbered supply) (.numbered next)

/-- Tied goals lead to points at which the goal can be used again. -/
theorem Reusable.matched
    (impartial : program.Impartial naming)
    (point : Reusable known supply first second ties next limit start other)
    {goal otherGoal : CodedGoal Base Custom}
    (goals : CodedGoal.Tied naming ties goal otherGoal) :
    Branches.MatchedTo program.unfold gaps otherGaps depth
      (StillReusable known supply first second next limit)
      (goal.explore gaps start) (otherGoal.explore otherGaps other) := by
  refine (goals.explore impartial.tiedCodes gaps otherGaps depth
    point.tied).imp (Nat.le_refl depth) ?_
  rintro result otherResult ⟨larger, further⟩
  exact ⟨larger, point.later further⟩

/-- The first time the names of the parts are as new as the others. -/
theorem Reusable.matched_first
    (point : Reusable known supply first second ties next limit start other)
    (free : start.Free ties.roots supply (supply + 4))
    (room : next + 4 ≤ limit)
    (firstKnown : ∀ x ∈ first.vars, x ∈ known)
    (secondKnown : ∀ x ∈ second.vars, x ∈ known) :
    Branches.MatchedTo program.unfold gaps otherGaps depth
      (PartsTied known supply first second next limit)
      (((Cells.numbered supply).parts first second).explore gaps start)
      (((Cells.numbered next).parts first second).explore otherGaps
        other) := by
  have tied := point.tied.renew free
    (point.pending.mono (Nat.le_refl next) room)
  have widens := ties.extends_extend supply next 4
  have base := point.base.trans widens
  have cells : Cells.Tied (ties.extend supply next 4) (.numbered supply)
      (.numbered next) :=
    Cells.tied_numbered fun index less => .inr ⟨index, less, rfl, rfl⟩
  have pending : other.Free (flip (ties.extend supply next 4).roots)
      (next + 4) limit := by
    have rest := point.pending.mono (Nat.le_add_right next 4)
      (Nat.le_refl limit)
    refine ⟨rest.minted, rest.unbound, ?_⟩
    rintro y above below x (before | ⟨index, less, _, yId⟩)
    · exact rest.unpaired y above below x before
    · omega
  refine Branches.MatchedTo.both (tied.matched_eq
    (.cons cells.firstHeads cells.firstTails)
    ((Term.alike_known firstKnown).mono base.all)) ?_
  rintro middle otherMiddle ⟨toMiddle, firsts⟩
  refine (toMiddle.tied.matched_eq
    (.cons cells.secondHeads cells.secondTails)
    ((Term.alike_known secondKnown).mono base.all)).imp (Nat.le_refl depth) ?_
  rintro result otherResult ⟨toResult, seconds⟩
  have further := toMiddle.trans toResult
  have names : (Cells.numbered supply).Name result.value first second :=
    ⟨toResult.onward.grows.reify_congr toMiddle.tied.held.acyclic firsts,
      seconds⟩
  refine ⟨_, ⟨base, further.tied, ?_, .inr names, ?_⟩, cells⟩
  · exact point.minted.trans further.onward.minted
  · exact pending.onward further.otherOnward fun x y root =>
      (further.fresh y x root).imp_right And.right

/-- The other search takes the terms apart once more, with its next names. -/
theorem Reusable.exists_reopened
    (point : Reusable known supply first second ties next limit start other)
    (names : (Cells.numbered supply).Name start.value first second)
    (room : next + 4 ≤ limit)
    (firstKnown : ∀ x ∈ first.vars, x ∈ known)
    (secondKnown : ∀ x ∈ second.vars, x ∈ known) :
    ∃ half opened,
      other.value.unify (.cons (.var ⟨next⟩) (.var ⟨next + 1⟩)) first =
          some half ∧
        half.unify (.cons (.var ⟨next + 2⟩) (.var ⟨next + 3⟩)) second =
            some opened ∧
          half.Within other.place.supply ∧
            PartsTied known supply first second next limit start
              ⟨other.place, opened⟩ := by
  have minted := point.minted
  have firsts := (Term.alike_known firstKnown).mono point.base.all
  have toHalf := ties.extends_equate supply next 2
  have seconds := ((Term.alike_known secondKnown).mono point.base.all).mono
    toHalf.all
  rcases point.tied.reopen (by omega)
      (point.pending.mono (Nat.le_refl next) (by omega)) firsts
      names.firsts with
    ⟨half, halfOpened, halfTied, _, halfKept⟩
  have rest := point.pending.kept (Nat.le_add_right next 2) halfKept
  rcases halfTied.reopen (by omega)
      (rest.mono (Nat.le_refl _) (by omega)) seconds names.seconds with
    ⟨opened, fullOpened, fullTied, _, fullKept⟩
  have pending := rest.kept (Nat.le_add_right (next + 2) 2) fullKept
  have base := (point.base.trans toHalf).trans
    (Ties.extends_equate _ (supply + 2) (next + 2) 2)
  exact ⟨half, opened, halfOpened, fullOpened, halfTied.otherHeld, _,
    ⟨base, fullTied, minted, .inr names, pending⟩, ties.tied_equate_numbered⟩

/-- Later the names of the parts are known, and the others are tied to them. -/
theorem Reusable.matched_again
    (point : Reusable known supply first second ties next limit start other)
    (names : (Cells.numbered supply).Name start.value first second)
    (room : next + 4 ≤ limit)
    (firstKnown : ∀ x ∈ first.vars, x ∈ known)
    (secondKnown : ∀ x ∈ second.vars, x ∈ known) :
    Branches.MatchedTo program.unfold gaps otherGaps depth
      (PartsTied known supply first second next limit)
      (((Cells.numbered supply).parts first second).explore gaps start)
      (((Cells.numbered next).parts first second).explore otherGaps
        other) := by
  rcases point.exists_reopened names room firstKnown secondKnown with
    ⟨half, opened, halfOpened, fullOpened, halfHeld, reached⟩
  have fullHeld : opened.Within other.place.supply := by
    rcases reached with ⟨_, still, _⟩
    exact still.tied.otherHeld
  -- The one search binds nothing, and the other one its new names only.
  have acyclic := point.tied.held.acyclic
  have unchanged := Subst.unify_eq_self acyclic names.firsts
  have unchangedToo := Subst.unify_eq_self acyclic names.seconds
  have front : Branches.MatchedTo program.unfold gaps otherGaps depth
      (fun middle otherMiddle =>
        middle = start ∧ otherMiddle = ⟨other.place, half⟩)
      ((Goal.cons (Cells.numbered supply).firstHead
        (Cells.numbered supply).firstTail first).explore gaps start)
      ((Goal.cons (Cells.numbered next).firstHead
        (Cells.numbered next).firstTail first).explore otherGaps other) :=
    Branches.MatchedTo.eq_of_some unchanged halfOpened
      ⟨point.tied.held, halfHeld⟩ ⟨rfl, rfl⟩
  refine Branches.MatchedTo.both front ?_
  rintro _ _ ⟨rfl, rfl⟩
  exact Branches.MatchedTo.eq_of_some unchangedToo fullOpened
    ⟨point.tied.held, fullHeld⟩ reached

/-- What is asked of the parts is asked alike in both searches. -/
theorem matched_onParts
    (impartial : program.Impartial naming)
    {goals others : List (CodedGoal Base Custom)}
    (parts :
      List.Forall₂
        (fun goal otherGoal =>
          ∀ ties, (Ties.renamed known id).Extends ties →
            Cells.Tied ties (.numbered supply) (.numbered next) →
              CodedGoal.Tied naming ties goal otherGoal)
        goals others)
    {front otherFront : CodedGoal Base Custom}
    (fronts :
      Branches.MatchedTo program.unfold gaps otherGaps depth
        (PartsTied known supply first second next limit)
        (front.explore gaps start)
        (otherFront.explore otherGaps other)) :
    Branches.MatchedTo program.unfold gaps otherGaps depth
      (PartsTied known supply first second next limit)
      ((goals.foldl .both front).explore gaps start)
      ((others.foldl .both otherFront).explore otherGaps other) := by
  induction parts generalizing front otherFront with
  | nil => exact fronts
  | cons part _ ih =>
    refine ih (Branches.MatchedTo.both fronts ?_)
    rintro middle otherMiddle ⟨ties, point, cells⟩
    refine ((part ties point.base cells).explore impartial.tiedCodes gaps
      otherGaps depth point.tied).imp (Nat.le_refl depth) ?_
    rintro result otherResult ⟨larger, further⟩
    exact ⟨larger, point.later further, cells.mono further.widens⟩

/-- The one goal is used, and so is one of the separate goals. -/
theorem Reusable.matched_use
    (impartial : program.Impartial naming)
    (policy : MapPolicy)
    {relation : Relation Base}
    (relations : relation.Tied naming.bases (.renamed known id) relation)
    (settings : MapSettings)
    (point : Reusable known supply first second ties next limit start other)
    (room : next + 4 ≤ limit)
    (firstKnown : ∀ x ∈ first.vars, x ∈ known)
    (secondKnown : ∀ x ∈ second.vars, x ∈ known) :
    Branches.MatchedTo program.unfold gaps otherGaps depth
      (StillReusable known supply first second (next + 4) limit)
      ((policy.goalWith relation first second settings
        (.numbered supply)).explore gaps start)
      ((policy.goalWith relation first second settings
        (.numbered next)).explore otherGaps other) := by
  refine Branches.MatchedTo.either ?_ (Branches.MatchedTo.either ?_ .empty)
  · refine (point.onLeft.skip (Nat.le_add_right next 4)).matched impartial ?_
    exact impartial.later (tied_nullCase _ _ (Term.alike_known firstKnown)
      (Term.alike_known secondKnown)) point.base
  · have parts := MapPolicy.tied_onParts naming policy relation settings
      (.numbered supply) (.numbered next)
    have opened := point.onRight.onLeft
    refine Branches.MatchedTo.imp (matched_onParts impartial
      (parts.imp fun _ _ tied ties base cells =>
        tied ties (relations.mono impartial.basesMono base) cells) ?_)
      (Nat.le_refl depth) fun _ _ ⟨ties, reached, _⟩ => ⟨ties, reached⟩
    rcases opened.ready with free | names
    · exact opened.matched_first free room firstKnown secondKnown
    · exact opened.matched_again names room firstKnown secondKnown

/-- Wherever the goal is used, the searches match. -/
theorem Reusable.matched_usage
    (impartial : program.Impartial naming)
    (policy : MapPolicy)
    {relation : Relation Base}
    (relations : relation.Tied naming.bases (.renamed known id) relation)
    (settings : MapSettings)
    (firstKnown : ∀ x ∈ first.vars, x ∈ known)
    (secondKnown : ∀ x ∈ second.vars, x ∈ known)
    {usage : Usage (Code Base Custom)}
    (between :
      usage.Between fun goal =>
        CodedGoal.Tied naming (.renamed known id) goal goal)
    (point : Reusable known supply first second ties next limit start other)
    (room : next + 4 * usage.uses ≤ limit) :
    Branches.MatchedTo program.unfold gaps otherGaps depth
      (StillReusable known supply first second (next + 4 * usage.uses) limit)
      ((usage.share (policy.goalWith relation first second settings
        (.numbered supply))).explore gaps start)
      ((usage.separated (fun next =>
        policy.goalWith relation first second settings (.numbered next))
          next).explore otherGaps other) := by
  have skipped {early late : Nat} (ordered : early ≤ late)
      (result otherResult : Located Subst) :
      StillReusable known supply first second early limit result otherResult →
        StillReusable known supply first second late limit result otherResult :=
    fun ⟨ties, reached⟩ => ⟨ties, reached.skip ordered⟩
  induction usage generalizing ties next start other with
  | use =>
    exact point.matched_use impartial policy relations settings room firstKnown
      secondKnown
  | other goal =>
    exact point.matched impartial (impartial.later between point.base)
  | both first second firstIH secondIH =>
    rw [Usage.uses, Nat.mul_add, ← Nat.add_assoc] at room ⊢
    refine Branches.MatchedTo.both (firstIH between.1 point (by omega)) ?_
    rintro middle otherMiddle ⟨larger, reached⟩
    exact secondIH between.2 reached room
  | either left right leftIH rightIH =>
    rw [Usage.uses, Nat.mul_add, ← Nat.add_assoc] at room ⊢
    have lefts := leftIH between.1 point.onLeft (by omega)
    have rights := rightIH between.2
      (point.onRight.skip (Nat.le_add_right next (4 * left.uses))) room
    exact Branches.MatchedTo.either
      (lefts.imp (Nat.le_refl depth) (skipped (Nat.le_add_right _ _))) rights
  | ordered left right leftIH rightIH =>
    rw [Usage.uses, Nat.mul_add, ← Nat.add_assoc] at room ⊢
    have lefts := leftIH between.1 point.onLeft (by omega)
    have rights := rightIH between.2
      (point.onRight.skip (Nat.le_add_right next (4 * left.uses))) room
    exact Branches.MatchedTo.ordered ⟨point.tied.held, point.tied.otherHeld⟩
      (lefts.imp (Nat.le_refl depth) (skipped (Nat.le_add_right _ _))) rights

end Use

/-! ## One goal or many -/

/--
The substitutions say the same of terms with known variables, up to a
permutation of the other variables.
-/
def Subst.SameOn (known : Set Var) (subst other : Subst) : Prop :=
  ∃ permutation : Equiv.Perm Var,
    (∀ x ∈ known, permutation x = x) ∧
      ∀ term : Term, (∀ x ∈ term.vars, x ∈ known) →
        other.reify term = (subst.reify term).renamed permutation

theorem Subst.Agree.sameOn
    {known : Set Var}
    {supply otherSupply : Nat}
    {ties : Ties}
    {subst other : Subst}
    (agree : subst.Agree ties other)
    (proper : ties.Proper supply otherSupply)
    (base : (Ties.renamed known id).Extends ties) :
    subst.SameOn known other := by
  have within : ties.roots.Within supply otherSupply := fun x y root =>
    proper.within x y (proper.included x y root)
  rcases proper.oneToOne.exists_perm within with ⟨permutation, extending⟩
  refine ⟨permutation, ?_, ?_⟩
  · intro x inside
    exact extending x x (base.roots x x ⟨inside, rfl⟩)
  · intro term inside
    have shown := agree.reify ((Term.alike_known inside).mono base.all)
    exact Term.Alike.eq_renamed shown extending

section Start

variable {known : Set Var} {subst : Subst}
  (acyclic : subst.Acyclic)
  (mentions : ∀ x, subst.Mentions x → x ∈ known)

include mentions

theorem Subst.lookup_eq_none_of_unknown
    {x : Var}
    (unknown : x ∉ known) :
    subst.lookup x = none := by
  cases bound : subst.lookup x with
  | none => rfl
  | some term => exact (unknown (mentions x ⟨x, term, bound, .inl rfl⟩)).elim

/-- A substitution is like itself in the variables that it mentions. -/
theorem Subst.alike_known :
    subst.Alike (Ties.renamed known id).roots subst where
  lookup := by
    rintro x y ⟨_, rfl⟩
    change AlikeTerms _ (subst.lookup x) (subst.lookup x)
    cases bound : subst.lookup x with
    | none => exact .none
    | some term =>
      exact .some (Term.alike_known fun z member =>
        mentions z ⟨x, term, bound, .inr member⟩)
  left_covered free :=
    lookup_eq_none_of_unknown mentions fun inside => free _ ⟨inside, rfl⟩
  right_covered free :=
    lookup_eq_none_of_unknown mentions fun inside => free _ ⟨inside, rfl⟩
  size_eq := rfl

include acyclic

theorem Subst.agree_known : subst.Agree (.renamed known id) subst where
  acyclic := acyclic
  otherAcyclic := acyclic
  oneToOne :=
    ⟨fun ⟨_, first⟩ ⟨_, second⟩ => first.symm.trans second,
      fun ⟨_, first⟩ ⟨_, second⟩ => first.trans second.symm⟩
  unbound_iff := by
    rintro x y ⟨_, rfl⟩
    rfl
  reify_var tied := (alike_known mentions).reify (.var tied)

/-- Before its first use the variables of the goal are not in use. -/
theorem Reusable.of_mentions
    (first second : Term)
    {supply next limit : Nat}
    (apart : ∀ x ∈ known, x.id < supply ∨ supply + 4 ≤ x.id)
    {session otherSession : Session}
    (minted : supply + 4 ≤ session.supply)
    (below : ∀ x ∈ known, x.id < session.supply)
    (otherMinted : next ≤ limit ∧ limit = otherSession.supply)
    (otherBelow : ∀ x ∈ known, x.id < next) :
    Reusable known supply first second (.renamed known id) next limit
      (.root subst session) (.root subst otherSession) := by
  rcases otherMinted with ⟨minting, rfl⟩
  have unknown (x : Var) (above : supply ≤ x.id) (less : x.id < supply + 4) :
      x ∉ known := by
    intro inside
    have := apart x inside
    omega
  have unknownToo (x : Var) (above : next ≤ x.id) : x ∉ known := fun inside =>
    Nat.not_le_of_lt (otherBelow x inside) above
  have low (x : Var) (inside : x ∈ known) : x.id < otherSession.supply :=
    Nat.lt_of_lt_of_le (otherBelow x inside) minting
  have tied : Located.Tied (.renamed known id) (.root subst session)
      (.root subst otherSession) :=
    ⟨Subst.agree_known acyclic mentions,
      Ties.proper_renamed (Set.injOn_id known) below low,
      Subst.within_of_mentions acyclic fun x used => below x (mentions x used),
      Subst.within_of_mentions acyclic fun x used => low x (mentions x used)⟩
  refine ⟨.refl _, tied, minted, .inl ⟨minted, ?_, ?_⟩, ⟨Nat.le_refl _, ?_, ?_⟩⟩
  · exact fun x above less =>
      Subst.lookup_eq_none_of_unknown mentions (unknown x above less)
  · exact fun x above less _ tied => unknown x above less tied.1
  · exact fun x above _ =>
      Subst.lookup_eq_none_of_unknown mentions (unknownToo x above)
  · rintro y above _ x ⟨inside, rfl⟩
    exact unknownToo x above inside

end Start

namespace Program.Impartial

variable {Base Custom : Type} {program : Program Base Custom}
  {naming : Naming Base Custom}

section Sharing

variable (impartial : program.Impartial naming)
  (policy : MapPolicy)
  {known : Set Var}
  {relation : Relation Base}
  (relations : relation.Tied naming.bases (.renamed known id) relation)
  {first second : Term}
  (settings : MapSettings)
  (firstKnown : ∀ x ∈ first.vars, x ∈ known)
  (secondKnown : ∀ x ∈ second.vars, x ∈ known)
  {goal : CodedGoal Base Custom}
  {building built : Session}
  (builds :
    (policy.map relation first second settings).run.run building =
      (goal, built))
  (apart : ∀ x ∈ known, x.id < building.supply ∨ built.supply ≤ x.id)
  {usage : Usage (Code Base Custom)}
  (between :
    usage.Between fun goal =>
      CodedGoal.Tied naming (.renamed known id) goal goal)
  {subst : Subst}
  (acyclic : subst.Acyclic)
  (mentions : ∀ x, subst.Mentions x → x ∈ known)
  {session otherSession : Session}
  (later : built.supply ≤ session.supply)
  (below : ∀ x ∈ known, x.id < session.supply)
  (otherBelow : ∀ x ∈ known, x.id < otherSession.supply)

include impartial relations firstKnown secondKnown builds apart between acyclic
  mentions later below otherBelow

/-- The searches with one goal and with separate goals match. -/
theorem shared_matches_separate :
    Recipe.Matches program.unfold
      (StillReusable known building.supply first second
        (otherSession.supply + 4 * usage.uses)
        (otherSession.supply + 4 * usage.uses))
      (pure (usage.share goal))
      (usage.separate (policy.map relation first second settings))
      subst subst session otherSession := by
  have made (supply : Nat) :
      (policy.map relation first second settings :
          Recipe (CodedGoal Base Custom)).made supply =
        (policy.goalWith relation first second settings (.numbered supply),
          supply + 4) :=
    policy.made_map relation first second settings supply
  rcases Recipe.run_eq_made (policy.map relation first second settings) building
    with ⟨goalEq, builtEq⟩
  rw [builds, made] at goalEq builtEq
  have separateMade := Usage.made_separate made usage otherSession.supply
  rcases Recipe.run_eq_made (usage.separate _) otherSession with
    ⟨otherGoal, otherSupply⟩
  rw [separateMade] at otherGoal otherSupply
  dsimp only at goalEq builtEq
  rw [builtEq] at apart later
  intro gaps otherGaps depth
  rw [otherGoal, goalEq]
  have start := Reusable.of_mentions acyclic mentions first second apart later
    below ⟨Nat.le_add_right _ _, otherSupply.symm⟩ otherBelow
  exact start.matched_usage impartial policy relations settings firstKnown
    secondKnown between (Nat.le_refl _)

/--
A goal made by `mapAll` or `mapAny` can be used any number of times, in any
later session and with any other goals around it that do not mention the
variables minted for it.  It gives what separate goals give: as many results in
the same order and after as many steps, which say the same of the caller's
terms, up to a permutation of the variables that the caller does not have.
-/
theorem share_separate :
    (∀ effort count,
        List.Forall₂ (Subst.SameOn known)
          ((Recipe.results program.unfold (pure (usage.share goal)) subst effort
            count).run session).1
          ((Recipe.results program.unfold
            (usage.separate (policy.map relation first second settings)) subst
            effort count).run otherSession).1) ∧
      ∀ time,
        (Recipe.momentAt program.unfold (pure (usage.share goal)) subst session
            time).1.shape =
          (Recipe.momentAt program.unfold
            (usage.separate (policy.map relation first second settings)) subst
            otherSession time).1.shape := by
  have matching := impartial.shared_matches_separate policy relations settings
    firstKnown secondKnown builds apart between acyclic mentions later below
    otherBelow
  refine ⟨fun effort count => ?_, matching.shape_eq⟩
  refine (matching.forall₂_results effort count).imp ?_
  rintro _ _ ⟨result, otherResult, ⟨ties, reached⟩, rfl, rfl⟩
  exact reached.tied.agree.sameOn reached.tied.proper reached.base

end Sharing

/--
A goal for variables 0 and 1 is used twice in a row, with a goal in between that
mentions the later variable 6, and once in another branch.
-/
theorem share_separate_tails :
    let map : Recipe ScriptedGoal :=
      MapPolicy.any.map (.base ⟨[], .named "tail"⟩) (.var ⟨0⟩) (.var ⟨1⟩) .any
    let built := map.run.run ⟨#["first", "second"], #[]⟩
    let session := ((Session.fresh "between").run built.2).2
    let between : ScriptedGoal := .eq (.var ⟨0⟩) (.cons (.var ⟨6⟩) (.nil .list))
    let usage : Usage (Code RelationClosure GoalClosure) :=
      .either (.both .use (.both (.other between) .use)) .use
    ∀ effort count,
      List.Forall₂ (Subst.SameOn {⟨0⟩, ⟨1⟩, ⟨6⟩})
        ((Recipe.results Definitions.tails.program.unfold
          (pure (usage.share built.1)) ∅ effort count).run session).1
        ((Recipe.results Definitions.tails.program.unfold
          (usage.separate map) ∅ effort count).run session).1 := by
  intro map built session between usage
  have relations (ties : Ties) :
      Relation.Tied RelationClosure.Tied ties (.base ⟨[], .named "tail"⟩)
        (.base ⟨[], .named "tail"⟩) :=
    .base ⟨.named "tail", .nil⟩
  have apart : CodedGoal.Tied .closures
      (.renamed {⟨0⟩, ⟨1⟩, ⟨6⟩} id) between between :=
    .eq (.var ⟨by simp, rfl⟩) (.cons (.var ⟨by simp, rfl⟩) (.nil .list))
  have others : usage.Between fun goal =>
      CodedGoal.Tied .closures (.renamed {⟨0⟩, ⟨1⟩, ⟨6⟩} id) goal goal :=
    ⟨⟨trivial, apart, trivial⟩, trivial⟩
  have supply : built.2.supply = 6 := rfl
  have later : session.supply = 7 := rfl
  refine (share_separate Definitions.closed_tails.impartial .any (relations _)
    .any ?_ ?_ (Prod.mk.eta.symm : built = _) ?_ others Subst.acyclic_empty ?_
    ?_ ?_ ?_).1
  · simp
  · simp
  · rw [supply]
    simp [Session.supply]
  · rintro x ⟨y, term, bound, _⟩
    simp at bound
  · simp [supply, later]
  · simp [later]
  · simp [later]

end Program.Impartial

end RelationalSearch
