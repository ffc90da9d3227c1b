import RelationalSearch.Proofs.Search.Derivation
import RelationalSearch.Proofs.Search.Listing
import RelationalSearch.Proofs.Subst.Renaming
import RelationalSearch.Relation.Empty

/-!
# Generic goals

A goal that is built may depend on the numbers of the variables minted for it.
A generic goal does not: built with other numbers it is alike, up to the pairing
of the variables minted (`Goal.Alike`).  For generic goals the gaps do not
matter.  Each derivation with some gaps has a counterpart with any others, which
takes the same turns and ends with a substitution that is alike, and so has
each listing.
-/

namespace RelationalSearch

variable {Code : Type}

/-! ## Pairings that grow -/

namespace Pairing

/-- Pairs each variable with a number below the supply with itself. -/
def upTo (supply : Nat) : Pairing := fun x y => x = y ∧ x.id < supply

/-- All paired variables have numbers below the supplies. -/
def Within (pairing : Pairing) (supply other : Nat) : Prop :=
  ∀ x y, pairing x y → x.id < supply ∧ y.id < other

/-- Pairs the next variables, in the order in which they are minted. -/
def extend (pairing : Pairing) (supply other count : Nat) : Pairing :=
  fun x y =>
    pairing x y ∨
      ∃ index, index < count ∧ x.id = supply + index ∧ y.id = other + index

/-- A pairing with more pairs, of variables that have been minted. -/
structure Growth
    (pairing larger : Pairing)
    (supply other : Nat) : Prop where
  included : ∀ x y, pairing x y → larger x y
  oneToOne : larger.OneToOne
  within : larger.Within supply other

theorem oneToOne_upTo (supply : Nat) : (upTo supply).OneToOne := by
  constructor
  · rintro x y z ⟨rfl, _⟩ ⟨rfl, _⟩
    rfl
  · rintro x y z ⟨rfl, _⟩ ⟨rfl, _⟩
    rfl

theorem within_upTo (supply : Nat) : (upTo supply).Within supply supply := by
  rintro x y ⟨rfl, below⟩
  exact ⟨below, below⟩

variable {pairing : Pairing} {supply other : Nat}

theorem Within.mono
    (within : pairing.Within supply other)
    {more otherMore : Nat}
    (ordered : supply ≤ more)
    (otherOrdered : other ≤ otherMore) :
    pairing.Within more otherMore := by
  intro x y paired
  rcases within x y paired with ⟨below, otherBelow⟩
  exact ⟨by omega, by omega⟩

theorem Within.extend
    (within : pairing.Within supply other)
    (count : Nat) :
    (pairing.extend supply other count).Within (supply + count)
      (other + count) := by
  rintro x y (paired | ⟨index, less, xId, yId⟩)
  · rcases within x y paired with ⟨below, otherBelow⟩
    exact ⟨by omega, by omega⟩
  · exact ⟨by omega, by omega⟩

theorem OneToOne.extend
    (oneToOne : pairing.OneToOne)
    (within : pairing.Within supply other)
    (count : Nat) :
    (pairing.extend supply other count).OneToOne := by
  constructor
  · rintro x y z (pairedY | ⟨index, less, xId, yId⟩)
      (pairedZ | ⟨otherIndex, otherLess, xAgain, zId⟩)
    · exact oneToOne.right_unique pairedY pairedZ
    · have below := (within x y pairedY).1
      omega
    · have below := (within x z pairedZ).1
      omega
    · have sameId : y.id = z.id := by omega
      cases y
      cases z
      cases sameId
      rfl
  · rintro x y z (pairedX | ⟨index, less, xId, zId⟩)
      (pairedY | ⟨otherIndex, otherLess, yId, zAgain⟩)
    · exact oneToOne.left_unique pairedX pairedY
    · have below := (within x z pairedX).2
      omega
    · have below := (within y z pairedY).2
      omega
    · have sameId : x.id = y.id := by omega
      cases x
      cases y
      cases sameId
      rfl

end Pairing

/-- The substitutions differ in variables from the supply on only. -/
def Subst.Renamed (supply : Nat) (subst other : Subst) : Prop :=
  ∃ pairing : Pairing,
    pairing.OneToOne ∧ (∀ x : Var, x.id < supply → pairing x x) ∧
      subst.Alike pairing other

/-! ## Goals that are alike -/

/--
The goals differ in paired variables only, and so do the goals that they build
once more variables are minted and paired.
-/
inductive Goal.Alike (codes : Pairing → Code → Code → Prop) :
    Pairing → Goal Code → Goal Code → Prop where
  | eq
      {pairing : Pairing} {left right otherLeft otherRight : Term}
      (lefts : Term.Alike pairing left otherLeft)
      (rights : Term.Alike pairing right otherRight) :
      Alike codes pairing (.eq left right) (.eq otherLeft otherRight)
  | succeed {pairing : Pairing} : Alike codes pairing .succeed .succeed
  | fail {pairing : Pairing} : Alike codes pairing .fail .fail
  | both
      {pairing : Pairing} {first second otherFirst otherSecond : Goal Code}
      (firsts : Alike codes pairing first otherFirst)
      (seconds : Alike codes pairing second otherSecond) :
      Alike codes pairing (.both first second)
        (.both otherFirst otherSecond)
  | either
      {pairing : Pairing} {left right otherLeft otherRight : Goal Code}
      (lefts : Alike codes pairing left otherLeft)
      (rights : Alike codes pairing right otherRight) :
      Alike codes pairing (.either left right)
        (.either otherLeft otherRight)
  | ordered
      {pairing : Pairing} {left right otherLeft otherRight : Goal Code}
      (lefts : Alike codes pairing left otherLeft)
      (rights : Alike codes pairing right otherRight) :
      Alike codes pairing (.ordered left right)
        (.ordered otherLeft otherRight)
  | defer
      {pairing : Pairing} {code otherCode : Code}
      (same : codes pairing code otherCode) :
      Alike codes pairing (.defer code) (.defer otherCode)
  | dynamic
      {pairing : Pairing}
      {builder otherBuilder : Subst → Recipe (Goal Code)}
      (counts :
        ∀ {larger supply other subst otherSubst},
          pairing.Growth larger supply other →
          Subst.Alike larger subst otherSubst →
            ((builder subst).made supply).2 - supply =
              ((otherBuilder otherSubst).made other).2 - other)
      (parts :
        ∀ {larger supply other subst otherSubst},
          pairing.Growth larger supply other →
          Subst.Alike larger subst otherSubst →
            Alike codes
              (larger.extend supply other
                (((builder subst).made supply).2 - supply))
              ((builder subst).made supply).1
              ((otherBuilder otherSubst).made other).1) :
      Alike codes pairing (.dynamic builder) (.dynamic otherBuilder)

/-- Codes that are alike stand for goals that are alike. -/
structure GenericCodes
    (goalOf : Code → Recipe (Goal Code))
    (codes : Pairing → Code → Code → Prop) : Prop where
  mono :
    ∀ {pairing larger : Pairing} {code other : Code},
      (∀ x y, pairing x y → larger x y) →
        codes pairing code other → codes larger code other
  unfolds :
    ∀ {pairing : Pairing} {code other : Code},
      codes pairing code other →
        Goal.Alike codes pairing (.dynamic fun _ => goalOf code)
          (.dynamic fun _ => goalOf other)

/--
The goal and the substitution hold variables below the supply only, and treat
all variables that are minted later in the same way.
-/
def Generic
    (goalOf : Code → Recipe (Goal Code))
    (goal : Goal Code)
    (subst : Subst)
    (supply : Nat) : Prop :=
  ∃ codes : Pairing → Code → Code → Prop,
    GenericCodes goalOf codes ∧
      Goal.Alike codes (.upTo supply) goal goal ∧
      subst.Alike (.upTo supply) subst

theorem Goal.Alike.mono
    {goalOf : Code → Recipe (Goal Code)}
    {codes : Pairing → Code → Code → Prop}
    (generic : GenericCodes goalOf codes)
    {pairing larger : Pairing}
    {goal other : Goal Code}
    (alike : Goal.Alike codes pairing goal other)
    (included : ∀ x y, pairing x y → larger x y) :
    Goal.Alike codes larger goal other := by
  induction alike with
  | eq lefts rights => exact .eq (lefts.mono included) (rights.mono included)
  | succeed => exact .succeed
  | fail => exact .fail
  | both _ _ firstIH secondIH =>
    exact .both (firstIH included) (secondIH included)
  | either _ _ leftIH rightIH =>
    exact .either (leftIH included) (rightIH included)
  | ordered _ _ leftIH rightIH =>
    exact .ordered (leftIH included) (rightIH included)
  | defer same => exact .defer (generic.mono included same)
  | dynamic counts parts _ =>
    refine .dynamic ?_ ?_
    · intro largest supply otherSupply subst otherSubst growth
      exact counts ⟨fun x y paired => growth.included x y
        (included x y paired), growth.oneToOne, growth.within⟩
    · intro largest supply otherSupply subst otherSubst growth
      exact parts ⟨fun x y paired => growth.included x y
        (included x y paired), growth.oneToOne, growth.within⟩

/-! ## Goals made of goals that are alike -/

section Combined

variable {codes : Pairing → Code → Code → Prop} {pairing : Pairing}

/-- What holds of two goals part by part holds of the conjunctions. -/
theorem Goal.related_all
    {related : Goal Code → Goal Code → Prop}
    (succeeds : related .succeed .succeed)
    (both :
      ∀ {first second other otherSecond : Goal Code},
        related first other → related second otherSecond →
          related (.both first second) (.both other otherSecond))
    {goals others : List (Goal Code)}
    (each : List.Forall₂ related goals others) :
    related (.all goals) (.all others) := by
  have fold : ∀ {rest otherRest : List (Goal Code)}
      {first other : Goal Code},
      related first other →
      List.Forall₂ related rest otherRest →
        related (rest.foldl .both first) (otherRest.foldl .both other) := by
    intro rest otherRest first other firsts rests
    induction rests generalizing first other with
    | nil => exact firsts
    | cons seconds _ ih => exact ih (both firsts seconds)
  cases each with
  | nil => exact succeeds
  | cons firsts rests => exact fold firsts rests

theorem Goal.alike_all
    {goals others : List (Goal Code)}
    (each : List.Forall₂ (Goal.Alike codes pairing) goals others) :
    Goal.Alike codes pairing (.all goals) (.all others) :=
  related_all .succeed .both each

theorem Goal.alike_any
    {branches others : List (List (Goal Code))}
    (each :
      List.Forall₂ (List.Forall₂ (Goal.Alike codes pairing)) branches
        others) :
    Goal.Alike codes pairing (.any branches) (.any others) := by
  induction each with
  | nil => exact .fail
  | cons branch _ ih => exact .either (alike_all branch) ih

theorem Goal.alike_anyInOrder
    {branches others : List (List (Goal Code))}
    (each :
      List.Forall₂ (List.Forall₂ (Goal.Alike codes pairing)) branches
        others) :
    Goal.Alike codes pairing (.anyInOrder branches) (.anyInOrder others) := by
  induction each with
  | nil => exact .fail
  | cons branch _ ih => exact .ordered (alike_all branch) ih

theorem Goal.alike_cons
    {head tail whole otherHead otherTail otherWhole : Term}
    (heads : Term.Alike pairing head otherHead)
    (tails : Term.Alike pairing tail otherTail)
    (wholes : Term.Alike pairing whole otherWhole) :
    Goal.Alike codes pairing (.cons head tail whole)
      (.cons otherHead otherTail otherWhole) :=
  .eq (.cons heads tails) wholes

theorem Subst.Alike.agreedKind?_eq
    {subst other : Subst}
    (substs : subst.Alike pairing other)
    {terms otherTerms : List Term}
    (each : List.Forall₂ (Term.Alike pairing) terms otherTerms)
    (kind : Option SeqKind) :
    subst.agreedKind? terms kind = other.agreedKind? otherTerms kind := by
  induction each generalizing kind with
  | nil => rfl
  | cons here _ ih =>
    rename_i term otherTerm _ _ _
    rw [Subst.agreedKind?, Subst.agreedKind?]
    have walked := substs.walk here
    generalize subst.walk term = found at walked ⊢
    generalize other.walk otherTerm = otherFound at walked ⊢
    cases walked with
    | var => exact ih kind
    | nil found =>
      change ite _ _ _ = ite _ _ _
      rw [ih]
    | int | sym | cons => rfl

theorem Goal.alike_allEmpty
    {terms otherTerms : List Term}
    (each : List.Forall₂ (Term.Alike pairing) terms otherTerms)
    (default : SeqKind) :
    Goal.Alike codes pairing (.allEmpty terms default)
      (.allEmpty otherTerms default) := by
  refine .dynamic ?_ ?_
  · intro larger supply other subst otherSubst growth substs
    have grown := each.imp fun _ _ alike => alike.mono growth.included
    rw [substs.agreedKind?_eq grown]
    rcases otherSubst.agreedKind? otherTerms none with _ | kind
    all_goals simp [Recipe.made]
  · intro larger supply other subst otherSubst growth substs
    have grown := each.imp fun _ _ alike => alike.mono growth.included
    rw [substs.agreedKind?_eq grown]
    rcases otherSubst.agreedKind? otherTerms none with _ | kind
    · exact .fail
    · refine alike_all ?_
      rw [List.forall₂_map_left_iff, List.forall₂_map_right_iff]
      refine grown.imp ?_
      intro term otherTerm alike
      exact .eq (alike.mono fun _ _ paired => .inl paired) (.nil _)

end Combined

/-! ## A goal with a fresh variable -/

/-- The first variable is a fresh one, or another goal holds. -/
def firstFreshOr (other : Goal Unit) : Unit → Recipe (Goal Unit) :=
  fun _ => .mint "x" fun x =>
    .done (.any [[.eq (.var ⟨0⟩) (.var x)], [other]])

/-- Only the first variable has to be paired with itself. -/
theorem generic_firstFreshOr
    {other goal : Goal Unit}
    (others :
      ∀ pairing : Pairing, pairing ⟨0⟩ ⟨0⟩ →
        Goal.Alike (fun pairing _ _ => pairing ⟨0⟩ ⟨0⟩) pairing other other)
    (goals :
      Goal.Alike (fun pairing _ _ => pairing ⟨0⟩ ⟨0⟩) (.upTo 1) goal goal) :
    Generic (firstFreshOr other) goal ∅ 1 := by
  refine ⟨fun pairing _ _ => pairing ⟨0⟩ ⟨0⟩, ?_, goals, ?_⟩
  · constructor
    · intro pairing larger _ _ included paired
      exact included _ _ paired
    · intro pairing _ _ paired
      refine .dynamic ?_ ?_
      · intro larger supply otherSupply subst otherSubst growth _
        simp [firstFreshOr, Recipe.made]
      · intro larger supply otherSupply subst otherSubst growth _
        have firsts : larger ⟨0⟩ ⟨0⟩ := growth.included _ _ paired
        refine Goal.alike_any (.cons (.cons ?_ .nil)
          (.cons (.cons ?_ .nil) .nil))
        · refine .eq (.var (.inl firsts)) (.var (.inr ⟨0, ?_, rfl, rfl⟩))
          simp [firstFreshOr, Recipe.made]
        · exact others _ (.inl firsts)
  · constructor
    · intro x y _
      rw [Subst.lookup_empty, Subst.lookup_empty]
      exact .none
    · exact fun _ => Subst.lookup_empty _
    · exact fun _ => Subst.lookup_empty _
    · rfl

/-! ## Counterparts -/

/-- Substitutions at places with the same trace that are alike. -/
structure Located.Alike (pairing : Pairing) (start other : Located Subst) :
    Prop where
  trace_eq : start.place.trace = other.place.trace
  oneToOne : pairing.OneToOne
  within : pairing.Within start.place.supply other.place.supply
  substs : start.value.Alike pairing other.value

theorem Located.Alike.left
    {pairing : Pairing}
    {start other : Located Subst}
    (starts : start.Alike pairing other) :
    Located.Alike pairing ⟨start.place.left, start.value⟩
      ⟨other.place.left, other.value⟩ :=
  ⟨congrArg (Turn.left :: ·) starts.trace_eq, starts.oneToOne, starts.within,
    starts.substs⟩

theorem Located.Alike.right
    {pairing : Pairing}
    {start other : Located Subst}
    (starts : start.Alike pairing other) :
    Located.Alike pairing ⟨start.place.right, start.value⟩
      ⟨other.place.right, other.value⟩ :=
  ⟨congrArg (Turn.right :: ·) starts.trace_eq, starts.oneToOne, starts.within,
    starts.substs⟩

theorem Located.alike_root
    {subst : Subst}
    {session : Session}
    (alike : subst.Alike (.upTo session.supply) subst) :
    (Located.root subst session).Alike (.upTo session.supply)
      (.root subst session) :=
  ⟨rfl, Pairing.oneToOne_upTo _, Pairing.within_upTo _, alike⟩

/-- Substitutions that are alike under a pairing with more pairs. -/
def Located.Counterpart
    (pairing : Pairing)
    (finish other : Located Subst) : Prop :=
  ∃ larger : Pairing,
    (∀ x y, pairing x y → larger x y) ∧ finish.Alike larger other

theorem Located.Counterpart.mono
    {pairing smaller : Pairing}
    {finish other : Located Subst}
    (counterpart : Located.Counterpart pairing finish other)
    (included : ∀ x y, smaller x y → pairing x y) :
    Located.Counterpart smaller finish other := by
  rcases counterpart with ⟨larger, grown, alike⟩
  exact ⟨larger, fun x y paired => grown x y (included x y paired), alike⟩

theorem Located.Counterpart.renamed
    {supply : Nat}
    {finish other : Located Subst}
    (counterpart : Located.Counterpart (.upTo supply) finish other) :
    Subst.Renamed supply finish.value other.value := by
  rcases counterpart with ⟨larger, included, alike⟩
  exact ⟨larger, alike.oneToOne, fun x below => included x x ⟨rfl, below⟩,
    alike.substs⟩

theorem Located.Counterpart.trace_eq
    {pairing : Pairing}
    {finish other : Located Subst}
    (counterpart : Located.Counterpart pairing finish other) :
    finish.place.trace = other.place.trace := by
  rcases counterpart with ⟨_, _, alike⟩
  exact alike.trace_eq

section Counterparts

variable {goalOf : Code → Recipe (Goal Code)}
  {codes : Pairing → Code → Code → Prop} {gaps : Gaps}

/-- Goals that are alike are still alike when they have been built. -/
theorem Goal.Alike.enter
    {pairing : Pairing}
    {builder otherBuilder : Subst → Recipe (Goal Code)}
    (goals :
      Goal.Alike codes pairing (.dynamic builder) (.dynamic otherBuilder))
    {start other : Located Subst}
    (starts : start.Alike pairing other)
    (gaps otherGaps : Gaps) :
    ∃ larger : Pairing,
      (∀ x y, pairing x y → larger x y) ∧
        (start.enter gaps (builder start.value)).Alike larger
          (other.enter otherGaps (otherBuilder other.value)) ∧
        Goal.Alike codes larger ((builder start.value).goalAt gaps start)
          ((otherBuilder other.value).goalAt otherGaps other) := by
  cases goals with
  | dynamic counts parts =>
    have within : pairing.Within (start.place.opening gaps)
        (other.place.opening otherGaps) :=
      starts.within.mono (Nat.le_add_right _ _) (Nat.le_add_right _ _)
    have growth : pairing.Growth pairing (start.place.opening gaps)
        (other.place.opening otherGaps) :=
      ⟨fun _ _ paired => paired, starts.oneToOne, within⟩
    have sameCount := counts growth starts.substs
    have included : ∀ x y, pairing x y →
        pairing.extend (start.place.opening gaps)
          (other.place.opening otherGaps)
          (((builder start.value).made (start.place.opening gaps)).2 -
            start.place.opening gaps) x y :=
      fun _ _ paired => .inl paired
    refine ⟨_, included, ?_, parts growth starts.substs⟩
    have minted := (builder start.value).le_made (start.place.opening gaps)
    have otherMinted :=
      (otherBuilder other.value).le_made (other.place.opening otherGaps)
    constructor
    · exact congrArg (Turn.built :: ·) starts.trace_eq
    · exact starts.oneToOne.extend within _
    · refine (Pairing.Within.extend within _).mono ?_ ?_
      · change _ ≤ ((builder start.value).made (start.place.opening gaps)).2
        omega
      · change _ ≤
          ((otherBuilder other.value).made (other.place.opening otherGaps)).2
        omega
    · exact starts.substs.mono (starts.oneToOne.extend within _) included

/-- Each derivation has a counterpart with any other gaps. -/
theorem Derivation.exists_counterpart
    (generic : GenericCodes goalOf codes)
    (otherGaps : Gaps)
    {goal otherGoal : Goal Code}
    {start finish other : Located Subst}
    {pairing : Pairing}
    (derivation : Derivation goalOf gaps goal start finish)
    (goals : Goal.Alike codes pairing goal otherGoal)
    (starts : start.Alike pairing other) :
    ∃ otherFinish,
      Located.Counterpart pairing finish otherFinish ∧
        Nonempty (Derivation goalOf otherGaps otherGoal other otherFinish) := by
  induction derivation generalizing otherGoal other pairing with
  | eq unified =>
    cases goals with
    | eq lefts rights =>
      have outcomes := starts.substs.unify starts.oneToOne lefts rights
      rw [unified] at outcomes
      rcases exists_eq_some_of_rel outcomes with ⟨extended, success, alike⟩
      exact ⟨⟨other.place, extended⟩,
        ⟨pairing, fun _ _ paired => paired,
          ⟨starts.trace_eq, starts.oneToOne, starts.within, alike⟩⟩,
        ⟨.eq success⟩⟩
  | succeed =>
    cases goals
    exact ⟨other, ⟨pairing, fun _ _ paired => paired, starts⟩, ⟨.succeed⟩⟩
  | both _ _ frontIH backIH =>
    cases goals with
    | both firsts seconds =>
      rcases frontIH firsts starts with
        ⟨middle, ⟨larger, included, middles⟩, ⟨front⟩⟩
      rcases backIH (seconds.mono generic included) middles with
        ⟨finish, counterpart, ⟨back⟩⟩
      exact ⟨finish, counterpart.mono included, ⟨.both front back⟩⟩
  | left _ ih =>
    cases goals with
    | either lefts rights =>
      rcases ih lefts starts.left with ⟨finish, counterpart, ⟨branch⟩⟩
      exact ⟨finish, counterpart, ⟨.left branch⟩⟩
  | right _ ih =>
    cases goals with
    | either lefts rights =>
      rcases ih rights starts.right with ⟨finish, counterpart, ⟨branch⟩⟩
      exact ⟨finish, counterpart, ⟨.right branch⟩⟩
  | orderedLeft _ ih =>
    cases goals with
    | ordered lefts rights =>
      rcases ih lefts starts.left with ⟨finish, counterpart, ⟨branch⟩⟩
      exact ⟨finish, counterpart, ⟨.orderedLeft branch⟩⟩
  | orderedRight _ ih =>
    cases goals with
    | ordered lefts rights =>
      rcases ih rights starts.right with ⟨finish, counterpart, ⟨branch⟩⟩
      exact ⟨finish, counterpart, ⟨.orderedRight branch⟩⟩
  | defer _ ih =>
    cases goals with
    | defer same =>
      rcases (generic.unfolds same).enter starts gaps otherGaps with
        ⟨larger, included, entered, goalsBuilt⟩
      rcases ih goalsBuilt entered with ⟨finish, counterpart, ⟨built⟩⟩
      exact ⟨finish, counterpart.mono included, ⟨.defer built⟩⟩
  | dynamic _ ih =>
    cases goals with
    | dynamic counts parts =>
      rcases Goal.Alike.enter (.dynamic counts parts) starts gaps
          otherGaps with
        ⟨larger, included, entered, goalsBuilt⟩
      rcases ih goalsBuilt entered with ⟨finish, counterpart, ⟨built⟩⟩
      exact ⟨finish, counterpart.mono included, ⟨.dynamic built⟩⟩

/-! ## Listings -/

theorem exists_mem_of_forall₂
    {α β : Type}
    {related : α → β → Prop}
    {items : List α}
    {others : List β}
    (lists : List.Forall₂ related items others)
    {other : β}
    (member : other ∈ others) :
    ∃ item ∈ items, related item other := by
  induction lists with
  | nil => exact (List.not_mem_nil member).elim
  | cons here _ ih =>
    rcases List.mem_cons.mp member with rfl | later
    · exact ⟨_, List.mem_cons_self, here⟩
    · rcases ih later with ⟨item, inside, same⟩
      exact ⟨item, List.mem_cons_of_mem _ inside, same⟩

theorem forall₂_flatMap
    {α β γ δ : Type}
    {related : α → β → Prop}
    {results : γ → δ → Prop}
    {items : List α}
    {others : List β}
    {each : α → List γ}
    {otherEach : β → List δ}
    (lists : List.Forall₂ related items others)
    (step :
      ∀ item ∈ items, ∀ other ∈ others, related item other →
        List.Forall₂ results (each item) (otherEach other)) :
    List.Forall₂ results (items.flatMap each)
      (others.flatMap otherEach) := by
  induction lists with
  | nil => exact .nil
  | cons here _ ih =>
    rw [List.flatMap_cons, List.flatMap_cons]
    refine List.rel_append
      (step _ List.mem_cons_self _ List.mem_cons_self here) (ih ?_)
    intro item member other otherMember
    exact step item (List.mem_cons_of_mem _ member) other
      (List.mem_cons_of_mem _ otherMember)

/-- What is fed onwards from counterparts has counterparts. -/
theorem Listing.exists_both_counterpart
    {pairing : Pairing}
    {otherGaps : Gaps}
    {otherSecond : Goal Code}
    {middles otherMiddles : List (Located Subst)}
    {results : Located Subst → List (Located Subst)}
    (related :
      List.Forall₂ (Located.Counterpart pairing) middles otherMiddles)
    (each :
      ∀ middle ∈ middles, ∀ otherMiddle,
        Located.Counterpart pairing middle otherMiddle →
          ∃ others,
            Listing goalOf otherGaps otherSecond otherMiddle others ∧
              List.Forall₂ (Located.Counterpart pairing) (results middle)
                others) :
    ∃ otherResults : Located Subst → List (Located Subst),
      (∀ otherMiddle ∈ otherMiddles,
        Listing goalOf otherGaps otherSecond otherMiddle
          (otherResults otherMiddle)) ∧
        List.Forall₂ (Located.Counterpart pairing) (middles.flatMap results)
          (otherMiddles.flatMap otherResults) := by
  have listed : ∀ otherMiddle ∈ otherMiddles, ∃ others,
      Listing goalOf otherGaps otherSecond otherMiddle others := by
    intro otherMiddle member
    rcases exists_mem_of_forall₂ related member with ⟨middle, inside, same⟩
    rcases each middle inside otherMiddle same with ⟨others, back, _⟩
    exact ⟨others, back⟩
  choose! otherResults back using listed
  refine ⟨otherResults, back, forall₂_flatMap related ?_⟩
  intro middle member otherMiddle otherMember same
  rcases each middle member otherMiddle same with
    ⟨others, listing, counterparts⟩
  rwa [← listing.unique (back otherMiddle otherMember)]

/-- Each listing has a counterpart with any other gaps. -/
theorem Listing.exists_counterpart
    (generic : GenericCodes goalOf codes)
    (otherGaps : Gaps)
    {goal otherGoal : Goal Code}
    {start other : Located Subst}
    {found : List (Located Subst)}
    {pairing : Pairing}
    (listing : Listing goalOf gaps goal start found)
    (goals : Goal.Alike codes pairing goal otherGoal)
    (starts : start.Alike pairing other) :
    ∃ others,
      Listing goalOf otherGaps otherGoal other others ∧
        List.Forall₂ (Located.Counterpart pairing) found others := by
  induction listing generalizing otherGoal other pairing with
  | unified success =>
    cases goals with
    | eq lefts rights =>
      have outcomes := starts.substs.unify starts.oneToOne lefts rights
      rw [success] at outcomes
      rcases exists_eq_some_of_rel outcomes with ⟨_, otherSuccess, alike⟩
      exact ⟨_, .unified otherSuccess,
        .cons ⟨pairing, fun _ _ paired => paired,
          ⟨starts.trace_eq, starts.oneToOne, starts.within, alike⟩⟩ .nil⟩
  | clash failure =>
    cases goals with
    | eq lefts rights =>
      have outcomes := starts.substs.unify starts.oneToOne lefts rights
      rw [failure] at outcomes
      exact ⟨[], .clash (eq_none_of_rel outcomes), .nil⟩
  | succeed =>
    cases goals
    exact ⟨[other], .succeed,
      .cons ⟨pairing, fun _ _ paired => paired, starts⟩ .nil⟩
  | fail =>
    cases goals
    exact ⟨[], .fail, .nil⟩
  | both _ _ frontIH backIH =>
    cases goals with
    | both firsts seconds =>
      rcases frontIH firsts starts with ⟨_, front, related⟩
      rcases Listing.exists_both_counterpart related (by
        rintro middle member otherMiddle ⟨larger, included, alike⟩
        rcases backIH middle member (seconds.mono generic included) alike with
          ⟨others, back, counterparts⟩
        exact ⟨others, back,
          counterparts.imp fun _ _ same => same.mono included⟩) with
        ⟨_, back, counterparts⟩
      exact ⟨_, .both front back, counterparts⟩
  | either _ _ leftIH rightIH =>
    cases goals with
    | either lefts rights =>
      rcases leftIH lefts starts.left with ⟨_, onLeft, leftsRelated⟩
      rcases rightIH rights starts.right with ⟨_, onRight, rightsRelated⟩
      exact ⟨_, .either onLeft onRight,
        List.rel_append leftsRelated rightsRelated⟩
  | ordered _ _ leftIH rightIH =>
    cases goals with
    | ordered lefts rights =>
      rcases leftIH lefts starts.left with ⟨_, onLeft, leftsRelated⟩
      rcases rightIH rights starts.right with ⟨_, onRight, rightsRelated⟩
      exact ⟨_, .ordered onLeft onRight,
        List.rel_append leftsRelated rightsRelated⟩
  | defer _ ih =>
    cases goals with
    | defer same =>
      rcases (generic.unfolds same).enter starts gaps otherGaps with
        ⟨larger, included, entered, goalsBuilt⟩
      rcases ih goalsBuilt entered with ⟨others, built, counterparts⟩
      exact ⟨others, .defer built,
        counterparts.imp fun _ _ same => same.mono included⟩
  | dynamic _ ih =>
    cases goals with
    | dynamic counts parts =>
      rcases Goal.Alike.enter (.dynamic counts parts) starts gaps
          otherGaps with
        ⟨larger, included, entered, goalsBuilt⟩
      rcases ih goalsBuilt entered with ⟨others, built, counterparts⟩
      exact ⟨others, .dynamic built,
        counterparts.imp fun _ _ same => same.mono included⟩

end Counterparts

end RelationalSearch
