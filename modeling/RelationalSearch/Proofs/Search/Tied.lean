import RelationalSearch.Proofs.Search.Alike
import RelationalSearch.Proofs.Subst.Agreement
import RelationalSearch.Relation.Empty

/-!
# Goals with tied variables

Two goals are tied if they differ in tied variables only, and if what they build
later is tied again (`Goal.Tied`).  A goal that is built from a substitution may
look at what tied terms stand for, but not at the numbers of variables.
-/

namespace RelationalSearch

variable {Code : Type}

/-! ## Ties that grow -/

namespace Ties

/-- All ties are kept. -/
structure Extends (ties larger : Ties) : Prop where
  all : ∀ x y, ties.all x y → larger.all x y
  roots : ∀ x y, ties.roots x y → larger.roots x y

/-- Ties of variables that have been minted. -/
structure Proper (ties : Ties) (supply other : Nat) : Prop where
  oneToOne : ties.roots.OneToOne
  included : ∀ x y, ties.roots x y → ties.all x y
  within : ties.all.Within supply other

/-- More ties, of variables that have been minted. -/
structure Growth (ties larger : Ties) (supply other : Nat) : Prop where
  widens : ties.Extends larger
  proper : larger.Proper supply other

/-- Ties the next variables, in the order in which they are minted. -/
def extend (ties : Ties) (supply other count : Nat) : Ties where
  all := ties.all.extend supply other count
  roots := ties.roots.extend supply other count

variable {ties larger largest : Ties} {supply other : Nat}

theorem Extends.refl (ties : Ties) : ties.Extends ties :=
  ⟨fun _ _ tied => tied, fun _ _ tied => tied⟩

theorem Extends.trans
    (first : ties.Extends larger)
    (second : larger.Extends largest) :
    ties.Extends largest :=
  ⟨fun x y tied => second.all x y (first.all x y tied),
    fun x y tied => second.roots x y (first.roots x y tied)⟩

theorem extends_extend (ties : Ties) (supply other count : Nat) :
    ties.Extends (ties.extend supply other count) :=
  ⟨fun _ _ tied => .inl tied, fun _ _ tied => .inl tied⟩

theorem Proper.growth (proper : ties.Proper supply other) :
    ties.Growth ties supply other :=
  ⟨.refl ties, proper⟩

theorem Proper.mono
    (proper : ties.Proper supply other)
    {more otherMore : Nat}
    (ordered : supply ≤ more)
    (otherOrdered : other ≤ otherMore) :
    ties.Proper more otherMore :=
  ⟨proper.oneToOne, proper.included, proper.within.mono ordered otherOrdered⟩

theorem Proper.extend (proper : ties.Proper supply other) (count : Nat) :
    (ties.extend supply other count).Proper (supply + count)
      (other + count) where
  oneToOne :=
    proper.oneToOne.extend
      (fun x y root => proper.within x y (proper.included x y root)) count
  included x y := Or.imp_left (proper.included x y)
  within := proper.within.extend count

theorem extend_extend (first second : Nat) :
    (ties.extend supply other first).extend (supply + first) (other + first)
        second =
      ties.extend supply other (first + second) := by
  rw [extend, extend, extend, Pairing.extend_extend, Pairing.extend_extend]

/-- Declared variables are tied to their new names. -/
def renamed (declared : Set Var) (rename : Var → Var) : Ties where
  all x y := x ∈ declared ∧ rename x = y
  roots x y := x ∈ declared ∧ rename x = y

theorem proper_renamed
    {declared : Set Var}
    {rename : Var → Var}
    (injective : Set.InjOn rename declared)
    (below : ∀ x ∈ declared, x.id < supply)
    (otherBelow : ∀ x ∈ declared, (rename x).id < other) :
    (renamed declared rename).Proper supply other where
  oneToOne := by
    constructor
    · rintro x y z ⟨_, rfl⟩ ⟨_, rfl⟩
      rfl
    · rintro x y z ⟨inX, same⟩ ⟨inY, rfl⟩
      exact injective inX inY same
  included _ _ root := root
  within := by
    rintro x y ⟨inside, rfl⟩
    exact ⟨below x inside, otherBelow x inside⟩

end Ties

/-! ## Recipes -/

/--
The recipes mint as many variables, and what they make is related when these
are tied.
-/
def Recipe.Tied
    {α β : Type}
    (related : Ties → α → β → Prop)
    (ties : Ties)
    (recipe : Recipe α)
    (other : Recipe β) : Prop :=
  ∀ ⦃larger : Ties⦄ ⦃supply otherSupply : Nat⦄,
    ties.Growth larger supply otherSupply →
      (recipe.made supply).2 - supply =
          (other.made otherSupply).2 - otherSupply ∧
        related
          (larger.extend supply otherSupply ((recipe.made supply).2 - supply))
          (recipe.made supply).1 (other.made otherSupply).1

namespace Recipe

variable {α β γ δ : Type} {ties : Ties}

theorem tied_done
    {related : Ties → α → β → Prop}
    {value : α}
    {other : β}
    (relates : ∀ larger, ties.Extends larger → related larger value other) :
    Tied related ties (.done value) (.done other) := by
  intro larger supply otherSupply growth
  refine ⟨by simp [made], relates _ ?_⟩
  exact growth.widens.trans (Ties.extends_extend _ _ _ _)

/-- Notes do not matter. -/
theorem Tied.note
    {related : Ties → α → β → Prop}
    {recipe : Recipe α}
    {other : Recipe β}
    (tied : Tied related ties recipe other)
    (event otherEvent : String) :
    Tied related ties (.note event recipe) (.note otherEvent other) :=
  tied

/-- What comes behind tied recipes has to be tied for what they make. -/
theorem Tied.andThen
    {first : Ties → α → β → Prop}
    {second : Ties → γ → δ → Prop}
    {recipe : Recipe α}
    {other : Recipe β}
    {next : α → Recipe γ}
    {otherNext : β → Recipe δ}
    (front : Tied first ties recipe other)
    (back :
      ∀ (larger : Ties) (value : α) (otherValue : β),
        ties.Extends larger → first larger value otherValue →
          Tied second larger (next value) (otherNext otherValue)) :
    Tied second ties (recipe.andThen next) (other.andThen otherNext) := by
  intro larger supply otherSupply growth
  rcases front growth with ⟨sameCount, tied⟩
  have minted := recipe.le_made supply
  have otherMinted := other.le_made otherSupply
  generalize counted : (recipe.made supply).2 - supply = count
    at sameCount tied
  have reached : (recipe.made supply).2 = supply + count := by omega
  have otherReached : (other.made otherSupply).2 = otherSupply + count := by
    omega
  have grown := growth.widens.trans
    (larger.extends_extend supply otherSupply count)
  have later := back _ _ _ grown tied (growth.proper.extend count).growth
  rcases later with ⟨sameLater, tiedLater⟩
  rw [made_andThen, made_andThen, reached, otherReached]
  rw [Ties.extend_extend] at tiedLater
  have mintedLater := (next (recipe.made supply).1).le_made (supply + count)
  have otherMintedLater :=
    (otherNext (other.made otherSupply).1).le_made (otherSupply + count)
  have total :
      count + (((next (recipe.made supply).1).made (supply + count)).2 -
        (supply + count)) =
      ((next (recipe.made supply).1).made (supply + count)).2 - supply := by
    omega
  rw [total] at tiedLater
  exact ⟨by omega, tiedLater⟩

/-- Fresh variables are tied. -/
theorem tied_freshTerm (name otherName : String) :
    Tied (fun ties => Term.Alike ties.all) ties (freshTerm name)
      (freshTerm otherName) := by
  intro larger supply otherSupply growth
  exact ⟨by simp [freshTerm, made],
    .var (.inr ⟨0, by simp [freshTerm, made], rfl, rfl⟩)⟩

end Recipe

/-! ## Goals -/

/--
The goals differ in tied variables only, and so do the goals that they build
once more variables are tied, of substitutions that agree.
-/
inductive Goal.Tied (codes : Ties → Code → Code → Prop) :
    Ties → Goal Code → Goal Code → Prop where
  | eq
      {ties : Ties} {left right otherLeft otherRight : Term}
      (lefts : Term.Alike ties.all left otherLeft)
      (rights : Term.Alike ties.all right otherRight) :
      Tied codes ties (.eq left right) (.eq otherLeft otherRight)
  | succeed {ties : Ties} : Tied codes ties .succeed .succeed
  | fail {ties : Ties} : Tied codes ties .fail .fail
  | both
      {ties : Ties} {first second otherFirst otherSecond : Goal Code}
      (firsts : Tied codes ties first otherFirst)
      (seconds : Tied codes ties second otherSecond) :
      Tied codes ties (.both first second) (.both otherFirst otherSecond)
  | either
      {ties : Ties} {left right otherLeft otherRight : Goal Code}
      (lefts : Tied codes ties left otherLeft)
      (rights : Tied codes ties right otherRight) :
      Tied codes ties (.either left right) (.either otherLeft otherRight)
  | ordered
      {ties : Ties} {left right otherLeft otherRight : Goal Code}
      (lefts : Tied codes ties left otherLeft)
      (rights : Tied codes ties right otherRight) :
      Tied codes ties (.ordered left right) (.ordered otherLeft otherRight)
  | defer
      {ties : Ties} {code otherCode : Code}
      (same : codes ties code otherCode) :
      Tied codes ties (.defer code) (.defer otherCode)
  | dynamic
      {ties : Ties} {builder otherBuilder : Subst → Recipe (Goal Code)}
      (counts :
        ∀ {larger supply other subst otherSubst},
          ties.Growth larger supply other →
          Subst.Agree larger subst otherSubst →
            ((builder subst).made supply).2 - supply =
              ((otherBuilder otherSubst).made other).2 - other)
      (parts :
        ∀ {larger supply other subst otherSubst},
          ties.Growth larger supply other →
          Subst.Agree larger subst otherSubst →
            Tied codes
              (larger.extend supply other
                (((builder subst).made supply).2 - supply))
              ((builder subst).made supply).1
              ((otherBuilder otherSubst).made other).1) :
      Tied codes ties (.dynamic builder) (.dynamic otherBuilder)

/-- Codes that are tied stand for goals that are tied. -/
structure TiedCodes
    (goalOf : Code → Recipe (Goal Code))
    (codes : Ties → Code → Code → Prop) : Prop where
  mono :
    ∀ {ties larger : Ties} {code other : Code},
      ties.Extends larger → codes ties code other → codes larger code other
  unfolds :
    ∀ {ties : Ties} {code other : Code},
      codes ties code other →
        Recipe.Tied (Goal.Tied codes) ties (goalOf code) (goalOf other)

namespace Goal

variable {codes : Ties → Code → Code → Prop} {ties : Ties}

theorem Tied.mono
    (grows : ∀ {ties larger : Ties} {code other : Code},
      ties.Extends larger → codes ties code other → codes larger code other)
    {larger : Ties}
    {goal other : Goal Code}
    (tied : Tied codes ties goal other)
    (widens : ties.Extends larger) :
    Tied codes larger goal other := by
  induction tied generalizing larger with
  | eq lefts rights =>
    exact .eq (lefts.mono widens.all) (rights.mono widens.all)
  | succeed => exact .succeed
  | fail => exact .fail
  | both _ _ firstIH secondIH =>
    exact .both (firstIH widens) (secondIH widens)
  | either _ _ leftIH rightIH =>
    exact .either (leftIH widens) (rightIH widens)
  | ordered _ _ leftIH rightIH =>
    exact .ordered (leftIH widens) (rightIH widens)
  | defer same => exact .defer (grows widens same)
  | dynamic counts parts _ =>
    refine .dynamic ?_ ?_
    · intro largest supply otherSupply subst otherSubst growth
      exact counts ⟨widens.trans growth.widens, growth.proper⟩
    · intro largest supply otherSupply subst otherSubst growth
      exact parts ⟨widens.trans growth.widens, growth.proper⟩

/-- Goals are built alike of substitutions that agree. -/
theorem tied_dynamic
    {builder otherBuilder : Subst → Recipe (Goal Code)}
    (recipes :
      ∀ (larger : Ties) (subst other : Subst),
        ties.Extends larger →
          (∀ x y, larger.roots x y → larger.all x y) →
            subst.Agree larger other →
              Recipe.Tied (Tied codes) larger (builder subst)
                (otherBuilder other)) :
    Tied codes ties (.dynamic builder) (.dynamic otherBuilder) := by
  refine .dynamic ?_ ?_
  · intro larger supply otherSupply subst other growth substs
    exact (recipes larger subst other growth.widens growth.proper.included
      substs growth.proper.growth).1
  · intro larger supply otherSupply subst other growth substs
    exact (recipes larger subst other growth.widens growth.proper.included
      substs growth.proper.growth).2

/-! ## Goals made of tied goals -/

theorem tied_all
    {goals others : List (Goal Code)}
    (each : List.Forall₂ (Tied codes ties) goals others) :
    Tied codes ties (.all goals) (.all others) :=
  related_all .succeed .both each

theorem tied_any
    {branches others : List (List (Goal Code))}
    (each : List.Forall₂ (List.Forall₂ (Tied codes ties)) branches others) :
    Tied codes ties (.any branches) (.any others) := by
  induction each with
  | nil => exact .fail
  | cons branch _ ih => exact .either (tied_all branch) ih

theorem tied_anyInOrder
    {branches others : List (List (Goal Code))}
    (each : List.Forall₂ (List.Forall₂ (Tied codes ties)) branches others) :
    Tied codes ties (.anyInOrder branches) (.anyInOrder others) := by
  induction each with
  | nil => exact .fail
  | cons branch _ ih => exact .ordered (tied_all branch) ih

theorem tied_cons
    {head tail whole otherHead otherTail otherWhole : Term}
    (heads : Term.Alike ties.all head otherHead)
    (tails : Term.Alike ties.all tail otherTail)
    (wholes : Term.Alike ties.all whole otherWhole) :
    Tied codes ties (.cons head tail whole)
      (.cons otherHead otherTail otherWhole) :=
  .eq (.cons heads tails) wholes

end Goal

/-! ## The ends of tied sequences -/

section Ends

variable {codes : Ties → Code → Code → Prop} {ties : Ties}

theorem Subst.Agree.agreedKind?_eq
    {subst other : Subst}
    (agree : subst.Agree ties other)
    {terms otherTerms : List Term}
    (each : List.Forall₂ (Term.Alike ties.all) terms otherTerms)
    (kind : Option SeqKind) :
    subst.agreedKind? terms kind = other.agreedKind? otherTerms kind := by
  induction each generalizing kind with
  | nil => rfl
  | @cons term otherTerm _ _ here _ ih =>
    rw [Subst.agreedKind?, Subst.agreedKind?]
    have walked := agree.walk here
    generalize subst.walk term = found at walked ⊢
    generalize other.walk otherTerm = otherFound at walked ⊢
    cases walked with
    | var => exact ih kind
    | nil found =>
      change ite _ _ _ = ite _ _ _
      rw [ih]
    | int | sym | cons => rfl

theorem Goal.tied_allEmpty
    {terms otherTerms : List Term}
    (each : List.Forall₂ (Term.Alike ties.all) terms otherTerms)
    (default : SeqKind) :
    Goal.Tied codes ties (.allEmpty terms default)
      (.allEmpty otherTerms default) := by
  refine Goal.tied_dynamic fun larger subst other grown _ agree => ?_
  have each := each.imp fun _ _ alike => alike.mono grown.all
  rw [agree.agreedKind?_eq each]
  cases other.agreedKind? otherTerms none with
  | none => exact Recipe.tied_done fun _ _ => .fail
  | some kind =>
    refine Recipe.tied_done fun largest further => tied_all ?_
    rw [List.forall₂_map_left_iff, List.forall₂_map_right_iff]
    exact each.imp fun _ _ alike => .eq (alike.mono further.all) (.nil _)

end Ends

end RelationalSearch
