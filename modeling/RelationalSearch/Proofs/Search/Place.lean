import Mathlib.Data.List.Infix
import Mathlib.Data.List.Nodup
import RelationalSearch.Goal.Basic

/-!
# Places in a search

A search branches where a disjunction is met and goes on where a goal is built.
The turns taken from the start of the search to some piece of its work are the
trace of that work.  Work that is waiting never has a trace that goes on from
the trace of other waiting work, and this is what makes the branches of a
search independent of each other: `charge` counts the waiting work that a trace
goes through, and no step of a search makes it larger.

Where a goal is built, variables are minted, and their numbers depend on how
many variables other branches have minted in the meantime.  `Gaps` says how
many these are, for each trace.
-/

namespace RelationalSearch

/-! ## Recipes as functions of the supply -/

namespace Recipe

variable {α : Type}

/-- What a recipe makes where the next variable has the number `supply`. -/
def made : Recipe α → Nat → α × Nat
  | done value, supply => (value, supply)
  | mint _ next, supply => made (next ⟨supply⟩) (supply + 1)
  | note _ next, supply => made next supply

theorem le_made (recipe : Recipe α) (supply : Nat) :
    supply ≤ (recipe.made supply).2 := by
  induction recipe generalizing supply with
  | done value => exact Nat.le_refl supply
  | mint name next ih =>
    exact Nat.le_trans (Nat.le_succ supply) (ih ⟨supply⟩ (supply + 1))
  | note event next ih => exact ih supply

end Recipe

/-! ## Goals of a disjunction and goals that are built -/

namespace Goal

variable {Code : Type}

/--
Induction over goals, in which a goal that is built from a substitution is a
part of the goal that builds it.
-/
theorem induction
    {motive : Goal Code → Prop}
    (eq : ∀ left right, motive (.eq left right))
    (succeed : motive .succeed)
    (fail : motive .fail)
    (both : ∀ first second, motive first → motive second →
      motive (.both first second))
    (either : ∀ left right, motive left → motive right →
      motive (.either left right))
    (ordered : ∀ left right, motive left → motive right →
      motive (.ordered left right))
    (defer : ∀ code, motive (.defer code))
    (dynamic : ∀ builder,
      (∀ subst supply, motive ((builder subst).made supply).1) →
        motive (.dynamic builder))
    (goal : Goal Code) :
    motive goal := by
  refine @Goal.rec Code motive
    (fun recipe => ∀ supply, motive (recipe.made supply).1)
    eq succeed fail both either ordered defer ?_ ?_ ?_ ?_ goal
  · intro builder parts
    exact dynamic builder parts
  · intro goal ih supply
    exact ih
  · intro name next ih supply
    exact ih ⟨supply⟩ (supply + 1)
  · intro event next ih supply
    exact ih supply

end Goal

/-! ## Places -/

/-- A turn of a search. -/
inductive Turn where
  | left
  | right
  /-- A goal has been built. -/
  | built
  deriving DecidableEq

/-- The turns taken so far, the latest one first. -/
abbrev Trace := List Turn

/-- The number of variables that other branches mint before a goal is built. -/
abbrev Gaps := Trace → Nat

/-- Where a branch of a search is, and a number above those it has minted. -/
structure Place where
  trace : Trace
  supply : Nat

namespace Place

/-- The place of the left goal of a disjunction. -/
def left (place : Place) : Place := ⟨.left :: place.trace, place.supply⟩

/-- The place of the right goal of a disjunction. -/
def right (place : Place) : Place := ⟨.right :: place.trace, place.supply⟩

/-- The number that the first variable minted at this place gets. -/
def opening (gaps : Gaps) (place : Place) : Nat :=
  place.supply + gaps place.trace

theorem le_opening (place : Place) (gaps : Gaps) :
    place.supply ≤ place.opening gaps :=
  Nat.le_add_right place.supply _

/-- The place of a goal that has been built. -/
def built (place : Place) (supply : Nat) : Place :=
  ⟨.built :: place.trace, supply⟩

end Place

/-- Something that a branch of a search holds. -/
structure Located (α : Type) where
  place : Place
  value : α

/-- The start of a search, where no turn has been taken. -/
def Located.root (subst : Subst) (session : Session) : Located Subst :=
  ⟨⟨[], session.supply⟩, subst⟩

/-! ## Charges -/

/-- The number of places that a trace goes through. -/
def charge (places : List Place) (trace : Trace) : Nat :=
  places.countP fun place => place.trace.isSuffixOf trace

@[simp]
theorem charge_nil (trace : Trace) : charge [] trace = 0 := rfl

@[simp]
theorem charge_append (first second : List Place) (trace : Trace) :
    charge (first ++ second) trace =
      charge first trace + charge second trace :=
  List.countP_append

theorem charge_singleton (place : Place) (trace : Trace) :
    charge [place] trace = if place.trace <:+ trace then 1 else 0 := by
  simp [charge, List.countP_cons]

theorem charge_singleton_le (place : Place) (trace : Trace) :
    charge [place] trace ≤ 1 := by
  rw [charge_singleton]
  split <;> omega

theorem charge_singleton_self (place : Place) :
    charge [place] place.trace = 1 := by
  simp [charge_singleton]

/-- Places none of which goes on from another one. -/
def Scattered (places : List Place) : Prop :=
  ∀ trace, charge places trace ≤ 1

theorem Scattered.of_charge_le
    {places others : List Place}
    (scattered : Scattered others)
    (charged : ∀ trace, charge places trace ≤ charge others trace) :
    Scattered places := by
  intro trace
  exact (charged trace).trans (scattered trace)

theorem Scattered.of_append_left
    {first second : List Place}
    (scattered : Scattered (first ++ second)) :
    Scattered first := by
  refine scattered.of_charge_le ?_
  intro trace
  rw [charge_append]
  exact Nat.le_add_right _ _

theorem Scattered.of_append_right
    {first second : List Place}
    (scattered : Scattered (first ++ second)) :
    Scattered second := by
  refine scattered.of_charge_le ?_
  intro trace
  rw [charge_append]
  exact Nat.le_add_left _ _

theorem Scattered.symm
    {first second : List Place}
    (scattered : Scattered (first ++ second)) :
    Scattered (second ++ first) := by
  refine scattered.of_charge_le ?_
  intro trace
  rw [charge_append, charge_append, Nat.add_comm]

/-- Scattered places have traces of their own. -/
theorem Scattered.nodup
    {places : List Place}
    (scattered : Scattered places) :
    (places.map Place.trace).Nodup := by
  rw [List.nodup_iff_count_le_one]
  intro trace
  refine Nat.le_trans ?_ (scattered trace)
  rw [List.count, List.countP_map]
  refine List.countP_mono_left ?_
  intro place _ same
  have equal : place.trace = trace := by simpa using same
  simp [equal]

theorem scattered_singleton (place : Place) : Scattered [place] :=
  charge_singleton_le place

/-- Traces that begin with different turns from one place do not meet. -/
theorem eq_of_cons_isSuffix
    {first second : Turn}
    {trace longer : Trace}
    (firstSuffix : first :: trace <:+ longer)
    (secondSuffix : second :: trace <:+ longer) :
    first = second := by
  have nested :=
    List.suffix_of_suffix_length_le firstSuffix secondSuffix (by simp)
  exact (List.cons.inj (nested.eq_of_length (by simp))).1

/-- The two goals of a disjunction have no more places than the disjunction. -/
theorem charge_branches_le (place : Place) (trace : Trace) :
    charge ([place.left] ++ [place.right]) trace ≤ charge [place] trace := by
  rw [charge_append, charge_singleton, charge_singleton, charge_singleton]
  by_cases onLeft : place.left.trace <:+ trace
  · have onPlace : place.trace <:+ trace :=
      (List.suffix_cons _ _).trans onLeft
    have notRight : ¬ place.right.trace <:+ trace := by
      intro onRight
      cases eq_of_cons_isSuffix onLeft onRight
    rw [if_pos onLeft, if_neg notRight, if_pos onPlace]
  · by_cases onRight : place.right.trace <:+ trace
    · have onPlace : place.trace <:+ trace :=
        (List.suffix_cons _ _).trans onRight
      rw [if_neg onLeft, if_pos onRight, if_pos onPlace]
    · rw [if_neg onLeft, if_neg onRight]
      exact Nat.zero_le _

theorem scattered_branches (place : Place) :
    Scattered ([place.left] ++ [place.right]) :=
  (scattered_singleton place).of_charge_le (charge_branches_le place)

/-- Building leaves its own trace behind. -/
theorem charge_built_add_count_le
    (place : Place)
    (supply : Nat)
    (trace : Trace) :
    charge [place.built supply] trace + [place.trace].count trace ≤
      charge [place] trace := by
  rw [charge_singleton, charge_singleton]
  by_cases onBuilt : (place.built supply).trace <:+ trace
  · have onPlace : place.trace <:+ trace :=
      (List.suffix_cons _ _).trans onBuilt
    have other : place.trace ≠ trace := by
      intro same
      have shorter := onBuilt.length_le
      rw [← same] at shorter
      simp only [Place.built, List.length_cons] at shorter
      omega
    rw [if_pos onBuilt, if_pos onPlace]
    simp [other]
  · rw [if_neg onBuilt]
    by_cases same : place.trace = trace
    · simp [same]
    · simp [same]

/-! ## Supplies -/

/-- All places hold only variables with numbers below the supply. -/
def Below (supply : Nat) (places : List Place) : Prop :=
  ∀ place ∈ places, place.supply ≤ supply

@[simp]
theorem below_nil (supply : Nat) : Below supply [] := by
  simp [Below]

@[simp]
theorem below_append_iff
    {supply : Nat}
    {first second : List Place} :
    Below supply (first ++ second) ↔
      Below supply first ∧ Below supply second := by
  simp only [Below, List.mem_append]
  constructor
  · intro all
    exact ⟨fun place member => all place (.inl member),
      fun place member => all place (.inr member)⟩
  · rintro ⟨all, others⟩ place (member | member)
    · exact all place member
    · exact others place member

@[simp]
theorem below_cons_iff
    {supply : Nat}
    {place : Place}
    {places : List Place} :
    Below supply (place :: places) ↔
      place.supply ≤ supply ∧ Below supply places := by
  simp [Below]

theorem below_singleton_iff {supply : Nat} {place : Place} :
    Below supply [place] ↔ place.supply ≤ supply := by
  simp [Below]

theorem Below.mono
    {small large : Nat}
    {places : List Place}
    (below : Below small places)
    (ordered : small ≤ large) :
    Below large places := by
  intro place member
  exact (below place member).trans ordered

end RelationalSearch
