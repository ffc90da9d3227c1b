import RelationalSearch.Proofs.Relation.Linking
import RelationalSearch.Proofs.Search.Relocation

/-!
# Relations with finitely many results

A relation ends if each call has finitely many results, from every state of a
session, wherever in a search it is called and whatever numbers the variables
get that it mints (`Program.Ends`).

A relation is uniform if it treats alike all variables that do not belong to
it (`Relation.Uniform`).  Such a relation ends as soon as every call of it ends
that is made alone (`Relation.Uniform.ends`).
-/

namespace RelationalSearch

variable {Base Custom : Type}

namespace Program

variable (program : Program Base Custom)

/-- The goal that a relation makes, and the number of the next variable. -/
def calling
    (relation : Relation Base)
    (first second : Term)
    (supply : Nat) : CodedGoal Base Custom × Nat :=
  (program.relate relation first second).made supply

/-- The relation holds between the two elements; it is called for them. -/
def link (relation : Relation Base) : Link Base Custom :=
  fun first second => .dynamic fun _ => program.relate relation first second

/--
Each call of the relation ends, with results of the session.  The relation may
hold variables below the least number itself.
-/
def Ends (least : Nat) (relation : Relation Base) : Prop :=
  ∀ (gaps : Gaps) (start : Located Subst) (first second : Term) (supply : Nat),
    least ≤ supply → first.ceiling ≤ supply → second.ceiling ≤ supply →
      (program.calling relation first second supply).2 ≤ start.place.supply →
        start.value.Within start.place.supply →
          ∃ results,
            (program.calling relation first second supply).1.Completes
                program.unfold gaps start results ∧
              ∀ result ∈ results, result.value.Within result.place.supply

variable {program} {least : Nat} {relation : Relation Base}

theorem Ends.mono
    (ends : program.Ends least relation)
    {more : Nat}
    (ordered : least ≤ more) :
    program.Ends more relation :=
  fun gaps start first second supply low =>
    ends gaps start first second supply (ordered.trans low)

/-- A relation the calls of which read as something ends. -/
theorem ends_of_readsAs
    (reads :
      ∀ (gaps : Gaps) (start : Located Subst) (first second : Term)
        (supply : Nat),
        least ≤ supply → first.ceiling ≤ supply → second.ceiling ≤ supply →
          (program.calling relation first second supply).2 ≤
              start.place.supply →
            start.value.Within start.place.supply →
              ∃ reference known,
                (program.calling relation first second supply).1.ReadsAs
                  program.unfold gaps reference start known) :
    program.Ends least relation := by
  intro gaps start first second supply low firstLow secondLow enough within
  rcases reads gaps start first second supply low firstLow secondLow enough
      within with ⟨_, _, found, listing, _, all⟩
  rcases listing.exists_completes with ⟨results, completes, permuted⟩
  refine ⟨results, completes, fun result member => ?_⟩
  exact (all result (permuted.mem_iff.mp member)).1

/-- Branches that let a term stand for one of some ground values. -/
theorem readsAs_any_eq
    {Code : Type}
    {goalOf : Code → Recipe (Goal Code)}
    {gaps : Gaps}
    {start : Located Subst}
    {first second : Term}
    (covers : start.Covers first second)
    {values : List Term}
    (ground : ∀ value ∈ values, value.isGround = true) :
    (Goal.any (values.map fun value => [.eq second value])).ReadsAs goalOf
      gaps (.any (values.map fun value => [.eq second value])) start
      fun _ => True := by
  induction values generalizing start with
  | nil => exact .fail
  | cons value values ih =>
    rw [List.forall_mem_cons] at ground
    have left := covers.move start.place.left (Nat.le_refl _)
    have right := covers.move start.place.right (Nat.le_refl _)
    have valueLow : value.ceiling ≤ start.place.supply := by
      rw [Term.ceiling_eq_zero_of_isGround ground.1]
      exact Nat.zero_le _
    refine .either ?_ (ih right ground.2)
    exact (Goal.ReadsAs.eq left.within left.secondLow valueLow).imp
      left.within.acyclic fun _ _ _ => trivial

/-- A relation that is given by a table ends. -/
theorem ends_table
    {steps : Term → List Term}
    (ground : ∀ term, ∀ value ∈ steps term, value.isGround = true) :
    (table steps).Ends 0 (.base ()) := by
  apply ends_of_readsAs
  intro gaps start first second supply _ firstLow secondLow enough within
  have made : supply ≤ start.place.supply := enough
  have opened := start.place.le_opening gaps
  have covers : start.Covers first second :=
    ⟨within, firstLow.trans made, secondLow.trans made⟩
  have inside :=
    covers.move (start.place.built (start.place.opening gaps)) opened
  have whole : ((table steps).calling (.base ()) first second
      supply).1.ReadsAs (table steps).unfold gaps
      ((table steps).calling (.base ()) first second supply).1 start
      fun _ => True :=
    .dynamic opened (Nat.le_refl _)
      (readsAs_any_eq inside (ground (start.value.reify first)))
  exact ⟨_, _, whole⟩

/-! ## Calls that are put off -/

/-- A call of a relation that ends reads as it stands. -/
theorem Ends.readsAs
    (ends : program.Ends least relation)
    {gaps : Gaps}
    {start : Located Subst}
    {first second : Term}
    {supply : Nat}
    (low : least ≤ supply)
    (firstLow : first.ceiling ≤ supply)
    (secondLow : second.ceiling ≤ supply)
    (enough :
      (program.calling relation first second supply).2 ≤ start.place.supply)
    (within : start.value.Within start.place.supply) :
    (program.calling relation first second supply).1.ReadsAs program.unfold
      gaps (program.calling relation first second supply).1 start
      fun _ => True := by
  rcases ends gaps start first second supply low firstLow secondLow enough
      within with ⟨results, completes, known⟩
  rcases completes.exists_listing with ⟨found, listing, permuted⟩
  refine ⟨found, listing, listing.reading, ?_⟩
  intro result member
  exact ⟨known result (permuted.mem_iff.mpr member), trivial⟩

theorem Ends.readsAs_defer
    (ends : program.Ends least relation)
    {gaps : Gaps}
    {start : Located Subst}
    {first second : Term}
    (covers : start.Covers first second)
    (low : least ≤ start.place.supply) :
    (Goal.defer (.relate relation first second)).ReadsAs program.unfold gaps
      (program.link relation first second) start fun _ => True := by
  have opened := start.place.le_opening gaps
  refine .defer opened (Nat.le_refl _) (ends.readsAs (low.trans opened)
    (covers.firstLow.trans opened) (covers.secondLow.trans opened)
    (Nat.le_refl _) ?_)
  exact covers.within.mono (opened.trans (Recipe.le_made _ _))

end Program

/-! ## Uniform relations -/

/--
The relation treats all variables alike, but those below the least number: its
calls for terms that differ in paired variables differ in these only.
-/
def Relation.Uniform
    (codes : Pairing → Code Base Custom → Code Base Custom → Prop)
    (least : Nat)
    (relation : Relation Base) : Prop :=
  ∀ (pairing : Pairing), (∀ x : Var, x.id < least → pairing x x) →
    ∀ (first second otherFirst otherSecond : Term),
      Term.Alike pairing first otherFirst →
        Term.Alike pairing second otherSecond →
          codes pairing (.relate relation first second)
            (.relate relation otherFirst otherSecond)

namespace Relation

variable {program : Program Base Custom} {least : Nat}
  {relation : Relation Base}
  {codes : Pairing → Code Base Custom → Code Base Custom → Prop}

/-- Calls of a uniform relation are alike. -/
theorem Uniform.recipes
    (uniform : relation.Uniform codes least)
    (generic : GenericCodes program.unfold codes)
    {pairing : Pairing}
    (own : ∀ x : Var, x.id < least → pairing x x)
    {first second otherFirst otherSecond : Term}
    (firsts : Term.Alike pairing first otherFirst)
    (seconds : Term.Alike pairing second otherSecond) :
    Recipe.Alike (Goal.Alike codes) pairing
      (program.relate relation first second)
      (program.relate relation otherFirst otherSecond) :=
  (generic.unfolds
    (uniform pairing own _ _ _ _ firsts seconds)).recipes

theorem Uniform.link
    (uniform : relation.Uniform codes least)
    (generic : GenericCodes program.unfold codes)
    {pairing : Pairing}
    (own : ∀ x : Var, x.id < least → pairing x x)
    {first second otherFirst otherSecond : Term}
    (firsts : Term.Alike pairing first otherFirst)
    (seconds : Term.Alike pairing second otherSecond) :
    Goal.Alike codes pairing (program.link relation first second)
      (program.link relation otherFirst otherSecond) :=
  generic.unfolds (uniform pairing own _ _ _ _ firsts seconds)

/--
A uniform relation ends if every call ends that is made alone, in a session in
which the call has been built.
-/
theorem Uniform.ends
    (uniform : relation.Uniform codes least)
    (generic : GenericCodes program.unfold codes)
    (alone :
      ∀ (first second : Term) (supply : Nat) (subst : Subst)
        (session : Session),
        least ≤ supply → first.ceiling ≤ supply → second.ceiling ≤ supply →
          (program.calling relation first second supply).2 ≤ session.supply →
            subst.Within session.supply →
              ∃ results,
                (program.calling relation first second supply).1.Drains
                  program.unfold subst session results) :
    program.Ends least relation := by
  intro gaps start first second supply low firstLow secondLow enough within
  let session : Session := ⟨Array.replicate start.place.supply "", #[]⟩
  have supplied : session.supply = start.place.supply :=
    Array.size_replicate
  have own : ∀ x : Var, x.id < least → Pairing.upTo supply x x :=
    fun x below => ⟨rfl, Nat.lt_of_lt_of_le below low⟩
  have recipes := uniform.recipes generic own (Term.alike_upTo firstLow)
    (Term.alike_upTo secondLow)
  have goals : Generic program.unfold
      (program.calling relation first second supply).1 start.value
      session.supply :=
    recipes.generic generic (supplied ▸ enough) (supplied ▸ within)
  rcases alone first second supply start.value session low firstLow secondLow
      (supplied ▸ enough) (supplied ▸ within) with ⟨results, drains⟩
  rcases drains.exists_listing goals within.acyclic gaps start.place.trace with
    ⟨found, listing, known⟩
  rw [supplied] at listing
  rcases listing.exists_completes with ⟨delivered, completes, permuted⟩
  refine ⟨delivered, completes, fun result member => ?_⟩
  exact known result (permuted.mem_iff.mp member)

/-! ### Relations without suspensions -/

/-- Goals that are alike without a suspension are alike for any codes. -/
theorem alike_of_unsuspended
    {pairing : Pairing}
    {goal other : CodedGoal Base Custom}
    (alike : Goal.Alike (fun _ _ _ => False) pairing goal other) :
    Goal.Alike codes pairing goal other := by
  induction alike with
  | eq lefts rights => exact .eq lefts rights
  | succeed => exact .succeed
  | fail => exact .fail
  | both _ _ firstIH secondIH => exact .both firstIH secondIH
  | either _ _ leftIH rightIH => exact .either leftIH rightIH
  | ordered _ _ leftIH rightIH => exact .ordered leftIH rightIH
  | defer same => exact same.elim
  | dynamic counts _ partsIH => exact .dynamic counts partsIH

/--
Relations that make alike goals of alike terms, and no suspensions, are uniform
together.
-/
theorem exists_uniform
    (among : Relation Base → Prop)
    (least : Nat)
    (alike :
      ∀ relation, among relation →
        ∀ pairing : Pairing, (∀ x : Var, x.id < least → pairing x x) →
          ∀ first second otherFirst otherSecond : Term,
            Term.Alike pairing first otherFirst →
              Term.Alike pairing second otherSecond →
                Recipe.Alike (Goal.Alike fun _ _ _ => False) pairing
                  (program.relate relation first second)
                  (program.relate relation otherFirst otherSecond)) :
    ∃ codes : Pairing → Code Base Custom → Code Base Custom → Prop,
      GenericCodes program.unfold codes ∧
        ∀ relation, among relation → relation.Uniform codes least := by
  let codes (pairing : Pairing) (code other : Code Base Custom) : Prop :=
    (∀ x : Var, x.id < least → pairing x x) ∧
      ∃ relation, among relation ∧
        ∃ first second otherFirst otherSecond,
          Term.Alike pairing first otherFirst ∧
            Term.Alike pairing second otherSecond ∧
            code = .relate relation first second ∧
            other = .relate relation otherFirst otherSecond
  refine ⟨codes, ⟨?_, ?_⟩, ?_⟩
  · rintro pairing larger _ _ included ⟨own, relation, member, first, second,
      otherFirst, otherSecond, firsts, seconds, rfl, rfl⟩
    exact ⟨fun x below => included x x (own x below), relation, member, _, _,
      _, _, firsts.mono included, seconds.mono included, rfl, rfl⟩
  · rintro pairing _ _ ⟨own, relation, member, first, second, otherFirst,
      otherSecond, firsts, seconds, rfl, rfl⟩
    refine Goal.alike_dynamic fun larger _ _ included _ => ?_
    intro largest supply otherSupply growth
    have calls := alike relation member larger
      (fun x below => included x x (own x below)) _ _ _ _
      (firsts.mono included) (seconds.mono included) growth
    exact ⟨calls.1, alike_of_unsuspended calls.2⟩
  · intro relation member pairing own first second otherFirst otherSecond
      firsts seconds
    exact ⟨own, relation, member, _, _, _, _, firsts, seconds, rfl, rfl⟩

end Relation

/-! ## Linked sequences of generic links -/

section Linked

variable {codes : Pairing → Code Base Custom → Code Base Custom → Prop}

/-- The links are alike for alike terms. -/
def AlikeLinks
    (codes : Pairing → Code Base Custom → Code Base Custom → Prop)
    (pairing : Pairing)
    (link other : Link Base Custom) : Prop :=
  ∀ (larger : Pairing), (∀ x y, pairing x y → larger x y) →
    ∀ (first second otherFirst otherSecond : Term),
      Term.Alike larger first otherFirst →
        Term.Alike larger second otherSecond →
          Goal.Alike codes larger (link first second)
            (other otherFirst otherSecond)

theorem AlikeLinks.mono
    {pairing larger : Pairing}
    {link other : Link Base Custom}
    (links : AlikeLinks codes pairing link other)
    (included : ∀ x y, pairing x y → larger x y) :
    AlikeLinks codes larger link other :=
  fun largest grown => links largest fun x y paired =>
    grown x y (included x y paired)

theorem alikeLinks_eq {pairing : Pairing} :
    AlikeLinks codes pairing .eq .eq :=
  fun _ _ _ _ _ _ firsts seconds => .eq firsts seconds

theorem Relation.Uniform.alikeLinks
    {program : Program Base Custom}
    {least : Nat}
    {relation : Relation Base}
    (uniform : relation.Uniform codes least)
    (generic : GenericCodes program.unfold codes)
    {pairing : Pairing}
    (own : ∀ x : Var, x.id < least → pairing x x) :
    AlikeLinks codes pairing (program.link relation)
      (program.link relation) :=
  fun _ included _ _ _ _ firsts seconds =>
    uniform.link generic (fun x below => included x x (own x below)) firsts
      seconds

/-- The cells are alike, part by part. -/
structure Cells.Alike (pairing : Pairing) (cells other : Cells) : Prop where
  firstHeads : Term.Alike pairing cells.firstHead other.firstHead
  firstTails : Term.Alike pairing cells.firstTail other.firstTail
  secondHeads : Term.Alike pairing cells.secondHead other.secondHead
  secondTails : Term.Alike pairing cells.secondTail other.secondTail

theorem Cells.Alike.mono
    {pairing larger : Pairing}
    {cells other : Cells}
    (alike : Cells.Alike pairing cells other)
    (included : ∀ x y, pairing x y → larger x y) :
    Cells.Alike larger cells other where
  firstHeads := alike.firstHeads.mono included
  firstTails := alike.firstTails.mono included
  secondHeads := alike.secondHeads.mono included
  secondTails := alike.secondTails.mono included

theorem Cells.alike_fresh {pairing : Pairing} :
    Recipe.Alike Cells.Alike pairing Cells.fresh Cells.fresh := by
  intro larger supply otherSupply growth
  have counted (start : Nat) : (Cells.fresh.made start).2 - start = 4 :=
    Nat.add_sub_cancel_left start 4
  rw [counted, counted]
  refine ⟨rfl, ?_⟩
  exact ⟨.var (.inr ⟨0, by decide, rfl, rfl⟩),
    .var (.inr ⟨1, by decide, rfl, rfl⟩),
    .var (.inr ⟨2, by decide, rfl, rfl⟩),
    .var (.inr ⟨3, by decide, rfl, rfl⟩)⟩

theorem Cells.Alike.parts
    {pairing : Pairing}
    {cells other : Cells}
    (alike : Cells.Alike pairing cells other)
    {first second otherFirst otherSecond : Term}
    (firsts : Term.Alike pairing first otherFirst)
    (seconds : Term.Alike pairing second otherSecond) :
    Goal.Alike codes pairing (cells.parts first second)
      (other.parts otherFirst otherSecond) :=
  .both (Goal.alike_cons alike.firstHeads alike.firstTails firsts)
    (Goal.alike_cons alike.secondHeads alike.secondTails seconds)

theorem alike_ended
    {pairing : Pairing}
    {first second otherFirst otherSecond : Term}
    (firsts : Term.Alike pairing first otherFirst)
    (seconds : Term.Alike pairing second otherSecond)
    (kind : Option SeqKind)
    (accepted : Bool) :
    Goal.Alike codes pairing (ended kind accepted first second)
      (ended kind accepted otherFirst otherSecond) := by
  cases kind with
  | none => exact .fail
  | some kind =>
    cases accepted with
    | false => exact .fail
    | true =>
      exact Goal.alike_all (.cons (.eq firsts (.nil kind))
        (.cons (.eq seconds (.nil kind)) .nil))

theorem alike_linked
    {pairing : Pairing}
    {links otherLinks : List (Link Base Custom)}
    (each : List.Forall₂ (AlikeLinks codes pairing) links otherLinks)
    {first second otherFirst otherSecond : Term}
    (firsts : Term.Alike pairing first otherFirst)
    (seconds : Term.Alike pairing second otherSecond)
    (kind : Option SeqKind)
    (accepted : Bool) :
    Recipe.Alike (Goal.Alike codes) pairing
      (linked kind accepted links first second)
      (linked kind accepted otherLinks otherFirst otherSecond) := by
  induction links generalizing pairing otherLinks first second otherFirst
      otherSecond accepted with
  | nil =>
    cases each
    refine Recipe.alike_done fun larger included => ?_
    exact alike_ended (firsts.mono included) (seconds.mono included) _ _
  | cons link links ih =>
    rcases each with _ | ⟨here, rest⟩
    refine Cells.alike_fresh.andThen ?_
    intro larger cells otherCells included alike
    refine Recipe.alike_done fun largest grown => ?_
    have all : ∀ x y, pairing x y → largest x y :=
      fun x y paired => grown x y (included x y paired)
    have cellsAlike := alike.mono grown
    refine .both (.both (cellsAlike.parts (firsts.mono all)
      (seconds.mono all)) ?_) ?_
    · exact here largest all _ _ _ _ cellsAlike.firstHeads
        cellsAlike.secondHeads
    · refine Goal.alike_dynamic fun last _ _ more _ => ?_
      refine ih ?_ (cellsAlike.firstTails.mono more)
        (cellsAlike.secondTails.mono more) true
      exact rest.imp fun _ _ links => links.mono fun x y paired =>
        more x y (all x y paired)

theorem alike_linkedAny
    {pairing : Pairing}
    {links otherLinks : List (Link Base Custom)}
    (each : List.Forall₂ (AlikeLinks codes pairing) links otherLinks)
    {first second otherFirst otherSecond : Term}
    (firsts : Term.Alike pairing first otherFirst)
    (seconds : Term.Alike pairing second otherSecond)
    (kind : Option SeqKind)
    (nullSucceeds : Bool)
    (cursor : MapCursor) :
    Recipe.Alike (Goal.Alike codes) pairing
      (linkedAny kind nullSucceeds cursor links first second)
      (linkedAny kind nullSucceeds cursor otherLinks otherFirst
        otherSecond) := by
  induction links generalizing pairing otherLinks first second otherFirst
      otherSecond cursor with
  | nil =>
    cases each
    apply Recipe.alike_done
    intro larger included
    exact alike_ended (firsts.mono included) (seconds.mono included) _ _
  | cons link links ih =>
    rcases each with _ | @⟨_, other, _, others, here, rest⟩
    apply Cells.alike_fresh.andThen
    intro larger cells otherCells included alike
    apply Recipe.alike_done
    intro largest grown
    have all : ∀ x y, pairing x y → largest x y :=
      fun x y paired => grown x y (included x y paired)
    have cellsAlike := alike.mono grown
    have tails (related : Bool) :
        Goal.Alike codes largest
          (.dynamic fun _ =>
            linkedAny kind nullSucceeds (cursor.next related) links
              cells.firstTail cells.secondTail)
          (.dynamic fun _ =>
            linkedAny kind nullSucceeds (cursor.next related) others
              otherCells.firstTail otherCells.secondTail) := by
      apply Goal.alike_dynamic
      intro last _ _ more _
      apply ih ?_ (cellsAlike.firstTails.mono more)
        (cellsAlike.secondTails.mono more)
      exact rest.imp fun _ _ links => links.mono fun x y paired =>
        more x y (all x y paired)
    apply Goal.Alike.both
    · exact cellsAlike.parts (firsts.mono all) (seconds.mono all)
    · exact .either
        (.both (here largest all _ _ _ _ cellsAlike.firstHeads
          cellsAlike.secondHeads) (tails true))
        (.either
          (.both (.eq cellsAlike.firstHeads cellsAlike.secondHeads)
            (tails false))
          .fail)

/-- Sequences that are linked below a supply are like themselves. -/
theorem alike_self_linked
    {program : Program Base Custom}
    (generic : GenericCodes program.unfold codes)
    {links : List (Link Base Custom)}
    {first second : Term}
    {built supply : Nat}
    (each : ∀ link ∈ links, AlikeLinks codes (.upTo built) link link)
    (firstLow : first.ceiling ≤ built)
    (secondLow : second.ceiling ≤ built)
    (kind : Option SeqKind)
    (accepted : Bool)
    (enough : built + 4 ≤ supply) :
    Goal.Alike codes (.upTo supply)
      ((linked kind accepted links first second).made built).1
      ((linked kind accepted links first second).made built).1 := by
  have low :
      ((linked kind accepted links first second).made built).2 ≤ supply := by
    apply Nat.le_trans ?_ enough
    cases links with
    | nil => exact Nat.le_add_right built 4
    | cons => exact Nat.le_refl _
  exact (alike_linked (List.forall₂_same.mpr each) (Term.alike_upTo firstLow)
    (Term.alike_upTo secondLow) kind accepted).upTo generic low

end Linked

end RelationalSearch
