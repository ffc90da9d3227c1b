import RelationalSearch.Proofs.Relation.Application

/-!
# Questions with a known input

A relation is asked for what comes of a known input.  The output either is a
variable, which is to be found, or it is known as well, and is to be checked
(`Located.Question`).  A result meets the question with a value if the output
then stands for the value, and if nothing is bound but the output and the
variables of the goal itself (`Located.Meets`).

A question about a cell is one about its head and one about its tail
(`Located.Halves`), whether the cells are taken apart by equations or by a
protocol.
-/

namespace RelationalSearch

/-! ## What an output shows -/

/-- What is shown of a term is nothing, or it is this value. -/
def Term.admits (shown value : Term) : Bool :=
  shown.isVar || shown = value

/-- The variable shows itself, or it shows the ground term that it stands for. -/
inductive Subst.Shows (subst : Subst) (x : Var) : Term → Prop where
  | free (unbound : subst.lookup x = none) : Shows subst x (.var x)
  | known
      {value : Term}
      (bound : subst.lookup x = some value)
      (ground : value.isGround = true) :
      Shows subst x value

namespace Subst

variable {subst extended : Subst} {x : Var} {shown : Term}

theorem Shows.ends (shows : subst.Shows x shown) :
    subst.Ends (.var x) shown := by
  cases shows with
  | free unbound => exact ends_of_lookup_eq_none unbound
  | known bound ground => exact ends_of_lookup_eq_some bound ground

theorem Shows.whole (shows : subst.Shows x shown) :
    shown.isVar = true ∨ shown.isGround = true := by
  cases shows with
  | free => exact .inl rfl
  | known _ ground => exact .inr ground

theorem Shows.eq_of_eq_var
    (shows : subst.Shows x shown)
    {y : Var}
    (same : shown = .var y) :
    y = x := by
  cases shows with
  | free => exact (Term.var.inj same).symm
  | known _ ground =>
    rw [same] at ground
    simp at ground

/-- A known variable goes on showing its value, an unbound one if it is spared. -/
theorem Shows.later
    (shows : subst.Shows x shown)
    (grows : subst.Grows extended)
    (spared : subst.lookup x = none → extended.lookup x = none) :
    extended.Shows x shown := by
  cases shows with
  | free unbound => exact .free (spared unbound)
  | known bound ground => exact .known (grows.kept bound) ground

end Subst

/-! ## Unifying known terms -/

namespace Subst

/-- A ground term is left where it is when it is unified with itself. -/
theorem UnifyRun.of_isGround
    {subst : Subst}
    {term : Term}
    (ground : term.isGround = true)
    {pairs : List (Term × Term)}
    {outcome : Option Subst}
    (rest : UnifyRun subst pairs outcome) :
    UnifyRun subst ((term, term) :: pairs) outcome := by
  induction term generalizing pairs with
  | var x => simp at ground
  | cons head tail headIH tailIH =>
    rw [Term.isGround_cons, Bool.and_eq_true] at ground
    exact .descend (.here rfl) (.here rfl) rfl
      (headIH ground.1 (tailIH ground.2 rest))
  | int | sym | nil =>
    exact .same (.here rfl) (.here rfl) (by simp [meet, Term.sameAtom]) rest

variable {subst : Subst} {left right term other : Term}

theorem unify_of_ends_eq
    (acyclic : subst.Acyclic)
    (leftEnds : subst.Ends left term)
    (rightEnds : subst.Ends right term)
    (ground : term.isGround = true) :
    subst.unify left right = some subst := by
  apply unify_eq_of_run acyclic
  cases term with
  | var x => simp at ground
  | cons head tail =>
    rw [Term.isGround_cons, Bool.and_eq_true] at ground
    exact .descend leftEnds rightEnds rfl
      (.of_isGround ground.1 (.of_isGround ground.2 .done))
  | int | sym | nil =>
    exact .same leftEnds rightEnds (by simp [meet, Term.sameAtom]) .done

theorem unify_of_ends_ne
    (acyclic : subst.Acyclic)
    (leftEnds : subst.Ends left term)
    (rightEnds : subst.Ends right other)
    (ground : term.isGround = true)
    (otherGround : other.isGround = true)
    (different : term ≠ other) :
    subst.unify left right = none := by
  rw [Option.eq_none_iff_forall_ne_some]
  intro extended success
  have grows := acyclic.grows_of_unify success
  have leftShown := reify_eq_of_ends acyclic leftEnds ground
  have rightShown := reify_eq_of_ends acyclic rightEnds otherGround
  have same := reify_eq_of_unify acyclic success
  rw [grows.reify_eq_of_isGround acyclic (by rw [leftShown]; exact ground),
    grows.reify_eq_of_isGround acyclic (by rw [rightShown]; exact otherGround),
    leftShown, rightShown] at same
  exact different same

end Subst

/-! ## Questions and what meets them -/

/--
The input is known, and the output is so too or is a variable.  The variables
from the low number to the high one belong to the goal and are still unbound.
-/
structure Located.Question
    (start : Located Subst)
    (low high : Nat)
    (input known output shown : Term) : Prop where
  within : start.value.Within start.place.supply
  enough : high ≤ start.place.supply
  own :
    ∀ x : Var, low ≤ x.id → x.id < high → start.value.lookup x = none
  inputEnds : start.value.Ends input known
  ground : known.isGround = true
  outputEnds : start.value.Ends output shown
  whole : shown.isVar = true ∨ shown.isGround = true
  apart :
    ∀ {x : Var}, shown = .var x →
      x.id < start.place.supply ∧ (x.id < low ∨ high ≤ x.id)

/--
The output has come to stand for the value, and all other variables that were
there are as unbound as before, but those of the goal.
-/
structure Located.Meets
    (start : Located Subst)
    (low high : Nat)
    (output shown : Term)
    (result : Located Subst)
    (value : Term) : Prop where
  within : result.value.Within result.place.supply
  reify_eq : result.value.reify output = value
  spared :
    ∀ x : Var, x.id < start.place.supply → (x.id < low ∨ high ≤ x.id) →
      shown ≠ .var x → start.value.lookup x = none →
        result.value.lookup x = none

namespace Located

variable {start : Located Subst} {low high opening later : Nat}
  {input known output shown otherInput otherOutput : Term} {place : Place}

/-- The question may be put again to a goal that is built later. -/
theorem Question.again
    (question : start.Question low high input known output shown)
    (opened : start.place.supply ≤ opening)
    (enough : opening ≤ later)
    (room : later ≤ place.supply)
    (inputEnds : start.value.Ends otherInput known)
    (outputEnds : start.value.Ends otherOutput shown) :
    Located.Question ⟨place, start.value⟩ opening later otherInput known
      otherOutput shown where
  within := question.within.mono (opened.trans (enough.trans room))
  enough := room
  own x young _ := question.within.lookup_eq_none (opened.trans young)
  inputEnds := inputEnds
  ground := question.ground
  outputEnds := outputEnds
  whole := question.whole
  apart same := by
    have below := (question.apart same).1
    exact ⟨below.trans_le (opened.trans (enough.trans room)),
      .inl (below.trans_le opened)⟩

/-- What meets the question that is put again meets the question. -/
theorem Meets.of_again
    {result : Located Subst}
    {value : Term}
    (meets :
      Located.Meets ⟨place, start.value⟩ opening later otherOutput shown result
        value)
    (opened : start.place.supply ≤ opening)
    (room : start.place.supply ≤ place.supply)
    (same : result.value.reify output = result.value.reify otherOutput) :
    start.Meets low high output shown result value where
  within := meets.within
  reify_eq := same.trans meets.reify_eq
  spared x below _ :=
    meets.spared x (below.trans_le room) (.inl (below.trans_le opened))

end Located

/-! ## Halves of a cell -/

section Halves

variable {subst : Subst} {bound supply : Nat} {head tail : Term}

/-- Two variables in a row are bound. -/
def Subst.bindPair (subst : Subst) (supply : Nat) (head tail : Term) : Subst :=
  (subst.bind ⟨supply⟩ head).bind ⟨supply + 1⟩ tail

namespace Subst

theorem lookup_bindPair_of_apart
    {x : Var}
    (apart : x.id < supply ∨ supply + 2 ≤ x.id) :
    (subst.bindPair supply head tail).lookup x = subst.lookup x := by
  rw [bindPair, lookup_bind_of_ne, lookup_bind_of_ne]
  all_goals
    rintro rfl
    dsimp only at apart
    omega

theorem lookup_bindPair_head :
    (subst.bindPair supply head tail).lookup ⟨supply⟩ = some head := by
  rw [bindPair, lookup_bind_of_ne _ _ (by simp), lookup_bind_self]

theorem lookup_bindPair_tail :
    (subst.bindPair supply head tail).lookup ⟨supply + 1⟩ = some tail := by
  rw [bindPair, lookup_bind_self]

theorem Within.bindPair
    (within : subst.Within bound)
    (inside : supply + 2 ≤ bound)
    (headGround : head.isGround = true)
    (tailGround : tail.isGround = true) :
    (subst.bindPair supply head tail).Within bound := by
  have first := within.bind_of_isGround (x := ⟨supply⟩) (by
    change supply < bound
    omega) headGround
  exact first.bind_of_isGround (by
    change supply + 1 < bound
    omega) tailGround

/-- The variables of the pair had no bindings that could be replaced. -/
theorem Within.grows_bindPair
    (within : (subst.bindPair supply head tail).Within bound)
    (headUnbound : subst.lookup ⟨supply⟩ = none)
    (tailUnbound : subst.lookup ⟨supply + 1⟩ = none) :
    subst.Grows (subst.bindPair supply head tail) where
  kept found := by
    refine lookup_bind_of_bound ?_ (lookup_bind_of_bound headUnbound found _) _
    rw [lookup_bind_of_ne _ _ (by simp), tailUnbound]
  acyclic := within.acyclic

end Subst

/--
A cell of the input has been taken apart, and so has the output, as far as it
was known; else it has become the cell of two unbound variables.
-/
structure Located.Halves
    (start : Located Subst)
    (supply : Nat)
    (head tail output shown : Term)
    (opened : Subst)
    (shownHead shownTail : Term) : Prop where
  within : ∀ {bound}, start.value.Within bound → supply + 4 ≤ bound →
    (∀ {x : Var}, shown = .var x → x.id < bound) → opened.Within bound
  head_eq : opened.lookup ⟨supply⟩ = some head
  tail_eq : opened.lookup ⟨supply + 1⟩ = some tail
  headShows : opened.Shows ⟨supply + 2⟩ shownHead
  tailShows : opened.Shows ⟨supply + 3⟩ shownTail
  output_eq :
    ∀ {later : Subst}, opened.Grows later →
      later.reify output =
        later.reify (.cons (.var ⟨supply + 2⟩) (.var ⟨supply + 3⟩))
  spared :
    ∀ x : Var, (x.id < supply ∨ supply + 4 ≤ x.id) → shown ≠ .var x →
      start.value.lookup x = none → opened.lookup x = none
  admits_eq :
    ∀ headValue tailValue,
      shown.admits (.cons headValue tailValue) =
        (shownHead.admits headValue && shownTail.admits tailValue)

namespace Located.Question

variable {start : Located Subst} {high : Nat} {input output : Term}

theorem reify_output
    {known shown : Term}
    (question : start.Question supply high input known output shown) :
    start.value.reify output = shown := by
  have acyclic := question.within.acyclic
  rcases question.whole with unbound | ground
  · cases shown with
    | var y =>
      have free := question.outputEnds.next?_eq_none
      rw [← Subst.reify_var_eq_self acyclic free]
      exact Subst.reify_eq_of_reified acyclic
        ((Subst.reified_reify acyclic _).of_ends question.outputEnds)
    | _ => cases unbound
  · exact Subst.reify_eq_of_ends acyclic question.outputEnds ground

/-- The four variables of the cells are unbound. -/
theorem lookup_cells
    {known shown : Term}
    (question : start.Question supply high input known output shown)
    (enough : supply + 4 ≤ high)
    {index : Nat}
    (below : index < 4) :
    start.value.lookup ⟨supply + index⟩ = none := by
  apply question.own
  · exact Nat.le_add_right supply index
  · change supply + index < high
    omega

/-- Those of the output are so still when the parts of the input are bound. -/
theorem lookup_bindPair_cells
    {shown : Term}
    (question : start.Question supply high input (.cons head tail) output shown)
    (enough : supply + 4 ≤ high)
    (index : Nat)
    (later : 1 < index)
    (below : index < 4) :
    (start.value.bindPair supply head tail).lookup ⟨supply + index⟩ = none := by
  rw [Subst.lookup_bindPair_of_apart (.inr (Nat.add_le_add_left later supply)),
    question.lookup_cells enough below]

/-- The parts of the input are bound. -/
theorem within_bindPair
    {shown : Term}
    (question : start.Question supply high input (.cons head tail) output shown)
    (within : start.value.Within bound)
    (inside : supply + 4 ≤ bound) :
    (start.value.bindPair supply head tail).Within bound := by
  have ground := question.ground
  rw [Term.isGround_cons, Bool.and_eq_true] at ground
  exact within.bindPair (by omega) ground.1 ground.2

theorem grows_bindPair
    {shown : Term}
    (question : start.Question supply high input (.cons head tail) output shown)
    (enough : supply + 4 ≤ high) :
    start.value.Grows (start.value.bindPair supply head tail) :=
  (question.within_bindPair question.within
    (enough.trans question.enough)).grows_bindPair
      (question.lookup_cells enough (by decide : 0 < 4))
      (question.lookup_cells enough (by decide : 1 < 4))

/-- A known output is taken apart into its own parts. -/
theorem halves_known
    {shownHead shownTail : Term}
    (question : start.Question supply high input (.cons head tail) output
      (.cons shownHead shownTail))
    (enough : supply + 4 ≤ high) :
    start.Halves supply head tail output (.cons shownHead shownTail)
      ((start.value.bindPair supply head tail).bindPair (supply + 2) shownHead
        shownTail) shownHead shownTail := by
  have acyclic := question.within.acyclic
  have room := enough.trans question.enough
  have ground := question.whole.resolve_left Bool.false_ne_true
  have parts := ground
  rw [Term.isGround_cons, Bool.and_eq_true] at parts
  have middleWithin := question.within_bindPair question.within room
  have fresh := question.lookup_bindPair_cells enough
  have second {bound : Nat}
      (within : (start.value.bindPair supply head tail).Within bound)
      (inside : supply + 4 ≤ bound) :
      ((start.value.bindPair supply head tail).bindPair (supply + 2) shownHead
        shownTail).Within bound :=
    within.bindPair (by omega) parts.1 parts.2
  have onwards := (second middleWithin room).grows_bindPair
    (fresh 2 (by decide) (by decide)) (fresh 3 (by decide) (by decide))
  have grows := (question.grows_bindPair enough).trans onwards
  constructor
  · intro bound within inside _
    exact second (question.within_bindPair within inside) inside
  · exact onwards.kept Subst.lookup_bindPair_head
  · exact onwards.kept Subst.lookup_bindPair_tail
  · exact .known Subst.lookup_bindPair_head parts.1
  · exact .known Subst.lookup_bindPair_tail parts.2
  · intro later reached
    have shownHere : start.value.reify output =
        start.value.reify (.cons shownHead shownTail) := by
      rw [question.reify_output, Subst.reify_eq_of_isGround acyclic ground]
    rw [(grows.trans reached).reify_congr acyclic shownHere,
      Subst.reify_cons reached.acyclic, Subst.reify_cons reached.acyclic,
      Subst.reify_bound reached.acyclic
        (reached.kept Subst.lookup_bindPair_head),
      Subst.reify_bound reached.acyclic
        (reached.kept Subst.lookup_bindPair_tail)]
  · intro x outside _ unbound
    rw [Subst.lookup_bindPair_of_apart (by omega),
      Subst.lookup_bindPair_of_apart (by omega), unbound]
  · intro headValue tailValue
    rw [Term.admits, Term.admits, Term.admits,
      Term.isVar_eq_false_of_isGround parts.1,
      Term.isVar_eq_false_of_isGround parts.2]
    simp [Term.isVar]

/-- An output that is a variable becomes the cell of two variables. -/
theorem halves_open
    {y : Var}
    (question :
      start.Question supply high input (.cons head tail) output (.var y))
    (enough : supply + 4 ≤ high) :
    let cell : Term := .cons (.var ⟨supply + 2⟩) (.var ⟨supply + 3⟩)
    ¬ (start.value.bindPair supply head tail).Reaches cell y ∧
      start.Halves supply head tail output (.var y)
        ((start.value.bindPair supply head tail).bind y cell)
        (.var ⟨supply + 2⟩) (.var ⟨supply + 3⟩) := by
  intro cell
  have acyclic := question.within.acyclic
  have room := enough.trans question.enough
  have yFree : start.value.lookup y = none :=
    question.outputEnds.next?_eq_none
  have middleWithin := question.within_bindPair question.within room
  have outside := (question.apart rfl).2
  have apart (index : Nat) (below : index < 4) : y ≠ ⟨supply + index⟩ := by
    rintro rfl
    dsimp only at outside
    omega
  have fresh := question.lookup_bindPair_cells enough
  have yUnbound : (start.value.bindPair supply head tail).lookup y = none := by
    rw [Subst.lookup_bindPair_of_apart (by omega), yFree]
  have unreached :
      ¬ (start.value.bindPair supply head tail).Reaches cell y := by
    rw [Subst.reaches_cons_iff,
      Subst.reaches_var_iff (fresh 2 (by decide) (by decide)),
      Subst.reaches_var_iff (fresh 3 (by decide) (by decide))]
    exact not_or.mpr ⟨(apart 2 (by decide)).symm, (apart 3 (by decide)).symm⟩
  have second {bound : Nat}
      (within : (start.value.bindPair supply head tail).Within bound)
      (inside : supply + 4 ≤ bound)
      (low : y.id < bound) :
      ((start.value.bindPair supply head tail).bind y cell).Within bound := by
    refine within.bind low ?_ unreached
    simp only [cell, Term.ceiling]
    omega
  have onwards : (start.value.bindPair supply head tail).Grows
      ((start.value.bindPair supply head tail).bind y cell) :=
    ⟨fun found => Subst.lookup_bind_of_bound yUnbound found _,
      (second middleWithin room (question.apart rfl).1).acyclic⟩
  have grows := (question.grows_bindPair enough).trans onwards
  refine ⟨unreached, ?_⟩
  constructor
  · intro bound within inside low
    exact second (question.within_bindPair within inside) inside (low rfl)
  · exact onwards.kept Subst.lookup_bindPair_head
  · exact onwards.kept Subst.lookup_bindPair_tail
  · refine .free ?_
    rw [Subst.lookup_bind_of_ne _ _ (apart 2 (by decide)),
      fresh 2 (by decide) (by decide)]
  · refine .free ?_
    rw [Subst.lookup_bind_of_ne _ _ (apart 3 (by decide)),
      fresh 3 (by decide) (by decide)]
  · intro later reached
    have shownHere :
        start.value.reify output = start.value.reify (.var y) := by
      rw [question.reify_output, Subst.reify_var_eq_self acyclic yFree]
    rw [(grows.trans reached).reify_congr acyclic shownHere,
      Subst.reify_bound reached.acyclic
        (reached.kept (Subst.lookup_bind_self _ _ _))]
  · intro x outside different unbound
    rw [Subst.lookup_bind_of_ne, Subst.lookup_bindPair_of_apart (by omega),
      unbound]
    exact fun same => different (congrArg Term.var same)
  · intro headValue tailValue
    rfl

end Located.Question

/-! ## Answers that are known at once -/

namespace Located.Question

variable {Code : Type} {goalOf : Code → Recipe (Goal Code)} {gaps : Gaps}
  {start : Located Subst} {low high : Nat} {input known output shown : Term}
  {place : Place} {term value : Term}

/-- An output may come to be a value that it admits. -/
theorem exists_unify
    (question : start.Question low high input known output shown)
    (ends : start.value.Ends term value)
    (ground : value.isGround = true)
    (admitted : shown.admits value = true)
    (later : start.place.supply ≤ place.supply) :
    ∃ extended,
      start.value.unify output term = some extended ∧
        start.value.unify term output = some extended ∧
        start.Meets low high output shown ⟨place, extended⟩ value := by
  have acyclic := question.within.acyclic
  have notVar := Term.isVar_eq_false_of_isGround ground
  have outputEnds := question.outputEnds
  rcases question.whole with unbound | known
  · cases shown with
    | var y =>
      have metLeft : Subst.meet (.var y) value = .assign y value := by
        rw [Subst.meet, Term.asVar?_eq_none_of_isGround ground, if_neg (by simp)]
      have metRight : Subst.meet value (.var y) = .assign y value := by
        cases value with
        | var => simp at ground
        | _ => rfl
      have apart := @Subst.not_reaches_of_isGround start.value _ ground y
      have success := Subst.unify_eq_bind acyclic outputEnds ends metLeft apart
      have within :=
        question.within.bind_of_isGround (question.apart rfl).1 ground
      have shownHere :
          start.value.reify output = start.value.reify (.var y) := by
        rw [question.reify_output,
          Subst.reify_var_eq_self acyclic outputEnds.next?_eq_none]
      refine ⟨_, success,
        Subst.unify_eq_bind acyclic ends outputEnds metRight apart, ?_⟩
      constructor
      · exact within.mono later
      · rw [(acyclic.grows_of_unify success).reify_congr acyclic shownHere,
          Subst.reify_bound within.acyclic (Subst.lookup_bind_self _ _ _),
          Subst.reify_eq_of_isGround within.acyclic ground]
      · intro x _ _ different unbound
        rw [Subst.lookup_bind_of_ne, unbound]
        exact fun same => different (congrArg Term.var same)
    | _ => cases unbound
  · have same : shown = value := by
      simpa [Term.admits, Term.isVar_eq_false_of_isGround known] using admitted
    subst same
    refine ⟨start.value, Subst.unify_of_ends_eq acyclic outputEnds ends ground,
      Subst.unify_of_ends_eq acyclic ends outputEnds ground, ?_⟩
    constructor
    · exact question.within.mono later
    · exact question.reify_output
    · exact fun x _ _ _ unbound => unbound

/-- An output does not come to be a value that it does not admit. -/
theorem unify_eq_none
    (question : start.Question low high input known output shown)
    (ends : start.value.Ends term value)
    (ground : value.isGround = true)
    (refused : shown.admits value = false) :
    start.value.unify output term = none ∧
      start.value.unify term output = none := by
  have acyclic := question.within.acyclic
  rw [Term.admits, Bool.or_eq_false_iff, decide_eq_false_iff_not] at refused
  have known : shown.isGround = true :=
    question.whole.resolve_left (by rw [refused.1]; exact Bool.false_ne_true)
  exact ⟨Subst.unify_of_ends_ne acyclic question.outputEnds ends known ground
      refused.2,
    Subst.unify_of_ends_ne acyclic ends question.outputEnds ground known
      (Ne.symm refused.2)⟩

/-- An equation of the output with a known term, in either order. -/
theorem gives_eq
    (question : start.Question low high input known output shown)
    (ends : start.value.Ends term value)
    (ground : value.isGround = true)
    (later : start.place.supply ≤ place.supply) :
    (Goal.eq output term).Gives goalOf gaps ⟨place, start.value⟩
        (start.Meets low high output shown) ([value].filter shown.admits) ∧
      (Goal.eq term output).Gives goalOf gaps ⟨place, start.value⟩
        (start.Meets low high output shown) ([value].filter shown.admits) := by
  cases admitted : shown.admits value with
  | true =>
    rcases question.exists_unify ends ground admitted later with
      ⟨extended, left, right, meets⟩
    rw [List.filter_cons_of_pos admitted, List.filter_nil]
    exact ⟨.unified left meets, .unified right meets⟩
  | false =>
    rcases question.unify_eq_none ends ground admitted with ⟨left, right⟩
    rw [List.filter_cons_of_neg (by rw [admitted]; exact Bool.false_ne_true),
      List.filter_nil]
    exact ⟨⟨[], .clash left, .nil⟩, ⟨[], .clash right, .nil⟩⟩

end Located.Question

/-! ## From the halves to the whole -/

namespace Located.Halves

variable {start middle result : Located Subst} {output shown : Term}
  {opened : Subst} {shownHead shownTail : Term} {low high : Nat} {place : Place}

/-- The first half is a question about the heads. -/
theorem head_question
    (halves :
      start.Halves supply head tail output shown opened shownHead shownTail)
    (within : opened.Within place.supply)
    (headGround : head.isGround = true)
    (inside : supply + 4 ≤ place.supply)
    (enough : high ≤ place.supply)
    (own : ∀ x : Var, low ≤ x.id → x.id < high → opened.lookup x = none)
    (outside : supply + 2 < low ∨ high ≤ supply + 2) :
    Located.Question ⟨place, opened⟩ low high (.var ⟨supply⟩) head
      (.var ⟨supply + 2⟩) shownHead where
  within := within
  enough := enough
  own := own
  inputEnds := Subst.ends_of_lookup_eq_some halves.head_eq headGround
  ground := headGround
  outputEnds := halves.headShows.ends
  whole := halves.headShows.whole
  apart same := by
    rw [halves.headShows.eq_of_eq_var same]
    exact ⟨Nat.lt_of_lt_of_le (Nat.add_lt_add_left (by decide) supply) inside,
      outside⟩

/-- The second half is a question about the tails. -/
theorem tail_question
    (halves :
      start.Halves supply head tail output shown opened shownHead shownTail)
    {headLow headHigh : Nat}
    {headValue : Term}
    (first :
      Located.Meets ⟨place, opened⟩ headLow headHigh (.var ⟨supply + 2⟩)
        shownHead middle headValue)
    (grows : opened.Grows middle.value)
    (onwards : place.supply ≤ middle.place.supply)
    (inside : supply + 4 ≤ place.supply)
    (apart : supply + 3 < headLow ∨ headHigh ≤ supply + 3)
    (tailGround : tail.isGround = true)
    (enough : high ≤ middle.place.supply)
    (own : ∀ x : Var, low ≤ x.id → x.id < high → middle.value.lookup x = none)
    (outside : supply + 3 < low ∨ high ≤ supply + 3) :
    middle.Question low high (.var ⟨supply + 1⟩) tail (.var ⟨supply + 3⟩)
      shownTail := by
  have spared (unbound : opened.lookup ⟨supply + 3⟩ = none) :
      middle.value.lookup ⟨supply + 3⟩ = none := by
    refine first.spared _ inside apart ?_ unbound
    intro same
    simpa using halves.headShows.eq_of_eq_var same
  have shows := halves.tailShows.later grows spared
  constructor
  · exact first.within
  · exact enough
  · exact own
  · exact Subst.ends_of_lookup_eq_some (grows.kept halves.tail_eq) tailGround
  · exact tailGround
  · exact shows.ends
  · exact shows.whole
  · intro x same
    rw [shows.eq_of_eq_var same]
    exact ⟨Nat.lt_of_lt_of_le inside onwards, outside⟩

/-- Two values for the halves are one for the whole. -/
theorem meets
    (halves :
      start.Halves supply head tail output shown opened shownHead shownTail)
    {headLow headHigh tailLow tailHigh : Nat}
    {headValue tailValue : Term}
    (first :
      Located.Meets ⟨place, opened⟩ headLow headHigh (.var ⟨supply + 2⟩)
        shownHead middle headValue)
    (grows : opened.Grows middle.value)
    (headGround : headValue.isGround = true)
    (second :
      middle.Meets tailLow tailHigh (.var ⟨supply + 3⟩) shownTail result
        tailValue)
    (tailGrows : middle.value.Grows result.value)
    (later : start.place.supply ≤ place.supply)
    (onwards : place.supply ≤ middle.place.supply)
    (outside :
      ∀ x : Var, x.id < low ∨ high ≤ x.id →
        (x.id < supply ∨ supply + 4 ≤ x.id) ∧
          (x.id < headLow ∨ headHigh ≤ x.id) ∧
          (x.id < tailLow ∨ tailHigh ≤ x.id)) :
    start.Meets low high output shown result (.cons headValue tailValue) where
  within := second.within
  reify_eq := by
    have headKept := tailGrows.reify_eq_of_isGround grows.acyclic
      (by rw [first.reify_eq]; exact headGround)
    rw [halves.output_eq (grows.trans tailGrows),
      Subst.reify_cons tailGrows.acyclic, second.reify_eq, headKept,
      first.reify_eq]
  spared x below apart different unbound := by
    rcases outside x apart with ⟨notCells, notHead, notTail⟩
    have young (y : Var) (cell : supply ≤ y.id ∧ y.id < supply + 4)
        (part : Term) (shows : part = .var x → x = y) : part ≠ .var x := by
      intro same
      have here := shows same
      subst here
      omega
    refine second.spared x (by omega) notTail
      (young ⟨supply + 3⟩ (by simp) _ halves.tailShows.eq_of_eq_var) ?_
    refine first.spared x (by exact Nat.lt_of_lt_of_le below later) notHead
      (young ⟨supply + 2⟩ (by simp) _ halves.headShows.eq_of_eq_var) ?_
    exact halves.spared x notCells different unbound

end Located.Halves

/-! ## Taking cells apart -/

namespace Located.Question

variable {Code Base Custom : Type} {goalOf : Code → Recipe (Goal Code)}
  {program : Program Base Custom} {gaps : Gaps} {start : Located Subst}
  {high : Nat} {input output : Term}

/-- The input is taken apart into two variables. -/
theorem unify_input
    {shown : Term}
    (question : start.Question supply high input (.cons head tail) output shown)
    (enough : supply + 4 ≤ high) :
    start.value.unify (.cons (.var ⟨supply⟩) (.var ⟨supply + 1⟩)) input =
      some (start.value.bindPair supply head tail) := by
  have ground := question.ground
  rw [Term.isGround_cons, Bool.and_eq_true] at ground
  exact Subst.unify_cell question.within.acyclic question.inputEnds ground.1
    ground.2 (question.lookup_cells enough (by decide : 0 < 4))
    (question.lookup_cells enough (by decide : 1 < 4)) (by simp)

/-- With the input taken apart, the output shows what it showed before. -/
theorem outputEnds_bindPair
    {shown : Term}
    (question : start.Question supply high input (.cons head tail) output shown)
    (enough : supply + 4 ≤ high) :
    (start.value.bindPair supply head tail).Ends output shown := by
  refine (question.grows_bindPair enough).ends question.outputEnds (.here ?_)
  cases shown with
  | var y =>
    have outside := (question.apart rfl).2
    change (start.value.bindPair supply head tail).lookup y = none
    rw [Subst.lookup_bindPair_of_apart (by omega)]
    exact question.outputEnds.next?_eq_none
  | _ => rfl

/-- Equations of cells halve the question. -/
theorem exists_parts
    {shown : Term}
    (question : start.Question supply high input (.cons head tail) output shown)
    (enough : supply + 4 ≤ high)
    (cell : shown.isVar = true ∨ shown.isCons = true)
    (place : Place) :
    ∃ opened shownHead shownTail,
      Listing program.unfold gaps ((Cells.numbered supply).parts input output)
          ⟨place, start.value⟩ [⟨place, opened⟩] ∧
        start.Halves supply head tail output shown opened shownHead
          shownTail := by
  have room := enough.trans question.enough
  have first := question.unify_input enough
  have ends := question.outputEnds_bindPair enough
  have acyclic := (question.within_bindPair question.within room).acyclic
  cases shown with
  | var y =>
    rcases question.halves_open enough with ⟨unreached, halves⟩
    have second := Subst.unify_eq_bind acyclic
      (.here rfl : Subst.Ends _ (.cons (.var ⟨supply + 2⟩) (.var ⟨supply + 3⟩))
        _) ends rfl unreached
    exact ⟨_, _, _, .both_single (.unified first) (.unified second), halves⟩
  | cons shownHead shownTail =>
    have ground := question.whole.resolve_left Bool.false_ne_true
    rw [Term.isGround_cons, Bool.and_eq_true] at ground
    have halves := question.halves_known enough
    have fresh := question.lookup_bindPair_cells enough
    have second := Subst.unify_cell acyclic ends ground.1 ground.2
      (fresh 2 (by decide) (by decide)) (fresh 3 (by decide) (by decide))
      (by simp)
    exact ⟨_, _, _, .both_single (.unified first) (.unified second), halves⟩
  | int | sym | nil => simp [Term.isVar, Term.isCons] at cell

/-- A known output that is no cell is not taken apart. -/
theorem listing_parts_nil
    {shown : Term}
    (question : start.Question supply high input (.cons head tail) output shown)
    (enough : supply + 4 ≤ high)
    (known : shown.isVar = false)
    (notCell : shown.isCons = false)
    (place : Place) :
    Listing program.unfold gaps ((Cells.numbered supply).parts input output)
      ⟨place, start.value⟩ [] := by
  have room := enough.trans question.enough
  have acyclic := (question.within_bindPair question.within room).acyclic
  exact .both_single (.unified (question.unify_input enough))
    (.clash (Subst.unify_cell_eq_none acyclic
      (question.outputEnds_bindPair enough) known notCell))

end Located.Question

/-! ## Taking applications apart -/

section Application

variable {Code : Type} {goalOf : Code → Recipe (Goal Code)} {gaps : Gaps}
  {start : Located Subst} {decomposer : Decomposer} {whole : Term}

/-- A known whole that is accepted binds the variables of its parts. -/
theorem listing_application_parts
    (acyclic : start.value.Acyclic)
    (headUnbound : start.value.lookup ⟨supply⟩ = none)
    (tailUnbound : start.value.lookup ⟨supply + 1⟩ = none)
    (ends : start.value.Ends whole (.cons head tail))
    (ground : (Term.cons head tail).isGround = true)
    (accepted :
      decomposer.protocol.split (.cons head tail) = .ok (head, tail)) :
    Listing goalOf gaps
      (.application decomposer (.var ⟨supply⟩) (.var ⟨supply + 1⟩) whole) start
      [⟨start.place.built (start.place.opening gaps),
        start.value.bindPair supply head tail⟩] := by
  have shown := Subst.reify_eq_of_ends acyclic ends ground
  rcases made_application acyclic headUnbound tailUnbound shown with
    ⟨builder, same, made⟩
  rw [Term.isGround_cons, Bool.and_eq_true] at ground
  have first := Subst.unify_var_of_isGround acyclic
    (Subst.ends_of_lookup_eq_none headUnbound) ground.1
  have stillUnbound :
      (start.value.bind ⟨supply⟩ head).lookup ⟨supply + 1⟩ = none := by
    rw [Subst.lookup_bind_of_ne _ _ (by simp), tailUnbound]
  have second := Subst.unify_var_of_isGround (acyclic.unify first)
    (Subst.ends_of_lookup_eq_none stillUnbound) ground.2
  rw [same]
  apply Listing.dynamic
  rw [Recipe.goalAt, Located.enter, made, accepted]
  exact .both_single (.unified first) (.unified second)

/-- A whole that is a variable becomes the cell of its parts. -/
theorem listing_application_open
    {x y z : Var}
    (acyclic : start.value.Acyclic)
    (headUnbound : start.value.lookup x = none)
    (tailUnbound : start.value.lookup y = none)
    (ends : start.value.Ends whole (.var z))
    (unreached : ¬ start.value.Reaches (.cons (.var x) (.var y)) z) :
    Listing goalOf gaps (.application decomposer (.var x) (.var y) whole) start
      [⟨start.place.built (start.place.opening gaps),
        start.value.bind z (.cons (.var x) (.var y))⟩] := by
  have free := ends.next?_eq_none
  have shown : start.value.reify whole = .var z := by
    rw [← Subst.reify_var_eq_self acyclic free]
    exact Subst.reify_eq_of_reified acyclic
      ((Subst.reified_reify acyclic _).of_ends ends)
  rcases made_application acyclic headUnbound tailUnbound shown with
    ⟨builder, same, made⟩
  rw [same]
  apply Listing.dynamic
  rw [Recipe.goalAt, Located.enter, made]
  exact .unified (Subst.unify_eq_bind acyclic (.here rfl) (.here free) rfl
    unreached)

end Application

namespace Located.Question

variable {Code : Type} {goalOf : Code → Recipe (Goal Code)} {gaps : Gaps}
  {start : Located Subst} {decomposer : Decomposer} {high : Nat}
  {input output : Term}

/-- Applications halve the question as equations of cells do. -/
theorem exists_applications
    (goalOf : Code → Recipe (Goal Code))
    (gaps : Gaps)
    {shown : Term}
    (question : start.Question supply high input (.cons head tail) output shown)
    (enough : supply + 4 ≤ high)
    (accepted :
      decomposer.protocol.split (.cons head tail) = .ok (head, tail))
    (outputAccepted :
      shown.isVar = true ∨
        ∃ parts, decomposer.protocol.split shown = .ok parts) :
    ∃ place opened shownHead shownTail,
      start.place.supply ≤ place.supply ∧
        Listing goalOf gaps
          (.both
            (.application decomposer (.var ⟨supply⟩) (.var ⟨supply + 1⟩) input)
            (.application decomposer (.var ⟨supply + 2⟩) (.var ⟨supply + 3⟩)
              output))
          start [⟨place, opened⟩] ∧
        start.Halves supply head tail output shown opened shownHead
          shownTail := by
  have ground := question.ground
  have room := enough.trans question.enough
  have acyclic := (question.within_bindPair question.within room).acyclic
  have ends := question.outputEnds_bindPair enough
  have fresh := question.lookup_bindPair_cells enough
  let middle : Located Subst :=
    ⟨start.place.built (start.place.opening gaps),
      start.value.bindPair supply head tail⟩
  have later : start.place.supply ≤ middle.place.supply :=
    start.place.le_opening gaps
  have first : Listing goalOf gaps
      (.application decomposer (.var ⟨supply⟩) (.var ⟨supply + 1⟩) input) start
      [middle] :=
    listing_application_parts question.within.acyclic
      (question.lookup_cells enough (by decide : 0 < 4))
      (question.lookup_cells enough (by decide : 1 < 4)) question.inputEnds
      ground accepted
  refine ⟨middle.place.built (middle.place.opening gaps), ?_⟩
  cases shown with
  | var y =>
    rcases question.halves_open enough with ⟨unreached, halves⟩
    have second : Listing goalOf gaps
        (.application decomposer (.var ⟨supply + 2⟩) (.var ⟨supply + 3⟩) output)
        middle _ :=
      listing_application_open acyclic (fresh 2 (by decide) (by decide))
        (fresh 3 (by decide) (by decide)) ends unreached
    exact ⟨_, _, _, later.trans (middle.place.le_opening gaps),
      .both_single first second, halves⟩
  | cons shownHead shownTail =>
    rcases outputAccepted.resolve_left Bool.false_ne_true with
      ⟨⟨operator, operands⟩, split⟩
    cases Protocol.eq_cons_of_split split
    have second : Listing goalOf gaps
        (.application decomposer (.var ⟨supply + 2⟩) (.var ⟨supply + 3⟩) output)
        middle _ :=
      listing_application_parts acyclic (fresh 2 (by decide) (by decide))
        (fresh 3 (by decide) (by decide)) ends
        (question.whole.resolve_left Bool.false_ne_true) split
    exact ⟨_, _, _, later.trans (middle.place.le_opening gaps),
      .both_single first second, question.halves_known enough⟩
  | int | sym | nil =>
    rcases outputAccepted.resolve_left Bool.false_ne_true with ⟨parts, split⟩
    cases Protocol.eq_cons_of_split split

/-- An output that is refused is not taken apart. -/
theorem listing_applications_refused
    {shown : Term}
    {error : Protocol.Error}
    (question : start.Question supply high input (.cons head tail) output shown)
    (enough : supply + 4 ≤ high)
    (accepted :
      decomposer.protocol.split (.cons head tail) = .ok (head, tail))
    (known : shown.isVar = false)
    (refused : decomposer.protocol.split shown = .error error) :
    Listing goalOf gaps
      (.both
        (.application decomposer (.var ⟨supply⟩) (.var ⟨supply + 1⟩) input)
        (.application decomposer (.var ⟨supply + 2⟩) (.var ⟨supply + 3⟩)
          output))
      start [] := by
  have room := enough.trans question.enough
  have acyclic := (question.within_bindPair question.within room).acyclic
  have fresh := question.lookup_bindPair_cells enough
  have ground : shown.isGround = true :=
    question.whole.resolve_left (by rw [known]; exact Bool.false_ne_true)
  have first : Listing goalOf gaps
      (.application decomposer (.var ⟨supply⟩) (.var ⟨supply + 1⟩) input) start
      [⟨start.place.built (start.place.opening gaps),
        start.value.bindPair supply head tail⟩] :=
    listing_application_parts question.within.acyclic
      (question.lookup_cells enough (by decide : 0 < 4))
      (question.lookup_cells enough (by decide : 1 < 4)) question.inputEnds
      question.ground accepted
  refine .both_single first (listing_application_nil acyclic
    (fresh 2 (by decide) (by decide)) (fresh 3 (by decide) (by decide)) ?_ known
    refused)
  exact Subst.reify_eq_of_ends acyclic (question.outputEnds_bindPair enough)
    ground

end Located.Question

end Halves

end RelationalSearch
