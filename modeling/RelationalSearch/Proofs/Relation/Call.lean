import RelationalSearch.Proofs.Search.Answers
import RelationalSearch.Proofs.Subst.Binding
import RelationalSearch.Relation.Reach

/-!
# Calls of a relation

The relations of the library call those of the caller, mostly with a known term
on the left and an unbound variable on the right.  A call is answered by a
result if the variable then stands for the answer and nothing else is bound
that was there before (`Located.Answers`).

`Program.Calls` says what a call comes to: its search ends, wherever it is
made and however many variables other branches mint in the meantime, and its
results are the answers of a list.  `Program.table` makes a relation of this
kind from any function that gives lists of ground terms.
-/

namespace RelationalSearch

variable {Base Custom : Type}

/-! ## Recipes one after another -/

theorem Recipe.made_andThen
    {α β : Type}
    (recipe : Recipe α)
    (next : α → Recipe β)
    (supply : Nat) :
    (recipe.andThen next).made supply =
      (next (recipe.made supply).1).made (recipe.made supply).2 := by
  induction recipe generalizing supply with
  | done value => rfl
  | mint name rest ih => exact ih ⟨supply⟩ (supply + 1)
  | note event rest ih => exact ih supply

/-! ## At most one value -/

/-- A list with at most one value is ordered in one way. -/
theorem eq_toList_of_perm
    {Value : Type}
    {values : List Value}
    {value : Option Value}
    (permuted : values.Perm value.toList) :
    values = value.toList := by
  cases value with
  | none => exact List.perm_nil.mp permuted
  | some value => exact List.perm_singleton.mp permuted

/-! ## Answers to a call -/

/--
The result of a call gives the variable its value, and leaves all other
variables below the bound unbound that were so.
-/
structure Located.Answers
    (bound : Nat)
    (before : Subst)
    (x : Var)
    (result : Located Subst)
    (value : Term) : Prop where
  within : result.value.Within result.place.supply
  reify_eq : result.value.reify (.var x) = value
  spared :
    ∀ y : Var, y.id < bound → y ≠ x → before.lookup y = none →
      result.value.lookup y = none

theorem Located.Answers.mono
    {large small : Nat}
    {before : Subst}
    {x : Var}
    {result : Located Subst}
    {value : Term}
    (answers : result.Answers large before x value)
    (ordered : small ≤ large) :
    result.Answers small before x value where
  within := answers.within
  reify_eq := answers.reify_eq
  spared y low := answers.spared y (Nat.lt_of_lt_of_le low ordered)

/-- Binding the variable of a call is an answer. -/
theorem Located.answers_bind
    {supply bound : Nat}
    {before : Subst}
    {x : Var}
    {value : Term}
    {place : Place}
    (within : before.Within supply)
    (inside : x.id < supply)
    (ground : value.isGround = true)
    (enough : supply ≤ place.supply) :
    (Located.mk place (before.bind x value)).Answers bound before x value where
  within := (within.bind_of_isGround inside ground).mono enough
  reify_eq := by
    have extended := within.bind_of_isGround inside ground
    exact Subst.reify_eq_of_ends extended.acyclic
      (Subst.ends_of_lookup_eq_some (Subst.lookup_bind_self _ _ _) ground)
      ground
  spared y _ different unbound := by
    rwa [Subst.lookup_bind_of_ne _ _ different.symm]

namespace Program

/-- What a relation makes of a term and a variable, to be searched for. -/
def call
    (program : Program Base Custom)
    (relation : Relation Base)
    (term : Term)
    (x : Var)
    (supply : Nat) : CodedGoal Base Custom × Nat :=
  (program.relate relation term (.var x)).made supply

/--
A call of a relation ends, in whatever context, and has an answer for each
value of the list, in some order.
-/
def Calls
    (program : Program Base Custom)
    (relation : Relation Base)
    (term : Term)
    (x : Var)
    (subst : Subst)
    (supply : Nat)
    (values : List Term) : Prop :=
  ∀ (gaps : Gaps) (trace : Trace),
    ∃ results ordered,
      (program.call relation term x supply).1.Completes program.unfold gaps
          ⟨⟨trace, (program.call relation term x supply).2⟩, subst⟩ results ∧
        List.Forall₂ (Located.Answers supply subst x) results ordered ∧
          ordered.Perm values

/-- A call has a listing that gives the values. -/
theorem Calls.exists_gives
    {program : Program Base Custom}
    {relation : Relation Base}
    {term : Term}
    {x : Var}
    {subst : Subst}
    {supply : Nat}
    {values : List Term}
    (calls : program.Calls relation term x subst supply values)
    (gaps : Gaps)
    (trace : Trace) :
    ∃ ordered,
      (program.call relation term x supply).1.Gives program.unfold gaps
          ⟨⟨trace, (program.call relation term x supply).2⟩, subst⟩
          (Located.Answers supply subst x) ordered ∧
        ordered.Perm values := by
  rcases calls gaps trace with ⟨results, ordered, completes, answers, same⟩
  rcases completes.exists_listing with ⟨found, listing, permuted⟩
  rcases List.perm_comp_forall₂ permuted.symm answers with
    ⟨others, othersAnswer, reordered⟩
  exact ⟨others, ⟨found, listing, othersAnswer⟩, reordered.trans same⟩

/-! ## Relations that are given by a table -/

/-- The second term is one of those that a function lists for the first. -/
def tabled
    (steps : Term → List Term)
    (first second : Term) : Recipe (CodedGoal Base Custom) :=
  .done (.dynamic fun subst =>
    .done (.any ((steps (subst.reify first)).map fun value =>
      [.eq second value])))

/-- One relation, which lists the terms that a function gives. -/
def table (steps : Term → List Term) : Program Unit Empty where
  relation _ first second :=
    .done (.dynamic fun subst =>
      .done (.any ((steps (subst.reify first)).map fun value =>
        [.eq second value])))
  custom name := name.elim

/-- Branches that bind the variable of a call, one for each value. -/
theorem gives_any_eq
    {Code : Type}
    {goalOf : Code → Recipe (Goal Code)}
    {gaps : Gaps}
    {start : Located Subst}
    {supply : Nat}
    {x : Var}
    (within : start.value.Within supply)
    (unbound : start.value.lookup x = none)
    (inside : x.id < supply)
    (enough : supply ≤ start.place.supply)
    (bound : Nat)
    {values : List Term}
    (ground : ∀ value ∈ values, value.isGround = true) :
    (Goal.any (values.map fun value => [.eq (.var x) value])).Gives goalOf
      gaps start (Located.Answers bound start.value x) values := by
  induction values generalizing start with
  | nil => exact .fail
  | cons value values ih =>
    rw [List.forall_mem_cons] at ground
    let here : Located Subst := ⟨start.place.left, start.value⟩
    let later : Located Subst := ⟨start.place.right, start.value⟩
    have success := Subst.unify_var_of_isGround within.acyclic
      (Subst.ends_of_lookup_eq_none unbound) ground.1
    have first : (Goal.eq (.var x) value).Gives goalOf gaps here
        (Located.Answers bound start.value x) [value] :=
      .unified success (Located.answers_bind within inside ground.1 enough)
    exact .either first (@ih later within unbound enough ground.2)

/-- A relation that is given by a table is called for the terms of the table. -/
theorem calls_of_tabled
    {program : Program Base Custom}
    {name : Base}
    {steps : Term → List Term}
    {term : Term}
    {x : Var}
    {subst : Subst}
    {supply : Nat}
    (given : program.relation name term (.var x) = tabled steps term (.var x))
    (termGround : term.isGround = true)
    (ground : ∀ value ∈ steps term, value.isGround = true)
    (within : subst.Within supply)
    (unbound : subst.lookup x = none)
    (inside : x.id < supply) :
    program.Calls (.base name) term x subst supply (steps term) := by
  intro gaps trace
  have called : program.call (.base name) term x supply =
      (tabled steps term (.var x)).made supply := by
    rw [← given]
    rfl
  rw [called]
  let start : Located Subst := ⟨⟨trace, supply⟩, subst⟩
  have branches :
      (Goal.any ((steps term).map fun value => [.eq (.var x) value])).Gives
        program.unfold gaps
        ⟨start.place.built (start.place.opening gaps), subst⟩
        (Located.Answers supply subst x) (steps term) :=
    gives_any_eq within unbound inside (Nat.le_add_right _ _) supply ground
  have built :
      ((tabled steps term (.var x) :
          Recipe (CodedGoal Base Custom)).made supply).1.Gives program.unfold
        gaps start (Located.Answers supply subst x) (steps term) := by
    refine .dynamic ?_
    rw [Subst.reify_eq_of_isGround within.acyclic termGround]
    exact branches
  rcases built with ⟨found, listing, answers⟩
  rcases listing.exists_completes with ⟨results, completes, permuted⟩
  rcases List.perm_comp_forall₂ permuted answers with
    ⟨ordered, resultsAnswer, reordered⟩
  exact ⟨results, ordered, completes, resultsAnswer, reordered⟩

theorem calls_table
    {steps : Term → List Term}
    {term : Term}
    {x : Var}
    {subst : Subst}
    {supply : Nat}
    (termGround : term.isGround = true)
    (ground : ∀ value ∈ steps term, value.isGround = true)
    (within : subst.Within supply)
    (unbound : subst.lookup x = none)
    (inside : x.id < supply) :
    (table steps).Calls (.base ()) term x subst supply (steps term) :=
  calls_of_tabled rfl termGround ground within unbound inside

end Program

end RelationalSearch
