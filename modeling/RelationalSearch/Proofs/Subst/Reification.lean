import RelationalSearch.Proofs.Subst.Scope

/-!
# Reification as full substitution

Reification works on two stacks, one of what is to be done and one of finished
terms (`Subst.turn` is one turn of its loop).  A term to be visited leaves one
finished term behind, whatever it is taken apart into in between, and the making of
a cell takes two and leaves one.  So the number of finished terms says at each turn
whether what is to be done will find the terms that it needs
(`Subst.Balanced`), and it does so whether or not the bindings run in a circle.

Over an acyclic substitution the turns end (`Subst.ReifyEnds`), and what is left is
the term that plain recursion gives: follow the bindings of the term, and then reify
the head and the tail of a cell.  Nothing is skipped there, though the loop takes
over ground terms as they are (`Subst.reify_substitutes_fully`).
-/

namespace RelationalSearch

namespace Term

/-- The term itself, and all that it is made of. -/
def parts : Term → List Term
  | cons head tail => cons head tail :: (head.parts ++ tail.parts)
  | term => [term]

/-- Does the same with the head and the tail of a cell; other terms are kept. -/
def withParts (change : Term → Term) : Term → Term
  | cons head tail => cons (change head) (change tail)
  | term => term

end Term

namespace Subst

variable {subst extended : Subst}

/-! ## Turns of the loop -/

/-- What is to be done, the next chore first, and the finished terms, the last first. -/
abbrev Stacks := List Chore × List Term

/--
One turn of the loop of reification, which ends when there is nothing to be done.
Without two finished terms to take no cell is made.
-/
def turn (subst : Subst) : Stacks → Option Stacks
  | ([], _) => none
  | (.visit term :: chores, finished) =>
    if term.isGround then
      some (chores, term :: finished)
    else
      match subst.walk term with
      | .cons head tail =>
        if (Term.cons head tail).isGround then
          some (chores, .cons head tail :: finished)
        else
          some (.visit head :: .visit tail :: .join :: chores, finished)
      | found => some (chores, found :: finished)
  | (.join :: chores, tail :: head :: finished) =>
    some (chores, .cons head tail :: finished)
  | (.join :: chores, _) => some (chores, [])

/-- Some turns of the loop lead from the first stacks to the second ones. -/
def Turns (subst : Subst) : Stacks → Stacks → Prop :=
  Relation.ReflTransGen fun now later => subst.turn now = some later

/-- No sequence of turns from the stacks goes on for ever. -/
def TurnsEnd (subst : Subst) : Stacks → Prop :=
  Acc fun later now => subst.turn now = some later

/-- All turns that end do so with the same stacks. -/
theorem Turns.onwards
    {start middle last : Stacks}
    (turns : subst.Turns start middle)
    (all : subst.Turns start last)
    (stopped : subst.turn last = none) :
    subst.Turns middle last := by
  induction turns with
  | refl => exact all
  | tail _ step ih =>
    rcases ih.cases_head with rfl | ⟨next, again, rest⟩
    · simp [stopped] at step
    · cases step.symm.trans again
      exact rest

/-- There is one next turn only, so if some turns end then all do. -/
theorem Turns.turnsEnd
    {start last : Stacks}
    (turns : subst.Turns start last)
    (stopped : subst.turn last = none) :
    subst.TurnsEnd start := by
  induction turns using Relation.ReflTransGen.head_induction_on with
  | refl => exact ⟨_, fun later step => by simp [stopped] at step⟩
  | head step _ ih =>
    refine ⟨_, fun later again => ?_⟩
    cases step.symm.trans again
    exact ih

/-! ## Finished terms -/

/--
With so many finished terms each chore finds those that it takes, and one term is
left in the end.
-/
def Balanced : List Chore → Nat → Prop
  | [], count => count = 1
  | .visit _ :: chores, count => Balanced chores (count + 1)
  | .join :: chores, count => 2 ≤ count ∧ Balanced chores (count - 1)

theorem Balanced.turn
    {chores laterChores : List Chore}
    {finished laterFinished : List Term}
    (balanced : Balanced chores finished.length)
    (step : subst.turn (chores, finished) = some (laterChores, laterFinished)) :
    Balanced laterChores laterFinished.length := by
  unfold Subst.turn at step
  split at step
  next => simp at step
  next term chores finished same =>
    cases same
    rw [Balanced] at balanced
    split at step
    next =>
      cases step
      exact balanced
    next =>
      split at step
      next head tail _ =>
        split at step
        next =>
          cases step
          exact balanced
        next =>
          -- The two parts leave two terms, of which the cell makes one.
          cases step
          exact ⟨by omega, balanced⟩
      next =>
        cases step
        exact balanced
  next chores tail head finished same =>
    cases same
    cases step
    exact balanced.2
  next chores finished short same =>
    cases same
    rcases balanced with ⟨two, _⟩
    match finished with
    | [] | [_] => simp at two
    | tail :: head :: rest => exact (short _ _ _ rfl).elim

theorem Balanced.turns
    {start later : Stacks}
    (balanced : Balanced start.1 start.2.length)
    (turns : subst.Turns start later) :
    Balanced later.1 later.2.length := by
  induction turns with
  | refl => exact balanced
  | tail _ step ih => exact ih.turn step

/-! ## Runs as turns -/

/-- Each rule of a run is a turn of the loop. -/
theorem ReifyRun.exists_turns
    {chores : List Chore}
    {finished : List Term}
    {outcome : Option Term}
    (run : subst.ReifyRun chores finished outcome)
    (acyclic : subst.Acyclic) :
    ∃ last, subst.Turns (chores, finished) ([], last) ∧ outcome = last.head? := by
  induction run with
  | done => exact ⟨_, .refl, rfl⟩
  | skip ground _ ih =>
    rcases ih with ⟨last, turns, same⟩
    refine ⟨last, turns.head ?_, same⟩
    rw [turn, if_pos ground]
  | @keep term found _ _ _ notGround ends whole _ ih =>
    rcases ih with ⟨last, turns, same⟩
    refine ⟨last, turns.head ?_, same⟩
    rw [turn, if_neg (by simp [notGround]), walk_eq_of_ends acyclic ends]
    cases found with
    | cons head tail => exact if_pos (whole rfl)
    | _ => rfl
  | enter notGround ends mixed _ ih =>
    rcases ih with ⟨last, turns, same⟩
    refine ⟨last, turns.head ?_, same⟩
    rw [turn, if_neg (by simp [notGround]), walk_eq_of_ends acyclic ends]
    exact if_neg (by simp [mixed])
  | join _ ih =>
    rcases ih with ⟨last, turns, same⟩
    exact ⟨last, turns.head rfl, same⟩

/--
The loop of reification ends on the term with the result.  The stack of finished
terms is never short when a cell is made, and the result is all that it holds in the
end.
-/
structure ReifyEnds (subst : Subst) (term result : Term) : Prop where
  loop : subst.reifyTasks [.visit subst.size term] [] = some result
  turns : subst.Turns ([.visit term], []) ([], [result])
  turnsEnd : subst.TurnsEnd ([.visit term], [])
  two_le_length :
    ∀ chores finished,
      subst.Turns ([.visit term], []) (.join :: chores, finished) →
        2 ≤ finished.length
  last_eq :
    ∀ finished, subst.Turns ([.visit term], []) ([], finished) →
      finished = [result]

theorem Acyclic.reifyEnds
    (acyclic : subst.Acyclic)
    (term : Term) :
    subst.ReifyEnds term (subst.reify term) := by
  have start : Balanced [.visit term] ([] : List Term).length := rfl
  rcases reifyTasks_eq_some_reify acyclic term with ⟨loop, run⟩
  rcases run.exists_turns acyclic with ⟨last, turns, top⟩
  have same : last = [subst.reify term] := by
    rcases List.length_eq_one_iff.mp (start.turns turns) with ⟨found, rfl⟩
    exact congrArg ([·]) (Option.some.inj top).symm
  subst same
  refine ⟨loop, turns, turns.turnsEnd rfl, fun chores finished early => ?_,
    fun finished ended => ?_⟩
  · exact (start.turns early).1
  · rcases (ended.onwards turns rfl).cases_head with same | ⟨_, step, _⟩
    · exact congrArg Prod.snd same
    · simp [turn] at step

/-! ## Plain recursion -/

section Recursion

variable (acyclic : subst.Acyclic)

include acyclic

theorem reified_iff {term result : Term} :
    subst.Reified term result ↔ subst.reify term = result := by
  constructor
  · exact reify_eq_of_reified acyclic
  · rintro rfl
    exact reified_reify acyclic term

/-- The bindings are followed, and then both parts of a cell are reified. -/
theorem reify_eq_withParts_walk (term : Term) :
    subst.reify term = (subst.walk term).withParts subst.reify := by
  have ends := (follow_eq_some_walk acyclic term).2
  generalize subst.walk term = found at ends ⊢
  apply reify_eq_of_reified acyclic
  cases found with
  | cons head tail =>
    exact .cell ends (reified_reify acyclic head) (reified_reify acyclic tail)
  | _ => exact .leaf ends rfl

/-- Reified terms are reified later as the terms that they stand for. -/
theorem Grows.reify_reify
    (grows : subst.Grows extended)
    (term : Term) :
    extended.reify (subst.reify term) = extended.reify term := by
  rw [Subst.reify_eq_under grows.acyclic (subst.reify term),
    grows.reify_eq_under acyclic]

end Recursion

/--
Reification is full substitution.  Its loop ends, its stacks are never short of
terms, and its result is the one term that plain recursion gives, which skips
nothing.  So no bound variable is left in the result, the parts of it that count as
ground are just those without variables, reifying it again changes nothing, and
wherever bindings are added it stands for the same as the term.
-/
theorem reify_substitutes_fully
    (acyclic : subst.Acyclic)
    (term : Term) :
    subst.ReifyEnds term (subst.reify term) ∧
    (∀ result, subst.Reified term result ↔ subst.reify term = result) ∧
    subst.reify term = (subst.walk term).withParts subst.reify ∧
    (∀ x ∈ (subst.reify term).vars, subst.lookup x = none) ∧
    (∀ part ∈ (subst.reify term).parts, part.isGround = true ↔ part.vars = []) ∧
    subst.reify (subst.reify term) = subst.reify term ∧
    ∀ extended, subst.Grows extended →
      extended.reify (subst.reify term) = extended.reify term :=
  ⟨acyclic.reifyEnds term, fun _ => reified_iff acyclic,
    reify_eq_withParts_walk acyclic term, (reified_reify acyclic term).lookup_eq_none,
    fun part _ => part.isGround_eq_true_iff, reify_reify acyclic term,
    fun _ grows => grows.reify_reify acyclic term⟩

/-- A cell of a variable that stands for a list, and of an open chain. -/
theorem reify_substitutes_fully_list :
    let subst :=
      ((∅ : Subst).bind ⟨0⟩ (.sequence .list [.var ⟨1⟩])).bind ⟨1⟩ (.int 1)
    let term := Term.cons (.var ⟨0⟩) (.cons (.int 2) (.var ⟨2⟩))
    let result :=
      Term.cons (.sequence .list [.int 1]) (.cons (.int 2) (.var ⟨2⟩))
    subst.Acyclic ∧ subst.ReifyEnds term result ∧ subst.Reified term result ∧
      subst.lookup ⟨2⟩ = none ∧ subst.reify result = result := by
  intro subst term result
  have acyclic : subst.Acyclic := by
    refine (acyclic_empty.bind ?_).bind (not_reaches_of_isGround rfl _)
    rw [Term.sequence, Term.chain_cons, Term.chain_nil, reaches_cons_iff,
      reaches_var_iff (lookup_empty _)]
    rintro (same | reached)
    · simp at same
    · exact not_reaches_of_isGround rfl _ reached
  have shown : subst.reify term = result := by decide +kernel
  rcases reify_substitutes_fully acyclic term with
    ⟨ends, recursion, _, unbound, _, again, _⟩
  rw [shown] at ends unbound again
  exact ⟨acyclic, ends, (recursion result).mpr shown, unbound _ (by decide +kernel),
    again⟩

end Subst

end RelationalSearch
