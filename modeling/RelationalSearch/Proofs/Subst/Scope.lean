import RelationalSearch.Proofs.Subst.Binding
import RelationalSearch.Proofs.Subst.Renaming

/-!
# Substitutions and terms of a session

A term of a session has variables below its supply only.  Following bindings,
reifying and unifying lead to no others, as long as the substitution is of the
session as well (`Subst.Within.unify`).

The second half says how what two terms stand for goes on: terms that stand
for the same now do so later, what shows as a cell remains a cell, and what
shows as an atom or as the end of a sequence does not change any more.
-/

namespace RelationalSearch

theorem Term.id_lt_ceiling
    {term : Term}
    {x : Var}
    (member : x ∈ term.vars) :
    x.id < term.ceiling := by
  induction term with
  | var y =>
    rw [vars_var, List.mem_singleton] at member
    rw [member]
    exact Nat.lt_succ_self y.id
  | cons head tail headIH tailIH =>
    rw [vars_cons, List.mem_append] at member
    rcases member with inside | inside
    · exact Nat.lt_of_lt_of_le (headIH inside) (Nat.le_max_left _ _)
    · exact Nat.lt_of_lt_of_le (tailIH inside) (Nat.le_max_right _ _)
  | _ => simp at member

theorem Term.ceiling_le_of_forall
    {term : Term}
    {supply : Nat}
    (below : ∀ x ∈ term.vars, x.id < supply) :
    term.ceiling ≤ supply := by
  induction term with
  | var x => exact below x (by simp)
  | cons head tail headIH tailIH =>
    rw [vars_cons, List.forall_mem_append] at below
    exact Nat.max_le.mpr ⟨headIH below.1, tailIH below.2⟩
  | _ => exact Nat.zero_le supply

namespace Subst

variable {subst extended : Subst} {supply : Nat}

/-! ## Variables below a supply -/

theorem Within.ceiling_ends_le
    (within : subst.Within supply)
    {term found : Term}
    (ends : subst.Ends term found)
    (low : term.ceiling ≤ supply) :
    found.ceiling ≤ supply := by
  induction ends with
  | here => exact low
  | @step term next _ bound _ ih =>
    refine ih ?_
    rcases exists_var_of_next? bound with ⟨x, rfl, looked⟩
    exact within.ceiling_le looked

theorem Reified.ceiling_le
    {term result : Term}
    (reified : subst.Reified term result)
    (within : subst.Within supply)
    (low : term.ceiling ≤ supply) :
    result.ceiling ≤ supply := by
  induction reified with
  | leaf ends _ => exact within.ceiling_ends_le ends low
  | cell ends _ _ headIH tailIH =>
    have lowCell := within.ceiling_ends_le ends low
    rw [Term.ceiling, Nat.max_le] at lowCell ⊢
    exact ⟨headIH lowCell.1, tailIH lowCell.2⟩

theorem Within.ceiling_reify_le
    (within : subst.Within supply)
    {term : Term}
    (low : term.ceiling ≤ supply) :
    (subst.reify term).ceiling ≤ supply :=
  (reified_reify within.acyclic term).ceiling_le within low

/-- The variable is bound, or is in a term to which one is bound. -/
def Mentions (subst : Subst) (x : Var) : Prop :=
  ∃ y term, subst.lookup y = some term ∧ (x = y ∨ x ∈ term.vars)

theorem Within.not_mentions
    (within : subst.Within supply)
    {x : Var}
    (above : supply ≤ x.id) :
    ¬ subst.Mentions x := by
  rintro ⟨y, term, bound, rfl | member⟩
  · exact Nat.not_le_of_lt (within.id_lt bound) above
  · have inside := Term.id_lt_ceiling member
    have low := within.ceiling_le bound
    omega

theorem within_of_mentions
    (acyclic : subst.Acyclic)
    (below : ∀ x, subst.Mentions x → x.id < supply) :
    subst.Within supply where
  acyclic := acyclic
  id_lt bound := below _ ⟨_, _, bound, .inl rfl⟩
  ceiling_le bound := Term.ceiling_le_of_forall fun x member =>
    below x ⟨_, _, bound, .inr member⟩

/-- A variable is bound to a term of the session in which it is not reached. -/
theorem Within.assign
    (within : subst.Within supply)
    {left right leftEnd rightEnd term : Term}
    {x : Var}
    (leftEnds : subst.Ends left leftEnd)
    (rightEnds : subst.Ends right rightEnd)
    (met : meet leftEnd rightEnd = .assign x term)
    (absent : subst.SearchRun x [term] false)
    (leftLow : leftEnd.ceiling ≤ supply)
    (rightLow : rightEnd.ceiling ≤ supply) :
    (subst.bind x term).Within supply := by
  have unbound := lookup_eq_none_of_meet_eq_assign leftEnds rightEnds met
  have apart : ¬ subst.Reaches term x := by
    intro reached
    have found := (absent.eq_true_iff unbound).mpr ⟨term, by simp, reached⟩
    exact Bool.false_ne_true found
  rcases eq_var_of_meet_eq_assign met with ⟨rfl, rfl⟩ | ⟨rfl, rfl⟩
  · exact within.bind leftLow rightLow apart
  · exact within.bind rightLow leftLow apart

/-- Unification of pairs of a session leads to a substitution of the session. -/
theorem UnifyRun.within
    {pairs : List (Term × Term)}
    {outcome : Option Subst}
    (run : UnifyRun subst pairs outcome)
    (success : outcome = some extended)
    (within : subst.Within supply)
    (low :
      ∀ pair ∈ pairs, pair.1.ceiling ≤ supply ∧ pair.2.ceiling ≤ supply) :
    extended.Within supply := by
  induction run with
  | done =>
    cases success
    exact within
  | clash | refuse => simp at success
  | same _ _ _ _ ih =>
    rw [List.forall_mem_cons] at low
    exact ih success within low.2
  | assign leftEnds rightEnds met absent _ ih =>
    rw [List.forall_mem_cons] at low
    have leftLow := within.ceiling_ends_le leftEnds low.1.1
    have rightLow := within.ceiling_ends_le rightEnds low.1.2
    exact ih success
      (within.assign leftEnds rightEnds met absent leftLow rightLow) low.2
  | descend leftEnds rightEnds met _ ih =>
    rw [List.forall_mem_cons] at low
    have leftLow := within.ceiling_ends_le leftEnds low.1.1
    have rightLow := within.ceiling_ends_le rightEnds low.1.2
    rcases eq_cons_of_meet_eq_descend met with ⟨rfl, rfl⟩
    rw [Term.ceiling, Nat.max_le] at leftLow rightLow
    refine ih success within ?_
    rw [List.forall_mem_cons, List.forall_mem_cons]
    exact ⟨⟨leftLow.1, rightLow.1⟩, ⟨leftLow.2, rightLow.2⟩, low.2⟩

theorem Within.unify
    (within : subst.Within supply)
    {left right : Term}
    (leftLow : left.ceiling ≤ supply)
    (rightLow : right.ceiling ≤ supply)
    (success : subst.unify left right = some extended) :
    extended.Within supply :=
  (unifyRun_unify within.acyclic left right).within success within
    (by simp [leftLow, rightLow])

/-! ## What terms go on to stand for -/

/-- Terms that have been unified stand for the same. -/
theorem reify_eq_of_unify
    (acyclic : subst.Acyclic)
    {left right : Term}
    (success : subst.unify left right = some extended) :
    extended.reify left = extended.reify right := by
  have described := (unifyRun_unify acyclic left right).describes
  rw [success] at described
  have extendedAcyclic := acyclic.unify success
  have solved := ((described _).mp (satisfies_reify extendedAcyclic)).2
  rw [solves_cons] at solved
  rw [reify_eq_under extendedAcyclic left,
    reify_eq_under extendedAcyclic right]
  exact solved.1

theorem Grows.reify_congr
    (grows : subst.Grows extended)
    (acyclic : subst.Acyclic)
    {term other : Term}
    (same : subst.reify term = subst.reify other) :
    extended.reify term = extended.reify other := by
  rw [grows.reify_eq_under acyclic, same, ← grows.reify_eq_under acyclic]

/-- What shows as an end is at the end of the bindings. -/
theorem ends_of_reify
    (acyclic : subst.Acyclic)
    {term found : Term}
    (shown : subst.reify term = found)
    (notCell : found.isCons = false) :
    subst.Ends term found := by
  have reified := reified_reify acyclic term
  rw [shown] at reified
  cases reified with
  | leaf ends => exact ends
  | cell => simp [Term.isCons] at notCell

/-- What shows as a cell has a cell at the end of the bindings. -/
theorem exists_ends_of_isCons_reify
    (acyclic : subst.Acyclic)
    {term : Term}
    (cell : (subst.reify term).isCons = true) :
    ∃ head tail, subst.Ends term (.cons head tail) := by
  have reified := reified_reify acyclic term
  cases shown : subst.reify term with
  | cons head tail =>
    rw [shown] at reified
    cases reified with
    | leaf _ notCell => simp [Term.isCons] at notCell
    | cell ends => exact ⟨_, _, ends⟩
  | _ => simp [shown, Term.isCons] at cell

/-! ## Cells and known terms -/

/-- More pairs are unified behind the ones at hand. -/
theorem UnifyRun.append
    {pairs more : List (Term × Term)}
    {outcome last : Option Subst}
    (run : UnifyRun subst pairs outcome)
    (onwards :
      ∀ middle, outcome = some middle → UnifyRun middle more last)
    (fails : outcome = none → last = none) :
    UnifyRun subst (pairs ++ more) last := by
  induction run with
  | done => exact onwards _ rfl
  | same leftEnds rightEnds met _ ih =>
    exact .same leftEnds rightEnds met (ih onwards fails)
  | clash leftEnds rightEnds met =>
    rw [fails rfl]
    exact .clash leftEnds rightEnds met
  | refuse leftEnds rightEnds met occurs =>
    rw [fails rfl]
    exact .refuse leftEnds rightEnds met occurs
  | assign leftEnds rightEnds met absent _ ih =>
    exact .assign leftEnds rightEnds met absent (ih onwards fails)
  | descend leftEnds rightEnds met _ ih =>
    exact .descend leftEnds rightEnds met (ih onwards fails)

/-- A cell is unified part by part with what leads to a cell. -/
theorem unify_cons_of_ends
    (acyclic : subst.Acyclic)
    {head tail whole wholeHead wholeTail : Term}
    (ends : subst.Ends whole (.cons wholeHead wholeTail)) :
    subst.unify (.cons head tail) whole =
      (subst.unify head wholeHead).bind fun middle =>
        middle.unify tail wholeTail := by
  apply unify_eq_of_run acyclic
  apply UnifyRun.descend (.here rfl) ends rfl
  apply (unifyRun_unify acyclic head wholeHead).append
  · intro middle success
    rw [success]
    exact unifyRun_unify (acyclic.unify success) tail wholeTail
  · intro failure
    rw [failure]
    rfl

/-- Two cells are unified part by part. -/
theorem unify_cons
    (acyclic : subst.Acyclic)
    (leftHead leftTail rightHead rightTail : Term) :
    subst.unify (.cons leftHead leftTail) (.cons rightHead rightTail) =
      (subst.unify leftHead rightHead).bind fun middle =>
        middle.unify leftTail rightTail :=
  unify_cons_of_ends acyclic (.here rfl)

/-- A term without bound variables stands for itself. -/
theorem Reified.of_unbound
    {term : Term}
    (unbound : ∀ x ∈ term.vars, subst.lookup x = none) :
    subst.Reified term term := by
  induction term with
  | var x => exact .leaf (ends_of_lookup_eq_none (unbound x (by simp))) rfl
  | cons head tail headIH tailIH =>
    rw [Term.vars_cons, List.forall_mem_append] at unbound
    exact .cell (.here rfl) (headIH unbound.1) (tailIH unbound.2)
  | _ => exact .leaf (.here rfl) rfl

theorem Reified.lookup_eq_none
    {term result : Term}
    (reified : subst.Reified term result) :
    ∀ x ∈ result.vars, subst.lookup x = none := by
  induction reified with
  | @leaf term found ends notCell =>
    cases found with
    | var x =>
      rw [Term.vars_var, List.forall_mem_singleton]
      exact ends.next?_eq_none
    | cons => simp [Term.isCons] at notCell
    | _ => simp
  | cell _ _ _ headIH tailIH =>
    rw [Term.vars_cons, List.forall_mem_append]
    exact ⟨headIH, tailIH⟩

/-- What a term stands for stands for itself. -/
theorem reify_reify (acyclic : subst.Acyclic) (term : Term) :
    subst.reify (subst.reify term) = subst.reify term :=
  reify_eq_of_reified acyclic
    (.of_unbound (reified_reify acyclic term).lookup_eq_none)

/--
What a term stands for does so later, if only variables from the supply on have
been bound in the meantime.
-/
theorem Within.reify_reify
    (within : subst.Within supply)
    {term : Term}
    (low : term.ceiling ≤ supply)
    (acyclic : extended.Acyclic)
    (free :
      ∀ x : Var, x.id < supply → subst.lookup x = none →
        extended.lookup x = none) :
    extended.reify (subst.reify term) = subst.reify term := by
  apply reify_eq_of_reified acyclic
  apply Reified.of_unbound
  intro x member
  exact free x
    (Nat.lt_of_lt_of_le (Term.id_lt_ceiling member)
      (within.ceiling_reify_le low))
    ((reified_reify within.acyclic term).lookup_eq_none x member)

/-! ## Renaming -/

/-- What two alike terms ask of reification. -/
inductive ReifyTask.Alike (pairing : Pairing) : ReifyTask → ReifyTask → Prop where
  | visit
      {term otherTerm : Term}
      (budget : Nat)
      (terms : Term.Alike pairing term otherTerm) :
      Alike pairing (.visit budget term) (.visit budget otherTerm)
  | join : Alike pairing .join .join

section Reify

variable {pairing : Pairing} {other : Subst}

/-- One step of reification. -/
theorem reifyTasks_visit
    (subst : Subst)
    (budget : Nat)
    (term : Term)
    (tasks : List ReifyTask)
    (finished : List Term) :
    subst.reifyTasks (.visit budget term :: tasks) finished =
      if term.isGround then
        subst.reifyTasks tasks (term :: finished)
      else
        match subst.follow budget term with
        | none => none
        | some (rest, .cons head tail) =>
          if (Term.cons head tail).isGround then
            subst.reifyTasks tasks (.cons head tail :: finished)
          else
            subst.reifyTasks
              (.visit rest head :: .visit rest tail :: .join :: tasks) finished
        | some (_, found) => subst.reifyTasks tasks (found :: finished) := by
  rw [reifyTasks]
  split
  · rfl
  · split <;> simp_all

theorem Alike.reifyTasks
    (alike : subst.Alike pairing other)
    {tasks otherTasks : List ReifyTask}
    (taskPairs : List.Forall₂ (ReifyTask.Alike pairing) tasks otherTasks)
    {finished otherFinished : List Term}
    (terms : List.Forall₂ (Term.Alike pairing) finished otherFinished) :
    AlikeTerms pairing (subst.reifyTasks tasks finished)
      (other.reifyTasks otherTasks otherFinished) := by
  fun_induction subst.reifyTasks tasks finished
    generalizing otherTasks otherFinished with
  | case1 finished =>
    cases taskPairs
    rw [Subst.reifyTasks]
    cases terms with
    | nil => exact .none
    | cons here _ => exact .some here
  | case2 budget term tasks finished ground ih =>
    rcases taskPairs with _ | ⟨⟨_, here⟩, rest⟩
    rw [other.reifyTasks_visit, if_pos (here.isGround_eq ▸ ground)]
    exact ih rest (.cons here terms)
  | case3 budget term tasks finished notGround failed =>
    rcases taskPairs with _ | ⟨⟨_, here⟩, rest⟩
    have reached := alike.follow budget here
    rw [failed] at reached
    rw [other.reifyTasks_visit, if_neg (here.isGround_eq ▸ notGround),
      eq_none_of_rel reached]
    exact .none
  | case4 budget term tasks finished notGround left head tail followed ground
      ih =>
    rcases taskPairs with _ | ⟨⟨_, here⟩, rest⟩
    have reached := alike.follow budget here
    rw [followed] at reached
    rcases reached.exists_eq_some with ⟨_, otherFollowed, cells⟩
    have otherGround := cells.isGround_eq ▸ ground
    rcases cells with _ | _ | _ | ⟨heads, tails⟩
    rw [other.reifyTasks_visit, if_neg (here.isGround_eq ▸ notGround),
      otherFollowed]
    simp only [if_pos otherGround]
    exact ih rest (.cons (.cons heads tails) terms)
  | case5 budget term tasks finished notGround left head tail followed mixed
      ih =>
    rcases taskPairs with _ | ⟨⟨_, here⟩, rest⟩
    have reached := alike.follow budget here
    rw [followed] at reached
    rcases reached.exists_eq_some with ⟨_, otherFollowed, cells⟩
    have otherMixed := cells.isGround_eq ▸ mixed
    rcases cells with _ | _ | _ | ⟨heads, tails⟩
    rw [other.reifyTasks_visit, if_neg (here.isGround_eq ▸ notGround),
      otherFollowed]
    simp only [if_neg otherMixed]
    exact ih (.cons (.visit left heads) (.cons (.visit left tails)
      (.cons .join rest))) terms
  | case6 budget term tasks finished notGround left found notCell followed
      ih =>
    rcases taskPairs with _ | ⟨⟨_, here⟩, rest⟩
    have reached := alike.follow budget here
    rw [followed] at reached
    rcases reached.exists_eq_some with ⟨_, otherFollowed, founds⟩
    rw [other.reifyTasks_visit, if_neg (here.isGround_eq ▸ notGround),
      otherFollowed]
    have behind := ih rest (.cons founds terms)
    cases founds with
    | cons => exact (notCell _ _ rfl).elim
    | _ => exact behind
  | case7 tasks tail head finished ih =>
    rcases taskPairs with _ | ⟨_ | _, rest⟩
    rcases terms with _ | ⟨tails, _ | ⟨heads, others⟩⟩
    rw [Subst.reifyTasks]
    exact ih rest (.cons (.cons heads tails) others)
  | case8 tasks finished short =>
    rcases taskPairs with _ | ⟨_ | _, rest⟩
    rcases terms with _ | ⟨tails, _ | ⟨heads, others⟩⟩
    · rw [Subst.reifyTasks]
      · exact .none
      · simp
    · rw [Subst.reifyTasks]
      · exact .none
      · simp
    · exact (short _ _ _ rfl).elim

/-- Over alike substitutions alike terms are reified alike. -/
theorem Alike.reify
    (alike : subst.Alike pairing other)
    {term otherTerm : Term}
    (terms : Term.Alike pairing term otherTerm) :
    Term.Alike pairing (subst.reify term) (other.reify otherTerm) := by
  have outcomes := alike.reifyTasks
    (.cons (.visit subst.size terms) .nil) (.nil (R := Term.Alike pairing))
  rw [Subst.reify, Subst.reify, ← alike.size_eq]
  generalize subst.reifyTasks _ [] = outcome at outcomes ⊢
  generalize other.reifyTasks _ [] = otherOutcome at outcomes ⊢
  cases outcomes with
  | some found => exact found
  | none => exact terms

end Reify

end Subst

end RelationalSearch
