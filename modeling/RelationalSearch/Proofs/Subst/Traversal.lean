import RelationalSearch.Proofs.Subst.Acyclic
import RelationalSearch.Subst.Reify

/-!
# Traversals without budgets

Walking, the occurs check and reification are loops that follow bindings as
far as they lead.  Their runs are given here by rules in which nothing is
counted: a run that is derived is one that ends, and a loop that goes around
in a circle of bindings has none.

* `Subst.Ends`: following the bindings of a term.
* `Subst.SearchRun`: the search for a variable in pending terms.
* `Subst.ReifyRun`: the two stacks of reification.
* `Subst.Reified`: reification by plain recursion, which skips nothing.

Over an acyclic substitution each of the loops has a run from every term, and
what the budgeted loop answers is the outcome of that run.
-/

namespace RelationalSearch

namespace Subst

variable {subst : Subst}

/-! ## Following bindings -/

/-- Following the bindings of the first term ends at the second. -/
inductive Ends (subst : Subst) : Term → Term → Prop where
  | here
      {term : Term}
      (last : subst.next? term = none) :
      Ends subst term term
  | step
      {term next found : Term}
      (bound : subst.next? term = some next)
      (rest : Ends subst next found) :
      Ends subst term found

namespace Ends

variable {term found : Term}

theorem next?_eq_none (ends : subst.Ends term found) :
    subst.next? found = none := by
  induction ends with
  | here last => exact last
  | step _ _ ih => exact ih

theorem unique
    {other : Term}
    (ends : subst.Ends term found)
    (alike : subst.Ends term other) :
    found = other := by
  induction ends with
  | here last =>
    cases alike with
    | here => rfl
    | step bound => simp [last] at bound
  | step bound _ ih =>
    cases alike with
    | here last => simp [bound] at last
    | step other rest =>
      rw [bound] at other
      cases other
      exact ih rest

/-- Both ends of followed bindings have the same value. -/
theorem reaches_iff
    (ends : subst.Ends term found)
    {x : Var}
    (unbound : subst.lookup x = none) :
    subst.Reaches term x ↔ subst.Reaches found x := by
  induction ends with
  | here => rfl
  | @step term next _ bound _ ih =>
    rw [← ih]
    rcases exists_var_of_next? bound with ⟨y, rfl, looked⟩
    constructor
    · rintro ⟨z, member, path⟩
      rcases by simpa using member with rfl : z = y
      rcases path.cases_head with rfl | ⟨w, ⟨_, found, inside⟩, onwards⟩
      · simp [looked] at unbound
      · rw [looked] at found
        cases found
        exact ⟨w, inside, onwards⟩
    · rintro ⟨w, inside, onwards⟩
      exact ⟨y, by simp, .head ⟨next, looked, inside⟩ onwards⟩

end Ends

theorem ends_of_follow
    {budget rest : Nat}
    {term found : Term}
    (followed : subst.follow budget term = some (rest, found)) :
    subst.Ends term found := by
  induction budget generalizing term with
  | zero =>
    rcases follow_cases followed with ⟨last, _, rfl⟩ | ⟨_, _, more, _⟩
    · exact .here last
    · cases more
  | succ budget ih =>
    rcases follow_cases followed with
      ⟨last, _, rfl⟩ | ⟨_, _, more, bound, onwards⟩
    · exact .here last
    · cases more
      exact .step bound (ih onwards)

/-- Over an acyclic substitution walking ends, and where it should. -/
theorem follow_eq_some_walk
    (acyclic : subst.Acyclic)
    (term : Term) :
    (∃ rest, subst.follow subst.size term =
        some (rest, subst.walk term)) ∧
      subst.Ends term (subst.walk term) := by
  rcases (Sufficient.start subst term).follow acyclic with
    ⟨rest, found, followed, _⟩
  simp only [walk, followed]
  exact ⟨⟨rest, rfl⟩, ends_of_follow followed⟩

/-! ## The occurs check -/

/--
The search for a variable in pending terms answers.  Ground terms are passed
over, and of a cell the tail is looked at first.
-/
inductive SearchRun (subst : Subst) (x : Var) : List Term → Bool → Prop where
  | done : SearchRun subst x [] false
  | skip
      {term : Term} {pending : List Term} {answer : Bool}
      (ground : term.isGround = true)
      (rest : SearchRun subst x pending answer) :
      SearchRun subst x (term :: pending) answer
  | hit
      {term : Term} {pending : List Term}
      (notGround : term.isGround = false)
      (ends : subst.Ends term (.var x)) :
      SearchRun subst x (term :: pending) true
  | miss
      {term found : Term} {pending : List Term} {answer : Bool}
      (notGround : term.isGround = false)
      (ends : subst.Ends term found)
      (different : found ≠ .var x)
      (notCell : found.isCons = false)
      (rest : SearchRun subst x pending answer) :
      SearchRun subst x (term :: pending) answer
  | enter
      {term head tail : Term} {pending : List Term} {answer : Bool}
      (notGround : term.isGround = false)
      (ends : subst.Ends term (.cons head tail))
      (rest : SearchRun subst x (tail :: head :: pending) answer) :
      SearchRun subst x (term :: pending) answer

theorem not_reaches_of_isGround
    {term : Term}
    (ground : term.isGround = true)
    (x : Var) :
    ¬ subst.Reaches term x := by
  rintro ⟨y, member, _⟩
  rw [(Term.isGround_eq_true_iff term).mp ground] at member
  simp at member

theorem reaches_var_iff
    {x y : Var}
    (unbound : subst.lookup y = none) :
    subst.Reaches (.var y) x ↔ y = x := by
  constructor
  · rintro ⟨z, member, path⟩
    rcases by simpa using member with rfl : z = y
    rcases path.cases_head with same | ⟨w, ⟨_, bound, _⟩, _⟩
    · exact same
    · simp [unbound] at bound
  · rintro rfl
    exact ⟨y, by simp, .refl⟩

theorem reaches_cons_iff
    {head tail : Term}
    {x : Var} :
    subst.Reaches (.cons head tail) x ↔
      subst.Reaches head x ∨ subst.Reaches tail x := by
  simp only [Reaches, Term.vars_cons, List.mem_append, or_and_right,
    exists_or]

/-- The occurs check answers exactly whether an unbound variable is reached. -/
theorem SearchRun.eq_true_iff
    {x : Var}
    {pending : List Term}
    {answer : Bool}
    (run : subst.SearchRun x pending answer)
    (unbound : subst.lookup x = none) :
    answer = true ↔ ∃ term ∈ pending, subst.Reaches term x := by
  induction run with
  | done => simp
  | skip ground _ ih =>
    rw [ih, List.exists_mem_cons_iff]
    simp [not_reaches_of_isGround ground]
  | hit _ ends =>
    refine iff_of_true rfl ⟨_, List.mem_cons_self, ?_⟩
    rw [ends.reaches_iff unbound, reaches_var_iff unbound]
  | @miss term found _ _ _ ends different notCell _ ih =>
    have missed : ¬ subst.Reaches term x := by
      rw [ends.reaches_iff unbound]
      cases found with
      | var y =>
        rw [reaches_var_iff ends.next?_eq_none]
        rintro rfl
        exact different rfl
      | cons => simp [Term.isCons] at notCell
      | _ => simp [Reaches]
    rw [ih, List.exists_mem_cons_iff]
    simp [missed]
  | enter _ ends _ ih =>
    rw [ih, List.exists_mem_cons_iff, List.exists_mem_cons_iff,
      List.exists_mem_cons_iff, ends.reaches_iff unbound, reaches_cons_iff]
    tauto

/-- With sufficient budgets the search answers, and by a run without them. -/
theorem exists_occursIn_eq_some
    (acyclic : subst.Acyclic)
    (x : Var)
    (pending : List (Nat × Term))
    (enough : ∀ item ∈ pending, subst.Sufficient item.1 item.2) :
    ∃ answer, subst.occursIn x pending = some answer ∧
      subst.SearchRun x (pending.map Prod.snd) answer := by
  fun_induction occursIn subst x pending with
  | case1 => exact ⟨false, rfl, .done⟩
  | case2 budget term pending ground ih =>
    rw [List.forall_mem_cons] at enough
    rcases ih enough.2 with ⟨answer, found, run⟩
    exact ⟨answer, found, .skip ground run⟩
  | case3 budget term pending notGround failed =>
    rw [List.forall_mem_cons] at enough
    rcases enough.1.follow acyclic with ⟨_, _, followed, _⟩
    simp [followed] at failed
  | case4 budget term pending notGround rest followed =>
    exact ⟨true, rfl,
      .hit (by simpa using notGround) (ends_of_follow followed)⟩
  | case5 budget term pending notGround rest y followed different ih =>
    rw [List.forall_mem_cons] at enough
    rcases ih enough.2 with ⟨answer, found, run⟩
    exact ⟨answer, found,
      .miss (by simpa using notGround) (ends_of_follow followed)
        (by simpa using different) rfl run⟩
  | case6 budget term pending notGround rest head tail followed ih =>
    rw [List.forall_mem_cons] at enough
    rcases enough.1.follow acyclic with ⟨_, _, again, remaining⟩
    rw [followed] at again
    cases again
    obtain ⟨answer, found, run⟩ := ih (by
      rw [List.forall_mem_cons, List.forall_mem_cons]
      exact ⟨remaining.tail, remaining.head, enough.2⟩)
    exact ⟨answer, found,
      .enter (by simpa using notGround) (ends_of_follow followed) run⟩
  | case7 budget term pending notGround reached notVar notCell followed ih =>
    rw [List.forall_mem_cons] at enough
    rcases ih enough.2 with ⟨answer, found, run⟩
    rcases reached with ⟨rest, last⟩
    refine ⟨answer, found,
      .miss (by simpa using notGround) (ends_of_follow followed) ?_ ?_ run⟩
    · rintro rfl
      exact notVar _ _ rfl
    · cases last with
      | cons head tail => exact (notCell _ _ _ rfl).elim
      | _ => rfl

/-- Over an acyclic substitution the occurs check ends, with its answer. -/
theorem occursIn_eq_some_occurs
    (acyclic : subst.Acyclic)
    (x : Var)
    (term : Term) :
    subst.occursIn x [(subst.size, term)] = some (subst.occurs x term) ∧
      subst.SearchRun x [term] (subst.occurs x term) := by
  obtain ⟨answer, found, run⟩ :=
    exists_occursIn_eq_some acyclic x [(subst.size, term)]
      (by simpa using Sufficient.start subst term)
  have same : subst.occurs x term = answer := by
    rw [occurs, found, Option.getD_some]
  rw [same]
  exact ⟨found, run⟩

/-! ## Reification -/

/-- What reification has on its first stack, without a budget. -/
inductive Chore where
  | visit (term : Term)
  | join

/-- The two stacks of reification run down to an outcome. -/
inductive ReifyRun (subst : Subst) :
    List Chore → List Term → Option Term → Prop where
  | done {finished : List Term} :
      ReifyRun subst [] finished finished.head?
  | skip
      {term : Term} {chores : List Chore} {finished : List Term}
      {outcome : Option Term}
      (ground : term.isGround = true)
      (rest : ReifyRun subst chores (term :: finished) outcome) :
      ReifyRun subst (.visit term :: chores) finished outcome
  | keep
      {term found : Term} {chores : List Chore} {finished : List Term}
      {outcome : Option Term}
      (notGround : term.isGround = false)
      (ends : subst.Ends term found)
      (whole : found.isCons = true → found.isGround = true)
      (rest : ReifyRun subst chores (found :: finished) outcome) :
      ReifyRun subst (.visit term :: chores) finished outcome
  | enter
      {term head tail : Term} {chores : List Chore} {finished : List Term}
      {outcome : Option Term}
      (notGround : term.isGround = false)
      (ends : subst.Ends term (.cons head tail))
      (mixed : (Term.cons head tail).isGround = false)
      (rest :
        ReifyRun subst (.visit head :: .visit tail :: .join :: chores)
          finished outcome) :
      ReifyRun subst (.visit term :: chores) finished outcome
  | join
      {head tail : Term} {chores : List Chore} {finished : List Term}
      {outcome : Option Term}
      (rest : ReifyRun subst chores (.cons head tail :: finished) outcome) :
      ReifyRun subst (.join :: chores) (tail :: head :: finished) outcome

/-- The second term is the first one with all bindings followed. -/
inductive Reified (subst : Subst) : Term → Term → Prop where
  | leaf
      {term found : Term}
      (ends : subst.Ends term found)
      (notCell : found.isCons = false) :
      Reified subst term found
  | cell
      {term head tail headResult tailResult : Term}
      (ends : subst.Ends term (.cons head tail))
      (headReified : Reified subst head headResult)
      (tailReified : Reified subst tail tailResult) :
      Reified subst term (.cons headResult tailResult)

namespace Reified

variable {term result : Term}

theorem unique
    (reified : subst.Reified term result)
    {other : Term}
    (alike : subst.Reified term other) :
    result = other := by
  induction reified generalizing other with
  | leaf ends notCell =>
    cases alike with
    | leaf otherEnds => exact ends.unique otherEnds
    | cell otherEnds =>
      rcases ends.unique otherEnds with rfl
      simp [Term.isCons] at notCell
  | cell ends _ _ headIH tailIH =>
    cases alike with
    | leaf otherEnds notCell =>
      rcases ends.unique otherEnds with rfl
      simp [Term.isCons] at notCell
    | cell otherEnds headReified tailReified =>
      cases ends.unique otherEnds
      rw [headIH headReified, tailIH tailReified]

theorem of_next
    {next : Term}
    (reified : subst.Reified next result)
    (bound : subst.next? term = some next) :
    subst.Reified term result := by
  cases reified with
  | leaf ends notCell => exact .leaf (.step bound ends) notCell
  | cell ends headReified tailReified =>
    exact .cell (.step bound ends) headReified tailReified

/-- A ground term stands for itself. -/
theorem of_isGround
    (ground : term.isGround = true) :
    subst.Reified term term := by
  induction term with
  | var => simp at ground
  | cons head tail headIH tailIH =>
    rw [Term.isGround_cons, Bool.and_eq_true] at ground
    exact .cell (.here rfl) (headIH ground.1) (tailIH ground.2)
  | _ => exact .leaf (.here rfl) rfl

theorem of_ends
    {found : Term}
    (reified : subst.Reified found result)
    (ends : subst.Ends term found) :
    subst.Reified term result := by
  induction ends with
  | here => exact reified
  | step bound _ ih => exact (ih reified).of_next bound

end Reified

section Visit

variable
  {budget left : Nat} {term : Term} (notGround : term.isGround = false)

include notGround

theorem reifyTasks_keep
    {found : Term}
    (followed : subst.follow budget term = some (left, found))
    (whole : found.isCons = true → found.isGround = true)
    (tasks : List ReifyTask)
    (finished : List Term) :
    subst.reifyTasks (.visit budget term :: tasks) finished =
      subst.reifyTasks tasks (found :: finished) := by
  rw [reifyTasks, if_neg (by simp [notGround])]
  split
  next failed => simp [followed] at failed
  next rest head tail again =>
    rw [followed] at again
    cases again
    rw [if_pos (whole rfl)]
  next rest last _ again =>
    rw [followed] at again
    cases again
    rfl

theorem reifyTasks_enter
    {head tail : Term}
    (followed : subst.follow budget term = some (left, .cons head tail))
    (mixed : (Term.cons head tail).isGround = false)
    (tasks : List ReifyTask)
    (finished : List Term) :
    subst.reifyTasks (.visit budget term :: tasks) finished =
      subst.reifyTasks
        (.visit left head :: .visit left tail :: .join :: tasks) finished := by
  rw [reifyTasks, if_neg (by simp [notGround])]
  split
  next failed => simp [followed] at failed
  next rest head tail again =>
    rw [followed] at again
    cases again
    rw [if_neg (by simp [mixed])]
  next rest last notCell again =>
    rw [followed] at again
    cases again
    exact (notCell _ _ rfl).elim

end Visit

/--
A visit with a sufficient budget puts the reified term on the stack of
finished ones, in the loop and in its runs alike.
-/
theorem exists_reified
    (acyclic : subst.Acyclic)
    (budget : Nat)
    (term : Term)
    (enough : subst.Sufficient budget term) :
    ∃ result, subst.Reified term result ∧
      (∀ tasks finished,
        subst.reifyTasks (.visit budget term :: tasks) finished =
          subst.reifyTasks tasks (result :: finished)) ∧
      ∀ chores finished outcome,
        subst.ReifyRun chores (result :: finished) outcome →
          subst.ReifyRun (.visit term :: chores) finished outcome := by
  induction measure : subst.cost budget term using
    Nat.strongRecOn generalizing budget term with
  | _ bound ih =>
    subst measure
    by_cases ground : term.isGround = true
    · refine ⟨term, .of_isGround ground, ?_, ?_⟩
      · intro tasks finished
        rw [reifyTasks, if_pos ground]
      · intro chores finished outcome rest
        exact .skip ground rest
    · rcases enough.follow acyclic with ⟨left, found, followed, remaining⟩
      have ends := ends_of_follow followed
      have notGround : term.isGround = false := by simpa using ground
      by_cases whole : found.isCons = true → found.isGround = true
      · refine ⟨found, ?_, reifyTasks_keep notGround followed whole, ?_⟩
        · by_cases cell : found.isCons = true
          · exact (Reified.of_isGround (whole cell)).of_ends ends
          · exact .leaf ends (by simpa using cell)
        · intro chores finished outcome rest
          exact .keep notGround ends whole rest
      · obtain ⟨head, tail, rfl⟩ : ∃ head tail, found = .cons head tail := by
          cases found <;> simp_all [Term.isCons]
        have mixed : (Term.cons head tail).isGround = false := by
          simpa [Term.isCons] using whole
        have smaller := cost_le_of_follow followed
        rw [cost_cons] at smaller
        rcases ih _ (by omega) left head remaining.head rfl with
          ⟨headResult, headReified, headTasks, headRuns⟩
        rcases ih _ (by omega) left tail remaining.tail rfl with
          ⟨tailResult, tailReified, tailTasks, tailRuns⟩
        refine ⟨_, .cell ends headReified tailReified, ?_, ?_⟩
        · intro tasks finished
          rw [reifyTasks_enter notGround followed mixed, headTasks, tailTasks,
            reifyTasks]
        · intro chores finished outcome rest
          exact .enter notGround ends mixed
            (headRuns _ _ _ (tailRuns _ _ _ (.join rest)))

/-- Over an acyclic substitution the stacks run down to the reified term. -/
theorem reifyTasks_eq_some_reify
    (acyclic : subst.Acyclic)
    (term : Term) :
    subst.reifyTasks [.visit subst.size term] [] =
        some (subst.reify term) ∧
      subst.ReifyRun [.visit term] [] (some (subst.reify term)) := by
  rcases exists_reified acyclic subst.size term (.start subst term) with
    ⟨result, _, tasks, runs⟩
  have found : subst.reifyTasks [.visit subst.size term] [] = some result := by
    rw [tasks, reifyTasks, List.head?_cons]
  have same : subst.reify term = result := by
    rw [reify, found, Option.getD_some]
  rw [same]
  exact ⟨found, runs _ _ _ .done⟩

section Reify

variable (acyclic : subst.Acyclic)

include acyclic

theorem reified_reify (term : Term) :
    subst.Reified term (subst.reify term) := by
  rcases exists_reified acyclic subst.size term (.start subst term) with
    ⟨result, reified, tasks, _⟩
  have same : subst.reify term = result := by
    rw [reify, tasks, reifyTasks, List.head?_cons, Option.getD_some]
  rwa [same]

theorem reify_eq_of_reified
    {term result : Term}
    (reified : subst.Reified term result) :
    subst.reify term = result :=
  (reified_reify acyclic term).unique reified

theorem reify_cons (head tail : Term) :
    subst.reify (.cons head tail) =
      .cons (subst.reify head) (subst.reify tail) :=
  reify_eq_of_reified acyclic
    (.cell (.here rfl) (reified_reify acyclic head)
      (reified_reify acyclic tail))

theorem reify_bound
    {x : Var}
    {term : Term}
    (bound : subst.lookup x = some term) :
    subst.reify (.var x) = subst.reify term :=
  reify_eq_of_reified acyclic
    ((reified_reify acyclic term).of_next bound)

/-- Reification is the valuation that reifies each variable. -/
theorem reify_eq_under (term : Term) :
    subst.reify term = term.under fun x => subst.reify (.var x) := by
  induction term with
  | var x => rfl
  | cons head tail headIH tailIH =>
    rw [reify_cons acyclic, headIH, tailIH, Term.under_cons]
  | _ => exact reify_eq_of_reified acyclic (.leaf (.here rfl) rfl)

end Reify

end Subst

end RelationalSearch
