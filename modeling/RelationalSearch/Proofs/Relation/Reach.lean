import RelationalSearch.Proofs.Relation.Call
import RelationalSearch.Proofs.Relation.Reduction
import RelationalSearch.Proofs.Search.Order

/-!
# Reducing a known term

From a known term `Program.reach` goes down the tree that the relation spans
below it.  If the tree is finite, then the search ends with one answer for each
node below the root, and a node comes behind all nodes below it, whatever the
order between the branches (`Program.reach_finishes`).

The induction follows the tree.  Behind a step to a child waits an ordered
disjunction: first comes what is reached from the child, and then the child
itself.  Steps to different children take turns.
-/

namespace RelationalSearch

variable {Base Custom : Type}

/--
The input stands for the term, and the query, which is none of the variables to
come, is still unbound.
-/
structure Located.Asks
    (start : Located Subst)
    (input term : Term)
    (query : Var) : Prop where
  within : start.value.Within start.place.supply
  reify_eq : start.value.reify input = term
  unbound : start.value.lookup query = none
  minted : query.id < start.place.supply

section Asks

variable {start : Located Subst} {input term : Term} {query : Var}

/-- Further variables do not matter. -/
theorem Located.Asks.mono
    (asks : start.Asks input term query)
    {place : Place}
    (later : start.place.supply ≤ place.supply) :
    (Located.mk place start.value).Asks input term query :=
  ⟨asks.within.mono later, asks.reify_eq, asks.unbound,
    Nat.lt_of_lt_of_le asks.minted later⟩

theorem Located.Asks.enter
    {Code : Type}
    (asks : start.Asks input term query)
    (gaps : Gaps)
    (recipe : Recipe (Goal Code)) :
    (start.enter gaps recipe).Asks input term query :=
  asks.mono (Nat.le_trans (Nat.le_add_right _ _) (Recipe.le_made recipe _))

/-- Behind a call for a fresh variable the query is asked for its value. -/
theorem Located.Asks.of_answers
    (asks : start.Asks input term query)
    {supply : Nat}
    (opened : start.place.supply ≤ supply)
    {middle : Located Subst}
    (later : supply ≤ middle.place.supply)
    {child : Term}
    (answers : middle.Answers (supply + 1) start.value ⟨supply⟩ child) :
    middle.Asks (.var ⟨supply⟩) child query := by
  have minted : query.id < supply := Nat.lt_of_lt_of_le asks.minted opened
  have apart : query ≠ ⟨supply⟩ := by
    rintro rfl
    exact Nat.lt_irrefl _ minted
  have unbound := answers.spared query (Nat.lt_succ_of_lt minted) apart
    asks.unbound
  exact ⟨answers.within, answers.reify_eq, unbound,
    Nat.lt_of_lt_of_le minted later⟩

end Asks

/-- The query stands for the value. -/
def Located.Shows
    (query : Var)
    (result : Located Subst)
    (value : Term) : Prop :=
  result.value.reify (.var query) = value

namespace Program

/-! ## What is assumed and what is proved of the relation -/

section Reduction

variable (program : Program Base Custom) (relation : Relation Base)
  (steps : Term → List Term)

/--
The relation has a ground term step to those that the function lists for it.
Wherever it is called, with a fresh variable for the outcome, the call ends, and
each term of the list is found as often as it is listed.
-/
structure Reduces : Prop where
  ground :
    ∀ {term result}, term.isGround = true → result ∈ steps term →
      result.isGround = true
  calls :
    ∀ {term subst supply}, term.isGround = true → subst.Within supply →
      program.Calls relation term ⟨supply⟩ subst (supply + 1) (steps term)

/-- Reducing the term gives the query the terms below it, deepest first. -/
def Unwinds (query : Var) (term : Term) : Prop :=
  ∀ (gaps : Gaps) (start : Located Subst) (input : Term),
    start.Asks input term query →
      (program.reach relation input (.var query)).Yields program.unfold gaps
        start (Located.Shows query) (Unwound steps term)

end Reduction

/-- What is found by a call may come in any order. -/
theorem Calls.yields
    {program : Program Base Custom}
    {relation : Relation Base}
    {term : Term}
    {x : Var}
    {subst : Subst}
    {supply : Nat}
    {values : List Term}
    (calls : program.Calls relation term x subst supply values)
    (gaps : Gaps)
    (trace : Trace) :
    (program.call relation term x supply).1.Yields program.unfold gaps
      ⟨⟨trace, (program.call relation term x supply).2⟩, subst⟩
      (Located.Answers supply subst x) (List.Perm · values) := by
  rcases calls.exists_gives gaps trace with ⟨ordered, gives, permuted⟩
  exact gives.yields.mono fun others same => same.trans permuted

/-! ## The goals of one level -/

/-- What comes behind a step: to go on from its result, and to end with it. -/
def onward
    (relation : Relation Base)
    (input reduced output : Term) : CodedGoal Base Custom :=
  .dynamic fun stepped =>
    if stepped.reify reduced = input then
      .done (.eq reduced output)
    else
      .done (.ordered (.defer (.reach relation reduced output))
        (.ordered (.eq reduced output) .fail))

/-- The goals of one level of a reduction, as they are built. -/
theorem made_reach
    (program : Program Base Custom)
    (relation : Relation Base)
    {input : Term}
    (known : input.isVar = false)
    (output : Term)
    (supply : Nat) :
    (show Recipe (CodedGoal Base Custom) from do
      let reduced ← Recipe.freshTerm "reduced"
      let step ← program.relate relation input reduced
      let stop : CodedGoal Base Custom := .eq reduced output
      let again : CodedGoal Base Custom :=
        .defer (.reach relation reduced output)
      if input.isVar then
        pure (.all [.any [[stop], [again]], step])
      else
        pure (.all
          [step,
            .dynamic fun stepped =>
              if stepped.reify reduced = input then
                .done stop
              else
                .done (.anyInOrder [[again], [stop]])])).made supply =
      let step := program.call relation input ⟨supply⟩ (supply + 1)
      (.both step.1 (onward relation input (.var ⟨supply⟩) output), step.2) := by
  simp only [known, Bool.false_eq_true, if_false, Recipe.bind_eq_andThen,
    Recipe.made_andThen]
  rfl

section Level

variable {program : Program Base Custom} {relation : Relation Base}
  {steps : Term → List Term} {gaps : Gaps} {start : Located Subst}
  {reduced term child : Term} {query : Var}

/-- The query comes to stand for the child. -/
theorem yields_stop
    {Code : Type}
    (goalOf : Code → Recipe (Goal Code))
    (gaps : Gaps)
    (asks : start.Asks reduced child query)
    (ground : child.isGround = true) :
    (Goal.eq reduced (.var query)).Yields goalOf gaps start
      (Located.Shows query)
      (· = [child]) := by
  have known : (start.value.reify reduced).isGround = true := by
    rwa [asks.reify_eq]
  rcases Subst.exists_unify_eq_of_isGround_reify asks.within.acyclic known
      asks.unbound with
    ⟨extended, success, found⟩
  have gives : (Goal.eq reduced (.var query)).Gives goalOf gaps start
      (Located.Shows query) [child] :=
    .unified success (found.trans asks.reify_eq)
  exact gives.yields.mono fun values => List.perm_singleton.mp

/-- Behind a step come the terms that belong to its result. -/
theorem yields_onward
    (asks : start.Asks reduced child query)
    (ground : child.isGround = true)
    (below : child ≠ term → program.Unwinds relation steps query child) :
    (onward relation term reduced (.var query)).Yields program.unfold gaps start
      (Located.Shows query)
      (Unwound.Part steps term child) := by
  refine .dynamic ?_
  rw [asks.reify_eq]
  split
  next same =>
    refine (yields_stop _ _ (asks.enter gaps _) ground).mono ?_
    rintro values rfl
    exact same ▸ .stop steps child
  next different =>
    let place := start.place.built (start.place.opening gaps)
    have asksThere (branch : Place) (supply : branch.supply = place.supply) :
        (Located.mk branch start.value).Asks reduced child query :=
      asks.mono (supply ▸ Nat.le_add_right _ _)
    have again : (Goal.defer (.reach relation reduced (.var query))).Yields
        program.unfold gaps ⟨place.left, start.value⟩
        (Located.Shows query)
        (Unwound steps child) :=
      .defer (below different gaps _ reduced
        ((asksThere place.left rfl).enter gaps _))
    have stop := yields_stop program.unfold gaps
      (asksThere place.right.left rfl) ground
    refine (again.ordered (stop.ordered .fail)).mono ?_
    rintro _ ⟨lefts, _, unwound, ⟨_, _, rfl, rfl, rfl⟩, rfl⟩
    exact .again different unwound

/-- A term is reduced through all its children. -/
theorem unwinds
    (reduces : program.Reduces relation steps)
    (ground : term.isGround = true)
    (below :
      ∀ child ∈ steps term, child ≠ term →
        program.Unwinds relation steps query child) :
    program.Unwinds relation steps query term := by
  intro gaps start input asks
  have output_eq := Subst.reify_var_eq_self asks.within.acyclic asks.unbound
  have known := Term.isVar_eq_false_of_isGround ground
  refine .dynamic ?_
  simp only [asks.reify_eq, output_eq]
  rw [Recipe.goalAt, Located.enter, made_reach program relation known]
  let opening := start.place.opening gaps
  have opened : start.place.supply ≤ opening := Nat.le_add_right _ _
  let step := program.call relation term ⟨opening⟩ (opening + 1)
  have enough : opening + 1 ≤ step.2 := Recipe.le_made _ _
  let here : Located Subst := ⟨start.place.built step.2, start.value⟩
  have acyclic : here.value.Acyclic := asks.within.acyclic
  have calls := reduces.calls ground (asks.within.mono opened)
  have stepped : step.1.Yields program.unfold gaps here
      (Located.Answers (opening + 1) start.value ⟨opening⟩)
      (List.Perm · (steps term)) :=
    calls.yields gaps here.place.trace
  have behind : ∀ children : List Term, children.Perm (steps term) →
      ∀ child ∈ children, ∀ middle : Located Subst,
        start.value.Grows middle.value → step.2 ≤ middle.place.supply →
          middle.Answers (opening + 1) start.value ⟨opening⟩ child →
            (onward relation term (.var ⟨opening⟩) (.var query)).Yields
              program.unfold gaps middle
              (Located.Shows query)
              (Unwound.Part steps term child) := by
    intro children permuted child member middle _ later answers
    have listed := permuted.mem_iff.mp member
    have reached : opening ≤ middle.place.supply :=
      Nat.le_trans (Nat.le_of_succ_le enough) later
    exact yields_onward (asks.of_answers opened reached answers)
      (reduces.ground ground listed) (below child listed)
  refine (stepped.both acyclic behind).mono ?_
  rintro terms ⟨children, lists, permuted, parts, shuffled⟩
  exact .of_shuffle permuted parts shuffled

/-- A term with no endless branch below it is reduced to all reducts. -/
theorem unwinds_of_terminates
    (reduces : program.Reduces relation steps)
    (terminates : Terminates steps term)
    (ground : term.isGround = true)
    (query : Var) :
    program.Unwinds relation steps query term := by
  induction terminates with
  | intro _ ih =>
    refine unwinds reduces ground ?_
    intro child member different
    exact ih child member different (reduces.ground ground member)

end Level

/-! ## All answers of a reduction -/

/--
From a known term with finitely many reducts the search ends, and its answers
are the terms of the reducts, each of them once.  A node comes behind all nodes
below it.

If the tree is a single branch, then the terms come in reverse.  The first term
of the branch that steps to itself is its own child, so it comes twice; this
child, which equals the term before it, is where the tree ends.
-/
theorem reach_finishes
    {program : Program Base Custom}
    {relation : Relation Base}
    {steps : Term → List Term}
    (reduces : program.Reduces relation steps)
    {start : Term}
    (ground : start.isGround = true)
    (finite : {path | (reductAt? steps start path).isSome = true}.Finite)
    {query : Var}
    {session : Session}
    (minted : query.id < session.supply) :
    ∃ reducts : List (Reduct steps start),
      reducts.Nodup ∧
        (∀ reduct, reduct ∈ reducts) ∧
        (reducts.Pairwise fun earlier later =>
          ¬ earlier.path <+: later.path) ∧
        (program.reach relation start (.var query)).Finishes program.unfold
          (.var query) session (reducts.map Reduct.term) ∧
        ∀ (chain : Nat → Term) (last : Nat),
          chain 0 = start →
          (∀ index < last, steps (chain index) = [chain (index + 1)]) →
            (steps (chain last) = [] →
              reducts.map Reduct.term =
                (List.range last).reverse.map fun index =>
                  chain (index + 1)) ∧
            (steps (chain last) = [chain last] →
              (∀ before, last = before + 1 → chain last ≠ chain before) →
                reducts.map Reduct.term =
                  chain last ::
                    (List.range last).reverse.map fun index =>
                      chain (index + 1)) := by
  let goal := program.reach relation start (.var query)
  rcases Gaps.exists_fit program.unfold goal ∅ session with ⟨gaps, fit⟩
  have terminates := terminates_of_finite finite
  have asks : (Located.root ∅ session).Asks start start query :=
    ⟨Subst.within_empty _, Subst.reify_eq_of_isGround Subst.acyclic_empty ground,
      Subst.lookup_empty query, minted⟩
  have yields := unwinds_of_terminates reduces terminates ground query gaps _ _
    asks
  rcases yields.ends with ⟨found, listing⟩
  rcases listing.exists_completes with ⟨results, completes, _⟩
  rcases yields.orders results completes.arrangement with
    ⟨terms, unwound, answers⟩
  rcases unwound.exists_reducts with ⟨reducts, first, rfl⟩
  refine ⟨reducts, first.nodup, first.complete, first.deepest,
    completes.finishes fit answers, ?_⟩
  intro chain last begins links
  exact ⟨first.map_term_eq_of_stuck begins links,
    fun fixed moved => first.map_term_eq_of_fixed begins links moved fixed⟩

/-- Each function that lists ground terms is that of a relation. -/
theorem reduces_table
    {steps : Term → List Term}
    (ground :
      ∀ {term result}, term.isGround = true → result ∈ steps term →
        result.isGround = true) :
    (table steps).Reduces (.base ()) steps where
  ground := ground
  calls termGround within :=
    calls_table termGround (fun _ member => ground termGround member)
      (within.mono (Nat.le_succ _)) (within.lookup_eq_none (Nat.le_refl _))
      (Nat.lt_succ_self _)

/-- Even numbers are halved, and odd ones are left as they are. -/
def halve : Term → List Term
  | .int value => if value % 2 = 0 then [.int (value / 2)] else [.int value]
  | _ => []

theorem isGround_of_mem_halve
    {term result : Term}
    (_ : term.isGround = true)
    (member : result ∈ halve term) :
    result.isGround = true := by
  cases term with
  | int value =>
    rw [halve] at member
    split at member <;> exact List.mem_singleton.mp member ▸ rfl
  | _ => simp [halve] at member

/-- Halving eight leads to four, two, and one, which is left as it is. -/
theorem reach_finishes_halve :
    ((table halve).reach (.base ()) (.int 8) (.var ⟨0⟩)).Finishes
      (table halve).unfold (.var ⟨0⟩) ⟨#["q"], #[]⟩
      [.int 1, .int 1, .int 2, .int 4] := by
  let chain (index : Nat) : Term :=
    [Term.int 8, .int 4, .int 2].getD index (.int 1)
  have links : ∀ index < 3, halve (chain index) = [chain (index + 1)] := by
    decide +kernel
  have fixed : halve (chain 3) = [chain 3] := by decide +kernel
  have moved : ∀ before, 3 = before + 1 → chain 3 ≠ chain before := by
    intro before same
    cases Nat.succ.inj same
    decide +kernel
  have finite : {path | (reductAt? halve (.int 8) path).isSome = true}.Finite :=
    (ReductionChain.of_fixed links moved fixed).finite
  rcases @reach_finishes _ _ (table halve) (.base ()) halve
      (reduces_table isGround_of_mem_halve) (.int 8) rfl finite ⟨0⟩
      ⟨#["q"], #[]⟩ Nat.one_pos with
    ⟨reducts, _, _, _, finishes, chains⟩
  rwa [(chains chain 3 rfl links).2 fixed moved] at finishes

end Program

end RelationalSearch
