import RelationalSearch.Proofs.Relation.Impartial
import RelationalSearch.Proofs.Relation.Recursion
import RelationalSearch.Script.Meaning

/-!
# Closed scripts

A script is closed if its variables come from the scope or are minted for it.
In tied scopes a closed script builds tied goals, whatever combinators and
definitions it is made of (`Definitions.tied_goal`).  So the program of closed
definitions is impartial (`Definitions.Closed.impartial`).
-/

namespace RelationalSearch

/-! ## Terms -/

/-- The variables of the term come from the scope. -/
inductive TermScript.Closed : TermScript → Prop where
  | name (text : String) : Closed (.name text)
  | literal {term : Term} (ground : term.isGround = true) :
      Closed (.literal term)
  | chain
      {items : List TermScript} {last : TermScript}
      (each : ∀ item ∈ items, Closed item)
      (lasts : Closed last) :
      Closed (.chain items last)
  | range (low high : Int) (kind : SeqKind) : Closed (.range low high kind)
  | repeated
      {count : Nat} {item last : TermScript}
      (items : Closed item)
      (lasts : Closed last) :
      Closed (.repeated count item last)
  | nest
      {count : Nat} {operator base : TermScript}
      (operators : Closed operator)
      (bases : Closed base) :
      Closed (.nest count operator base)
  | tree (depth : Nat) (operator : String) : Closed (.tree depth operator)

/-- The scopes have the same names, for tied terms. -/
def Scope.Tied (ties : Ties) (scope other : Scope) : Prop :=
  List.Forall₂
    (fun entry otherEntry =>
      entry.1 = otherEntry.1 ∧ Term.Alike ties.all entry.2 otherEntry.2)
    scope other

theorem Term.Alike.chain
    {pairing : Pairing}
    {items others : List Term}
    {last otherLast : Term}
    (each : List.Forall₂ (Term.Alike pairing) items others)
    (lasts : Term.Alike pairing last otherLast) :
    Term.Alike pairing (.chain items last) (.chain others otherLast) := by
  induction each with
  | nil => exact lasts
  | cons here _ ih => exact .cons here ih

namespace Scope.Tied

variable {ties larger : Ties} {scope other : Scope}

theorem mono
    (scopes : Scope.Tied ties scope other)
    (widens : ties.Extends larger) :
    Scope.Tied larger scope other :=
  List.Forall₂.imp
    (fun _ _ entries => ⟨entries.1, entries.2.mono widens.all⟩) scopes

theorem find (scopes : Scope.Tied ties scope other) (name : String) :
    Term.Alike ties.all (scope.find name) (other.find name) := by
  rw [Scope.find, Scope.find]
  induction scopes with
  | nil => exact .nil .list
  | @cons entry otherEntry _ _ entries _ ih =>
    rcases entry with ⟨key, term⟩
    rcases otherEntry with ⟨otherKey, otherTerm⟩
    rcases entries with ⟨rfl, terms⟩
    rw [List.lookup_cons, List.lookup_cons]
    cases name == key with
    | true => exact terms
    | false => exact ih

end Scope.Tied

namespace TermScript

variable {pairing : Pairing}

theorem alike_integers (low high : Int) (kind : SeqKind) :
    Term.Alike pairing (integers low high kind) (integers low high kind) := by
  refine .chain (List.forall₂_same.mpr fun item member => ?_) (.nil kind)
  rcases List.mem_map.mp member with ⟨offset, _, rfl⟩
  exact .int _

theorem alike_numberedTree (name : String) (depth first : Nat) :
    Term.Alike pairing (numberedTree (.sym name) depth first)
      (numberedTree (.sym name) depth first) := by
  induction depth generalizing first with
  | zero => exact .int _
  | succ depth ih =>
    exact .cons (.sym name) (.chain (.cons (ih _) (.cons (ih _) .nil))
      (.nil .expr))

theorem alike_instantiateAll
    {scope other : Scope}
    {items : List TermScript}
    (each :
      ∀ item ∈ items,
        Term.Alike pairing (item.instantiate scope)
          (item.instantiate other)) :
    List.Forall₂ (Term.Alike pairing) (instantiateAll scope items)
      (instantiateAll other items) := by
  induction items with
  | nil => exact .nil
  | cons item items ih =>
    rw [List.forall_mem_cons] at each
    exact .cons each.1 (ih each.2)

/-- In tied scopes a closed script stands for tied terms. -/
theorem Closed.instantiate
    {script : TermScript}
    (closed : script.Closed)
    {ties : Ties}
    {scope other : Scope}
    (scopes : Scope.Tied ties scope other) :
    Term.Alike ties.all (script.instantiate scope)
      (script.instantiate other) := by
  induction closed with
  | name text => exact scopes.find text
  | literal ground => exact Term.alike_of_isGround ground
  | chain _ _ eachIH lastIH => exact .chain (alike_instantiateAll eachIH) lastIH
  | range low high kind => exact alike_integers low high kind
  | @repeated count item last _ _ itemIH lastIH =>
    refine .chain ?_ lastIH
    induction count with
    | zero => exact .nil
    | succ count ih => exact .cons itemIH ih
  | @nest count operator base _ _ operatorIH baseIH =>
    have nested :
        Term.Alike ties.all
          (count.repeat
            (fun operand => .expr (operator.instantiate scope) [operand])
            (base.instantiate scope))
          (count.repeat
            (fun operand => .expr (operator.instantiate other) [operand])
            (base.instantiate other)) := by
      induction count with
      | zero => exact baseIH
      | succ count ih =>
        exact .cons operatorIH (.chain (.cons ih .nil) (.nil .expr))
    exact nested
  | tree depth name => exact alike_numberedTree name depth 1

theorem Closed.instantiateAll
    {scripts : List TermScript}
    (each : ∀ script ∈ scripts, script.Closed)
    {ties : Ties}
    {scope other : Scope}
    (scopes : Scope.Tied ties scope other) :
    List.Forall₂ (Term.Alike ties.all)
      (TermScript.instantiateAll scope scripts)
      (TermScript.instantiateAll other scripts) :=
  alike_instantiateAll fun script member =>
    (each script member).instantiate scopes

end TermScript

/-! ## Goals and relations -/

mutual

/-- The variables of the goal come from the scope or are minted for it. -/
inductive GoalScript.Closed : GoalScript → Prop where
  | eq {left right : TermScript} (lefts : left.Closed) (rights : right.Closed) :
      GoalScript.Closed (.eq left right)
  | succeed : GoalScript.Closed .succeed
  | fail : GoalScript.Closed .fail
  | all
      {goals : List GoalScript}
      (each : ∀ goal ∈ goals, GoalScript.Closed goal) :
      GoalScript.Closed (.all goals)
  | any
      {branches : List (List GoalScript)}
      (each : ∀ branch ∈ branches, ∀ goal ∈ branch, GoalScript.Closed goal) :
      GoalScript.Closed (.any branches)
  | anyInOrder
      {branches : List (List GoalScript)}
      (each : ∀ branch ∈ branches, ∀ goal ∈ branch, GoalScript.Closed goal) :
      GoalScript.Closed (.anyInOrder branches)
  | defer {goal : GoalScript} (goals : GoalScript.Closed goal) :
      GoalScript.Closed (.defer goal)
  | cons
      {head tail whole : TermScript}
      (heads : head.Closed) (tails : tail.Closed) (wholes : whole.Closed) :
      GoalScript.Closed (.cons head tail whole)
  | allEmpty
      {terms : List TermScript} {kind : SeqKind}
      (each : ∀ term ∈ terms, term.Closed) :
      GoalScript.Closed (.allEmpty terms kind)
  | application
      {decomposer : Decomposer} {operator operands whole : TermScript}
      (operators : operator.Closed)
      (rests : operands.Closed)
      (wholes : whole.Closed) :
      GoalScript.Closed (.application decomposer operator operands whole)
  | map
      {policy : MapPolicy} {relation : RelationScript}
      {first second : TermScript} {settings : MapSettings}
      (relations : RelationScript.Closed relation)
      (firsts : first.Closed)
      (seconds : second.Closed) :
      GoalScript.Closed (.map policy relation first second settings)
  | sameLength
      {first second : TermScript} {kind : SeqKind}
      (firsts : first.Closed) (seconds : second.Closed) :
      GoalScript.Closed (.sameLength first second kind)
  | reach
      {relation : RelationScript} {input output : TermScript}
      (relations : RelationScript.Closed relation)
      (inputs : input.Closed)
      (outputs : output.Closed) :
      GoalScript.Closed (.reach relation input output)
  | walk
      {node : RelationScript} {graphIn graphOut : TermScript}
      {settings : WalkSettings RelationScript}
      (nodes : RelationScript.Closed node)
      (ins : graphIn.Closed)
      (outs : graphOut.Closed)
      (operators :
        ∀ operator ∈ settings.operatorRelation,
          RelationScript.Closed operator) :
      GoalScript.Closed (.walk node graphIn graphOut settings)
  | arithmetic
      {operation : Arithmetic} {operand : Int64} {input output : TermScript}
      (inputs : input.Closed) (outputs : output.Closed) :
      GoalScript.Closed (.arithmetic operation operand input output)
  | fresh
      {names : List String} {goal : GoalScript}
      (goals : GoalScript.Closed goal) :
      GoalScript.Closed (.fresh names goal)
  | call
      {definition : String} {arguments : List TermScript}
      (each : ∀ argument ∈ arguments, argument.Closed) :
      GoalScript.Closed (.call definition arguments)
  | note (event : String) : GoalScript.Closed (.note event)
  | built
      {event : String} {goal : GoalScript}
      (goals : GoalScript.Closed goal) :
      GoalScript.Closed (.built event goal)
  | byShape
      {term : TermScript} {cases : List (TermShape × GoalScript)}
      {otherwise : GoalScript}
      (terms : term.Closed)
      (each : ∀ branch ∈ cases, GoalScript.Closed branch.2)
      (others : GoalScript.Closed otherwise) :
      GoalScript.Closed (.byShape term cases otherwise)
  | ifEqual
      {left right : TermScript} {equal different : GoalScript}
      (lefts : left.Closed)
      (rights : right.Closed)
      (equals : GoalScript.Closed equal)
      (differents : GoalScript.Closed different) :
      GoalScript.Closed (.ifEqual left right equal different)
  | ifGround
      {term : TermScript} {ground notGround : GoalScript}
      (terms : term.Closed)
      (grounds : GoalScript.Closed ground)
      (notGrounds : GoalScript.Closed notGround) :
      GoalScript.Closed (.ifGround term ground notGround)

/-- The variables of the relation come from the scope or are minted for it. -/
inductive RelationScript.Closed : RelationScript → Prop where
  | same : RelationScript.Closed .same
  | never : RelationScript.Closed .never
  | always : RelationScript.Closed .always
  | arithmetic (operation : Arithmetic) (operand : Int64) :
      RelationScript.Closed (.arithmetic operation operand)
  | named (definition : String) : RelationScript.Closed (.named definition)
  | abstraction
      {first second : String} {body : GoalScript}
      (goals : GoalScript.Closed body) :
      RelationScript.Closed (.abstraction first second body)

end

/-- The bodies of all definitions are closed. -/
def Definitions.Closed (definitions : Definitions) : Prop :=
  ∀ entry ∈ definitions, entry.2.body.Closed

/-! ## Closures -/

/-- A closed relation in scopes that are tied. -/
inductive RelationClosure.Tied (ties : Ties) :
    RelationClosure → RelationClosure → Prop where
  | intro
      {scope other : Scope} {relation : RelationScript}
      (closed : relation.Closed)
      (scopes : Scope.Tied ties scope other) :
      Tied ties ⟨scope, relation⟩ ⟨other, relation⟩

/-- A closed goal in scopes that are tied. -/
inductive GoalClosure.Tied (ties : Ties) :
    GoalClosure → GoalClosure → Prop where
  | intro
      {scope other : Scope} {goal : GoalScript}
      (closed : goal.Closed)
      (scopes : Scope.Tied ties scope other) :
      Tied ties ⟨scope, goal⟩ ⟨other, goal⟩

/-- Closures correspond to each other if they are closed and tied. -/
def Naming.closures : Naming RelationClosure GoalClosure where
  bases := RelationClosure.Tied
  customs := GoalClosure.Tied

/-- Goals that scripts build in tied scopes. -/
abbrev ScriptedGoal.Tied : Ties → ScriptedGoal → ScriptedGoal → Prop :=
  CodedGoal.Tied .closures

/-- In tied scopes tied goals are built of closed scripts. -/
def GoalBuilder.Tied (build : GoalBuilder) : Prop :=
  ∀ ⦃script : GoalScript⦄ ⦃ties : Ties⦄ ⦃scope other : Scope⦄,
    script.Closed → Scope.Tied ties scope other →
      Recipe.Tied ScriptedGoal.Tied ties (build scope script)
        (build other script)

/-! ## Lists of recipes -/

namespace Recipe

variable {α β γ : Type}

theorem andThen_done (recipe : Recipe α) : recipe.andThen done = recipe := by
  induction recipe with
  | done value => rfl
  | mint name next ih => exact congrArg (mint name) (funext ih)
  | note event next ih => exact congrArg (note event) ih

theorem andThen_assoc
    (recipe : Recipe α)
    (next : α → Recipe β)
    (last : β → Recipe γ) :
    (recipe.andThen next).andThen last =
      recipe.andThen fun value => (next value).andThen last := by
  induction recipe with
  | done value => rfl
  | mint name rest ih => exact congrArg (mint name) (funext ih)
  | note event rest ih => exact congrArg (note event) ih

instance : LawfulMonad Recipe :=
  .mk' Recipe andThen_done (fun _ _ => rfl) andThen_assoc

/-- Recipes for the items of a list are tied if they are for each of them. -/
theorem tied_mapM
    (related : Ties → α → β → Prop)
    (mono :
      ∀ {ties larger : Ties} {value : α} {other : β},
        ties.Extends larger → related ties value other →
          related larger value other)
    {recipe : γ → Recipe α}
    {otherRecipe : γ → Recipe β}
    {items : List γ}
    {ties : Ties}
    (each :
      ∀ item ∈ items, ∀ larger, ties.Extends larger →
        Tied related larger (recipe item) (otherRecipe item)) :
    Tied (fun ties => List.Forall₂ (related ties)) ties (items.mapM recipe)
      (items.mapM otherRecipe) := by
  induction items generalizing ties with
  | nil => exact tied_done fun _ _ => .nil
  | cons item items ih =>
    rw [List.forall_mem_cons] at each
    rw [List.mapM_cons, List.mapM_cons]
    refine (each.1 ties (.refl ties)).andThen
      fun larger first other widens firsts => ?_
    refine (ih fun item member largest further =>
      each.2 item member largest (widens.trans further)).andThen
        fun largest rest otherRest further rests => ?_
    exact tied_done fun last toLast =>
      .cons (mono (further.trans toLast) firsts)
        (rests.imp fun _ _ => mono toLast)

end Recipe

/-! ## Building -/

/-- Terms that show alike have the same form. -/
theorem Subst.Agree.form_walk_eq
    {ties : Ties}
    {subst other : Subst}
    (agree : subst.Agree ties other)
    {term otherTerm : Term}
    (terms : Term.Alike ties.all term otherTerm) :
    (subst.walk term).form = (other.walk otherTerm).form := by
  have founds := agree.walk terms
  generalize subst.walk term = found at founds ⊢
  generalize other.walk otherTerm = otherFound at founds ⊢
  cases founds <;> rfl

namespace Definitions

variable {definitions : Definitions} {build : GoalBuilder} {ties : Ties}
  {scope other : Scope}

theorem tied_freshScope
    (names : List String)
    (scopes : Scope.Tied ties scope other) :
    Recipe.Tied Scope.Tied ties (freshScope scope names)
      (freshScope other names) := by
  induction names generalizing ties scope other with
  | nil => exact Recipe.tied_done fun _ widens => scopes.mono widens
  | cons name names ih =>
    refine (Recipe.tied_freshTerm name name).andThen
      fun larger _ _ widens terms => ?_
    exact ih (.cons ⟨rfl, terms⟩ (scopes.mono widens))

/-- A step of arithmetic asks for the integer that a term stands for. -/
theorem tied_arithmetic
    {codes : Ties → Code RelationClosure GoalClosure →
      Code RelationClosure GoalClosure → Prop}
    (operation : Arithmetic)
    (operand : Int64)
    {input output otherInput otherOutput : Term}
    (inputs : Term.Alike ties.all input otherInput)
    (outputs : Term.Alike ties.all output otherOutput) :
    Goal.Tied codes ties (arithmetic operation operand input output)
      (arithmetic operation operand otherInput otherOutput) := by
  refine Goal.tied_dynamic fun larger subst other widens _ agree => ?_
  have shown : Term.Alike larger.roots _ _ :=
    agree.reify (inputs.mono widens.all)
  generalize subst.reify input = value at shown ⊢
  generalize other.reify otherInput = otherValue at shown ⊢
  refine Recipe.tied_done fun largest further => ?_
  cases shown with
  | int value =>
    dsimp only
    cases operation.step operand value with
    | none => exact .fail
    | some result =>
      exact .eq (outputs.mono (widens.trans further).all) (.int result)
  | var | sym | cons | nil => exact .fail

/-- The parameters of a definition name the arguments. -/
theorem tied_zip
    {arguments others : List Term}
    (terms : List.Forall₂ (Term.Alike ties.all) arguments others)
    (parameters : List String) :
    Scope.Tied ties (parameters.zip arguments).reverse
      (parameters.zip others).reverse := by
  refine List.rel_reverse ?_
  induction terms generalizing parameters with
  | nil => simp
  | cons here _ ih =>
    cases parameters with
    | nil => exact .nil
    | cons name names => exact .cons ⟨rfl, here⟩ (ih names)

theorem tied_call
    (closed : definitions.Closed)
    (builds : build.Tied)
    (name : String)
    {arguments others : List Term}
    (terms : List.Forall₂ (Term.Alike ties.all) arguments others) :
    Recipe.Tied ScriptedGoal.Tied ties (definitions.call build name arguments)
      (definitions.call build name others) := by
  rw [call, call]
  cases found : definitions.lookup name with
  | none => exact Recipe.tied_done fun _ _ => .fail
  | some definition =>
    rcases List.lookup_eq_some_iff.mp found with ⟨before, after, rfl, _⟩
    have body := closed (name, definition) (by simp)
    exact builds body (tied_zip terms definition.parameters)

theorem tied_relate
    (closed : definitions.Closed)
    (builds : build.Tied)
    {closure otherClosure : RelationClosure}
    (closures : closure.Tied ties otherClosure)
    {first second otherFirst otherSecond : Term}
    (firsts : Term.Alike ties.all first otherFirst)
    (seconds : Term.Alike ties.all second otherSecond) :
    Recipe.Tied ScriptedGoal.Tied ties
      (definitions.relate build closure first second)
      (definitions.relate build otherClosure otherFirst otherSecond) := by
  rcases closures with ⟨relation, scopes⟩
  cases relation with
  | same =>
    exact Recipe.tied_done fun _ widens =>
      .eq (firsts.mono widens.all) (seconds.mono widens.all)
  | never => exact Recipe.tied_done fun _ _ => .fail
  | always => exact Recipe.tied_done fun _ _ => .succeed
  | arithmetic operation operand =>
    exact Recipe.tied_done fun _ widens =>
      tied_arithmetic operation operand (firsts.mono widens.all)
        (seconds.mono widens.all)
  | named name =>
    exact tied_call closed builds name (.cons firsts (.cons seconds .nil))
  | abstraction body =>
    exact builds body (.cons ⟨rfl, seconds⟩ (.cons ⟨rfl, firsts⟩ scopes))

/-- Closures have tied goals if these are built of closed scripts alike. -/
theorem impartial_programOver
    (closed : definitions.Closed)
    (builds : build.Tied) :
    (definitions.programOver build).Impartial .closures where
  basesMono widens := by
    rintro ⟨closed, scopes⟩
    exact ⟨closed, scopes.mono widens⟩
  customsMono widens := by
    rintro ⟨closed, scopes⟩
    exact ⟨closed, scopes.mono widens⟩
  relations closures := tied_relate closed builds closures
  customs := by
    rintro ties _ _ ⟨goal, scopes⟩
    exact builds goal scopes

/-! ## All scripts -/

theorem tied_relationIn
    {relation : RelationScript}
    (closed : relation.Closed)
    (scopes : Scope.Tied ties scope other) :
    (relationIn scope relation).Tied RelationClosure.Tied ties
      (relationIn other relation) := by
  have closures :
      RelationClosure.Tied ties ⟨scope, relation⟩ ⟨other, relation⟩ :=
    ⟨closed, scopes⟩
  cases closed with
  | always => exact .always
  | _ => exact .base closures

theorem tied_settings
    {settings : WalkSettings RelationScript}
    (closed : ∀ operator ∈ settings.operatorRelation, operator.Closed)
    (scopes : Scope.Tied ties scope other) :
    (settings.map fun relation => (⟨scope, relation⟩ : RelationClosure)).Tied
      RelationClosure.Tied ties
      (settings.map fun relation => ⟨other, relation⟩) where
  operators := by
    rw [WalkSettings.map, WalkSettings.map]
    cases given : settings.operatorRelation with
    | none => exact .none
    | some operator => exact .some ⟨closed operator given, scopes⟩
  terminator := rfl
  policy := rfl
  nullSucceeds := rfl
  decomposer := rfl

/-- With one more level, scripts are made of what is built below it. -/
theorem tied_goal_succ
    (closed : definitions.Closed)
    {depth : Nat}
    (builds : (definitions.goal depth).Tied) :
    (definitions.goal (depth + 1)).Tied := by
  intro script ties scope other scripts scopes
  have impartial := impartial_programOver closed builds
  have mono {ties larger : Ties} {goal otherGoal : ScriptedGoal}
      (widens : ties.Extends larger)
      (goals : ScriptedGoal.Tied ties goal otherGoal) :
      ScriptedGoal.Tied larger goal otherGoal :=
    impartial.later goals widens
  have terms {term : TermScript} (closed : term.Closed) {larger : Ties}
      (widens : ties.Extends larger) :
      Term.Alike larger.all (term.instantiate scope) (term.instantiate other) :=
    closed.instantiate (scopes.mono widens)
  have parts {goal : GoalScript} (closed : goal.Closed) {larger : Ties}
      (widens : ties.Extends larger) :
      Recipe.Tied ScriptedGoal.Tied larger
        (definitions.goal depth scope goal)
        (definitions.goal depth other goal) :=
    builds closed (scopes.mono widens)
  have branchParts {branches : List (List GoalScript)}
      (closed : ∀ branch ∈ branches, ∀ goal ∈ branch, goal.Closed) :
      Recipe.Tied
        (fun ties => List.Forall₂ (List.Forall₂ (ScriptedGoal.Tied ties))) ties
        (branches.mapM (·.mapM (definitions.goal depth scope)))
        (branches.mapM (·.mapM (definitions.goal depth other))) :=
    Recipe.tied_mapM (fun ties => List.Forall₂ (ScriptedGoal.Tied ties))
      (fun widens goals => goals.imp fun _ _ => mono widens)
      fun branch inside larger widens =>
        Recipe.tied_mapM ScriptedGoal.Tied mono
          fun goal member largest further =>
            parts (closed branch inside goal member) (widens.trans further)
  have settled {goal otherGoal : ScriptedGoal}
      (goals : ScriptedGoal.Tied ties goal otherGoal) :
      Recipe.Tied ScriptedGoal.Tied ties (.done goal) (.done otherGoal) :=
    Recipe.tied_done fun _ widens => mono widens goals
  have here := Ties.Extends.refl ties
  cases scripts with
  | eq lefts rights =>
    exact settled (.eq (terms lefts here) (terms rights here))
  | succeed => exact settled .succeed
  | fail => exact settled .fail
  | all each =>
    refine (Recipe.tied_mapM ScriptedGoal.Tied mono
      fun goal member _ widens => parts (each goal member) widens).andThen
        fun _ _ _ _ goals => ?_
    exact Recipe.tied_done fun _ widens =>
      Goal.tied_all (goals.imp fun _ _ => mono widens)
  | any each =>
    refine (branchParts each).andThen fun _ _ _ _ branches => ?_
    exact Recipe.tied_done fun _ widens =>
      Goal.tied_any (branches.imp fun _ _ goals =>
        goals.imp fun _ _ => mono widens)
  | anyInOrder each =>
    refine (branchParts each).andThen fun _ _ _ _ branches => ?_
    exact Recipe.tied_done fun _ widens =>
      Goal.tied_anyInOrder (branches.imp fun _ _ goals =>
        goals.imp fun _ _ => mono widens)
  | defer goals => exact settled (.defer (.custom ⟨goals, scopes⟩))
  | cons heads tails wholes =>
    exact settled (Goal.tied_cons (terms heads here) (terms tails here)
      (terms wholes here))
  | allEmpty each =>
    exact settled (Goal.tied_allEmpty (TermScript.Closed.instantiateAll each
      scopes) _)
  | application operators rests wholes =>
    exact settled (Goal.tied_application _ (terms operators here)
      (terms rests here) (terms wholes here))
  | map relations firsts seconds =>
    exact tied_map
      (fun widens => tied_relationIn relations (scopes.mono widens))
      (terms firsts here) (terms seconds here) _ _
  | sameLength firsts seconds =>
    exact tied_map (fun _ => .always) (terms firsts here) (terms seconds here)
      .all _
  | reach relations inputs outputs =>
    exact settled (impartial.reach (tied_relationIn relations scopes)
      (terms inputs here) (terms outputs here))
  | walk nodes ins outs operators =>
    exact settled (impartial.walk ⟨nodes, scopes⟩
      (tied_settings operators scopes) (terms ins here) (terms outs here))
  | arithmetic inputs outputs =>
    exact settled (tied_arithmetic _ _ (terms inputs here) (terms outputs here))
  | fresh goals =>
    exact (tied_freshScope _ scopes).andThen fun _ _ _ _ inner =>
      builds goals inner
  | call each =>
    exact tied_call closed builds _
      (TermScript.Closed.instantiateAll each scopes)
  | note event =>
    exact settled (Goal.tied_dynamic fun _ _ _ _ _ _ =>
      (Recipe.tied_done fun _ _ => .succeed).note event event)
  | built goals => exact (parts goals here).note _ _
  -- The last three look at terms, but only at what tied terms have in common.
  | @byShape term cases otherwise shown each others =>
    refine settled (Goal.tied_dynamic fun larger subst otherSubst widens _
      agree => ?_)
    rw [agree.form_walk_eq (terms shown widens)]
    generalize (otherSubst.walk (term.instantiate other)).form = shape
    cases found : cases.lookup shape with
    | none => exact parts others widens
    | some goal =>
      rcases List.lookup_eq_some_iff.mp found with ⟨before, after, rfl, _⟩
      exact parts (each (shape, goal) (by simp)) widens
  | ifEqual lefts rights equals differents =>
    refine settled (Goal.tied_dynamic fun larger subst otherSubst widens _
      agree => ?_)
    have same := (agree.reify (terms lefts widens)).eq_iff agree.oneToOne
      (agree.reify (terms rights widens))
    simp only [same]
    split
    · exact parts equals widens
    · exact parts differents widens
  | ifGround shown grounds notGrounds =>
    refine settled (Goal.tied_dynamic fun larger subst otherSubst widens _
      agree => ?_)
    have same := (agree.reify (terms shown widens)).isGround_eq
    simp only [same]
    split
    · exact parts grounds widens
    · exact parts notGrounds widens

/-- In tied scopes closed scripts build tied goals. -/
theorem tied_goal (closed : definitions.Closed) (depth : Nat) :
    (definitions.goal depth).Tied := by
  induction depth with
  | zero => exact fun _ _ _ _ _ _ => Recipe.tied_done fun _ _ => .fail
  | succ depth builds => exact tied_goal_succ closed builds

/-- The program of closed definitions is impartial. -/
theorem Closed.impartial (closed : definitions.Closed) :
    definitions.program.Impartial .closures :=
  impartial_programOver closed (tied_goal closed depth)

/-- A relation that holds between a cell and its tail. -/
def tails : Definitions :=
  [("tail",
    ⟨["whole", "rest"],
      .fresh ["head"] (.cons (.name "head") (.name "rest") (.name "whole"))⟩)]

theorem closed_tails : tails.Closed := by
  rintro entry (_ | ⟨_, ⟨⟩⟩)
  exact .fresh (.cons (.name _) (.name _) (.name _))

end Definitions

end RelationalSearch
