import RelationalSearch.Proofs.Subst.Extension
import RelationalSearch.Proofs.Subst.Growth
import RelationalSearch.Proofs.Subst.Scope

/-!
# Substitutions that agree

Two substitutions need not have the same bindings to say the same of the
variables that matter.  They agree if tied variables stand for terms that differ
in tied roots only (`Subst.Agree`).  Any number of variables of one substitution
may be tied to one of the other; the roots, which are unbound on either side or
on neither, are tied one to one.

Unification does not tell agreeing substitutions apart: of tied terms it makes
substitutions that agree again, or none (`Subst.Agree.unify`), and it binds
roots only.
-/

namespace RelationalSearch

/-- Variables of two searches that stand for the same. -/
structure Ties where
  /-- All pairs of variables that have the same value. -/
  all : Pairing
  /-- Those of them that come to be bound together. -/
  roots : Pairing

theorem Pairing.OneToOne.flip
    {pairing : Pairing}
    (oneToOne : pairing.OneToOne) :
    Pairing.OneToOne (flip pairing) :=
  ⟨fun first second => oneToOne.left_unique first second,
    fun first second => oneToOne.right_unique first second⟩

/-! ## Terms -/

namespace Term

variable {pairing other : Pairing} {term otherTerm : Term}

/-- Alike terms become alike when alike terms are put for paired variables. -/
theorem Alike.under
    (alike : Term.Alike pairing term otherTerm)
    {valuation otherValuation : Var → Term}
    (values : ∀ x y, pairing x y →
      Term.Alike other (valuation x) (otherValuation y)) :
    Term.Alike other (term.under valuation)
      (otherTerm.under otherValuation) := by
  induction alike with
  | var paired => exact values _ _ paired
  | int value => exact .int value
  | sym name => exact .sym name
  | cons _ _ headIH tailIH => exact .cons headIH tailIH
  | nil kind => exact .nil kind

theorem Alike.flip (alike : Term.Alike pairing term otherTerm) :
    Term.Alike (flip pairing) otherTerm term := by
  induction alike with
  | var paired => exact .var paired
  | int value => exact .int value
  | sym name => exact .sym name
  | cons _ _ headIH tailIH => exact .cons headIH tailIH
  | nil kind => exact .nil kind

/-- A term is like one other at most. -/
theorem Alike.right_unique
    (oneToOne : pairing.OneToOne)
    (alike : Term.Alike pairing term otherTerm)
    {third : Term}
    (again : Term.Alike pairing term third) :
    otherTerm = third := by
  induction alike generalizing third with
  | var paired =>
    cases again with
    | var pairedAgain => rw [oneToOne.right_unique paired pairedAgain]
  | cons _ _ headIH tailIH =>
    cases again with
    | cons heads tails => rw [headIH heads, tailIH tails]
  | int | sym | nil =>
    cases again
    rfl

/-- Terms are equal just if the terms that they are like are so. -/
theorem Alike.eq_iff
    (oneToOne : pairing.OneToOne)
    (alike : Term.Alike pairing term otherTerm)
    {third otherThird : Term}
    (thirds : Term.Alike pairing third otherThird) :
    term = third ↔ otherTerm = otherThird := by
  constructor
  · rintro rfl
    exact alike.right_unique oneToOne thirds
  · rintro rfl
    exact alike.flip.right_unique oneToOne.flip thirds.flip

theorem Alike.exists_mem_vars
    (alike : Term.Alike pairing term otherTerm)
    {x : Var}
    (member : x ∈ term.vars) :
    ∃ y ∈ otherTerm.vars, pairing x y := by
  induction alike with
  | var paired =>
    rw [vars_var, List.mem_singleton] at member
    subst member
    exact ⟨_, by simp, paired⟩
  | cons _ _ headIH tailIH =>
    rw [vars_cons, List.mem_append] at member
    rcases member with inside | inside
    · rcases headIH inside with ⟨y, found, paired⟩
      exact ⟨y, by simp [found], paired⟩
    · rcases tailIH inside with ⟨y, found, paired⟩
      exact ⟨y, by simp [found], paired⟩
  | int | sym | nil => simp at member

theorem under_congr
    {valuation otherValuation : Var → Term}
    (same : ∀ x ∈ term.vars, valuation x = otherValuation x) :
    term.under valuation = term.under otherValuation := by
  induction term with
  | var x => exact same x (by simp)
  | cons head tail headIH tailIH =>
    rw [vars_cons, List.forall_mem_append] at same
    rw [under_cons, under_cons, headIH same.1, tailIH same.2]
  | _ => rfl

theorem under_var_eq_self (term : Term) : term.under var = term := by
  induction term with
  | cons head tail headIH tailIH => rw [under_cons, headIH, tailIH]
  | _ => rfl

end Term

/-! ## A single binding -/

namespace Subst

variable {subst other : Subst} {x y : Var} {value term : Term}

/-- The variable has the value, and all others stand for themselves. -/
def single (x : Var) (value : Term) (y : Var) : Term :=
  if y = x then value else .var y

theorem reify_of_ends
    (acyclic : subst.Acyclic)
    {found : Term}
    (ends : subst.Ends term found) :
    subst.reify term = subst.reify found :=
  reify_eq_of_reified acyclic ((reified_reify acyclic found).of_ends ends)

/-- What shows in a reified term is reached. -/
theorem Reified.reaches_of_mem_vars
    {result : Term}
    (reified : subst.Reified term result)
    (member : x ∈ result.vars) :
    subst.Reaches term x := by
  have unbound := reified.lookup_eq_none x member
  induction reified with
  | leaf ends =>
    rw [ends.reaches_iff unbound]
    exact ⟨x, member, .refl⟩
  | cell ends _ _ headIH tailIH =>
    rw [ends.reaches_iff unbound, reaches_cons_iff]
    rw [Term.vars_cons, List.mem_append] at member
    exact member.imp headIH tailIH

theorem reaches_iff_mem_vars_reify
    (acyclic : subst.Acyclic)
    (unbound : subst.lookup x = none) :
    subst.Reaches term x ↔ x ∈ (subst.reify term).vars :=
  ⟨(reified_reify acyclic term).mem_vars_of_reaches unbound,
    (reified_reify acyclic term).reaches_of_mem_vars⟩

/-- A new binding shows wherever its variable did. -/
theorem reify_bind
    (acyclic : subst.Acyclic)
    (unbound : subst.lookup x = none)
    (apart : ¬ subst.Reaches value x)
    (term : Term) :
    (subst.bind x value).reify term =
      (subst.reify term).under (single x (subst.reify value)) := by
  have grows : subst.Grows (subst.bind x value) :=
    ⟨fun bound => lookup_bind_of_bound unbound bound value,
      acyclic.bind apart⟩
  have free (z : Var) (unboundToo : subst.lookup z = none) (different : z ≠ x) :
      (subst.bind x value).reify (.var z) = .var z := by
    apply reify_var_eq_self grows.acyclic
    rw [lookup_bind_of_ne _ _ different.symm, unboundToo]
  have shown : (subst.bind x value).reify value = subst.reify value := by
    rw [grows.reify_eq_under acyclic]
    refine (Term.under_congr ?_).trans (Term.under_var_eq_self _)
    intro z member
    refine free z ((reified_reify acyclic value).lookup_eq_none z member) ?_
    rintro rfl
    exact apart ((reified_reify acyclic value).reaches_of_mem_vars member)
  rw [grows.reify_eq_under acyclic]
  refine Term.under_congr fun z member => ?_
  by_cases same : z = x
  · rw [single, if_pos same, same,
      reify_bound grows.acyclic (lookup_bind_self _ _ _), shown]
  · rw [single, if_neg same]
    exact free z ((reified_reify acyclic term).lookup_eq_none z member) same

/-! ## Agreement -/

/--
Tied variables stand for terms that differ in tied roots only, and roots are
unbound on both sides or on none.
-/
structure Agree (ties : Ties) (subst other : Subst) : Prop where
  acyclic : subst.Acyclic
  otherAcyclic : other.Acyclic
  oneToOne : ties.roots.OneToOne
  unbound_iff :
    ∀ {x y}, ties.roots x y → (subst.lookup x = none ↔ other.lookup y = none)
  reify_var :
    ∀ {x y}, ties.all x y →
      Term.Alike ties.roots (subst.reify (.var x)) (other.reify (.var y))

/-- The terms stand for terms that differ in paired variables only. -/
def Shown
    (pairing : Pairing)
    (subst other : Subst)
    (term otherTerm : Term) : Prop :=
  Term.Alike pairing (subst.reify term) (other.reify otherTerm)

/-- No variables are bound but those that are paired. -/
def Spares (pairing : Pairing) (subst extended : Subst) : Prop :=
  ∀ x, (∀ y, ¬ pairing x y) → subst.lookup x = none → extended.lookup x = none

theorem Spares.trans
    {pairing : Pairing}
    {extended last : Subst}
    (spares : Spares pairing subst extended)
    (further : Spares pairing extended last) :
    Spares pairing subst last :=
  fun x free unbound => further x free (spares x free unbound)

theorem Spares.bind
    {pairing : Pairing}
    (paired : pairing x y)
    (value : Term) :
    Spares pairing subst (subst.bind x value) := by
  intro z free unbound
  rw [lookup_bind_of_ne, unbound]
  rintro rfl
  exact free y paired

section Agree

variable {ties : Ties}

/-- Tied terms show alike. -/
theorem Agree.reify
    (agree : subst.Agree ties other)
    {otherTerm : Term}
    (alike : Term.Alike ties.all term otherTerm) :
    subst.Shown ties.roots other term otherTerm := by
  rw [Shown, reify_eq_under agree.acyclic, reify_eq_under agree.otherAcyclic]
  exact alike.under fun _ _ tied => agree.reify_var tied

theorem Agree.flip (agree : subst.Agree ties other) :
    other.Agree ⟨flip ties.all, flip ties.roots⟩ subst where
  acyclic := agree.otherAcyclic
  otherAcyclic := agree.acyclic
  oneToOne := agree.oneToOne.flip
  unbound_iff paired := (agree.unbound_iff paired).symm
  reify_var tied := (agree.reify_var tied).flip

/-- Two terms at the end of their bindings that show alike. -/
inductive FoundAlike (pairing : Pairing) (subst other : Subst) :
    Term → Term → Prop where
  | var
      {x y : Var}
      (paired : pairing x y)
      (unbound : subst.lookup x = none)
      (otherUnbound : other.lookup y = none) :
      FoundAlike pairing subst other (.var x) (.var y)
  | int (value : Int64) :
      FoundAlike pairing subst other (.int value) (.int value)
  | sym (name : String) :
      FoundAlike pairing subst other (.sym name) (.sym name)
  | cons
      {head tail otherHead otherTail : Term}
      (heads : subst.Shown pairing other head otherHead)
      (tails : subst.Shown pairing other tail otherTail) :
      FoundAlike pairing subst other (.cons head tail)
        (.cons otherHead otherTail)
  | nil (kind : SeqKind) :
      FoundAlike pairing subst other (.nil kind) (.nil kind)

theorem FoundAlike.shown
    {pairing : Pairing}
    {found otherFound : Term}
    (acyclic : subst.Acyclic)
    (otherAcyclic : other.Acyclic)
    (alike : FoundAlike pairing subst other found otherFound) :
    subst.Shown pairing other found otherFound := by
  cases alike with
  | var paired unbound otherUnbound =>
    rw [Shown, reify_var_eq_self acyclic unbound,
      reify_var_eq_self otherAcyclic otherUnbound]
    exact .var paired
  | cons heads tails =>
    rw [Shown, reify_cons acyclic, reify_cons otherAcyclic]
    exact .cons heads tails
  | int value =>
    rw [Shown, reify_eq_of_isGround acyclic rfl,
      reify_eq_of_isGround otherAcyclic rfl]
    exact .int value
  | sym name =>
    rw [Shown, reify_eq_of_isGround acyclic rfl,
      reify_eq_of_isGround otherAcyclic rfl]
    exact .sym name
  | nil kind =>
    rw [Shown, reify_eq_of_isGround acyclic rfl,
      reify_eq_of_isGround otherAcyclic rfl]
    exact .nil kind

/-- Terms that show alike have alike ends. -/
theorem Shown.found
    {pairing : Pairing}
    {otherTerm found : Term}
    (acyclic : subst.Acyclic)
    (otherAcyclic : other.Acyclic)
    (shown : subst.Shown pairing other term otherTerm)
    (ends : subst.Ends term found) :
    ∃ otherFound,
      other.Ends otherTerm otherFound ∧
        FoundAlike pairing subst other found otherFound := by
  have alike := shown
  rw [Shown, reify_of_ends acyclic ends] at alike
  generalize outcome : other.reify otherTerm = result at alike
  cases found with
  | var x =>
    rw [reify_var_eq_self acyclic ends.next?_eq_none] at alike
    cases alike with
    | var paired =>
      have otherEnds := ends_of_reify otherAcyclic outcome rfl
      exact ⟨_, otherEnds,
        .var paired ends.next?_eq_none otherEnds.next?_eq_none⟩
  | cons head tail =>
    rw [reify_cons acyclic] at alike
    cases alike with
    | cons heads tails =>
      rcases exists_ends_of_isCons_reify otherAcyclic
          (by rw [outcome]; rfl) with
        ⟨otherHead, otherTail, otherEnds⟩
      rw [reify_of_ends otherAcyclic otherEnds, reify_cons otherAcyclic]
        at outcome
      cases outcome
      exact ⟨_, otherEnds, .cons heads tails⟩
  | int value =>
    rw [reify_eq_of_isGround acyclic rfl] at alike
    cases alike
    exact ⟨_, ends_of_reify otherAcyclic outcome rfl, .int value⟩
  | sym name =>
    rw [reify_eq_of_isGround acyclic rfl] at alike
    cases alike
    exact ⟨_, ends_of_reify otherAcyclic outcome rfl, .sym name⟩
  | nil kind =>
    rw [reify_eq_of_isGround acyclic rfl] at alike
    cases alike
    exact ⟨_, ends_of_reify otherAcyclic outcome rfl, .nil kind⟩

/-! ## Unification of terms that show alike -/

/-- Two meetings of ends that show alike. -/
inductive MeetingAlike (pairing : Pairing) (subst other : Subst) :
    Meeting → Meeting → Prop where
  | same : MeetingAlike pairing subst other .same .same
  | clash : MeetingAlike pairing subst other .clash .clash
  | assign
      {x y : Var} {value otherValue : Term}
      (paired : pairing x y)
      (unbound : subst.lookup x = none)
      (otherUnbound : other.lookup y = none)
      (values : subst.Shown pairing other value otherValue) :
      MeetingAlike pairing subst other (.assign x value) (.assign y otherValue)
  | descend
      {leftHead rightHead leftTail rightTail : Term}
      {otherLeftHead otherRightHead otherLeftTail otherRightTail : Term}
      (leftHeads : subst.Shown pairing other leftHead otherLeftHead)
      (rightHeads : subst.Shown pairing other rightHead otherRightHead)
      (leftTails : subst.Shown pairing other leftTail otherLeftTail)
      (rightTails : subst.Shown pairing other rightTail otherRightTail) :
      MeetingAlike pairing subst other
        (.descend leftHead rightHead leftTail rightTail)
        (.descend otherLeftHead otherRightHead otherLeftTail otherRightTail)

theorem FoundAlike.meet
    {pairing : Pairing}
    (oneToOne : pairing.OneToOne)
    (acyclic : subst.Acyclic)
    (otherAcyclic : other.Acyclic)
    {left otherLeft right otherRight : Term}
    (lefts : FoundAlike pairing subst other left otherLeft)
    (rights : FoundAlike pairing subst other right otherRight) :
    MeetingAlike pairing subst other (meet left right)
      (meet otherLeft otherRight) := by
  have rightShown := rights.shown acyclic otherAcyclic
  have leftShown := lefts.shown acyclic otherAcyclic
  cases lefts with
  | @var x y paired unbound otherUnbound =>
    cases rights with
    | @var u w pairedToo =>
      have sameVar : u = x ↔ w = y := oneToOne.eq_iff pairedToo paired
      by_cases same : u = x
      · have otherSame := sameVar.mp same
        rw [Subst.meet, Subst.meet, same, otherSame]
        simpa [Term.asVar?] using MeetingAlike.same
      · have otherDifferent := mt sameVar.mpr same
        simpa [Subst.meet, Term.asVar?, same, otherDifferent] using
          MeetingAlike.assign paired unbound otherUnbound rightShown
    | int | sym | cons | nil =>
      exact .assign paired unbound otherUnbound rightShown
  | int value =>
    cases rights with
    | var paired unbound otherUnbound =>
      exact .assign paired unbound otherUnbound leftShown
    | int otherValue =>
      rw [Subst.meet]
      · split
        · exact .same
        · exact .clash
      all_goals simp
    | sym | cons | nil => exact .clash
  | sym name =>
    cases rights with
    | var paired unbound otherUnbound =>
      exact .assign paired unbound otherUnbound leftShown
    | sym otherName =>
      rw [Subst.meet]
      · split
        · exact .same
        · exact .clash
      all_goals simp
    | int | cons | nil => exact .clash
  | nil kind =>
    cases rights with
    | var paired unbound otherUnbound =>
      exact .assign paired unbound otherUnbound leftShown
    | nil otherKind =>
      rw [Subst.meet]
      · split
        · exact .same
        · exact .clash
      all_goals simp
    | int | sym | cons => exact .clash
  | cons heads tails =>
    cases rights with
    | var paired unbound otherUnbound =>
      exact .assign paired unbound otherUnbound leftShown
    | cons rightHeads rightTails =>
      exact .descend heads rightHeads tails rightTails
    | int | sym | nil => exact .clash

/-- What shows alike does so when a root and its partner are bound alike. -/
theorem Shown.bind
    {pairing : Pairing}
    {otherTerm otherValue : Term}
    (shown : subst.Shown pairing other term otherTerm)
    (oneToOne : pairing.OneToOne)
    (acyclic : subst.Acyclic)
    (otherAcyclic : other.Acyclic)
    (paired : pairing x y)
    (unbound : subst.lookup x = none)
    (otherUnbound : other.lookup y = none)
    (values : subst.Shown pairing other value otherValue)
    (apart : ¬ subst.Reaches value x)
    (otherApart : ¬ other.Reaches otherValue y) :
    (subst.bind x value).Shown pairing (other.bind y otherValue) term
      otherTerm := by
  rw [Shown, reify_bind acyclic unbound apart,
    reify_bind otherAcyclic otherUnbound otherApart]
  refine Term.Alike.under shown fun u w pairedToo => ?_
  have same := oneToOne.eq_iff pairedToo paired
  rw [single, single]
  by_cases here : u = x
  · rw [if_pos here, if_pos (same.mp here)]
    exact values
  · rw [if_neg here, if_neg (mt same.mpr here)]
    exact .var pairedToo

/-- A root and its partner come to stand for terms that show alike. -/
theorem Agree.bind
    (agree : subst.Agree ties other)
    {otherValue : Term}
    (paired : ties.roots x y)
    (unbound : subst.lookup x = none)
    (otherUnbound : other.lookup y = none)
    (values : subst.Shown ties.roots other value otherValue)
    (apart : ¬ subst.Reaches value x)
    (otherApart : ¬ other.Reaches otherValue y) :
    (subst.bind x value).Agree ties (other.bind y otherValue) where
  acyclic := agree.acyclic.bind apart
  otherAcyclic := agree.otherAcyclic.bind otherApart
  oneToOne := agree.oneToOne
  unbound_iff {u w} pairedToo := by
    have same := agree.oneToOne.eq_iff paired pairedToo
    rw [lookup_bind, lookup_bind]
    by_cases here : x = u
    · rw [if_pos here, if_pos (same.mp here)]
      simp
    · rw [if_neg here, if_neg (mt same.mpr here)]
      exact agree.unbound_iff pairedToo
  reify_var tied :=
    Shown.bind (agree.reify_var tied) agree.oneToOne agree.acyclic
      agree.otherAcyclic paired unbound otherUnbound values apart otherApart

/-- The occurs check has the same answer for terms that show alike. -/
theorem Agree.searchRun
    (agree : subst.Agree ties other)
    {otherValue : Term}
    (paired : ties.roots x y)
    (unbound : subst.lookup x = none)
    (otherUnbound : other.lookup y = none)
    (values : subst.Shown ties.roots other value otherValue)
    {answer : Bool}
    (run : subst.SearchRun x [value] answer) :
    other.SearchRun y [otherValue] answer := by
  have occurs := (occursIn_eq_some_occurs agree.otherAcyclic y otherValue).2
  have same : answer = other.occurs y otherValue := by
    rw [Bool.eq_iff_iff, run.eq_true_iff unbound,
      occurs.eq_true_iff otherUnbound]
    simp only [List.mem_singleton, exists_eq_left]
    rw [reaches_iff_mem_vars_reify agree.acyclic unbound,
      reaches_iff_mem_vars_reify agree.otherAcyclic otherUnbound]
    constructor
    · intro member
      rcases values.exists_mem_vars member with ⟨w, found, pairedToo⟩
      rwa [agree.oneToOne.right_unique paired pairedToo]
    · intro member
      rcases (Term.Alike.flip values).exists_mem_vars member with
        ⟨u, found, pairedToo⟩
      rwa [agree.oneToOne.left_unique paired pairedToo]
  rwa [same]

/-- Later substitutions that agree, in which only roots have been bound. -/
structure AgreeLater
    (ties : Ties)
    (subst other extended otherExtended : Subst) : Prop where
  agree : extended.Agree ties otherExtended
  spares : Spares ties.roots subst extended
  otherSpares : Spares (flip ties.roots) other otherExtended

theorem not_reaches_of_searchRun
    (unbound : subst.lookup x = none)
    (absent : subst.SearchRun x [value] false) :
    ¬ subst.Reaches value x := by
  intro reached
  exact Bool.false_ne_true
    ((absent.eq_true_iff unbound).mpr ⟨value, by simp, reached⟩)

/-- Pairs that show alike are unified alike. -/
theorem UnifyRun.agree
    {pairs otherPairs : List (Term × Term)}
    {outcome : Option Subst}
    (run : UnifyRun subst pairs outcome)
    (agree : subst.Agree ties other)
    (shown :
      List.Forall₂
        (fun pair otherPair =>
          subst.Shown ties.roots other pair.1 otherPair.1 ∧
            subst.Shown ties.roots other pair.2 otherPair.2)
        pairs otherPairs) :
    ∃ otherOutcome,
      UnifyRun other otherPairs otherOutcome ∧
        Option.Rel (AgreeLater ties subst other) outcome otherOutcome := by
  have met {subst other : Subst} {left right leftEnd rightEnd : Term}
      {otherPair : Term × Term}
      (agree : subst.Agree ties other)
      (leftEnds : subst.Ends left leftEnd)
      (rightEnds : subst.Ends right rightEnd)
      (lefts : subst.Shown ties.roots other left otherPair.1)
      (rights : subst.Shown ties.roots other right otherPair.2) :
      ∃ otherLeftEnd otherRightEnd,
        other.Ends otherPair.1 otherLeftEnd ∧
          other.Ends otherPair.2 otherRightEnd ∧
          MeetingAlike ties.roots subst other (meet leftEnd rightEnd)
            (meet otherLeftEnd otherRightEnd) := by
    rcases lefts.found agree.acyclic agree.otherAcyclic leftEnds with
      ⟨otherLeftEnd, otherLeftEnds, leftAlike⟩
    rcases rights.found agree.acyclic agree.otherAcyclic rightEnds with
      ⟨otherRightEnd, otherRightEnds, rightAlike⟩
    exact ⟨_, _, otherLeftEnds, otherRightEnds,
      leftAlike.meet agree.oneToOne agree.acyclic agree.otherAcyclic rightAlike⟩
  induction run generalizing other otherPairs with
  | done =>
    cases shown
    exact ⟨_, .done, .some ⟨agree, fun _ _ free => free, fun _ _ free => free⟩⟩
  | same leftEnds rightEnds meets _ ih =>
    rcases shown with _ | ⟨⟨lefts, rights⟩, rest⟩
    rcases met agree leftEnds rightEnds lefts rights with
      ⟨_, _, otherLeftEnds, otherRightEnds, meetings⟩
    rw [meets] at meetings
    generalize meeting : meet _ _ = otherMeeting at meetings
    cases meetings
    rcases ih agree rest with ⟨otherOutcome, otherRun, outcomes⟩
    exact ⟨otherOutcome, .same otherLeftEnds otherRightEnds meeting otherRun,
      outcomes⟩
  | clash leftEnds rightEnds meets =>
    rcases shown with _ | ⟨⟨lefts, rights⟩, rest⟩
    rcases met agree leftEnds rightEnds lefts rights with
      ⟨_, _, otherLeftEnds, otherRightEnds, meetings⟩
    rw [meets] at meetings
    generalize meeting : meet _ _ = otherMeeting at meetings
    cases meetings
    exact ⟨none, .clash otherLeftEnds otherRightEnds meeting, .none⟩
  | refuse leftEnds rightEnds meets occurs =>
    rcases shown with _ | ⟨⟨lefts, rights⟩, rest⟩
    rcases met agree leftEnds rightEnds lefts rights with
      ⟨_, _, otherLeftEnds, otherRightEnds, meetings⟩
    rw [meets] at meetings
    generalize meeting : meet _ _ = otherMeeting at meetings
    cases meetings with
    | assign paired unbound otherUnbound values =>
      exact ⟨none, .refuse otherLeftEnds otherRightEnds meeting
        (agree.searchRun paired unbound otherUnbound values occurs), .none⟩
  | assign leftEnds rightEnds meets absent _ ih =>
    rcases shown with _ | ⟨⟨lefts, rights⟩, rest⟩
    rcases met agree leftEnds rightEnds lefts rights with
      ⟨_, _, otherLeftEnds, otherRightEnds, meetings⟩
    rw [meets] at meetings
    generalize meeting : meet _ _ = otherMeeting at meetings
    cases meetings with
    | @assign _ _ _ otherValue paired unbound otherUnbound values =>
      have otherAbsent :=
        agree.searchRun paired unbound otherUnbound values absent
      have apart := not_reaches_of_searchRun unbound absent
      have otherApart := not_reaches_of_searchRun otherUnbound otherAbsent
      have bound := agree.bind paired unbound otherUnbound values apart
        otherApart
      have onwards {term otherTerm : Term}
          (shown : Shown ties.roots _ _ term otherTerm) :=
        shown.bind agree.oneToOne agree.acyclic agree.otherAcyclic paired
          unbound otherUnbound values apart otherApart
      rcases ih bound (rest.imp fun _ _ both =>
          ⟨onwards both.1, onwards both.2⟩) with
        ⟨otherOutcome, otherRun, outcomes⟩
      refine ⟨otherOutcome,
        .assign otherLeftEnds otherRightEnds meeting otherAbsent otherRun, ?_⟩
      cases outcomes with
      | none => exact .none
      | some later =>
        have otherPaired : flip ties.roots _ _ := paired
        have spared := @Spares.bind other _ _ _ otherPaired otherValue
        exact .some ⟨later.agree, (Spares.bind paired _).trans later.spares,
          spared.trans later.otherSpares⟩
  | descend leftEnds rightEnds meets _ ih =>
    rcases shown with _ | ⟨⟨lefts, rights⟩, rest⟩
    rcases met agree leftEnds rightEnds lefts rights with
      ⟨_, _, otherLeftEnds, otherRightEnds, meetings⟩
    rw [meets] at meetings
    generalize meeting : meet _ _ = otherMeeting at meetings
    cases meetings with
    | descend leftHeads rightHeads leftTails rightTails =>
      rcases @ih _ ((_, _) :: (_, _) :: _) agree
          (.cons ⟨leftHeads, rightHeads⟩
            (.cons ⟨leftTails, rightTails⟩ rest)) with
        ⟨otherOutcome, otherRun, outcomes⟩
      exact ⟨otherOutcome,
        .descend otherLeftEnds otherRightEnds meeting otherRun, outcomes⟩

/-- Terms that show alike are unified alike, or not at all. -/
theorem Agree.unify
    (agree : subst.Agree ties other)
    {left right otherLeft otherRight : Term}
    (lefts : subst.Shown ties.roots other left otherLeft)
    (rights : subst.Shown ties.roots other right otherRight) :
    Option.Rel (AgreeLater ties subst other) (subst.unify left right)
      (other.unify otherLeft otherRight) := by
  rcases (unifyRun_unify agree.acyclic left right).agree agree
      (.cons (b := (otherLeft, otherRight)) ⟨lefts, rights⟩ .nil) with
    ⟨outcome, run, outcomes⟩
  rwa [unify_eq_of_run agree.otherAcyclic run]

/-- What tied terms lead to is alike. -/
theorem Agree.walk
    (agree : subst.Agree ties other)
    {otherTerm : Term}
    (alike : Term.Alike ties.all term otherTerm) :
    FoundAlike ties.roots subst other (subst.walk term)
      (other.walk otherTerm) := by
  rcases (agree.reify alike).found agree.acyclic agree.otherAcyclic
      (follow_eq_some_walk agree.acyclic term).2 with
    ⟨found, ends, founds⟩
  rwa [walk_eq_of_ends agree.otherAcyclic ends]

/-! ## More ties -/

/-- Variables may be tied as well that are unbound, or that show alike. -/
theorem Agree.add
    (agree : subst.Agree ties other)
    {larger : Ties}
    (oneToOne : larger.roots.OneToOne)
    (rootsIncluded : ∀ x y, ties.roots x y → larger.roots x y)
    (roots : ∀ x y, larger.roots x y →
      ties.roots x y ∨ subst.lookup x = none ∧ other.lookup y = none)
    (all : ∀ x y, larger.all x y →
      ties.all x y ∨
        subst.Shown larger.roots other (.var x) (.var y)) :
    subst.Agree larger other where
  acyclic := agree.acyclic
  otherAcyclic := agree.otherAcyclic
  oneToOne := oneToOne
  unbound_iff {x y} paired := by
    rcases roots x y paired with before | ⟨unbound, otherUnbound⟩
    · exact agree.unbound_iff before
    · rw [unbound, otherUnbound]
  reify_var {x y} tied := by
    rcases all x y tied with before | shown
    · exact (agree.reify_var before).mono rootsIncluded
    · exact shown

theorem shown_of_unbound
    {pairing : Pairing}
    (acyclic : subst.Acyclic)
    (otherAcyclic : other.Acyclic)
    (paired : pairing x y)
    (unbound : subst.lookup x = none)
    (otherUnbound : other.lookup y = none) :
    subst.Shown pairing other (.var x) (.var y) :=
  (FoundAlike.var paired unbound otherUnbound).shown acyclic otherAcyclic

end Agree

end Subst

end RelationalSearch
