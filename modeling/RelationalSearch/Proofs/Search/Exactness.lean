import RelationalSearch.Proofs.Search.Fairness
import RelationalSearch.Proofs.Search.Generic
import RelationalSearch.Proofs.Search.Outcome

/-!
# Exact searches

A search without ordered disjunctions delivers one result for each derivation
of its goal and no others, whether or not it ends.  The results are paired with
the derivations: a result is derived because the stream promises no others, two
results have derivations with different traces, and each derivation is found
because the search is fair.

The derivations are those with the gaps of the search.  If the goal is generic,
then those with any other gaps do as well, up to the numbers of the variables
that are minted (`Goal.delivers_derivations`).
-/

namespace RelationalSearch

variable {Code : Type}

/-- The derivations of a goal, with what they end with. -/
abbrev Derivations
    (goalOf : Code → Recipe (Goal Code))
    (gaps : Gaps)
    (goal : Goal Code)
    (start : Located Subst) : Type :=
  Σ finish, Derivation goalOf gaps goal start finish

/-- The numbers of the results, in the order of delivery. -/
abbrev Goal.Numbers
    (goalOf : Code → Recipe (Goal Code))
    (goal : Goal Code)
    (subst : Subst)
    (session : Session) : Type :=
  { index : Nat // ∃ found, goal.Delivers goalOf subst session index found }

variable {goalOf : Code → Recipe (Goal Code)} {goal : Goal Code}
  {subst : Subst} {session : Session} {gaps : Gaps}

namespace Gaps.Fit

/-- Each number has a derivation, which ends with the result of the number. -/
theorem exists_derivation
    (fit : gaps.Fit goalOf goal subst session)
    (number : goal.Numbers goalOf subst session) :
    ∃ derivation : Derivations goalOf gaps goal (.root subst session),
      goal.Locates goalOf gaps (.root subst session) number.1
        derivation.1 := by
  rcases number with ⟨index, found, delivers⟩
  rcases fit.delivers_iff.mp delivers with ⟨finish, locates, _⟩
  have locatesToo := locates
  rcases locates with ⟨time, taken⟩
  have member := List.mem_of_getElem? taken
  rcases Goal.nonempty_derivation_of_mem_delivered member with ⟨derivation⟩
  exact ⟨⟨finish, derivation⟩, locatesToo⟩

/-- Each derivation of a fair goal has a number. -/
theorem exists_number
    (fit : gaps.Fit goalOf goal subst session)
    (fairCodes : FairCodes goalOf)
    (fair : goal.Fair)
    (derivation : Derivations goalOf gaps goal (.root subst session)) :
    ∃ number : goal.Numbers goalOf subst session,
      goal.Locates goalOf gaps (.root subst session) number.1
        derivation.1 := by
  rcases (derivation.2.emits fairCodes fair).exists_mem_delivered with
    ⟨time, member⟩
  rcases List.getElem?_of_mem member with ⟨index, taken⟩
  have locates :
      goal.Locates goalOf gaps (.root subst session) index derivation.1 :=
    ⟨time, taken⟩
  have delivers := fit.delivers_iff.mpr ⟨derivation.1, locates, rfl⟩
  exact ⟨⟨index, _, delivers⟩, locates⟩

/-- The numbers of the results are paired with the derivations. -/
theorem exists_pairing
    (fit : gaps.Fit goalOf goal subst session)
    (fairCodes : FairCodes goalOf)
    (fair : goal.Fair) :
    ∃ pairing :
        goal.Numbers goalOf subst session ≃
          Derivations goalOf gaps goal (.root subst session),
      ∀ number,
        goal.Locates goalOf gaps (.root subst session) number.1
          (pairing number).1 := by
  choose derived locates using fit.exists_derivation
  have injective : Function.Injective derived := by
    intro number other same
    refine Subtype.ext ?_
    exact fit.index_eq (locates number) (locates other)
      (congrArg (fun derivation => derivation.1.place.trace) same)
  have surjective : Function.Surjective derived := by
    intro derivation
    rcases fit.exists_number fairCodes fair derivation with
      ⟨number, located⟩
    refine ⟨number, ?_⟩
    have sameEnd := (locates number).unique located
    exact (derived number).2.unique derivation.2
      (congrArg (fun finish => finish.place.trace) sameEnd)
  exact ⟨.ofBijective derived ⟨injective, surjective⟩, locates⟩

end Gaps.Fit

/-! ## Other gaps -/

/-- The derivations of a generic goal do not depend on the gaps. -/
theorem Generic.exists_pairing
    (generic : Generic goalOf goal subst session.supply)
    (gaps otherGaps : Gaps) :
    ∃ pairing :
        Derivations goalOf gaps goal (.root subst session) ≃
          Derivations goalOf otherGaps goal (.root subst session),
      ∀ derivation,
        Subst.Renamed session.supply derivation.1.value
          (pairing derivation).1.value := by
  rcases generic with ⟨codes, genericCodes, goals, substs⟩
  have counterpart : ∀ gaps otherGaps : Gaps,
      ∀ derivation : Derivations goalOf gaps goal (.root subst session),
        ∃ other : Derivations goalOf otherGaps goal (.root subst session),
          Located.Counterpart (.upTo session.supply) derivation.1 other.1 := by
    intro gaps otherGaps derivation
    rcases derivation.2.exists_counterpart genericCodes otherGaps goals
        (Located.alike_root substs) with ⟨finish, same, ⟨other⟩⟩
    exact ⟨⟨finish, other⟩, same⟩
  choose other counterparts using counterpart gaps otherGaps
  have injective : Function.Injective other := by
    intro derivation second same
    have traces :
        derivation.1.place.trace = second.1.place.trace := by
      rw [(counterparts derivation).trace_eq, same,
        (counterparts second).trace_eq]
    exact derivation.2.unique second.2 traces
  have surjective : Function.Surjective other := by
    intro second
    rcases counterpart otherGaps gaps second with ⟨derivation, back⟩
    refine ⟨derivation, (other derivation).2.unique second.2 ?_⟩
    rw [← (counterparts derivation).trace_eq, back.trace_eq]
  exact ⟨.ofBijective other ⟨injective, surjective⟩,
    fun derivation => (counterparts derivation).renamed⟩

/-! ## Results and derivations -/

/--
A fair search delivers one result for each derivation, and no other results.
If the goal is generic then it does not matter which numbers the variables get
that are minted in a derivation.
-/
theorem Goal.delivers_derivations
    (fairCodes : FairCodes goalOf)
    (fair : goal.Fair)
    (subst : Subst)
    (session : Session) :
    (∃ (gaps : Gaps)
        (pairing :
          goal.Numbers goalOf subst session ≃
            Derivations goalOf gaps goal (.root subst session)),
      ∀ number found,
        goal.Delivers goalOf subst session number.1 found ↔
          found = (pairing number).1.value) ∧
    (Generic goalOf goal subst session.supply →
      ∀ gaps : Gaps,
        ∃ pairing :
            goal.Numbers goalOf subst session ≃
              Derivations goalOf gaps goal (.root subst session),
          ∀ number found,
            goal.Delivers goalOf subst session number.1 found →
              Subst.Renamed session.supply found
                (pairing number).1.value) := by
  rcases Gaps.exists_fit goalOf goal subst session with ⟨gaps, fit⟩
  rcases fit.exists_pairing fairCodes fair with ⟨pairing, locates⟩
  have delivers_iff : ∀ number found,
      goal.Delivers goalOf subst session number.1 found ↔
        found = (pairing number).1.value := by
    intro number found
    rw [fit.delivers_iff]
    constructor
    · rintro ⟨finish, located, rfl⟩
      rw [located.unique (locates number)]
    · rintro rfl
      exact ⟨_, locates number, rfl⟩
  refine ⟨⟨gaps, pairing, delivers_iff⟩, ?_⟩
  intro generic otherGaps
  rcases generic.exists_pairing gaps otherGaps with ⟨across, renamed⟩
  refine ⟨pairing.trans across, ?_⟩
  intro number found delivers
  cases (delivers_iff number found).mp delivers
  exact renamed (pairing number)

/-- A search that delivers one fresh variable after another. -/
theorem Goal.delivers_derivations_endless :
    FairCodes (firstFreshOr (.defer ())) ∧
      Generic (firstFreshOr (.defer ())) (.defer ()) ∅ 1 ∧
      ∀ gaps : Gaps,
        ∃ pairing :
            Goal.Numbers (firstFreshOr (.defer ())) (.defer ()) ∅
                ⟨#["q"], #[]⟩ ≃
              Derivations (firstFreshOr (.defer ())) gaps (.defer ())
                (.root ∅ ⟨#["q"], #[]⟩),
          ∀ number found,
            Goal.Delivers (firstFreshOr (.defer ())) (.defer ()) ∅
                ⟨#["q"], #[]⟩ number.1 found →
              Subst.Renamed 1 found (pairing number).1.value := by
  have fairCodes : FairCodes (firstFreshOr (.defer ())) :=
    fun _ _ => .either (.eq _ _) (.either (.defer _) .fail)
  have generic : Generic (firstFreshOr (.defer ())) (.defer ()) ∅ 1 :=
    generic_firstFreshOr (fun _ paired => .defer paired)
      (.defer ⟨rfl, Nat.one_pos⟩)
  exact ⟨fairCodes, generic,
    (Goal.delivers_derivations fairCodes (.defer ()) ∅ ⟨#["q"], #[]⟩).2
      generic⟩

end RelationalSearch
