import RelationalSearch.Proofs.Search.Exhaustion
import RelationalSearch.Proofs.Search.Generic
import RelationalSearch.Proofs.Search.Outcome

/-!
# Finite searches

Where the depth-first reading of a goal ends with a list of results, the search
ends as well, and it delivers a permutation of that list.

With the gaps of the search the results are the same.  If the goal is generic
then they are the same with any gaps, up to the numbers of the variables that
are minted (`Goal.drains_listing`).
-/

namespace RelationalSearch

variable {Code : Type} {goalOf : Code → Recipe (Goal Code)}
  {goal : Goal Code} {subst : Subst} {session : Session}

/-- What is listed with the gaps of a search is delivered by the search. -/
theorem Gaps.Fit.exists_drains
    {gaps : Gaps}
    (fit : gaps.Fit goalOf goal subst session)
    {found : List (Located Subst)}
    (listing : Listing goalOf gaps goal (.root subst session) found) :
    ∃ results,
      goal.Drains goalOf subst session results ∧
        results.Perm (found.map Located.value) := by
  rcases listing.exists_tally with ⟨cost, tally⟩
  rcases tally.fits with ⟨work, _, holds⟩
  rcases holds.exists_ended with ⟨time, ended, all⟩
  have permuted := Multiset.coe_eq_coe.mp all
  exact ⟨_, fit.drains ended, permuted.map Located.value⟩

/-- The listings of a generic goal do not depend on the gaps. -/
theorem Generic.exists_listing
    (generic : Generic goalOf goal subst session.supply)
    {gaps : Gaps}
    {found : List (Located Subst)}
    (listing : Listing goalOf gaps goal (.root subst session) found)
    (otherGaps : Gaps) :
    ∃ others,
      Listing goalOf otherGaps goal (.root subst session) others ∧
        List.Forall₂ (Subst.Renamed session.supply)
          (found.map Located.value) (others.map Located.value) := by
  rcases generic with ⟨codes, genericCodes, goals, substs⟩
  rcases listing.exists_counterpart genericCodes otherGaps goals
      (Located.alike_root substs) with ⟨others, otherListing, counterparts⟩
  refine ⟨others, otherListing, ?_⟩
  rw [List.forall₂_map_left_iff, List.forall₂_map_right_iff]
  exact counterparts.imp fun _ _ same => same.renamed

/--
A search whose goal has a finite list of results ends, and delivers a
permutation of the list.  If the goal is generic then it does not matter which
numbers the variables get that are minted for the list.
-/
theorem Goal.drains_listing
    (goalOf : Code → Recipe (Goal Code))
    (goal : Goal Code)
    (subst : Subst)
    (session : Session) :
    (∃ gaps : Gaps,
      gaps.Fit goalOf goal subst session ∧
        ∀ found,
          Listing goalOf gaps goal (.root subst session) found →
            ∃ results,
              goal.Drains goalOf subst session results ∧
                results.Perm (found.map Located.value)) ∧
    (Generic goalOf goal subst session.supply →
      ∀ (gaps : Gaps) (found : List (Located Subst)),
        Listing goalOf gaps goal (.root subst session) found →
          ∃ results renamed,
            goal.Drains goalOf subst session results ∧
              results.Perm renamed ∧
                List.Forall₂ (Subst.Renamed session.supply)
                  (found.map Located.value) renamed) := by
  rcases Gaps.exists_fit goalOf goal subst session with ⟨gaps, fit⟩
  refine ⟨⟨gaps, fit, fun found listing => fit.exists_drains listing⟩, ?_⟩
  intro generic otherGaps found listing
  rcases generic.exists_listing listing gaps with
    ⟨others, otherListing, renamed⟩
  rcases fit.exists_drains otherListing with ⟨results, drains, permuted⟩
  exact ⟨results, _, drains, permuted, renamed⟩

/-- A goal with two results, in the first of which a variable is minted. -/
theorem Goal.drains_listing_two :
    ∃ extended,
      (∅ : Subst).unify (.var ⟨0⟩) (.var ⟨1⟩) = some extended ∧
        ∃ results renamed,
          Goal.Drains (firstFreshOr .fail) (.ordered (.defer ()) .succeed) ∅
              ⟨#["q"], #[]⟩ results ∧
            results.Perm renamed ∧
              List.Forall₂ (Subst.Renamed 1) [extended, ∅] renamed := by
  have unifies :
      ((∅ : Subst).unify (.var ⟨0⟩) (.var ⟨1⟩)).isSome = true := by
    decide +kernel
  rcases Option.isSome_iff_exists.mp unifies with ⟨extended, success⟩
  have generic :
      Generic (firstFreshOr .fail) (.ordered (.defer ()) .succeed) ∅ 1 :=
    generic_firstFreshOr (fun _ _ => .fail)
      (.ordered (.defer ⟨rfl, Nat.one_pos⟩) .succeed)
  have listing :
      Listing (firstFreshOr .fail) (fun _ => 0)
        (.ordered (.defer ()) .succeed) (.root ∅ ⟨#["q"], #[]⟩) _ :=
    .ordered (.defer (.either (.unified success) (.either .fail .fail)))
      .succeed
  exact ⟨extended, success,
    (Goal.drains_listing _ _ ∅ ⟨#["q"], #[]⟩).2 generic _ _ listing⟩

end RelationalSearch
