import RelationalSearch.Proofs.Search.Alike
import RelationalSearch.Proofs.Search.Answers
import RelationalSearch.Proofs.Search.Finite

/-!
# Searches that are made elsewhere

A relation is called in the midst of a search, where turns have been taken and
other branches mint variables.  For a generic goal this makes no difference.  If
its search ends when it is run alone, then it has a list of results wherever it
is made, and each of them is a substitution of its session
(`Goal.Drains.exists_listing`).
-/

namespace RelationalSearch

/-! ## Streams that end -/

namespace Stream

variable {Later Next Result : Type} {engine : Engine Search Later Next Result}

theorem exists_eq_empty_of_pull
    {effort : Nat}
    {stream : Stream Later Next Result}
    {session after : Session}
    (pulled : (pull engine effort stream).run session = (.ended, after)) :
    ∃ time, stagesFrom engine (stream, session) time = empty := by
  induction effort generalizing stream session with
  | zero =>
    cases stream <;> cases pulled
    exact ⟨0, rfl⟩
  | succ effort ih =>
    rcases stream.cases_of_shape with rfl | ⟨_, _, rfl⟩ | shaped
    · exact ⟨0, rfl⟩
    · cases pulled
    · rw [pull_succ_of_pending shaped] at pulled
      rcases ih pulled with ⟨time, ended⟩
      exact ⟨time + 1, ended⟩

/-- A stream all results of which are delivered has ended at some moment. -/
theorem Drains.exists_eq_empty
    {stream : Stream Later Next Result}
    {session : Session}
    {results : List Result}
    (drains : Drains engine stream session results) :
    ∃ time, stagesFrom engine (stream, session) time = empty := by
  induction drains with
  | ended pulled => exact exists_eq_empty_of_pull pulled
  | @result stream rest session after _ result _ pulled _ ih =>
    rcases exists_ready_of_pull pulled with ⟨time, reached, _⟩
    rcases ih with ⟨more, ended⟩
    refine ⟨more + (time + 1), ?_⟩
    rw [stagesFrom, Function.iterate_add_apply,
      Function.iterate_succ_apply', reached, nextMoment_ready]
    exact ended

end Stream

variable {Code : Type} {goalOf : Code → Recipe (Goal Code)}

/-! ## Listings behind other turns -/

/-- The same behind the turns of a trace. -/
def Located.behind (base : Trace) (start : Located Subst) : Located Subst :=
  ⟨⟨start.place.trace ++ base, start.place.supply⟩, start.value⟩

/-- The same without the first turns, as many as the trace has. -/
def Located.ahead (base : Trace) (start : Located Subst) : Located Subst :=
  ⟨⟨start.place.trace.take (start.place.trace.length - base.length),
    start.place.supply⟩, start.value⟩

theorem Located.ahead_behind (base : Trace) (start : Located Subst) :
    (start.behind base).ahead base = start := by
  simp [ahead, behind]

/-- Behind other turns, the gaps are those for the longer traces. -/
theorem Listing.behind
    {gaps : Gaps}
    {base : Trace}
    {goal : Goal Code}
    {start : Located Subst}
    {found : List (Located Subst)}
    (listing :
      Listing goalOf (fun trace => gaps (trace ++ base)) goal start found) :
    Listing goalOf gaps goal (start.behind base)
      (found.map (Located.behind base)) := by
  induction listing with
  | unified success => exact .unified success
  | clash failure => exact .clash failure
  | succeed => exact .succeed
  | fail => exact .fail
  | @both first second start middles results _ _ frontIH backIH =>
    let moved (middle : Located Subst) :=
      (results (middle.ahead base)).map (Located.behind base)
    have backs : ∀ middle ∈ middles.map (Located.behind base),
        Listing goalOf gaps second middle (moved middle) := by
      intro middle member
      rcases List.mem_map.mp member with ⟨inner, inside, rfl⟩
      rw [show moved (inner.behind base) =
        (results inner).map (Located.behind base) by
          simp only [moved, Located.ahead_behind]]
      exact backIH inner inside
    have both := Listing.both frontIH backs
    rw [List.flatMap_map] at both
    simp only [moved, Located.ahead_behind] at both
    rwa [← List.map_flatMap] at both
  | either _ _ leftIH rightIH =>
    rw [List.map_append]
    exact .either leftIH rightIH
  | ordered _ _ leftIH rightIH =>
    rw [List.map_append]
    exact .ordered leftIH rightIH
  | defer _ ih => exact .defer ih
  | dynamic _ ih => exact .dynamic ih

/-! ## Results of generic goals -/

theorem Term.Alike.ceiling_le
    {pairing : Pairing}
    {supply otherSupply : Nat}
    {term other : Term}
    (alike : Term.Alike pairing term other)
    (within : pairing.Within supply otherSupply) :
    other.ceiling ≤ otherSupply := by
  induction alike with
  | var paired => exact (within _ _ paired).2
  | cons _ _ headIH tailIH =>
    rw [Term.ceiling]
    exact Nat.max_le.mpr ⟨headIH, tailIH⟩
  | int | sym | nil => exact Nat.zero_le _

/-- What is like a substitution in paired variables has no other variables. -/
theorem Subst.Alike.within
    {pairing : Pairing}
    {supply otherSupply : Nat}
    {subst other : Subst}
    (alike : subst.Alike pairing other)
    (pairs : pairing.Within supply otherSupply)
    (acyclic : other.Acyclic) :
    other.Within otherSupply := by
  have paired {y : Var} {term : Term} (bound : other.lookup y = some term) :
      ∃ x, pairing x y := by
    by_contra free
    have unbound := alike.right_covered (not_exists.mp free)
    cases bound.symm.trans unbound
  constructor
  · exact acyclic
  · intro y term bound
    rcases paired bound with ⟨x, same⟩
    exact (pairs x y same).2
  · intro y term bound
    rcases paired bound with ⟨x, same⟩
    have lookups := alike.lookup same
    rw [bound] at lookups
    generalize subst.lookup x = found at lookups
    cases lookups with
    | some terms => exact terms.ceiling_le pairs

/--
A generic goal, the search of which ends when it is run alone, has a list of
results wherever it is made.  The results are of the session.
-/
theorem Goal.Drains.exists_listing
    {goal : Goal Code}
    {subst : Subst}
    {session : Session}
    {results : List Subst}
    (drains : goal.Drains goalOf subst session results)
    (generic : Generic goalOf goal subst session.supply)
    (acyclic : subst.Acyclic)
    (gaps : Gaps)
    (trace : Trace) :
    ∃ found,
      Listing goalOf gaps goal ⟨⟨trace, session.supply⟩, subst⟩ found ∧
        ∀ result ∈ found, result.value.Within result.place.supply := by
  rcases Gaps.exists_fit goalOf goal subst session with ⟨alone, fit⟩
  rcases Stream.Drains.exists_eq_empty drains with ⟨time, ended⟩
  have locatedEnded :
      Branches.stagesFrom goalOf alone
        (goal.explore alone (.root subst session)) time = .empty := by
    have erased := (fit.stages time).symm.trans ended
    exact (Stream.map_eq_empty_iff _ _ _).mp erased
  have completes : goal.Completes goalOf alone (.root subst session)
      (goal.located goalOf alone (.root subst session) time) :=
    ⟨time, locatedEnded, rfl⟩
  rcases completes.exists_listing with ⟨first, listing, _⟩
  rcases generic with ⟨codes, genericCodes, goals, substs⟩
  rcases listing.exists_counterpart genericCodes
      (fun before => gaps (before ++ trace)) goals
      (Located.alike_root substs) with ⟨others, otherListing, counterparts⟩
  have inside : ∀ result ∈ others,
      result.value.Within result.place.supply := by
    intro result member
    rcases exists_mem_of_forall₂ counterparts member with
      ⟨original, _, larger, _, alike⟩
    exact alike.substs.within alike.within
      (otherListing.grows acyclic member).acyclic
  refine ⟨_, otherListing.behind, ?_⟩
  intro result member
  rcases List.mem_map.mp member with ⟨original, listed, rfl⟩
  exact inside original listed

end RelationalSearch
