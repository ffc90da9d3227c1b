import RelationalSearch.Proofs.Search.Run

/-!
# Outcomes of a search

A caller applies a goal to a substitution and asks for one result after
another, until there are no more.  The results have numbers, in the order of
delivery (`Goal.Delivers`), and a search that ends has a list of them
(`Goal.Drains`).

With the gaps of the search, a located search delivers the same results under
the same numbers, and tells them apart by their traces (`Gaps.Fit`).
-/

namespace RelationalSearch

variable {Code : Type}

namespace Goal

/-- The result of a number, of a goal that is applied in a session. -/
def Delivers
    (goalOf : Code → Recipe (Goal Code))
    (goal : Goal Code)
    (subst : Subst)
    (session : Session)
    (index : Nat)
    (found : Subst) : Prop :=
  Stream.Delivers (searchEngine goalOf) ((goal.apply subst).run session).1
    ((goal.apply subst).run session).2 index found

/-- All results of a goal that is applied in a session. -/
def Drains
    (goalOf : Code → Recipe (Goal Code))
    (goal : Goal Code)
    (subst : Subst)
    (session : Session)
    (results : List Subst) : Prop :=
  Stream.Drains (searchEngine goalOf) ((goal.apply subst).run session).1
    ((goal.apply subst).run session).2 results

/-- The result of a number, of a located search. -/
def Locates
    (goalOf : Code → Recipe (Goal Code))
    (gaps : Gaps)
    (goal : Goal Code)
    (start : Located Subst)
    (index : Nat)
    (finish : Located Subst) : Prop :=
  ∃ time, (goal.located goalOf gaps start time)[index]? = some finish

theorem Locates.unique
    {goalOf : Code → Recipe (Goal Code)}
    {gaps : Gaps}
    {goal : Goal Code}
    {start finish other : Located Subst}
    {index : Nat}
    (locates : goal.Locates goalOf gaps start index finish)
    (otherLocates : goal.Locates goalOf gaps start index other) :
    finish = other := by
  rcases locates with ⟨_, taken⟩
  rcases otherLocates with ⟨_, otherTaken⟩
  exact Stream.eq_of_delivered_getElem? taken otherTaken

end Goal

namespace Gaps.Fit

variable {goalOf : Code → Recipe (Goal Code)} {goal : Goal Code}
  {subst : Subst} {session : Session} {gaps : Gaps}

theorem delivered_eq
    (fit : gaps.Fit goalOf goal subst session)
    (time : Nat) :
    Stream.delivered
        (Stream.stagesFrom (searchEngine goalOf)
          ((goal.apply subst).run session)) time =
      (goal.located goalOf gaps (.root subst session) time).map
        Located.value := by
  induction time with
  | zero => rfl
  | succ time ih =>
    rw [Stream.delivered_succ, ih, fit.stages, Stream.erase,
      Stream.front_map, ← List.map_append, Goal.located, Goal.located,
      ← Stream.delivered_succ]

/-- The search delivers what the located search delivers. -/
theorem delivers_iff
    (fit : gaps.Fit goalOf goal subst session)
    {index : Nat}
    {found : Subst} :
    goal.Delivers goalOf subst session index found ↔
      ∃ finish,
        goal.Locates goalOf gaps (.root subst session) index finish ∧
          finish.value = found := by
  rw [Goal.Delivers, Stream.delivers_iff]
  constructor
  · rintro ⟨time, taken⟩
    rw [fit.delivered_eq, List.getElem?_map, Option.map_eq_some_iff] at taken
    rcases taken with ⟨finish, inside, same⟩
    exact ⟨finish, ⟨time, inside⟩, same⟩
  · rintro ⟨finish, ⟨time, inside⟩, same⟩
    refine ⟨time, ?_⟩
    rw [fit.delivered_eq, List.getElem?_map, inside, Option.map_some, same]

/-- Results with the same trace have the same number. -/
theorem index_eq
    (fit : gaps.Fit goalOf goal subst session)
    {index otherIndex : Nat}
    {finish other : Located Subst}
    (locates :
      goal.Locates goalOf gaps (.root subst session) index finish)
    (otherLocates :
      goal.Locates goalOf gaps (.root subst session) otherIndex other)
    (same : finish.place.trace = other.place.trace) :
    index = otherIndex := by
  rcases locates with ⟨time, taken⟩
  rcases otherLocates with ⟨otherTime, otherTaken⟩
  have both := Stream.delivered_getElem?_mono
    (Nat.le_max_left time otherTime) taken
  have otherBoth := Stream.delivered_getElem?_mono
    (Nat.le_max_right time otherTime) otherTaken
  have inside :
      index < ((goal.located goalOf gaps (.root subst session)
        (max time otherTime)).map fun result => result.place.trace).length := by
    rw [List.length_map]
    exact (List.getElem?_eq_some_iff.mp both).1
  rw [← List.getElem?_inj inside (fit.traces _), List.getElem?_map,
    List.getElem?_map, Goal.located, both, otherBoth, Option.map_some,
    Option.map_some, same]

/-- A search ends when the located search does. -/
theorem drains
    (fit : gaps.Fit goalOf goal subst session)
    {time : Nat}
    (ended :
      Branches.stagesFrom goalOf gaps
        (goal.explore gaps (.root subst session)) time = .empty) :
    goal.Drains goalOf subst session
      ((goal.located goalOf gaps (.root subst session) time).map
        Located.value) := by
  have endedToo :
      Stream.stagesFrom (searchEngine goalOf)
        ((goal.apply subst).run session) time = .empty := by
    rw [fit.stages, ended]
    rfl
  rw [← fit.delivered_eq]
  exact Stream.drains_of_eq_empty endedToo

end Gaps.Fit

end RelationalSearch
