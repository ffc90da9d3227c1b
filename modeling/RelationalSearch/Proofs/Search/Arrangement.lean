import RelationalSearch.Proofs.Search.Exhaustion
import RelationalSearch.Proofs.Search.Outcome
import RelationalSearch.Proofs.Stream.Shuffle

/-!
# Orders in which a search may deliver

A listing of a goal has the results of its search, but not their order.  What
the order may be is said by `Arrangement`: the results of the branches of a
disjunction are shuffled, as are those that a conjunction gets for one result
of its first goal and for another, and only an ordered disjunction keeps its
branches apart.

The same is said of a stream by `Stream.Arranges`.  Going back by one step of
the engine never leads to an order that is not allowed, and of a stream that
has ended there is only one.  So a search that ends has delivered its results
in one of the arrangements of its goal (`Goal.Completes.arrangement`).
-/

namespace RelationalSearch

variable {Code : Type}

/-! ## Arrangements -/

/--
An order in which the results of a goal may be delivered.  The entries of a
conjunction are the results of its first goal, each with what comes of it.
-/
inductive Arrangement
    (goalOf : Code → Recipe (Goal Code))
    (gaps : Gaps) :
    Goal Code → Located Subst → List (Located Subst) → Prop where
  | unified
      {left right : Term} {start : Located Subst} {extended : Subst}
      (success : start.value.unify left right = some extended) :
      Arrangement goalOf gaps (.eq left right) start
        [⟨start.place, extended⟩]
  | clash
      {left right : Term} {start : Located Subst}
      (failure : start.value.unify left right = none) :
      Arrangement goalOf gaps (.eq left right) start []
  | succeed {start : Located Subst} :
      Arrangement goalOf gaps .succeed start [start]
  | fail {start : Located Subst} : Arrangement goalOf gaps .fail start []
  | both
      {first second : Goal Code} {start : Located Subst}
      {entries : List (Located Subst × List (Located Subst))}
      {found : List (Located Subst)}
      (front :
        Arrangement goalOf gaps first start (entries.map Prod.fst))
      (back :
        ∀ entry ∈ entries,
          Arrangement goalOf gaps second entry.1 entry.2)
      (shuffled : ShuffleAll (entries.map Prod.snd) found) :
      Arrangement goalOf gaps (.both first second) start found
  | either
      {left right : Goal Code} {start : Located Subst}
      {lefts rights found : List (Located Subst)}
      (onLeft :
        Arrangement goalOf gaps left ⟨start.place.left, start.value⟩ lefts)
      (onRight :
        Arrangement goalOf gaps right ⟨start.place.right, start.value⟩
          rights)
      (shuffled : Shuffle lefts rights found) :
      Arrangement goalOf gaps (.either left right) start found
  | ordered
      {left right : Goal Code} {start : Located Subst}
      {lefts rights : List (Located Subst)}
      (onLeft :
        Arrangement goalOf gaps left ⟨start.place.left, start.value⟩ lefts)
      (onRight :
        Arrangement goalOf gaps right ⟨start.place.right, start.value⟩
          rights) :
      Arrangement goalOf gaps (.ordered left right) start (lefts ++ rights)
  | defer
      {code : Code} {start : Located Subst} {found : List (Located Subst)}
      (built :
        Arrangement goalOf gaps ((goalOf code).goalAt gaps start)
          (start.enter gaps (goalOf code)) found) :
      Arrangement goalOf gaps (.defer code) start found
  | dynamic
      {builder : Subst → Recipe (Goal Code)} {start : Located Subst}
      {found : List (Located Subst)}
      (built :
        Arrangement goalOf gaps ((builder start.value).goalAt gaps start)
          (start.enter gaps (builder start.value)) found) :
      Arrangement goalOf gaps (.dynamic builder) start found

section Arrangement

variable {goalOf : Code → Recipe (Goal Code)} {gaps : Gaps}
  {goal : Goal Code} {start : Located Subst} {found : List (Located Subst)}

/-- An arrangement has the results of the listing. -/
theorem Arrangement.exists_listing
    (arrangement : Arrangement goalOf gaps goal start found) :
    ∃ listed, Listing goalOf gaps goal start listed ∧ found.Perm listed := by
  induction arrangement with
  | unified success => exact ⟨_, .unified success, .refl _⟩
  | clash failure => exact ⟨_, .clash failure, .refl _⟩
  | succeed => exact ⟨_, .succeed, .refl _⟩
  | fail => exact ⟨_, .fail, .refl _⟩
  | @both first second start entries found _ _ shuffled frontIH backIH =>
    rcases frontIH with ⟨middles, front, permuted⟩
    -- The listing behind a middle result is that of any entry with this result.
    have listings : ∀ middle ∈ middles,
        ∃ listed, Listing goalOf gaps second middle listed := by
      intro middle member
      rcases List.mem_map.mp (permuted.mem_iff.mpr member) with
        ⟨entry, inside, rfl⟩
      rcases backIH entry inside with ⟨listed, listing, _⟩
      exact ⟨listed, listing⟩
    choose! results back using listings
    have own : ∀ entry ∈ entries, entry.2.Perm (results entry.1) := by
      intro entry inside
      rcases backIH entry inside with ⟨listed, listing, same⟩
      have member := permuted.mem_iff.mp (List.mem_map_of_mem inside)
      rwa [listing.unique (back entry.1 member)] at same
    refine ⟨_, .both front back, shuffled.perm.trans ?_⟩
    calc
      ((entries.map Prod.snd).flatten).Perm
          (entries.flatMap fun entry => results entry.1) := by
        rw [← List.flatMap_def]
        exact List.Perm.flatMap_left entries own
      _ = (entries.map Prod.fst).flatMap results := by rw [List.flatMap_map]
      List.Perm _ (middles.flatMap results) := permuted.flatMap_right results
  | either _ _ shuffled leftIH rightIH =>
    rcases leftIH with ⟨_, onLeft, leftPerm⟩
    rcases rightIH with ⟨_, onRight, rightPerm⟩
    exact ⟨_, .either onLeft onRight,
      shuffled.perm.trans (leftPerm.append rightPerm)⟩
  | ordered _ _ leftIH rightIH =>
    rcases leftIH with ⟨_, onLeft, leftPerm⟩
    rcases rightIH with ⟨_, onRight, rightPerm⟩
    exact ⟨_, .ordered onLeft onRight, leftPerm.append rightPerm⟩
  | defer _ ih =>
    rcases ih with ⟨_, built, permuted⟩
    exact ⟨_, .defer built, permuted⟩
  | dynamic _ ih =>
    rcases ih with ⟨_, built, permuted⟩
    exact ⟨_, .dynamic built, permuted⟩

end Arrangement

/-! ## Arrangements of streams -/

section Streams

variable (goalOf : Code → Recipe (Goal Code)) (gaps : Gaps)

/-- An order in which the results of a task may be delivered. -/
def Task.Arranges
    (task : Located (Task Code))
    (found : List (Located Subst)) : Prop :=
  match task.value with
  | .apply goal subst => Arrangement goalOf gaps goal ⟨task.place, subst⟩ found
  | .deferred code subst =>
    Arrangement goalOf gaps (.defer code) ⟨task.place, subst⟩ found

/-- An order in which the results of a stream may be delivered. -/
inductive Stream.Arranges :
    Branches Code → List (Located Subst) → Prop where
  | empty : Arranges .empty []
  | ready
      {result : Located Subst} {rest : Branches Code}
      {found : List (Located Subst)}
      (others : Arranges rest found) :
      Arranges (.ready result rest) (result :: found)
  | suspended
      {task : Located (Task Code)} {found : List (Located Subst)}
      (arranged : Task.Arranges goalOf gaps task found) :
      Arranges (.suspended task) found
  | merge
      {left right : Branches Code} {lefts rights found : List (Located Subst)}
      (onLeft : Arranges left lefts)
      (onRight : Arranges right rights)
      (shuffled : Shuffle lefts rights found) :
      Arranges (.merge left right) found
  | bind
      {inner : Branches Code} {goal : Goal Code}
      {entries : List (Located Subst × List (Located Subst))}
      {found : List (Located Subst)}
      (inside : Arranges inner (entries.map Prod.fst))
      (fed :
        ∀ entry ∈ entries, Arrangement goalOf gaps goal entry.1 entry.2)
      (shuffled : ShuffleAll (entries.map Prod.snd) found) :
      Arranges (.bind inner goal) found
  | append
      {inner : Branches Code} {queue : Queue (Located (Task Code))}
      {front : List (Located Subst)} {lists : List (List (Located Subst))}
      (inside : Arranges inner front)
      (queued :
        List.Forall₂ (Task.Arranges goalOf gaps) queue.toList lists) :
      Arranges (.append inner queue) (front ++ lists.flatten)

namespace Stream.Arranges

variable {goalOf gaps}

/-! ### Going back over combinations -/

theorem of_interleave
    {left right : Branches Code}
    {found : List (Located Subst)}
    (arranges : (left.interleave right).Arranges goalOf gaps found) :
    ∃ lefts rights,
      left.Arranges goalOf gaps lefts ∧ right.Arranges goalOf gaps rights ∧
        Shuffle lefts rights found := by
  induction left generalizing found with
  | empty => exact ⟨[], found, .empty, arranges, .nil_left found⟩
  | ready result rest ih =>
    cases arranges with
    | ready others =>
      rcases ih others with ⟨lefts, rights, onLeft, onRight, shuffled⟩
      exact ⟨_, rights, .ready onLeft, onRight, .left shuffled⟩
  | suspended | merge | bind | append =>
    by_cases ended : right = .empty
    · subst ended
      rw [Stream.interleave_empty_right] at arranges
      exact ⟨found, [], arranges, .empty, .nil_right found⟩
    · rw [Stream.interleave_of_pending rfl ended] at arranges
      cases arranges with
      | merge onLeft onRight shuffled =>
        exact ⟨_, _, onLeft, onRight, shuffled⟩

theorem of_enqueue
    {stream : Branches Code}
    {queue : Queue (Located (Task Code))}
    {found : List (Located Subst)}
    (arranges : (Stream.enqueue queue stream).Arranges goalOf gaps found) :
    ∃ front lists,
      stream.Arranges goalOf gaps front ∧
        List.Forall₂ (Task.Arranges goalOf gaps) queue.toList lists ∧
          found = front ++ lists.flatten := by
  induction stream generalizing found with
  | ready result rest ih =>
    cases arranges with
    | ready others =>
      rcases ih others with ⟨front, lists, onFront, queued, rfl⟩
      exact ⟨result :: front, lists, .ready onFront, queued, rfl⟩
  | append inner earlier =>
    cases arranges with
    | @append _ _ front lists inside queued =>
      rw [Queue.toList_join] at queued
      have before :=
        List.forall₂_take_append lists _ _ (List.Forall₂.flip queued)
      have behind :=
        List.forall₂_drop_append lists _ _ (List.Forall₂.flip queued)
      refine ⟨_, _, .append inside before.flip, behind.flip, ?_⟩
      rw [List.append_assoc, ← List.flatten_append, List.take_append_drop]
  | empty | suspended | merge | bind =>
    cases arranges with
    | append inside queued => exact ⟨_, _, inside, queued, rfl⟩

/-- What forced tasks give is what the tasks give. -/
theorem of_followedBy
    {force : Located (Task Code) → Branches Code}
    {stream : Branches Code}
    {queue : Queue (Located (Task Code))}
    {found : List (Located Subst)}
    (forced :
      ∀ task ∈ queue.toList, ∀ found,
        (force task).Arranges goalOf gaps found →
          Task.Arranges goalOf gaps task found)
    (arranges :
      Stream.Arranges goalOf gaps
        (Stream.followedBy (m := Id) force stream queue) found) :
    ∃ front lists,
      stream.Arranges goalOf gaps front ∧
        List.Forall₂ (Task.Arranges goalOf gaps) queue.toList lists ∧
          found = front ++ lists.flatten := by
  induction counted : queue.size using Nat.strongRecOn
    generalizing stream queue found with
  | _ size ih =>
    by_cases ended : stream = .empty
    · subst ended
      rcases taken : queue.take with ⟨task, _ | rest⟩
      · rw [Stream.followedBy_empty_of_last _ taken] at arranges
        rw [queue.toList_of_last taken] at forced ⊢
        have arranged := forced task List.mem_cons_self found arranges
        exact ⟨[], [found], .empty, .cons arranged .nil, by simp⟩
      · rw [Stream.followedBy_empty_of_more _ taken] at arranges
        rw [queue.toList_of_more taken] at forced ⊢
        rw [List.forall_mem_cons] at forced
        have smaller : rest.size < size :=
          counted ▸ Queue.size_lt_of_take taken
        rcases ih rest.size smaller forced.2 arranges rfl with
          ⟨front, lists, onFront, queued, rfl⟩
        exact ⟨[], front :: lists, .empty,
          .cons (forced.1 front onFront) queued, rfl⟩
    · rw [Stream.followedBy_of_ne_empty _ ended] at arranges
      exact of_enqueue arranges

theorem of_andThen
    {goal : Goal Code}
    (explored :
      ∀ middle found, (goal.explore gaps middle).Arranges goalOf gaps found →
        Arrangement goalOf gaps goal middle found)
    {stream : Branches Code}
    {found : List (Located Subst)}
    (arranges :
      Stream.Arranges goalOf gaps (Branches.andThen gaps goal stream) found) :
    ∃ entries : List (Located Subst × List (Located Subst)),
      stream.Arranges goalOf gaps (entries.map Prod.fst) ∧
        (∀ entry ∈ entries, Arrangement goalOf gaps goal entry.1 entry.2) ∧
          ShuffleAll (entries.map Prod.snd) found := by
  induction stream generalizing found with
  | empty =>
    cases arranges
    exact ⟨[], .empty, by simp, .nil⟩
  | ready result rest ih =>
    rcases of_interleave arranges with
      ⟨own, after, onOwn, onAfter, shuffled⟩
    rcases ih onAfter with ⟨entries, onRest, fed, shuffledRest⟩
    refine ⟨(result, own) :: entries, .ready onRest, ?_,
      .cons shuffledRest shuffled⟩
    rw [List.forall_mem_cons]
    exact ⟨explored result own onOwn, fed⟩
  | suspended | merge | bind | append =>
    cases arranges with
    | bind inside fed shuffled => exact ⟨_, inside, fed, shuffled⟩

end Stream.Arranges

variable {goalOf gaps}

/-! ### Going back over the work -/

/-- The stream of a goal has no orders but those of the goal. -/
theorem Goal.arrangement_of_arranges
    (goal : Goal Code)
    (start : Located Subst)
    (found : List (Located Subst))
    (arranges : (goal.explore gaps start).Arranges goalOf gaps found) :
    Arrangement goalOf gaps goal start found := by
  induction goal using Goal.induction generalizing start found with
  | eq left right =>
    rw [Goal.explore] at arranges
    split at arranges
    next extended success =>
      cases arranges with
      | ready others =>
        cases others
        exact .unified success
    next failure =>
      cases arranges
      exact .clash failure
  | succeed =>
    cases arranges with
    | ready others =>
      cases others
      exact .succeed
  | fail =>
    cases arranges
    exact .fail
  | both first second firstIH secondIH =>
    rcases Stream.Arranges.of_andThen secondIH arranges with
      ⟨entries, inside, fed, shuffled⟩
    exact .both (firstIH start _ inside) fed shuffled
  | either left right leftIH rightIH =>
    rcases Stream.Arranges.of_interleave arranges with
      ⟨lefts, rights, onLeft, onRight, shuffled⟩
    exact .either (leftIH _ _ onLeft) (rightIH _ _ onRight) shuffled
  | ordered left right leftIH rightIH =>
    -- The right goal waits in a queue, behind what the left one gives.
    have queued :
        Stream.Arranges goalOf gaps
          (Stream.followedBy (m := Id)
            (fun _ => right.explore gaps ⟨start.place.right, start.value⟩)
            (left.explore gaps ⟨start.place.left, start.value⟩)
            (.one ⟨start.place.right, .apply right start.value⟩)) found := by
      rw [Stream.followedBy_one (m := Id)]
      exact arranges
    rcases Stream.Arranges.of_followedBy
        (by simpa [Task.Arranges] using rightIH _) queued with
      ⟨front, lists, onFront, onQueue, rfl⟩
    rw [Queue.toList_one] at onQueue
    cases onQueue with
    | cons onRight onNone =>
      cases onNone
      rw [List.flatten_cons, List.flatten_nil, List.append_nil]
      exact .ordered (leftIH _ _ onFront) onRight
  | defer code =>
    cases arranges with
    | suspended arranged => exact arranged
  | dynamic builder ih =>
    rw [Goal.explore_dynamic] at arranges
    exact .dynamic (ih _ _ _ _ arranges)

theorem Task.arranges_of_explore
    (task : Located (Task Code))
    (found : List (Located Subst))
    (arranges :
      Stream.Arranges goalOf gaps (Task.explore goalOf gaps task) found) :
    Task.Arranges goalOf gaps task found := by
  rcases task with ⟨place, goal | code⟩
  · exact Goal.arrangement_of_arranges _ _ _ arranges
  · exact .defer (Goal.arrangement_of_arranges _ _ _ arranges)

theorem Stream.Arranges.of_advance
    {stream : Branches Code}
    {found : List (Located Subst)}
    (arranges :
      (Branches.advance goalOf gaps stream).Arranges goalOf gaps found) :
    stream.Arranges goalOf gaps found := by
  have forced (queue : Queue (Located (Task Code))) :
      ∀ task ∈ queue.toList, ∀ found,
        (Task.explore goalOf gaps task).Arranges goalOf gaps found →
          Task.Arranges goalOf gaps task found :=
    fun task _ found => Task.arranges_of_explore task found
  induction stream generalizing found with
  | empty | ready => exact arranges
  | suspended task =>
    rw [Branches.advance_suspended] at arranges
    exact .suspended (Task.arranges_of_explore task found arranges)
  | merge left right leftIH _ =>
    rw [Branches.advance_merge] at arranges
    rcases of_interleave arranges with
      ⟨rights, lefts, onRight, onLeft, shuffled⟩
    exact .merge (leftIH onLeft) onRight shuffled.symm
  | bind inner goal ih =>
    rw [Branches.advance_bind] at arranges
    rcases of_andThen goal.arrangement_of_arranges arranges with
      ⟨entries, inside, fed, shuffled⟩
    exact .bind (ih inside) fed shuffled
  | append inner queue ih =>
    rcases worked : inner.isReady with _ | _
    · rw [Branches.advance_append_of_pending goalOf gaps worked] at arranges
      rcases of_followedBy (forced queue) arranges with
        ⟨front, lists, onFront, queued, rfl⟩
      exact .append (ih onFront) queued
    · rw [Branches.advance_append_of_isReady goalOf gaps worked] at arranges
      rcases of_followedBy (forced queue) arranges with
        ⟨front, lists, onFront, queued, rfl⟩
      exact .append onFront queued

/-- The result that a step takes is in front of those that are left. -/
theorem Stream.Arranges.of_step
    {stream : Branches Code}
    {found : List (Located Subst)}
    (arranges :
      (Branches.step goalOf gaps stream).Arranges goalOf gaps found) :
    stream.Arranges goalOf gaps (stream.front ++ found) := by
  rcases stream.cases_of_shape with rfl | ⟨_, _, rfl⟩ | shaped
  · rwa [Branches.step_empty] at arranges
  · exact .ready arranges
  · rw [Branches.step_of_pending goalOf gaps shaped] at arranges
    rw [Stream.front_of_pending shaped]
    exact of_advance arranges

/-- A stream that has ended has delivered its results in an allowed order. -/
theorem Stream.arranges_delivered
    {stream : Branches Code}
    {time : Nat}
    (ended : Branches.stagesFrom goalOf gaps stream time = .empty) :
    stream.Arranges goalOf gaps
      (Stream.delivered (Branches.stagesFrom goalOf gaps stream) time) := by
  induction time generalizing stream with
  | zero =>
    cases ended
    exact .empty
  | succ time ih =>
    rw [Stream.delivered_succ_left, Branches.stagesFrom_succ]
    exact (ih ended).of_step

end Streams

/-! ## Searches that end -/

section Completes

variable (goalOf : Code → Recipe (Goal Code)) (gaps : Gaps)

/-- A located search ends when it has delivered these results, in this order. -/
def Goal.Completes
    (goal : Goal Code)
    (start : Located Subst)
    (results : List (Located Subst)) : Prop :=
  ∃ time,
    Branches.stagesFrom goalOf gaps (goal.explore gaps start) time = .empty ∧
      goal.located goalOf gaps start time = results

variable {goalOf gaps} {goal : Goal Code} {start : Located Subst}
  {results : List (Located Subst)}

theorem Goal.Completes.arrangement
    (completes : goal.Completes goalOf gaps start results) :
    Arrangement goalOf gaps goal start results := by
  rcases completes with ⟨time, ended, rfl⟩
  exact goal.arrangement_of_arranges start _ (Stream.arranges_delivered ended)

theorem Goal.Completes.exists_listing
    (completes : goal.Completes goalOf gaps start results) :
    ∃ found, Listing goalOf gaps goal start found ∧ results.Perm found :=
  completes.arrangement.exists_listing

/-- A search ends with the results that are listed, in some order. -/
theorem Listing.exists_completes
    {found : List (Located Subst)}
    (listing : Listing goalOf gaps goal start found) :
    ∃ results,
      goal.Completes goalOf gaps start results ∧ results.Perm found := by
  rcases listing.exists_tally with ⟨cost, tally⟩
  rcases tally.fits with ⟨work, _, holds⟩
  rcases holds.exists_ended with ⟨time, ended, all⟩
  exact ⟨_, ⟨time, ended, rfl⟩, Multiset.coe_eq_coe.mp all⟩

/-- A search of the library ends as the located search with its gaps. -/
theorem Goal.Completes.drains
    {subst : Subst}
    {session : Session}
    (completes :
      goal.Completes goalOf gaps (.root subst session) results)
    (fit : gaps.Fit goalOf goal subst session) :
    goal.Drains goalOf subst session (results.map Located.value) := by
  rcases completes with ⟨time, ended, rfl⟩
  exact fit.drains ended

end Completes

end RelationalSearch
