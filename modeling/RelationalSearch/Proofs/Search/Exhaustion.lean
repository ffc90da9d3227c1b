import RelationalSearch.Proofs.Search.Listing

/-!
# Searches that end

What a stream holds is read off its structure: the results that are ready, and
the tallies of all that is left to do.  Combining streams adds up what they
hold, so nothing is lost or repeated where branches change places, and each
piece of work spends one of the suspensions that are to be forced.
-/

namespace RelationalSearch

variable {Code : Type}

section Holds

variable (goalOf : Code → Recipe (Goal Code)) (gaps : Gaps)

/-- The tally of a task, where taking it up counts as well. -/
def Task.Tally
    (task : Located (Task Code))
    (found : Bag)
    (cost : Nat) : Prop :=
  match task.value with
  | .apply goal subst =>
    ∃ own, RelationalSearch.Tally goalOf gaps goal ⟨task.place, subst⟩ found
        own ∧
      cost = own + 1
  | .deferred code subst =>
    RelationalSearch.Tally goalOf gaps (.defer code) ⟨task.place, subst⟩ found
      cost

/-- The results left in a stream, and how often a suspension is to be forced. -/
inductive Stream.Holds : Branches Code → Bag → Nat → Prop where
  | empty : Holds .empty 0 0
  | ready
      {result : Located Subst} {rest : Branches Code}
      {found : Bag} {cost : Nat}
      (others : Holds rest found cost) :
      Holds (.ready result rest) (result ::ₘ found) cost
  | suspended
      {task : Located (Task Code)} {found : Bag} {cost : Nat}
      (tally : Task.Tally goalOf gaps task found cost) :
      Holds (.suspended task) found cost
  | merge
      {left right : Branches Code}
      {lefts rights : Bag} {leftCost rightCost : Nat}
      (pending : left.shape = .pending)
      (onLeft : Holds left lefts leftCost)
      (onRight : Holds right rights rightCost) :
      Holds (.merge left right) (lefts + rights) (leftCost + rightCost)
  | bind
      {inner : Branches Code} {goal : Goal Code}
      {middles found : Bag} {cost more : Nat}
      (pending : inner.shape = .pending)
      (inside : Holds inner middles cost)
      (fed : Batch (Tally goalOf gaps goal) middles found more) :
      Holds (.bind inner goal) found (cost + more)
  | append
      {inner : Branches Code} {queue : Queue (Located (Task Code))}
      {found others : Bag} {cost more : Nat}
      (unready : inner.shape ≠ .mature)
      (inside : Holds inner found cost)
      (queued :
        Batch (Task.Tally goalOf gaps)
          (queue.toList : Multiset (Located (Task Code))) others more) :
      Holds (.append inner queue) (found + others) (cost + more)

/-- A stream holds the results, at no higher cost. -/
def Stream.Fits (stream : Branches Code) (found : Bag) (cost : Nat) : Prop :=
  ∃ work, work ≤ cost ∧ stream.Holds goalOf gaps found work

variable {goalOf gaps}

/-! ## Combining streams -/

theorem Stream.Holds.interleave_of_pending
    {left right : Branches Code}
    {lefts rights : Bag}
    {leftCost rightCost : Nat}
    (pending : left.shape = .pending)
    (onLeft : left.Holds goalOf gaps lefts leftCost)
    (onRight : right.Holds goalOf gaps rights rightCost) :
    (left.interleave right).Holds goalOf gaps (lefts + rights)
      (leftCost + rightCost) := by
  by_cases ended : right = .empty
  · subst ended
    cases onRight
    rw [Stream.interleave_empty_right, add_zero, add_zero]
    exact onLeft
  · rw [Stream.interleave_of_pending pending ended]
    exact .merge pending onLeft onRight

theorem Stream.Holds.interleave
    {left right : Branches Code}
    {lefts rights : Bag}
    {leftCost rightCost : Nat}
    (onLeft : left.Holds goalOf gaps lefts leftCost)
    (onRight : right.Holds goalOf gaps rights rightCost) :
    (left.interleave right).Holds goalOf gaps (lefts + rights)
      (leftCost + rightCost) := by
  induction left generalizing lefts leftCost with
  | empty =>
    cases onLeft
    rw [zero_add, zero_add]
    exact onRight
  | ready result rest ih =>
    cases onLeft with
    | ready others =>
      rw [Multiset.cons_add]
      exact .ready (ih others)
  | suspended | merge | bind | append =>
    exact onLeft.interleave_of_pending rfl onRight

theorem Stream.Holds.enqueue
    {stream : Branches Code}
    {queue : Queue (Located (Task Code))}
    {found others : Bag}
    {cost more : Nat}
    (holds : stream.Holds goalOf gaps found cost)
    (queued :
      Batch (Task.Tally goalOf gaps)
        (queue.toList : Multiset (Located (Task Code))) others more) :
    (Stream.enqueue queue stream).Holds goalOf gaps (found + others)
      (cost + more) := by
  induction stream generalizing found cost with
  | ready result rest ih =>
    cases holds with
    | ready holdsRest =>
      rw [Multiset.cons_add]
      exact .ready (ih holdsRest)
  | append inner earlier =>
    cases holds with
    | append unready inside queuedBefore =>
      rw [add_assoc, add_assoc]
      refine .append unready inside ?_
      rw [Queue.toList_join, ← Multiset.coe_add]
      exact queuedBefore.add queued
  | empty => exact .append (by simp [Stream.shape]) holds queued
  | suspended | merge | bind =>
    exact .append (by simp [Stream.shape]) holds queued

/-- What is fed onwards adds up. -/
theorem Stream.Holds.andThen
    {goal : Goal Code}
    {stream : Branches Code}
    {middles found : Bag}
    {cost more : Nat}
    (holds : stream.Holds goalOf gaps middles cost)
    (fed :
      Batch
        (fun middle found cost =>
          Tally goalOf gaps goal middle found cost ∧
            (goal.explore gaps middle).Fits goalOf gaps found cost)
        middles found more) :
    Stream.Fits goalOf gaps (Branches.andThen gaps goal stream) found
      (cost + more) := by
  induction stream generalizing middles found cost more with
  | empty =>
    cases holds
    rcases batch_zero_iff.mp fed with ⟨rfl, rfl⟩
    exact ⟨0, Nat.zero_le _, .empty⟩
  | ready result rest ih =>
    cases holds with
    | ready others =>
      rcases batch_cons_iff.mp fed with
        ⟨own, after, ownCost, afterCost, ⟨_, ownFits⟩, fedAfter, rfl, rfl⟩
      rcases ownFits with ⟨ownWork, ownLe, ownHolds⟩
      rcases ih others fedAfter with ⟨work, le, holdsAfter⟩
      refine ⟨ownWork + work, ?_, ownHolds.interleave holdsAfter⟩
      omega
  | suspended | merge | bind | append =>
    refine ⟨cost + more, Nat.le_refl _, .bind rfl holds ?_⟩
    exact fed.mono fun _ _ _ tallied => tallied.1

/--
Queued work adds up.  Where nothing is in front of the queue, some of it is
taken up.
-/
theorem Stream.Holds.followedBy
    {force : Located (Task Code) → Branches Code}
    {stream : Branches Code}
    {queue : Queue (Located (Task Code))}
    {found others : Bag}
    {cost more : Nat}
    (holds : stream.Holds goalOf gaps found cost)
    (queued :
      Batch
        (fun task found cost =>
          Task.Tally goalOf gaps task found cost ∧
            ∃ work, work < cost ∧ (force task).Holds goalOf gaps found work)
        (queue.toList : Multiset (Located (Task Code))) others more) :
    ∃ work, work ≤ cost + more ∧
      (stream = .empty → work < cost + more) ∧
      Stream.Holds goalOf gaps
        (Stream.followedBy (m := Id) force stream queue) (found + others)
        work := by
  induction counted : queue.size using Nat.strongRecOn
    generalizing stream queue found others cost more with
  | _ size ih =>
    by_cases ended : stream = .empty
    · subst ended
      cases holds
      rcases taken : queue.take with ⟨task, _ | rest⟩
      · rw [queue.toList_of_last taken, ← Multiset.cons_coe, batch_cons_iff]
          at queued
        rcases queued with
          ⟨own, after, ownCost, afterCost, ⟨_, work, less, forced⟩, nothing,
            rfl, rfl⟩
        rcases batch_zero_iff.mp nothing with ⟨rfl, rfl⟩
        rw [Stream.followedBy_empty_of_last _ taken]
        simp only [zero_add, add_zero]
        exact ⟨work, by omega, fun _ => by omega, forced⟩
      · rw [queue.toList_of_more taken, ← Multiset.cons_coe, batch_cons_iff]
          at queued
        rcases queued with
          ⟨own, after, ownCost, afterCost, ⟨_, work, less, forced⟩, later,
            rfl, rfl⟩
        have smaller : rest.size < size :=
          counted ▸ Queue.size_lt_of_take taken
        rcases ih rest.size smaller forced later rfl with
          ⟨total, bounded, _, holdsAll⟩
        rw [Stream.followedBy_empty_of_more _ taken]
        simp only [zero_add]
        exact ⟨total, by omega, fun _ => by omega, holdsAll⟩
    · rw [Stream.followedBy_of_ne_empty _ ended]
      refine ⟨cost + more, Nat.le_refl _, fun empty => (ended empty).elim, ?_⟩
      exact holds.enqueue (queued.mono fun _ _ _ tallied => tallied.1)

/-! ## Applying goals -/

/-- What is tallied for a goal is what its stream holds. -/
theorem Tally.fits
    {goal : Goal Code}
    {start : Located Subst}
    {found : Bag}
    {cost : Nat}
    (tally : Tally goalOf gaps goal start found cost) :
    (goal.explore gaps start).Fits goalOf gaps found cost := by
  induction tally with
  | unified success =>
    simp only [Goal.explore, success]
    exact ⟨0, Nat.le_refl _, .ready .empty⟩
  | clash failure =>
    simp only [Goal.explore, failure]
    exact ⟨0, Nat.le_refl _, .empty⟩
  | succeed => exact ⟨0, Nat.le_refl _, .ready .empty⟩
  | fail => exact ⟨0, Nat.le_refl _, .empty⟩
  | both _ back frontIH backIH =>
    rcases frontIH with ⟨work, le, holds⟩
    rcases holds.andThen (batch_of_forall fun middle member =>
        ⟨back middle member, backIH middle member⟩) with
      ⟨total, bounded, holdsAll⟩
    exact ⟨total, by omega, holdsAll⟩
  | either _ _ leftIH rightIH =>
    rcases leftIH with ⟨leftWork, leftLe, leftHolds⟩
    rcases rightIH with ⟨rightWork, rightLe, rightHolds⟩
    exact ⟨leftWork + rightWork, by omega, leftHolds.interleave rightHolds⟩
  | ordered _ onRight leftIH rightIH =>
    rename_i left right start lefts rights leftCost rightCost _
    rcases leftIH with ⟨leftWork, leftLe, leftHolds⟩
    rcases rightIH with ⟨rightWork, rightLe, rightHolds⟩
    let task : Located (Task Code) :=
      ⟨start.place.right, .apply right start.value⟩
    have queued :
        Batch
          (fun task found cost =>
            Task.Tally goalOf gaps task found cost ∧
              ∃ work, work < cost ∧
                (right.explore gaps ⟨start.place.right, start.value⟩).Holds
                  goalOf gaps found work)
          ((Queue.one task).toList : Multiset (Located (Task Code))) rights
          (rightCost + 1) := by
      rw [Queue.toList_one, ← Multiset.cons_coe, batch_cons_iff]
      refine ⟨rights, 0, rightCost + 1, 0, ⟨⟨rightCost, onRight, rfl⟩,
        rightWork, by omega, rightHolds⟩, batch_zero_iff.mpr ⟨rfl, rfl⟩, ?_,
        rfl⟩
      rw [add_zero]
    rcases leftHolds.followedBy queued with ⟨work, bounded, _, holdsAll⟩
    rw [Stream.followedBy_one (m := Id)] at holdsAll
    exact ⟨work, by omega, holdsAll⟩
  | defer built ih =>
    exact ⟨_, Nat.le_refl _, .suspended (.defer built)⟩
  | dynamic _ ih =>
    rw [Goal.explore_dynamic]
    exact ih

/-- Taking up a task spends one of its suspensions. -/
theorem Task.Tally.forced
    {task : Located (Task Code)}
    {found : Bag}
    {cost : Nat}
    (tally : Task.Tally goalOf gaps task found cost) :
    ∃ work, work < cost ∧
      (Task.explore goalOf gaps task).Holds goalOf gaps found work := by
  rcases task with ⟨place, _ | _⟩
  · rcases tally with ⟨own, applied, rfl⟩
    rcases applied.fits with ⟨work, le, holds⟩
    exact ⟨work, by omega, holds⟩
  · cases tally with
    | defer built =>
      rcases built.fits with ⟨work, le, holds⟩
      exact ⟨work, by omega, holds⟩

/-! ## Advancing -/

/-- A piece of work keeps the results and spends a suspension. -/
theorem Stream.Holds.advance
    {stream : Branches Code}
    {found : Bag}
    {cost : Nat}
    (holds : stream.Holds goalOf gaps found cost)
    (pending : stream.shape = .pending) :
    ∃ work, work < cost ∧
      (Branches.advance goalOf gaps stream).Holds goalOf gaps found work := by
  induction holds with
  | empty => cases pending
  | ready => cases pending
  | suspended tally =>
    rw [Branches.advance_suspended]
    exact tally.forced
  | merge pendingLeft _ onRight leftIH _ =>
    rename_i lefts rights _ _ _ _
    rcases leftIH pendingLeft with ⟨work, less, holdsLeft⟩
    rw [Branches.advance_merge, add_comm lefts rights]
    refine ⟨_, ?_, onRight.interleave holdsLeft⟩
    omega
  | bind pendingInner _ fed ih =>
    rcases ih pendingInner with ⟨work, less, holdsInner⟩
    have fedFits := fed.mono fun _ _ _ tally => And.intro tally tally.fits
    rcases holdsInner.andThen fedFits with ⟨total, bounded, holdsAll⟩
    rw [Branches.advance_bind]
    exact ⟨total, by omega, holdsAll⟩
  | append unready inside queued ih =>
    rename_i inner queue _ _ _ _
    have queuedForced :=
      queued.mono fun _ _ _ tally => And.intro tally tally.forced
    rcases worked : inner.isReady with _ | _
    · rw [Stream.isReady_eq_false_iff] at worked
      rcases ih worked with ⟨work, less, holdsInner⟩
      rcases holdsInner.followedBy queuedForced with
        ⟨total, bounded, _, holdsAll⟩
      rw [Branches.advance_append_of_pending goalOf gaps
        (Stream.isReady_eq_false_iff.mpr worked)]
      exact ⟨total, by omega, holdsAll⟩
    · have ended : inner = .empty := by
        cases inner <;> simp_all [Stream.isReady, Stream.shape]
      rcases inside.followedBy queuedForced with ⟨total, _, spent, holdsAll⟩
      rw [Branches.advance_append_of_isReady goalOf gaps worked]
      exact ⟨total, spent ended, holdsAll⟩

/-- A stream that holds a bag of results delivers just these and ends. -/
theorem Stream.Holds.exists_ended
    {stream : Branches Code}
    {found : Bag}
    {cost : Nat}
    (holds : stream.Holds goalOf gaps found cost) :
    ∃ count,
      Branches.stagesFrom goalOf gaps stream count = .empty ∧
        (Stream.delivered (Branches.stagesFrom goalOf gaps stream) count :
          Bag) = found := by
  induction measured : cost + found.card using Nat.strongRecOn
    generalizing stream found cost with
  | _ measure ih =>
    rcases stream.cases_of_shape with rfl | ⟨_, _, rfl⟩ | shaped
    · cases holds
      exact ⟨0, rfl, rfl⟩
    · cases holds with
      | ready others =>
        rename_i result rest found
        rw [Multiset.card_cons] at measured
        rcases ih (cost + found.card) (by omega) others rfl with
          ⟨count, ended, all⟩
        refine ⟨count + 1, ended, ?_⟩
        rw [Stream.delivered_succ_left, Branches.stagesFrom_succ,
          Branches.step_ready, ← all]
        rfl
    · rcases holds.advance shaped with ⟨work, less, holdsAfter⟩
      rcases ih (work + found.card) (by omega) holdsAfter rfl with
        ⟨count, ended, all⟩
      rw [← Branches.step_of_pending goalOf gaps shaped] at ended all
      refine ⟨count + 1, ended, ?_⟩
      rw [Stream.delivered_succ_left, Branches.stagesFrom_succ]
      change ((stream.front ++ _ : List (Located Subst)) : Bag) = found
      rw [Stream.front_of_pending shaped]
      exact all

end Holds

end RelationalSearch
