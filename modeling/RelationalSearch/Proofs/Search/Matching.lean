import RelationalSearch.Proofs.Search.Explore
import RelationalSearch.Proofs.Search.Lockstep

/-!
# Matching searches

Two located streams match if they have the same shape, their results are related
one by one, and what is forced or fed onwards in the one matches what is forced
or fed onwards in the other (`Branches.Matched`).  This is said up to a number
of suspensions that are forced on the way, so that searches without an end can
be compared by induction on that number.

Between a stream and a goal that it is fed to, the results may be related in any
way, as long as related results lead to matching streams.  So a proof follows
the goals of two searches, with an assertion about the two substitutions at each
point.
-/

namespace RelationalSearch

variable {Code : Type}

/-- A relation between the results of two searches. -/
abbrev Correlation := Located Subst → Located Subst → Prop

/-- The substitution holds variables below the supply of its place only. -/
def Located.Held (start : Located Subst) : Prop :=
  start.value.Within start.place.supply

/-- The substitution that a task is about, at the place of the task. -/
def Located.state (task : Located (Task Code)) : Located Subst :=
  match task.value with
  | .apply _ subst => ⟨task.place, subst⟩
  | .deferred _ subst => ⟨task.place, subst⟩

/-- The results in a stream, and the substitutions that its tasks are about. -/
def Branches.states (stream : Branches Code) : List (Located Subst) :=
  stream.leaves Located.state id

/-- The streams have the same shape, and related results and tasks in it. -/
inductive Branches.Matched
    (gaps otherGaps : Gaps)
    (forced : Correlation → Located (Task Code) → Located (Task Code) → Prop) :
    Correlation → Branches Code → Branches Code → Prop where
  | empty {results : Correlation} :
      Matched gaps otherGaps forced results .empty .empty
  | ready
      {results : Correlation} {result otherResult : Located Subst}
      {rest otherRest : Branches Code}
      (held : result.Held ∧ otherResult.Held)
      (here : results result otherResult)
      (rests : Matched gaps otherGaps forced results rest otherRest) :
      Matched gaps otherGaps forced results (.ready result rest)
        (.ready otherResult otherRest)
  | suspended
      {results : Correlation} {task other : Located (Task Code)}
      (tasks : forced results task other) :
      Matched gaps otherGaps forced results (.suspended task) (.suspended other)
  | merge
      {results : Correlation} {left right otherLeft otherRight : Branches Code}
      (lefts : Matched gaps otherGaps forced results left otherLeft)
      (rights : Matched gaps otherGaps forced results right otherRight) :
      Matched gaps otherGaps forced results (.merge left right)
        (.merge otherLeft otherRight)
  | bind
      {middles results : Correlation} {inner other : Branches Code}
      {goal otherGoal : Goal Code}
      (inners : Matched gaps otherGaps forced middles inner other)
      (feeds : ∀ middle otherMiddle, middles middle otherMiddle →
        Matched gaps otherGaps forced results (goal.explore gaps middle)
          (otherGoal.explore otherGaps otherMiddle)) :
      Matched gaps otherGaps forced results (.bind inner goal)
        (.bind other otherGoal)
  | append
      {results : Correlation} {inner other : Branches Code}
      {queue otherQueue : Queue (Located (Task Code))}
      (inners : Matched gaps otherGaps forced results inner other)
      (queues :
        List.Forall₂ (forced results) queue.toList otherQueue.toList) :
      Matched gaps otherGaps forced results (.append inner queue)
        (.append other otherQueue)

/-- What the tasks lead to matches, as far as more suspensions may be forced. -/
def Task.Matched
    (goalOf : Code → Recipe (Goal Code))
    (gaps otherGaps : Gaps) :
    Nat → Correlation → Located (Task Code) → Located (Task Code) → Prop
  | 0, _, task, other => task.state.Held ∧ other.state.Held
  | depth + 1, results, task, other =>
    (task.state.Held ∧ other.state.Held) ∧
      Branches.Matched gaps otherGaps
        (Task.Matched goalOf gaps otherGaps depth) results
        (Task.explore goalOf gaps task) (Task.explore goalOf otherGaps other)

/-- The streams match, as far as some number of suspensions may be forced. -/
abbrev Branches.MatchedTo
    (goalOf : Code → Recipe (Goal Code))
    (gaps otherGaps : Gaps)
    (depth : Nat) :
    Correlation → Branches Code → Branches Code → Prop :=
  Branches.Matched gaps otherGaps (Task.Matched goalOf gaps otherGaps depth)

section Matched

variable {goalOf : Code → Recipe (Goal Code)} {gaps otherGaps : Gaps}
  {depth : Nat} {results : Correlation}

theorem Task.Matched.held
    {task other : Located (Task Code)}
    (tasks : Task.Matched goalOf gaps otherGaps depth results task other) :
    task.state.Held ∧ other.state.Held := by
  cases depth with
  | zero => exact tasks
  | succ depth => exact tasks.1

namespace Branches

/-- Fewer demands may be made of tasks, and of results. -/
theorem Matched.imp
    {forced otherForced :
      Correlation → Located (Task Code) → Located (Task Code) → Prop}
    (tasks : ∀ {results others : Correlation} {task other},
      (∀ result other, results result other → others result other) →
        forced results task other → otherForced others task other)
    {stream other : Branches Code}
    (matched : Matched gaps otherGaps forced results stream other)
    {others : Correlation}
    (weaker : ∀ result other, results result other → others result other) :
    Matched gaps otherGaps otherForced others stream other := by
  induction matched generalizing others with
  | empty => exact .empty
  | ready held here _ ih => exact .ready held (weaker _ _ here) (ih weaker)
  | suspended same => exact .suspended (tasks weaker same)
  | merge _ _ leftIH rightIH => exact .merge (leftIH weaker) (rightIH weaker)
  | bind _ _ innerIH feedsIH =>
    exact .bind (innerIH fun _ _ same => same) fun middle otherMiddle related =>
      feedsIH middle otherMiddle related weaker
  | append _ queues ih =>
    exact .append (ih weaker) (queues.imp fun _ _ same => tasks weaker same)

end Branches

/-- What matches further on matches nearer by, and with weaker results. -/
theorem Task.Matched.imp
    {less : Nat}
    (fewer : less ≤ depth)
    {others : Correlation}
    (weaker : ∀ result other, results result other → others result other)
    {task other : Located (Task Code)}
    (tasks : Task.Matched goalOf gaps otherGaps depth results task other) :
    Task.Matched goalOf gaps otherGaps less others task other := by
  induction less generalizing depth results others task other with
  | zero => exact tasks.held
  | succ less ih =>
    cases depth with
    | zero => exact (Nat.not_succ_le_zero less fewer).elim
    | succ depth =>
      have later {results others : Correlation}
          {task other : Located (Task Code)}
          (weaker : ∀ result other, results result other → others result other)
          (same :
            Task.Matched goalOf gaps otherGaps depth results task other) :
          Task.Matched goalOf gaps otherGaps less others task other :=
        ih (Nat.le_of_succ_le_succ fewer) weaker same
      exact ⟨tasks.1, tasks.2.imp (@later) weaker⟩

namespace Branches

theorem MatchedTo.imp
    {less : Nat}
    {stream other : Branches Code}
    (matched :
      MatchedTo goalOf gaps otherGaps depth results stream other)
    (fewer : less ≤ depth)
    {others : Correlation}
    (weaker : ∀ result other, results result other → others result other) :
    MatchedTo goalOf gaps otherGaps less others stream other :=
  Matched.imp (fun weaker same => same.imp fewer weaker) matched weaker

section Combined

variable
  {forced : Correlation → Located (Task Code) → Located (Task Code) → Prop}
  {stream other : Branches Code}

theorem Matched.shape_eq
    (matched : Matched gaps otherGaps forced results stream other) :
    stream.shape = other.shape := by
  cases matched <;> rfl

theorem Matched.isReady_eq
    (matched : Matched gaps otherGaps forced results stream other) :
    stream.isReady = other.isReady := by
  cases matched <;> rfl

theorem Matched.front
    (matched : Matched gaps otherGaps forced results stream other) :
    List.Forall₂ results stream.front other.front := by
  cases matched with
  | ready _ here => exact .cons here .nil
  | empty | suspended | merge | bind | append => exact .nil

/-- The states in matching streams are held. -/
theorem Matched.states_held
    (tasks : ∀ {results : Correlation} {task other : Located (Task Code)},
      forced results task other → task.state.Held ∧ other.state.Held)
    (matched : Matched gaps otherGaps forced results stream other) :
    List.Forall₂ (fun state otherState => state.Held ∧ otherState.Held)
      stream.states other.states := by
  induction matched with
  | empty => exact .nil
  | ready held _ _ ih => exact .cons held ih
  | suspended same => exact .cons (tasks same) .nil
  | merge _ _ leftIH rightIH => exact List.rel_append leftIH rightIH
  | bind _ _ ih => exact ih
  | append _ queues ih =>
    refine List.rel_append ih ?_
    rw [List.forall₂_map_left_iff, List.forall₂_map_right_iff]
    exact queues.imp fun _ _ same => tasks same

theorem Matched.interleave
    {left right otherLeft otherRight : Branches Code}
    (lefts : Matched gaps otherGaps forced results left otherLeft)
    (rights : Matched gaps otherGaps forced results right otherRight) :
    Matched gaps otherGaps forced results (left.interleave right)
      (otherLeft.interleave otherRight) := by
  -- A pending stream is merged with the right one, unless that is empty.
  have merged {left other : Branches Code}
      (lefts : Matched gaps otherGaps forced results left other)
      (pending : left.shape = .pending) :
      Matched gaps otherGaps forced results (left.interleave right)
        (other.interleave otherRight) := by
    cases ended : right.isEmpty with
    | true =>
      cases rights <;> cases ended
      rwa [Stream.interleave_empty_right, Stream.interleave_empty_right]
    | false =>
      rw [Stream.interleave_of_pending pending (by rintro rfl; cases ended),
        Stream.interleave_of_pending (lefts.shape_eq ▸ pending) (by
          rintro rfl
          cases rights
          cases ended)]
      exact .merge lefts rights
  induction lefts with
  | empty => exact rights
  | ready held here _ ih => exact .ready held here (ih rights @merged)
  | suspended tasks => exact merged (.suspended tasks) rfl
  | merge lefts others => exact merged (.merge lefts others) rfl
  | bind inners feeds => exact merged (.bind inners feeds) rfl
  | append inners queues => exact merged (.append inners queues) rfl

theorem Matched.enqueue
    {queue otherQueue : Queue (Located (Task Code))}
    (matched : Matched gaps otherGaps forced results stream other)
    (queues :
      List.Forall₂ (forced results) queue.toList otherQueue.toList) :
    Matched gaps otherGaps forced results (Stream.enqueue queue stream)
      (Stream.enqueue otherQueue other) := by
  induction matched with
  | empty => exact .append .empty queues
  | ready held here _ ih => exact .ready held here (ih queues)
  | suspended tasks => exact .append (.suspended tasks) queues
  | merge lefts rights => exact .append (.merge lefts rights) queues
  | bind inners feeds => exact .append (.bind inners feeds) queues
  | append inners earlier =>
    refine .append inners ?_
    rw [Queue.toList_join, Queue.toList_join]
    exact List.rel_append earlier queues

/-- Related results are fed onwards to matching streams. -/
theorem Matched.andThen
    {middles : Correlation}
    {goal otherGoal : Goal Code}
    (matched : Matched gaps otherGaps forced middles stream other)
    (feeds : ∀ middle otherMiddle, middles middle otherMiddle →
      Matched gaps otherGaps forced results (goal.explore gaps middle)
        (otherGoal.explore otherGaps otherMiddle)) :
    Matched gaps otherGaps forced results (andThen gaps goal stream)
      (andThen otherGaps otherGoal other) := by
  induction matched with
  | empty => exact .empty
  | ready _ here _ ih => exact (feeds _ _ here).interleave (ih feeds)
  | suspended tasks => exact .bind (.suspended tasks) feeds
  | merge lefts rights => exact .bind (.merge lefts rights) feeds
  | bind inners others => exact .bind (.bind inners others) feeds
  | append inners queues => exact .bind (.append inners queues) feeds

end Combined

theorem MatchedTo.followedBy
    {stream other : Branches Code}
    {queue otherQueue : Queue (Located (Task Code))}
    (matched : MatchedTo goalOf gaps otherGaps depth results stream other)
    (queues :
      List.Forall₂ (Task.Matched goalOf gaps otherGaps (depth + 1) results)
        queue.toList otherQueue.toList) :
    MatchedTo goalOf gaps otherGaps depth results
      (followedBy goalOf gaps stream queue)
      (followedBy goalOf otherGaps other otherQueue) := by
  induction counted : queue.size using Nat.strongRecOn
    generalizing stream other queue otherQueue with
  | _ size ih =>
    rw [Branches.followedBy, Branches.followedBy]
    cases ended : stream.isEmpty with
    | false =>
      rw [Stream.followedBy_of_ne_empty _ (by rintro rfl; cases ended),
        Stream.followedBy_of_ne_empty _ (by
          rintro rfl
          cases matched
          cases ended)]
      refine Matched.enqueue matched (queues.imp fun _ _ tasks => ?_)
      exact tasks.imp (Nat.le_succ depth) fun _ _ same => same
    | true =>
      cases matched <;> cases ended
      have fronts := Queue.related_take queues
      rcases taken : queue.take with ⟨task, _ | rest⟩
      · rcases takenToo : otherQueue.take with ⟨other, _ | otherRest⟩
        all_goals
          rw [taken, takenToo] at fronts
          rcases fronts with ⟨tasks, rests⟩
        · rw [Stream.followedBy_empty_of_last _ taken,
            Stream.followedBy_empty_of_last _ takenToo]
          exact tasks.2
        · cases rests
      · rcases takenToo : otherQueue.take with ⟨other, _ | otherRest⟩
        all_goals
          rw [taken, takenToo] at fronts
          rcases fronts with ⟨tasks, rests⟩
        · cases rests
        · rw [Stream.followedBy_empty_of_more _ taken,
            Stream.followedBy_empty_of_more _ takenToo]
          rcases rests with ⟨rests⟩
          exact ih rest.size (counted ▸ Queue.size_lt_of_take taken)
            tasks.2 rests rfl

/-- Working on matching streams leaves streams that match less far. -/
theorem MatchedTo.advance
    {stream other : Branches Code}
    (matched :
      MatchedTo goalOf gaps otherGaps (depth + 1) results stream other) :
    MatchedTo goalOf gaps otherGaps depth results
      (advance goalOf gaps stream) (advance goalOf otherGaps other) := by
  have nearer {results : Correlation} {stream other : Branches Code}
      (matched :
        MatchedTo goalOf gaps otherGaps (depth + 1) results stream other) :
      MatchedTo goalOf gaps otherGaps depth results stream other :=
    matched.imp (Nat.le_succ depth) fun _ _ same => same
  induction matched with
  | empty => exact .empty
  | ready held here rests => exact nearer (.ready held here rests)
  | suspended tasks =>
    rw [advance_suspended, advance_suspended]
    exact tasks.2
  | merge _ rights leftIH _ =>
    rw [advance_merge, advance_merge]
    exact (nearer rights).interleave leftIH
  | bind _ feeds ih =>
    rw [advance_bind, advance_bind]
    exact Matched.andThen ih fun middle otherMiddle related =>
      nearer (feeds middle otherMiddle related)
  | @append _ inner other queue otherQueue inners queues ih =>
    rcases worked : inner.isReady with _ | _
    · rw [advance_append_of_pending goalOf gaps worked,
        advance_append_of_pending goalOf otherGaps
          (inners.isReady_eq ▸ worked)]
      exact MatchedTo.followedBy ih queues
    · rw [advance_append_of_isReady goalOf gaps worked,
        advance_append_of_isReady goalOf otherGaps
          (inners.isReady_eq ▸ worked)]
      exact MatchedTo.followedBy (nearer inners) queues

theorem MatchedTo.step
    {stream other : Branches Code}
    (matched :
      MatchedTo goalOf gaps otherGaps (depth + 1) results stream other) :
    MatchedTo goalOf gaps otherGaps depth results
      (step goalOf gaps stream) (step goalOf otherGaps other) := by
  by_cases pending : stream.shape = .pending
  · rw [step_of_pending goalOf gaps pending,
      step_of_pending goalOf otherGaps (matched.shape_eq ▸ pending)]
    exact matched.advance
  · cases matched with
    | empty => exact .empty
    | ready _ _ rests =>
      exact MatchedTo.imp rests (Nat.le_succ depth) fun _ _ same => same
    | suspended | merge | bind | append => exact (pending rfl).elim

end Branches

/-! ## Goals made of others -/

section Goals

variable {first second otherFirst otherSecond : Goal Code}
  {start otherStart : Located Subst}

theorem Branches.MatchedTo.unit
    {result otherResult : Located Subst}
    (held : result.Held ∧ otherResult.Held)
    (here : results result otherResult) :
    Branches.MatchedTo goalOf gaps otherGaps depth results (.unit result)
      (.unit otherResult) :=
  .ready held here .empty

/-- What the first goals lead to has to be matched behind them. -/
theorem Branches.MatchedTo.both
    {middles : Correlation}
    (firsts :
      Branches.MatchedTo goalOf gaps otherGaps depth middles
        (first.explore gaps start) (otherFirst.explore otherGaps otherStart))
    (seconds :
      ∀ middle otherMiddle, middles middle otherMiddle →
        Branches.MatchedTo goalOf gaps otherGaps depth results
          (second.explore gaps middle)
          (otherSecond.explore otherGaps otherMiddle)) :
    Branches.MatchedTo goalOf gaps otherGaps depth results
      ((Goal.both first second).explore gaps start)
      ((Goal.both otherFirst otherSecond).explore otherGaps otherStart) := by
  rw [Goal.explore, Goal.explore]
  exact Branches.Matched.andThen firsts seconds

theorem Branches.MatchedTo.either
    (lefts :
      Branches.MatchedTo goalOf gaps otherGaps depth results
        (first.explore gaps ⟨start.place.left, start.value⟩)
        (otherFirst.explore otherGaps
          ⟨otherStart.place.left, otherStart.value⟩))
    (rights :
      Branches.MatchedTo goalOf gaps otherGaps depth results
        (second.explore gaps ⟨start.place.right, start.value⟩)
        (otherSecond.explore otherGaps
          ⟨otherStart.place.right, otherStart.value⟩)) :
    Branches.MatchedTo goalOf gaps otherGaps depth results
      ((Goal.either first second).explore gaps start)
      ((Goal.either otherFirst otherSecond).explore otherGaps
        otherStart) := by
  rw [Goal.explore, Goal.explore]
  exact Branches.Matched.interleave lefts rights

theorem Branches.MatchedTo.ordered
    (held : start.Held ∧ otherStart.Held)
    (lefts :
      Branches.MatchedTo goalOf gaps otherGaps depth results
        (first.explore gaps ⟨start.place.left, start.value⟩)
        (otherFirst.explore otherGaps
          ⟨otherStart.place.left, otherStart.value⟩))
    (rights :
      Branches.MatchedTo goalOf gaps otherGaps depth results
        (second.explore gaps ⟨start.place.right, start.value⟩)
        (otherSecond.explore otherGaps
          ⟨otherStart.place.right, otherStart.value⟩)) :
    Branches.MatchedTo goalOf gaps otherGaps depth results
      ((Goal.ordered first second).explore gaps start)
      ((Goal.ordered otherFirst otherSecond).explore otherGaps
        otherStart) := by
  have queues : List.Forall₂
      (Task.Matched goalOf gaps otherGaps (depth + 1) results)
      (Queue.one ⟨start.place.right, .apply second start.value⟩).toList
      (Queue.one ⟨otherStart.place.right,
        .apply otherSecond otherStart.value⟩).toList :=
    .cons ⟨held, rights⟩ .nil
  have together := Branches.MatchedTo.followedBy lefts queues
  rw [Branches.followedBy, Branches.followedBy, Stream.followedBy_one,
    Stream.followedBy_one] at together
  rw [Goal.explore, Goal.explore]
  exact together

/-- The two goals are unifications that match if they come out alike. -/
theorem Branches.MatchedTo.eq
    {left right otherLeft otherRight : Term}
    (outcomes :
      Option.Rel
        (fun extended otherExtended =>
          (extended.Within start.place.supply ∧
              otherExtended.Within otherStart.place.supply) ∧
            results ⟨start.place, extended⟩ ⟨otherStart.place, otherExtended⟩)
        (start.value.unify left right)
        (otherStart.value.unify otherLeft otherRight)) :
    Branches.MatchedTo goalOf gaps otherGaps depth results
      ((Goal.eq left right).explore gaps start)
      ((Goal.eq otherLeft otherRight).explore otherGaps otherStart) := by
  rw [Goal.explore, Goal.explore]
  generalize start.value.unify left right = outcome at outcomes ⊢
  generalize otherStart.value.unify otherLeft otherRight = otherOutcome
    at outcomes ⊢
  cases outcomes with
  | none => exact .empty
  | some both => exact Branches.MatchedTo.unit both.1 both.2

theorem Branches.MatchedTo.eq_of_some
    {left right otherLeft otherRight : Term}
    {extended otherExtended : Subst}
    (success : start.value.unify left right = some extended)
    (otherSuccess :
      otherStart.value.unify otherLeft otherRight = some otherExtended)
    (held :
      extended.Within start.place.supply ∧
        otherExtended.Within otherStart.place.supply)
    (here : results ⟨start.place, extended⟩ ⟨otherStart.place, otherExtended⟩) :
    Branches.MatchedTo goalOf gaps otherGaps depth results
      ((Goal.eq left right).explore gaps start)
      ((Goal.eq otherLeft otherRight).explore otherGaps otherStart) := by
  refine Branches.MatchedTo.eq ?_
  rw [success, otherSuccess]
  exact .some ⟨held, here⟩

end Goals

/-! ## Whole searches -/

namespace Branches

/-- Matching streams are matched after any number of steps. -/
theorem MatchedTo.stagesFrom
    {stream other : Branches Code}
    {time : Nat}
    (matched :
      MatchedTo goalOf gaps otherGaps (depth + time) results stream other) :
    MatchedTo goalOf gaps otherGaps depth results
      (stagesFrom goalOf gaps stream time)
      (stagesFrom goalOf otherGaps other time) := by
  induction time generalizing stream other with
  | zero => exact matched
  | succ time ih => exact ih (MatchedTo.step matched)

end Branches

end Matched

end RelationalSearch
