import RelationalSearch.Proofs.Search.Run

/-!
# Derivations

A derivation of a goal says how a substitution is extended so that the goal
holds: which branch is taken at each disjunction, and by which derivation each
goal of a conjunction and each goal that is built is derived.  Derivations know
nothing of streams or of the order in which branches are searched.

The trace of what a derivation ends with tells all its choices, so there is no
second derivation with the same end (`Derivation.unique`).  A search delivers
nothing that is not derived: `Stream.Promises` says what a stream may still
deliver, and no step of the search promises more.
-/

namespace RelationalSearch

variable {Code : Type}

/-- The ways of deriving a goal from a substitution. -/
inductive Derivation
    (goalOf : Code → Recipe (Goal Code))
    (gaps : Gaps) :
    Goal Code → Located Subst → Located Subst → Type where
  | eq
      {left right : Term} {start : Located Subst} {extended : Subst}
      (unified : start.value.unify left right = some extended) :
      Derivation goalOf gaps (.eq left right) start ⟨start.place, extended⟩
  | succeed {start : Located Subst} :
      Derivation goalOf gaps .succeed start start
  | both
      {first second : Goal Code} {start middle finish : Located Subst}
      (front : Derivation goalOf gaps first start middle)
      (back : Derivation goalOf gaps second middle finish) :
      Derivation goalOf gaps (.both first second) start finish
  | left
      {left right : Goal Code} {start finish : Located Subst}
      (branch :
        Derivation goalOf gaps left ⟨start.place.left, start.value⟩ finish) :
      Derivation goalOf gaps (.either left right) start finish
  | right
      {left right : Goal Code} {start finish : Located Subst}
      (branch :
        Derivation goalOf gaps right ⟨start.place.right, start.value⟩
          finish) :
      Derivation goalOf gaps (.either left right) start finish
  | orderedLeft
      {left right : Goal Code} {start finish : Located Subst}
      (branch :
        Derivation goalOf gaps left ⟨start.place.left, start.value⟩ finish) :
      Derivation goalOf gaps (.ordered left right) start finish
  | orderedRight
      {left right : Goal Code} {start finish : Located Subst}
      (branch :
        Derivation goalOf gaps right ⟨start.place.right, start.value⟩
          finish) :
      Derivation goalOf gaps (.ordered left right) start finish
  | defer
      {code : Code} {start finish : Located Subst}
      (built :
        Derivation goalOf gaps ((goalOf code).goalAt gaps start)
          (start.enter gaps (goalOf code)) finish) :
      Derivation goalOf gaps (.defer code) start finish
  | dynamic
      {builder : Subst → Recipe (Goal Code)} {start finish : Located Subst}
      (built :
        Derivation goalOf gaps ((builder start.value).goalAt gaps start)
          (start.enter gaps (builder start.value)) finish) :
      Derivation goalOf gaps (.dynamic builder) start finish

namespace Derivation

variable {goalOf : Code → Recipe (Goal Code)} {gaps : Gaps}
  {goal : Goal Code} {start : Located Subst}

/-- A derivation only adds turns. -/
theorem trace_isSuffix
    {finish : Located Subst}
    (derivation : Derivation goalOf gaps goal start finish) :
    start.place.trace <:+ finish.place.trace := by
  induction derivation with
  | eq | succeed => exact List.suffix_rfl
  | both _ _ frontIH backIH => exact frontIH.trans backIH
  | left _ ih | right _ ih | orderedLeft _ ih | orderedRight _ ih
  | defer _ ih | dynamic _ ih =>
    exact (List.suffix_cons _ _).trans ih

/-- The turns that a derivation has taken tell the derivation. -/
theorem eq_of_trace_isSuffix
    {finish other : Located Subst}
    (derivation : Derivation goalOf gaps goal start finish)
    (otherDerivation : Derivation goalOf gaps goal start other)
    {trace : Trace}
    (ends : finish.place.trace <:+ trace)
    (otherEnds : other.place.trace <:+ trace) :
    (⟨finish, derivation⟩ :
        Σ finish, Derivation goalOf gaps goal start finish) =
      ⟨other, otherDerivation⟩ := by
  induction derivation generalizing other with
  | eq unified =>
    cases otherDerivation with
    | eq otherUnified =>
      cases unified.symm.trans otherUnified
      rfl
  | succeed =>
    cases otherDerivation
    rfl
  | both front back frontIH backIH =>
    cases otherDerivation with
    | both otherFront otherBack =>
      cases frontIH otherFront (back.trace_isSuffix.trans ends)
        (otherBack.trace_isSuffix.trans otherEnds)
      cases backIH otherBack ends otherEnds
      rfl
  | left branch ih =>
    cases otherDerivation with
    | left otherBranch =>
      cases ih otherBranch ends otherEnds
      rfl
    | right otherBranch =>
      cases eq_of_cons_isSuffix (branch.trace_isSuffix.trans ends)
        (otherBranch.trace_isSuffix.trans otherEnds)
  | right branch ih =>
    cases otherDerivation with
    | left otherBranch =>
      cases eq_of_cons_isSuffix (branch.trace_isSuffix.trans ends)
        (otherBranch.trace_isSuffix.trans otherEnds)
    | right otherBranch =>
      cases ih otherBranch ends otherEnds
      rfl
  | orderedLeft branch ih =>
    cases otherDerivation with
    | orderedLeft otherBranch =>
      cases ih otherBranch ends otherEnds
      rfl
    | orderedRight otherBranch =>
      cases eq_of_cons_isSuffix (branch.trace_isSuffix.trans ends)
        (otherBranch.trace_isSuffix.trans otherEnds)
  | orderedRight branch ih =>
    cases otherDerivation with
    | orderedLeft otherBranch =>
      cases eq_of_cons_isSuffix (branch.trace_isSuffix.trans ends)
        (otherBranch.trace_isSuffix.trans otherEnds)
    | orderedRight otherBranch =>
      cases ih otherBranch ends otherEnds
      rfl
  | defer built ih =>
    cases otherDerivation with
    | defer otherBuilt =>
      cases ih otherBuilt ends otherEnds
      rfl
  | dynamic built ih =>
    cases otherDerivation with
    | dynamic otherBuilt =>
      cases ih otherBuilt ends otherEnds
      rfl

/-- Derivations that take the same turns are the same. -/
theorem unique
    {finish other : Located Subst}
    (derivation : Derivation goalOf gaps goal start finish)
    (otherDerivation : Derivation goalOf gaps goal start other)
    (same : finish.place.trace = other.place.trace) :
    (⟨finish, derivation⟩ :
        Σ finish, Derivation goalOf gaps goal start finish) =
      ⟨other, otherDerivation⟩ :=
  derivation.eq_of_trace_isSuffix otherDerivation (same ▸ List.suffix_rfl)
    List.suffix_rfl

end Derivation

/-! ## Derivations of several goals -/

section Several

variable {goalOf : Code → Recipe (Goal Code)} {gaps : Gaps}

/-- Derivations of several goals, each from the end of the one before it. -/
inductive DerivationChain
    (goalOf : Code → Recipe (Goal Code))
    (gaps : Gaps) :
    List (Goal Code) → Located Subst → Located Subst → Prop where
  | nil {start : Located Subst} : DerivationChain goalOf gaps [] start start
  | cons
      {goal : Goal Code} {goals : List (Goal Code)}
      {start middle finish : Located Subst}
      (front : Derivation goalOf gaps goal start middle)
      (back : DerivationChain goalOf gaps goals middle finish) :
      DerivationChain goalOf gaps (goal :: goals) start finish

theorem nonempty_derivation_foldl_both_iff
    {first : Goal Code}
    {goals : List (Goal Code)}
    {start finish : Located Subst} :
    Nonempty
        (Derivation goalOf gaps (goals.foldl .both first) start finish) ↔
      DerivationChain goalOf gaps (first :: goals) start finish := by
  induction goals generalizing first with
  | nil =>
    constructor
    · rintro ⟨derivation⟩
      exact .cons derivation .nil
    · rintro (_ | ⟨front, _ | _⟩)
      exact ⟨front⟩
  | cons second goals ih =>
    rw [List.foldl_cons, ih]
    constructor
    · rintro (_ | ⟨both, back⟩)
      cases both with
      | both front middle => exact .cons front (.cons middle back)
    · rintro (_ | ⟨front, _ | ⟨middle, back⟩⟩)
      exact .cons (.both front middle) back

/-- All of some goals are derived by a chain of derivations. -/
theorem nonempty_derivation_all_iff
    {goals : List (Goal Code)}
    {start finish : Located Subst} :
    Nonempty (Derivation goalOf gaps (.all goals) start finish) ↔
      DerivationChain goalOf gaps goals start finish := by
  cases goals with
  | nil =>
    constructor
    · rintro ⟨_ | _⟩
      exact .nil
    · rintro ⟨⟩
      exact ⟨.succeed⟩
  | cons goal goals => exact nonempty_derivation_foldl_both_iff

/-- A substitution at the place of one of several branches. -/
def Located.branch : Nat → Located Subst → Located Subst
  | 0, start => ⟨start.place.left, start.value⟩
  | index + 1, start => branch index ⟨start.place.right, start.value⟩

/-- A disjunction is derived by a chain of derivations for one branch. -/
theorem nonempty_derivation_any_iff
    {branches : List (List (Goal Code))}
    {start finish : Located Subst} :
    Nonempty (Derivation goalOf gaps (.any branches) start finish) ↔
      ∃ index goals, branches[index]? = some goals ∧
        DerivationChain goalOf gaps goals (start.branch index) finish := by
  induction branches generalizing start with
  | nil =>
    constructor
    · rintro ⟨_ | _⟩
    · rintro ⟨index, goals, inside, _⟩
      cases inside
  | cons goals branches ih =>
    rw [Goal.any_cons]
    constructor
    · rintro ⟨derivation⟩
      cases derivation with
      | left branch =>
        exact ⟨0, goals, rfl, nonempty_derivation_all_iff.mp ⟨branch⟩⟩
      | right later =>
        rcases ih.mp ⟨later⟩ with ⟨index, others, inside, chain⟩
        exact ⟨index + 1, others, inside, chain⟩
    · rintro ⟨_ | index, others, inside, chain⟩
      · cases inside
        exact (nonempty_derivation_all_iff.mpr chain).map .left
      · have later := ih.mpr ⟨index, others, inside, chain⟩
        exact later.map .right

end Several

/-! ## Nothing is delivered that is not derived -/

section Soundness

variable (goalOf : Code → Recipe (Goal Code)) (gaps : Gaps)

/-- What a task may still deliver. -/
def Task.Promises (task : Located (Task Code)) (finish : Located Subst) :
    Prop :=
  match task.value with
  | .apply goal subst =>
    Nonempty (Derivation goalOf gaps goal ⟨task.place, subst⟩ finish)
  | .deferred code subst =>
    Nonempty (Derivation goalOf gaps (.defer code) ⟨task.place, subst⟩ finish)

/-- What a stream may still deliver. -/
def Stream.Promises : Branches Code → Located Subst → Prop
  | .empty, _ => False
  | .ready result rest, finish => finish = result ∨ Promises rest finish
  | .suspended task, finish => Task.Promises goalOf gaps task finish
  | .merge left right, finish => Promises left finish ∨ Promises right finish
  | .bind inner goal, finish =>
    ∃ middle, Promises inner middle ∧
      Nonempty (Derivation goalOf gaps goal middle finish)
  | .append inner queue, finish =>
    Promises inner finish ∨
      ∃ task ∈ queue.toList, Task.Promises goalOf gaps task finish

variable {goalOf gaps}

theorem Stream.Promises.of_interleave
    {left right : Branches Code}
    {finish : Located Subst}
    (promises : (left.interleave right).Promises goalOf gaps finish) :
    left.Promises goalOf gaps finish ∨
      right.Promises goalOf gaps finish := by
  induction left with
  | empty => exact .inr promises
  | ready result rest ih =>
    rcases promises with here | later
    · exact .inl (.inl here)
    · exact (ih later).imp_left .inr
  | suspended | merge | bind | append =>
    cases right with
    | empty => exact .inl promises
    | ready | suspended | merge | bind | append => exact promises

theorem Stream.Promises.of_enqueue
    {queue : Queue (Located (Task Code))}
    {stream : Branches Code}
    {finish : Located Subst}
    (promises : (Stream.enqueue queue stream).Promises goalOf gaps finish) :
    stream.Promises goalOf gaps finish ∨
      ∃ task ∈ queue.toList, Task.Promises goalOf gaps task finish := by
  induction stream with
  | ready result rest ih =>
    rcases promises with here | later
    · exact .inl (.inl here)
    · exact (ih later).imp_left .inr
  | append inner earlier =>
    rcases promises with inside | ⟨task, member, queued⟩
    · exact .inl (.inl inside)
    · rw [Queue.toList_join, List.mem_append] at member
      rcases member with early | late
      · exact .inl (.inr ⟨task, early, queued⟩)
      · exact .inr ⟨task, late, queued⟩
  | empty | suspended | merge | bind => exact promises

theorem Stream.Promises.of_followedBy
    {force : Located (Task Code) → Branches Code}
    {queue : Queue (Located (Task Code))}
    (forces :
      ∀ task ∈ queue.toList, ∀ finish,
        (force task).Promises goalOf gaps finish →
          Task.Promises goalOf gaps task finish)
    {stream : Branches Code}
    {finish : Located Subst}
    (promises :
      Stream.Promises goalOf gaps
        (Stream.followedBy (m := Id) force stream queue) finish) :
    stream.Promises goalOf gaps finish ∨
      ∃ task ∈ queue.toList, Task.Promises goalOf gaps task finish := by
  induction counted : queue.size using Nat.strongRecOn
    generalizing stream queue with
  | _ size ih =>
    by_cases ended : stream = .empty
    · subst ended
      right
      rcases taken : queue.take with ⟨task, _ | rest⟩
      · have queued := queue.toList_of_last taken
        rw [Stream.followedBy_empty_of_last _ taken] at promises
        have member : task ∈ queue.toList := by simp [queued]
        exact ⟨task, member, forces task member finish promises⟩
      · have queued := queue.toList_of_more taken
        rw [Stream.followedBy_empty_of_more _ taken] at promises
        have member : task ∈ queue.toList := by simp [queued]
        have smaller : rest.size < size :=
          counted ▸ Queue.size_lt_of_take taken
        have restForces := fun other memberRest =>
          forces other (queued ▸ List.mem_cons_of_mem task memberRest)
        rcases ih rest.size smaller restForces promises rfl with
          first | ⟨other, memberRest, later⟩
        · exact ⟨task, member, forces task member finish first⟩
        · exact ⟨other, queued ▸ List.mem_cons_of_mem task memberRest, later⟩
    · rw [Stream.followedBy_of_ne_empty _ ended] at promises
      exact promises.of_enqueue

/-- All that a goal promises from a substitution is derived. -/
def Sound (goalOf : Code → Recipe (Goal Code)) (gaps : Gaps)
    (goal : Goal Code) : Prop :=
  ∀ start finish,
    (goal.explore gaps start).Promises goalOf gaps finish →
      Nonempty (Derivation goalOf gaps goal start finish)

theorem Sound.of_andThen
    {goal : Goal Code}
    (sound : Sound goalOf gaps goal)
    {stream : Branches Code}
    {finish : Located Subst}
    (promises :
      (Branches.andThen gaps goal stream).Promises goalOf gaps finish) :
    ∃ middle, stream.Promises goalOf gaps middle ∧
      Nonempty (Derivation goalOf gaps goal middle finish) := by
  induction stream with
  | empty => exact promises.elim
  | ready result rest ih =>
    rcases Stream.Promises.of_interleave promises with here | later
    · exact ⟨result, .inl rfl, sound result finish here⟩
    · rcases ih later with ⟨middle, promised, derived⟩
      exact ⟨middle, .inr promised, derived⟩
  | suspended | merge | bind | append => exact promises

theorem Goal.sound (goal : Goal Code) : Sound goalOf gaps goal := by
  induction goal using Goal.induction with
  | eq left right =>
    intro start finish promises
    simp only [Goal.explore] at promises
    rcases unified : start.value.unify left right with _ | extended
    · rw [unified] at promises
      exact promises.elim
    · rw [unified] at promises
      rcases promises with rfl | nothing
      · exact ⟨.eq unified⟩
      · exact nothing.elim
  | succeed =>
    intro start finish promises
    rcases promises with rfl | nothing
    · exact ⟨.succeed⟩
    · exact nothing.elim
  | fail =>
    intro start finish promises
    exact promises.elim
  | both first second firstIH secondIH =>
    intro start finish promises
    rcases secondIH.of_andThen promises with ⟨middle, promised, ⟨back⟩⟩
    rcases firstIH start middle promised with ⟨front⟩
    exact ⟨.both front back⟩
  | either left right leftIH rightIH =>
    intro start finish promises
    rcases Stream.Promises.of_interleave promises with onLeft | onRight
    · exact (leftIH _ finish onLeft).map .left
    · exact (rightIH _ finish onRight).map .right
  | ordered left right leftIH rightIH =>
    intro start finish promises
    have rightTask : ∀ task ∈
        (Queue.one (⟨start.place.right, .apply right start.value⟩ :
          Located (Task Code))).toList,
        ∀ finish,
          (right.explore gaps ⟨start.place.right, start.value⟩).Promises
              goalOf gaps finish →
            Task.Promises goalOf gaps task finish := by
      intro task member finish promised
      rw [Queue.toList_one, List.mem_singleton] at member
      subst member
      exact rightIH _ finish promised
    rw [Goal.explore, ← Stream.followedBy_one (m := Id) (fun _ => _)]
      at promises
    rcases Stream.Promises.of_followedBy rightTask promises with
      onLeft | ⟨task, member, onRight⟩
    · exact (leftIH _ finish onLeft).map .orderedLeft
    · rw [Queue.toList_one, List.mem_singleton] at member
      subst member
      exact Nonempty.map .orderedRight onRight
  | defer code =>
    intro start finish promises
    exact promises
  | dynamic builder parts =>
    intro start finish promises
    rw [Goal.explore_dynamic] at promises
    exact (parts start.value _ _ finish promises).map .dynamic

theorem Task.promises_of_explore
    {task : Located (Task Code)}
    {finish : Located Subst}
    (promises :
      (Task.explore goalOf gaps task).Promises goalOf gaps finish) :
    Task.Promises goalOf gaps task finish := by
  rcases task with ⟨place, _ | _⟩
  · exact Goal.sound _ _ finish promises
  · exact (Goal.sound _ _ finish promises).map .defer

/-- A piece of work keeps to what was promised. -/
theorem Stream.Promises.of_advance
    {stream : Branches Code}
    {finish : Located Subst}
    (promises :
      (Branches.advance goalOf gaps stream).Promises goalOf gaps finish) :
    stream.Promises goalOf gaps finish := by
  induction stream generalizing finish with
  | empty | ready => exact promises
  | suspended task =>
    rw [Branches.advance_suspended] at promises
    exact Task.promises_of_explore promises
  | merge left right leftIH _ =>
    rw [Branches.advance_merge] at promises
    rcases promises.of_interleave with onRight | onLeft
    · exact .inr onRight
    · exact .inl (leftIH onLeft)
  | bind inner goal ih =>
    rw [Branches.advance_bind] at promises
    rcases goal.sound.of_andThen promises with ⟨middle, promised, derived⟩
    exact ⟨middle, ih promised, derived⟩
  | append inner queue ih =>
    have forces := fun task (_ : task ∈ queue.toList) finish =>
      @Task.promises_of_explore Code goalOf gaps task finish
    rcases worked : inner.isReady with _ | _
    · rw [Branches.advance_append_of_pending goalOf gaps worked] at promises
      rcases Stream.Promises.of_followedBy forces promises with
        inside | queued
      · exact .inl (ih inside)
      · exact .inr queued
    · rw [Branches.advance_append_of_isReady goalOf gaps worked] at promises
      exact Stream.Promises.of_followedBy forces promises

theorem Stream.promises_of_step
    {stream : Branches Code}
    {finish : Located Subst}
    (promises :
      (Branches.step goalOf gaps stream).Promises goalOf gaps finish) :
    stream.Promises goalOf gaps finish := by
  by_cases pending : stream.shape = .pending
  · rw [Branches.step_of_pending goalOf gaps pending] at promises
    exact promises.of_advance
  · rcases stream with _ | ⟨result, rest⟩ | _ | _ | _ | _
    · rwa [Branches.step_empty] at promises
    · exact .inr promises
    all_goals exact (pending rfl).elim

/-- What is delivered has been promised. -/
theorem Stream.promises_of_mem_delivered
    {stream : Branches Code}
    {finish : Located Subst}
    {count : Nat}
    (member :
      finish ∈
        Stream.delivered (Branches.stagesFrom goalOf gaps stream) count) :
    stream.Promises goalOf gaps finish := by
  induction count generalizing stream with
  | zero => simp at member
  | succ count ih =>
    rw [Stream.delivered_succ_left, List.mem_append] at member
    rcases member with front | later
    · rcases stream with _ | ⟨result, rest⟩ | _ | _ | _ | _
      · exact (List.not_mem_nil front).elim
      · exact .inl (List.mem_singleton.mp front)
      all_goals exact (List.not_mem_nil front).elim
    · rw [Branches.stagesFrom_succ] at later
      exact Stream.promises_of_step (ih later)

/-- What a search delivers is derived. -/
theorem Goal.nonempty_derivation_of_mem_delivered
    {goal : Goal Code}
    {start finish : Located Subst}
    {count : Nat}
    (member :
      finish ∈
        Stream.delivered
          (Branches.stagesFrom goalOf gaps (goal.explore gaps start)) count) :
    Nonempty (Derivation goalOf gaps goal start finish) :=
  goal.sound start finish (Stream.promises_of_mem_delivered member)

end Soundness

end RelationalSearch
