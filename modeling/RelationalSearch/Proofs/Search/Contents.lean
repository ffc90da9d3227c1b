import RelationalSearch.Proofs.Search.Derivation
import RelationalSearch.Proofs.Search.Outcome

/-!
# What a derivation contains

A located search finds what it delivers at some time (`Goal.Finds`).  What is
found for a goal made of others is found by way of what is found for these: of
a disjunction, for one of the sides; of a conjunction, from what is found for
its first goal.  So in a derivation of a result that is delivered, the parts are
derivations of results that are delivered too.

`Derivation.Contains` says which derivations are the parts of a derivation.
-/

namespace RelationalSearch

variable {Code : Type}

/-- The result is delivered by the located stream before some time. -/
def Branches.Finds
    (goalOf : Code → Recipe (Goal Code))
    (gaps : Gaps)
    (stream : Branches Code)
    (time : Nat)
    (finish : Located Subst) : Prop :=
  finish ∈ Stream.delivered (Branches.stagesFrom goalOf gaps stream) time

/-- The result is delivered by the located search of a goal. -/
def Goal.Finds
    (goalOf : Code → Recipe (Goal Code))
    (gaps : Gaps)
    (goal : Goal Code)
    (start finish : Located Subst) : Prop :=
  ∃ time, Branches.Finds goalOf gaps (goal.explore gaps start) time finish

section Finding

variable {goalOf : Code → Recipe (Goal Code)} {gaps : Gaps}

/-! ## Streams -/

namespace Branches

variable {stream left right : Branches Code} {finish : Located Subst}
  {time : Nat}

theorem finds_succ_iff :
    Branches.Finds goalOf gaps stream (time + 1) finish ↔
      finish ∈ stream.front ∨
        Branches.Finds goalOf gaps (step goalOf gaps stream) time finish := by
  rw [Finds, Stream.delivered_succ_left, List.mem_append, stagesFrom_succ]
  rfl

theorem finds_succ_iff_of_pending (pending : stream.shape = .pending) :
    Branches.Finds goalOf gaps stream (time + 1) finish ↔
      Branches.Finds goalOf gaps (advance goalOf gaps stream) time
        finish := by
  rw [finds_succ_iff, Stream.front_of_pending pending,
    step_of_pending goalOf gaps pending]
  exact or_iff_right List.not_mem_nil

theorem not_finds_zero : ¬ Branches.Finds goalOf gaps stream 0 finish :=
  List.not_mem_nil

theorem not_finds_empty : ¬ Branches.Finds goalOf gaps .empty time finish := by
  induction time with
  | zero => exact not_finds_zero
  | succ time ih =>
    rw [finds_succ_iff, step_empty]
    exact not_or_intro List.not_mem_nil ih

theorem Finds.succ
    (finds : Branches.Finds goalOf gaps stream time finish) :
    Branches.Finds goalOf gaps stream (time + 1) finish :=
  (Stream.delivered_prefix_delivered _ (Nat.le_succ time)).subset finds

theorem Finds.eq_of_unit
    {result : Located Subst}
    (finds : Branches.Finds goalOf gaps (.unit result) time finish) :
    finish = result := by
  cases time with
  | zero => exact (not_finds_zero finds).elim
  | succ time =>
    rcases finds_succ_iff.mp finds with front | later
    · exact List.mem_singleton.mp front
    · exact (not_finds_empty later).elim

/-- Of two streams one has found what both have found in turns. -/
theorem Finds.of_interleave
    (finds : Branches.Finds goalOf gaps (left.interleave right) time finish) :
    Branches.Finds goalOf gaps left time finish ∨
      Branches.Finds goalOf gaps right time finish := by
  induction time generalizing left right with
  | zero => exact (not_finds_zero finds).elim
  | succ time ih =>
    by_cases pending : left.shape = .pending
    · by_cases ended : right = .empty
      · subst ended
        rw [Stream.interleave_empty_right] at finds
        exact .inl finds
      · rw [Stream.interleave_of_pending pending ended,
          finds_succ_iff_of_pending rfl, advance_merge] at finds
        rw [finds_succ_iff_of_pending pending]
        exact (ih finds).symm.imp_right Finds.succ
    · rcases left with _ | ⟨result, rest⟩ | _ | _ | _ | _
      · exact .inr finds
      · rw [Stream.interleave_ready, finds_succ_iff, step_ready] at finds
        rw [finds_succ_iff, step_ready]
        rcases finds with front | later
        · exact .inl (.inl front)
        · exact (ih later).imp .inr Finds.succ
      all_goals exact (pending rfl).elim

/-- What is found behind results is found from one of them. -/
theorem Finds.of_andThen
    {goal : Goal Code}
    (finds :
      Branches.Finds goalOf gaps (Branches.andThen gaps goal stream) time
        finish) :
    ∃ earlier middle,
      Branches.Finds goalOf gaps stream earlier middle ∧
        goal.Finds goalOf gaps middle finish := by
  induction time using Nat.strongRecOn generalizing stream with
  | _ time ih =>
    -- A stream that is put off is fed onwards after its next piece of work.
    have later {stream : Branches Code}
        (pending : stream.shape = .pending)
        (finds :
          Branches.Finds goalOf gaps (Branches.andThen gaps goal stream) time
            finish) :
        ∃ earlier middle,
          Branches.Finds goalOf gaps stream earlier middle ∧
            goal.Finds goalOf gaps middle finish := by
      rw [Branches.andThen, Stream.andThen_of_pending _ _ pending] at finds
      change Branches.Finds goalOf gaps (.bind stream goal) time finish at finds
      cases time with
      | zero => exact (not_finds_zero finds).elim
      | succ time =>
        have worked := (finds_succ_iff_of_pending rfl).mp finds
        rw [advance_bind] at worked
        rcases ih time (Nat.lt_succ_self time) worked with
          ⟨earlier, middle, front, back⟩
        exact ⟨earlier + 1, middle,
          (finds_succ_iff_of_pending pending).mpr front, back⟩
    induction stream with
    | empty => exact (not_finds_empty finds).elim
    | ready result rest restIH =>
      rcases Finds.of_interleave finds with here | behind
      · exact ⟨1, result, finds_succ_iff.mpr (.inl List.mem_cons_self), time,
          here⟩
      · rcases restIH behind with ⟨earlier, middle, front, back⟩
        exact ⟨earlier + 1, middle, finds_succ_iff.mpr (.inr front), back⟩
    | suspended | merge | bind | append => exact later rfl finds

end Branches

/-! ## Goals -/

namespace Goal

variable {goal first second left right : Goal Code}
  {start finish : Located Subst}

theorem Finds.nonempty_derivation
    (finds : goal.Finds goalOf gaps start finish) :
    Nonempty (Derivation goalOf gaps goal start finish) :=
  finds.elim fun _ => nonempty_derivation_of_mem_delivered

theorem Locates.finds
    {index : Nat}
    (locates : goal.Locates goalOf gaps start index finish) :
    goal.Finds goalOf gaps start finish :=
  locates.imp fun _ => List.mem_of_getElem?

theorem Finds.of_both
    (finds : (both first second).Finds goalOf gaps start finish) :
    ∃ middle,
      first.Finds goalOf gaps start middle ∧
        second.Finds goalOf gaps middle finish := by
  rcases finds with ⟨time, finds⟩
  rw [explore] at finds
  rcases Branches.Finds.of_andThen finds with ⟨earlier, middle, front, back⟩
  exact ⟨middle, ⟨earlier, front⟩, back⟩

theorem Finds.of_either
    (finds : (either left right).Finds goalOf gaps start finish) :
    left.Finds goalOf gaps ⟨start.place.left, start.value⟩ finish ∨
      right.Finds goalOf gaps ⟨start.place.right, start.value⟩ finish := by
  rcases finds with ⟨time, finds⟩
  rw [explore] at finds
  exact (Branches.Finds.of_interleave finds).imp (⟨time, ·⟩) (⟨time, ·⟩)

theorem not_finds_fail : ¬ (fail : Goal Code).Finds goalOf gaps start finish :=
  fun ⟨_, finds⟩ => Branches.not_finds_empty finds

theorem Finds.of_eq
    {leftTerm rightTerm : Term}
    (finds : (eq leftTerm rightTerm).Finds goalOf gaps start finish) :
    start.value.unify leftTerm rightTerm = some finish.value := by
  rcases finds with ⟨time, finds⟩
  rw [explore] at finds
  cases unified : start.value.unify leftTerm rightTerm with
  | none =>
    rw [unified] at finds
    exact (Branches.not_finds_empty finds).elim
  | some extended =>
    rw [unified] at finds
    rw [Branches.Finds.eq_of_unit finds]

theorem Finds.of_dynamic
    {builder : Subst → Recipe (Goal Code)}
    (finds : (dynamic builder).Finds goalOf gaps start finish) :
    ((builder start.value).goalAt gaps start).Finds goalOf gaps
      (start.enter gaps (builder start.value)) finish := by
  rcases finds with ⟨time, finds⟩
  rw [explore_dynamic] at finds
  exact ⟨time, finds⟩

theorem Finds.of_defer
    {code : Code}
    (finds : (defer code).Finds goalOf gaps start finish) :
    ((goalOf code).goalAt gaps start).Finds goalOf gaps
      (start.enter gaps (goalOf code)) finish := by
  rcases finds with ⟨_ | time, finds⟩
  · exact (Branches.not_finds_zero finds).elim
  · rw [explore] at finds
    have forced := (Branches.finds_succ_iff_of_pending rfl).mp finds
    rw [Branches.advance_suspended] at forced
    exact ⟨time, forced⟩

end Goal

end Finding

/-! ## Parts of derivations -/

section Parts

variable {goalOf : Code → Recipe (Goal Code)} {gaps : Gaps}

/-- One part of the derivation derives this goal between these places. -/
inductive Derivation.Contains :
    {goal : Goal Code} → {start finish : Located Subst} →
      Derivation goalOf gaps goal start finish →
        Goal Code → Located Subst → Located Subst → Prop where
  | self
      {goal : Goal Code} {start finish : Located Subst}
      (derivation : Derivation goalOf gaps goal start finish) :
      Contains derivation goal start finish
  | front
      {first second part : Goal Code}
      {start middle finish before after : Located Subst}
      {front : Derivation goalOf gaps first start middle}
      {back : Derivation goalOf gaps second middle finish}
      (contains : Contains front part before after) :
      Contains (.both front back) part before after
  | back
      {first second part : Goal Code}
      {start middle finish before after : Located Subst}
      {front : Derivation goalOf gaps first start middle}
      {back : Derivation goalOf gaps second middle finish}
      (contains : Contains back part before after) :
      Contains (.both front back) part before after
  | left
      {left right part : Goal Code}
      {start finish before after : Located Subst}
      {branch :
        Derivation goalOf gaps left ⟨start.place.left, start.value⟩ finish}
      (contains : Contains branch part before after) :
      Contains (.left branch : Derivation goalOf gaps (.either left right) _ _)
        part before after
  | right
      {left right part : Goal Code}
      {start finish before after : Located Subst}
      {branch :
        Derivation goalOf gaps right ⟨start.place.right, start.value⟩ finish}
      (contains : Contains branch part before after) :
      Contains (.right branch : Derivation goalOf gaps (.either left right) _ _)
        part before after
  | orderedLeft
      {left right part : Goal Code}
      {start finish before after : Located Subst}
      {branch :
        Derivation goalOf gaps left ⟨start.place.left, start.value⟩ finish}
      (contains : Contains branch part before after) :
      Contains
        (.orderedLeft branch :
          Derivation goalOf gaps (.ordered left right) _ _)
        part before after
  | orderedRight
      {left right part : Goal Code}
      {start finish before after : Located Subst}
      {branch :
        Derivation goalOf gaps right ⟨start.place.right, start.value⟩ finish}
      (contains : Contains branch part before after) :
      Contains
        (.orderedRight branch :
          Derivation goalOf gaps (.ordered left right) _ _)
        part before after
  | defer
      {code : Code} {part : Goal Code}
      {start finish before after : Located Subst}
      {built :
        Derivation goalOf gaps ((goalOf code).goalAt gaps start)
          (start.enter gaps (goalOf code)) finish}
      (contains : Contains built part before after) :
      Contains (.defer built) part before after
  | dynamic
      {builder : Subst → Recipe (Goal Code)} {part : Goal Code}
      {start finish before after : Located Subst}
      {built :
        Derivation goalOf gaps ((builder start.value).goalAt gaps start)
          (start.enter gaps (builder start.value)) finish}
      (contains : Contains built part before after) :
      Contains (.dynamic built) part before after

/-- A part begins no earlier than the derivation. -/
theorem Derivation.Contains.trace_isSuffix
    {goal part : Goal Code}
    {start finish before after : Located Subst}
    {derivation : Derivation goalOf gaps goal start finish}
    (contains : derivation.Contains part before after) :
    start.place.trace <:+ before.place.trace := by
  induction contains with
  | self => exact List.suffix_rfl
  | front _ ih => exact ih
  | @back _ _ _ _ _ _ _ _ front _ _ ih => exact front.trace_isSuffix.trans ih
  | left _ ih | right _ ih | orderedLeft _ ih | orderedRight _ ih
  | defer _ ih | dynamic _ ih => exact (List.suffix_cons _ _).trans ih

end Parts

end RelationalSearch
