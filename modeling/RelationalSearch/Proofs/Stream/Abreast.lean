import Mathlib.Data.List.Forall2
import RelationalSearch.Proofs.Stream.Delivery

/-!
# Streams that are worked off in step

Two streams may differ in their work and still look the same at every time, with
related results in front (`Stream.Abreast`).  A caller can not tell them apart
but by the results: each request ends alike in both, whatever effort it is
allowed (`Stream.Abreast.pull`).
-/

namespace RelationalSearch

namespace Stream

variable {Later Next Result : Type} {engine : Engine Search Later Next Result}
  {related : Result → Result → Prop}

/-! ## Taking results one by one -/

section Take

variable {effort count : Nat} {stream : Stream Later Next Result}
  {session after : Session}

/-- What is worked out is taken without effort. -/
theorem pull_of_not_pending (settled : stream.shape ≠ .pending) :
    pull engine effort stream = pull engine 0 stream := by
  cases stream with
  | empty | ready => cases effort <;> rfl
  | suspended | merge | bind | append => exact (settled rfl).elim

theorem take_of_result
    {result : Result}
    {rest : Stream Later Next Result}
    (pulled :
      (pull engine effort stream).run session =
        (.result result rest, after)) :
    ((take engine effort (count + 1) stream).run session).1 =
      result :: ((take engine effort count rest).run after).1 := by
  rw [take, StateT.run_bind, pulled]
  rfl

theorem take_of_no_result
    {outcome : Pulled Later Next Result}
    (pulled : (pull engine effort stream).run session = (outcome, after))
    (nothing : ∀ result rest, outcome ≠ .result result rest) :
    ((take engine effort (count + 1) stream).run session).1 = [] := by
  rw [take, StateT.run_bind, pulled]
  cases outcome with
  | result result rest => exact (nothing result rest rfl).elim
  | ended | unfinished => rfl

end Take

/-! ## In step -/

/-- At every time the streams look the same, with related results in front. -/
structure Abreast
    (engine : Engine Search Later Next Result)
    (related : Result → Result → Prop)
    (moment other : Moment Later Next Result) : Prop where
  shapes :
    ∀ time,
      (stagesFrom engine moment time).shape =
        (stagesFrom engine other time).shape
  fronts :
    ∀ time,
      List.Forall₂ related (stagesFrom engine moment time).front
        (stagesFrom engine other time).front

/-- Requests that end alike, with related results. -/
inductive AskedAbreast
    (engine : Engine Search Later Next Result)
    (related : Result → Result → Prop) :
    Pulled Later Next Result × Session →
      Pulled Later Next Result × Session → Prop where
  | ended {after otherAfter : Session} :
      AskedAbreast engine related (.ended, after) (.ended, otherAfter)
  | result
      {result otherResult : Result} {rest otherRest : Stream Later Next Result}
      {after otherAfter : Session}
      (here : related result otherResult)
      (rests : Abreast engine related (rest, after) (otherRest, otherAfter)) :
      AskedAbreast engine related (.result result rest, after)
        (.result otherResult otherRest, otherAfter)
  | unfinished
      {stream other : Stream Later Next Result} {after otherAfter : Session} :
      AskedAbreast engine related (.unfinished stream, after)
        (.unfinished other, otherAfter)

namespace Abreast

variable {moment other : Moment Later Next Result}

theorem next (abreast : Abreast engine related moment other) :
    Abreast engine related (nextMoment engine moment)
      (nextMoment engine other) :=
  ⟨fun time => abreast.shapes (time + 1),
    fun time => abreast.fronts (time + 1)⟩

theorem pull_zero (abreast : Abreast engine related moment other) :
    AskedAbreast engine related ((Stream.pull engine 0 moment.1).run moment.2)
      ((Stream.pull engine 0 other.1).run other.2) := by
  have same := abreast.shapes 0
  have fronts := abreast.fronts 0
  have next := abreast.next
  rcases moment with ⟨stream, session⟩
  rcases other with ⟨otherStream, otherSession⟩
  rw [stagesFrom_zero, stagesFrom_zero] at same fronts
  cases stream <;> cases otherStream <;> cases same
  case empty.empty => exact .ended
  case ready.ready =>
    rcases fronts with _ | ⟨here, _⟩
    exact .result here next
  all_goals exact .unfinished

/-- Requests of the same effort end alike. -/
theorem pull
    (abreast : Abreast engine related moment other)
    (effort : Nat) :
    AskedAbreast engine related
      ((Stream.pull engine effort moment.1).run moment.2)
      ((Stream.pull engine effort other.1).run other.2) := by
  induction effort generalizing moment other with
  | zero => exact abreast.pull_zero
  | succ effort ih =>
    rcases moment with ⟨stream, session⟩
    rcases other with ⟨otherStream, otherSession⟩
    have same := abreast.shapes 0
    rw [stagesFrom_zero, stagesFrom_zero] at same
    by_cases pending : stream.shape = .pending
    · rw [pull_succ_of_pending pending, pull_succ_of_pending (same ▸ pending)]
      exact ih abreast.next
    · have otherSettled : otherStream.shape ≠ .pending := same ▸ pending
      rw [pull_of_not_pending pending, pull_of_not_pending otherSettled]
      exact abreast.pull_zero

/-- Callers get related results, as many as they ask for. -/
theorem take
    (abreast : Abreast engine related moment other)
    (effort count : Nat) :
    List.Forall₂ related
      ((Stream.take engine effort count moment.1).run moment.2).1
      ((Stream.take engine effort count other.1).run other.2).1 := by
  induction count generalizing moment other with
  | zero => exact .nil
  | succ count ih =>
    have asked := abreast.pull effort
    generalize pulled : (Stream.pull engine effort moment.1).run moment.2 =
      answer at asked
    generalize otherPulled :
      (Stream.pull engine effort other.1).run other.2 = otherAnswer at asked
    cases asked with
    | result here rests =>
      rw [take_of_result pulled, take_of_result otherPulled]
      exact .cons here (ih rests)
    | ended =>
      rw [take_of_no_result pulled (by simp),
        take_of_no_result otherPulled (by simp)]
      exact .nil
    | unfinished =>
      rw [take_of_no_result pulled (by simp),
        take_of_no_result otherPulled (by simp)]
      exact .nil

end Abreast

end Stream

end RelationalSearch
