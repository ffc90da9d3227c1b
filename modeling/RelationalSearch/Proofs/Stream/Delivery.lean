import Mathlib.Logic.Function.Iterate
import Mathlib.Data.List.Basic
import RelationalSearch.Session
import RelationalSearch.Proofs.Stream.Advance

/-!
# What a stream delivers

A caller asks a stream for one result after another.  Each request does a
finite number of pieces of work (`Stream.pull`), and what is asked next is the
stream that the last request left behind.  `Stream.Delivers` and
`Stream.Drains` say what such a caller gets.

Proofs look at the moments in between: `Stream.step` takes the result at the
front if there is one and otherwise does one piece of work, and
`Stream.delivered` lists the results taken so far.  What is delivered by
requests is what is taken at some moment.
-/

namespace RelationalSearch

namespace Stream

variable {m : Type → Type} {Later Next Result : Type}

/-! ## Requests -/

/--
The result of a number in the order of delivery, where a caller asks the stream
for one result after another.
-/
inductive Delivers (engine : Engine Search Later Next Result) :
    Stream Later Next Result → Session → Nat → Result → Prop where
  | first
      {stream rest : Stream Later Next Result} {session after : Session}
      {effort : Nat} {result : Result}
      (pulled :
        (pull engine effort stream).run session =
          (.result result rest, after)) :
      Delivers engine stream session 0 result
  | later
      {stream rest : Stream Later Next Result} {session after : Session}
      {effort index : Nat} {earlier result : Result}
      (pulled :
        (pull engine effort stream).run session =
          (.result earlier rest, after))
      (delivers : Delivers engine rest after index result) :
      Delivers engine stream session (index + 1) result

/-- All results that the stream delivers, after which it ends. -/
inductive Drains (engine : Engine Search Later Next Result) :
    Stream Later Next Result → Session → List Result → Prop where
  | ended
      {stream : Stream Later Next Result} {session after : Session}
      {effort : Nat}
      (pulled : (pull engine effort stream).run session = (.ended, after)) :
      Drains engine stream session []
  | result
      {stream rest : Stream Later Next Result} {session after : Session}
      {effort : Nat} {result : Result} {results : List Result}
      (pulled :
        (pull engine effort stream).run session =
          (.result result rest, after))
      (drains : Drains engine rest after results) :
      Drains engine stream session (result :: results)

/-! ## Moments -/

/-- The result at the front of a stream, if it is worked out. -/
def front : Stream Later Next Result → List Result
  | ready result _ => [result]
  | _ => []

@[simp]
theorem front_ready (result : Result) (rest : Stream Later Next Result) :
    (ready result rest).front = [result] :=
  rfl

@[simp]
theorem front_empty : (empty : Stream Later Next Result).front = [] :=
  rfl

theorem front_of_pending
    {stream : Stream Later Next Result}
    (pending : stream.shape = .pending) :
    stream.front = [] := by
  cases stream with
  | empty | ready => cases pending
  | _ => rfl

/-- Takes the result at the front, or else does one piece of work. -/
def step
    [Monad m]
    (engine : Engine m Later Next Result) :
    Stream Later Next Result → m (Stream Later Next Result)
  | ready _ rest => pure rest
  | stream => advance engine stream

@[simp]
theorem step_ready
    [Monad m]
    (engine : Engine m Later Next Result)
    (result : Result)
    (rest : Stream Later Next Result) :
    step engine (ready result rest) = pure rest :=
  rfl

@[simp]
theorem step_empty
    [Monad m] [LawfulMonad m]
    (engine : Engine m Later Next Result) :
    step engine empty = pure empty :=
  advance_empty engine

theorem step_of_pending
    [Monad m]
    (engine : Engine m Later Next Result)
    {stream : Stream Later Next Result}
    (pending : stream.shape = .pending) :
    step engine stream = advance engine stream := by
  cases stream with
  | empty | ready => cases pending
  | _ => rfl

/-- The results at the front of the first streams of a sequence. -/
def delivered (stages : Nat → Stream Later Next Result) (count : Nat) :
    List Result :=
  (List.range count).flatMap fun time => (stages time).front

@[simp]
theorem delivered_zero (stages : Nat → Stream Later Next Result) :
    delivered stages 0 = [] :=
  rfl

theorem delivered_succ
    (stages : Nat → Stream Later Next Result)
    (count : Nat) :
    delivered stages (count + 1) =
      delivered stages count ++ (stages count).front := by
  simp [delivered, List.range_succ]

theorem delivered_succ_left
    (stages : Nat → Stream Later Next Result)
    (count : Nat) :
    delivered stages (count + 1) =
      (stages 0).front ++ delivered (fun time => stages (time + 1)) count := by
  simp [delivered, List.range_succ_eq_map, List.flatMap_map]

theorem delivered_prefix_delivered
    (stages : Nat → Stream Later Next Result)
    {few many : Nat}
    (ordered : few ≤ many) :
    delivered stages few <+: delivered stages many := by
  induction ordered with
  | refl => exact List.prefix_rfl
  | step _ ih =>
    rw [delivered_succ]
    exact ih.trans (List.prefix_append _ _)

theorem delivered_getElem?_mono
    {stages : Nat → Stream Later Next Result}
    {few many index : Nat}
    {result : Result}
    (ordered : few ≤ many)
    (taken : (delivered stages few)[index]? = some result) :
    (delivered stages many)[index]? = some result := by
  rcases List.getElem?_eq_some_iff.mp taken with ⟨inside, rfl⟩
  exact List.prefix_iff_getElem?.mp (delivered_prefix_delivered stages ordered)
    index inside

/-- What is taken under a number does not depend on when one looks. -/
theorem eq_of_delivered_getElem?
    {stages : Nat → Stream Later Next Result}
    {count otherCount index : Nat}
    {result other : Result}
    (taken : (delivered stages count)[index]? = some result)
    (otherTaken : (delivered stages otherCount)[index]? = some other) :
    result = other := by
  rcases Nat.le_total count otherCount with ordered | ordered
  · have early := delivered_getElem?_mono ordered taken
    exact Option.some.inj (early.symm.trans otherTaken)
  · have early := delivered_getElem?_mono ordered otherTaken
    exact Option.some.inj (taken.symm.trans early)

/-- A stream in the session in which it is worked on. -/
abbrev Moment (Later Next Result : Type) :=
  Stream Later Next Result × Session

section Moments

variable (engine : Engine Search Later Next Result)

/-- The moment after one step. -/
def nextMoment (moment : Moment Later Next Result) :
    Moment Later Next Result :=
  (step engine moment.1).run moment.2

/-- The streams from a moment on. -/
def stagesFrom (moment : Moment Later Next Result) (time : Nat) :
    Stream Later Next Result :=
  ((nextMoment engine)^[time] moment).1

@[simp]
theorem stagesFrom_zero (moment : Moment Later Next Result) :
    stagesFrom engine moment 0 = moment.1 :=
  rfl

theorem stagesFrom_succ (moment : Moment Later Next Result) :
    (fun time => stagesFrom engine moment (time + 1)) =
      stagesFrom engine (nextMoment engine moment) :=
  rfl

theorem nextMoment_of_pending
    {stream : Stream Later Next Result}
    (pending : stream.shape = .pending)
    (session : Session) :
    nextMoment engine (stream, session) =
      (advance engine stream).run session := by
  rw [nextMoment, step_of_pending engine pending]

@[simp]
theorem nextMoment_ready
    (result : Result)
    (rest : Stream Later Next Result)
    (session : Session) :
    nextMoment engine (ready result rest, session) = (rest, session) :=
  rfl

@[simp]
theorem nextMoment_empty (session : Session) :
    nextMoment engine (empty, session) = (empty, session) := by
  rw [nextMoment, step_empty]
  rfl

end Moments

/-! ## Requests and moments -/

section Requests

variable {engine : Engine Search Later Next Result}

theorem pull_zero_ready
    (result : Result)
    (rest : Stream Later Next Result)
    (session : Session) :
    (pull engine 0 (ready result rest)).run session =
      (.result result rest, session) :=
  rfl

theorem pull_zero_empty (session : Session) :
    (pull engine 0 empty).run session = (.ended, session) :=
  rfl

theorem pull_succ_of_pending
    {stream : Stream Later Next Result}
    (pending : stream.shape = .pending)
    (effort : Nat)
    (session : Session) :
    (pull engine (effort + 1) stream).run session =
      (pull engine effort (nextMoment engine (stream, session)).1).run
        (nextMoment engine (stream, session)).2 := by
  rw [nextMoment_of_pending engine pending]
  cases stream with
  | empty | ready => cases pending
  | _ => rfl

/-- What is delivered after one piece of work is delivered. -/
theorem Delivers.of_nextMoment
    {stream : Stream Later Next Result}
    {session : Session}
    {index : Nat}
    {result : Result}
    (pending : stream.shape = .pending)
    (delivers :
      Delivers engine (nextMoment engine (stream, session)).1
        (nextMoment engine (stream, session)).2 index result) :
    Delivers engine stream session index result := by
  cases delivers with
  | first pulled =>
    exact .first ((pull_succ_of_pending pending _ session).trans pulled)
  | later pulled delivers =>
    have pulledBefore :=
      (pull_succ_of_pending pending _ session).trans pulled
    exact .later pulledBefore delivers

theorem Drains.of_nextMoment
    {stream : Stream Later Next Result}
    {session : Session}
    {results : List Result}
    (pending : stream.shape = .pending)
    (drains :
      Drains engine (nextMoment engine (stream, session)).1
        (nextMoment engine (stream, session)).2 results) :
    Drains engine stream session results := by
  cases drains with
  | ended pulled =>
    exact .ended ((pull_succ_of_pending pending _ session).trans pulled)
  | result pulled drains =>
    have pulledBefore :=
      (pull_succ_of_pending pending _ session).trans pulled
    exact .result pulledBefore drains

/-- What has been taken at some moment is delivered. -/
theorem delivers_of_getElem?
    {count : Nat}
    {moment : Moment Later Next Result}
    {index : Nat}
    {result : Result}
    (taken :
      (delivered (stagesFrom engine moment) count)[index]? = some result) :
    Delivers engine moment.1 moment.2 index result := by
  induction count generalizing moment index with
  | zero => simp at taken
  | succ count ih =>
    rcases moment with ⟨stream, session⟩
    rw [delivered_succ_left, stagesFrom_succ] at taken
    rcases stream.cases_of_shape with rfl | ⟨_, _, rfl⟩ | shaped
    · simp only [stagesFrom_zero, front_empty, List.nil_append] at taken
      have later := ih taken
      rwa [nextMoment_empty] at later
    · cases index with
      | zero =>
        simp only [stagesFrom_zero, front_ready, List.cons_append,
          List.getElem?_cons_zero, Option.some.injEq] at taken
        cases taken
        exact .first (pull_zero_ready _ _ _)
      | succ index =>
        simp only [stagesFrom_zero, front_ready, List.cons_append,
          List.nil_append, List.getElem?_cons_succ] at taken
        exact .later (pull_zero_ready _ _ _) (ih taken)
    · rw [stagesFrom_zero, front_of_pending shaped, List.nil_append] at taken
      exact .of_nextMoment shaped (ih taken)

/-- A request that gets a result ends at the moment when it is in front. -/
theorem exists_ready_of_pull
    {effort : Nat}
    {stream : Stream Later Next Result}
    {session : Session}
    {result : Result}
    {rest : Stream Later Next Result}
    {after : Session}
    (pulled :
      (pull engine effort stream).run session =
        (.result result rest, after)) :
    ∃ time,
      (nextMoment engine)^[time] (stream, session) =
          (ready result rest, after) ∧
        delivered (stagesFrom engine (stream, session)) time = [] := by
  induction effort generalizing stream session with
  | zero =>
    cases stream <;> cases pulled
    exact ⟨0, rfl, rfl⟩
  | succ effort ih =>
    rcases stream.cases_of_shape with rfl | ⟨_, _, rfl⟩ | shaped
    · cases pulled
    · cases pulled
      exact ⟨0, rfl, rfl⟩
    · rw [pull_succ_of_pending shaped] at pulled
      rcases ih pulled with ⟨time, reached, nothing⟩
      refine ⟨time + 1, reached, ?_⟩
      rw [delivered_succ_left, stagesFrom_succ, nothing, stagesFrom_zero,
        front_of_pending shaped, List.nil_append]

theorem delivered_add
    (moment : Moment Later Next Result)
    (first second : Nat) :
    delivered (stagesFrom engine moment) (first + second) =
      delivered (stagesFrom engine moment) first ++
        delivered (stagesFrom engine ((nextMoment engine)^[first] moment))
          second := by
  induction second with
  | zero => simp
  | succ second ih =>
    rw [← Nat.add_assoc, delivered_succ, ih, delivered_succ,
      List.append_assoc]
    congr 3
    simp only [stagesFrom]
    rw [Nat.add_comm, Function.iterate_add_apply]

/-- What is delivered has been taken at some moment. -/
theorem Delivers.exists_getElem?
    {stream : Stream Later Next Result}
    {session : Session}
    {index : Nat}
    {result : Result}
    (delivers : Delivers engine stream session index result) :
    ∃ count,
      (delivered (stagesFrom engine (stream, session)) count)[index]? =
        some result := by
  induction delivers with
  | first pulled =>
    rcases exists_ready_of_pull pulled with
      ⟨time, reached, nothing⟩
    refine ⟨time + 1, ?_⟩
    rw [delivered_add, nothing, reached]
    rfl
  | later pulled _ ih =>
    rcases exists_ready_of_pull pulled with
      ⟨time, reached, nothing⟩
    rcases ih with ⟨count, taken⟩
    refine ⟨time + (count + 1), ?_⟩
    rw [delivered_add, nothing, reached, delivered_succ_left,
      stagesFrom_succ, nextMoment_ready]
    exact taken

theorem delivers_iff
    {moment : Moment Later Next Result}
    {index : Nat}
    {result : Result} :
    Delivers engine moment.1 moment.2 index result ↔
      ∃ count,
        (delivered (stagesFrom engine moment) count)[index]? =
          some result := by
  constructor
  · intro delivers
    exact delivers.exists_getElem?
  · rintro ⟨count, taken⟩
    exact delivers_of_getElem? taken

/-- One result has each number in the order of delivery. -/
theorem Delivers.unique
    {stream : Stream Later Next Result}
    {session : Session}
    {index : Nat}
    {result other : Result}
    (delivers : Delivers engine stream session index result)
    (otherDelivers : Delivers engine stream session index other) :
    result = other := by
  rcases delivers.exists_getElem? with ⟨_, taken⟩
  rcases otherDelivers.exists_getElem? with ⟨_, otherTaken⟩
  exact eq_of_delivered_getElem? taken otherTaken

/-- A request that is answered is answered alike with more effort. -/
theorem pull_add_of_finished
    {effort : Nat}
    {stream : Stream Later Next Result}
    {session after : Session}
    {outcome : Pulled Later Next Result}
    (pulled :
      (pull engine effort stream).run session = (outcome, after))
    (finished : ∀ rest, outcome ≠ .unfinished rest)
    (more : Nat) :
    (pull engine (effort + more) stream).run session = (outcome, after) := by
  induction effort generalizing stream session with
  | zero =>
    cases stream with
    | empty | ready =>
      cases pulled
      cases more <;> rfl
    | suspended | merge | bind | append =>
      cases pulled
      exact (finished _ rfl).elim
  | succ effort ih =>
    rw [Nat.succ_add]
    rcases stream.cases_of_shape with rfl | ⟨_, _, rfl⟩ | shaped
    · exact pulled
    · exact pulled
    · rw [pull_succ_of_pending shaped] at pulled ⊢
      exact ih pulled

theorem eq_of_pull
    {effort otherEffort : Nat}
    {stream : Stream Later Next Result}
    {session after otherAfter : Session}
    {outcome other : Pulled Later Next Result}
    (pulled :
      (pull engine effort stream).run session = (outcome, after))
    (finished : ∀ rest, outcome ≠ .unfinished rest)
    (otherPulled :
      (pull engine otherEffort stream).run session = (other, otherAfter))
    (otherFinished : ∀ rest, other ≠ .unfinished rest) :
    (outcome, after) = (other, otherAfter) := by
  have together := pull_add_of_finished pulled finished otherEffort
  have otherTogether :=
    pull_add_of_finished otherPulled otherFinished effort
  rw [Nat.add_comm] at otherTogether
  exact together.symm.trans otherTogether

/-- However much effort a caller spends, the results are the same. -/
theorem Drains.unique
    {stream : Stream Later Next Result}
    {session : Session}
    {results others : List Result}
    (drains : Drains engine stream session results)
    (otherDrains : Drains engine stream session others) :
    results = others := by
  induction drains generalizing others with
  | ended pulled =>
    cases otherDrains with
    | ended => rfl
    | result otherPulled _ =>
      cases eq_of_pull pulled nofun otherPulled nofun
  | result pulled _ ih =>
    cases otherDrains with
    | ended otherPulled => cases eq_of_pull pulled nofun otherPulled nofun
    | result otherPulled later =>
      cases eq_of_pull pulled nofun otherPulled nofun
      rw [ih later]

/-- A stream that has ended at some moment has delivered what was taken. -/
theorem drains_of_eq_empty
    {count : Nat}
    {moment : Moment Later Next Result}
    (ended : stagesFrom engine moment count = empty) :
    Drains engine moment.1 moment.2
      (delivered (stagesFrom engine moment) count) := by
  induction count generalizing moment with
  | zero =>
    rw [stagesFrom_zero] at ended
    rw [ended]
    exact .ended (pull_zero_empty _)
  | succ count ih =>
    rcases moment with ⟨stream, session⟩
    have later : Drains engine (nextMoment engine (stream, session)).1
        (nextMoment engine (stream, session)).2 _ :=
      ih ended
    rw [delivered_succ_left, stagesFrom_succ, stagesFrom_zero]
    rcases stream.cases_of_shape with rfl | ⟨_, _, rfl⟩ | shaped
    · rwa [nextMoment_empty] at later
    · exact .result (pull_zero_ready _ _ _) later
    · rw [front_of_pending shaped]
      exact .of_nextMoment shaped later

end Requests

end Stream

end RelationalSearch
