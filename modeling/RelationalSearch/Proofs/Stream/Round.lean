import RelationalSearch.Proofs.Stream.Map

/-!
# Streams in rounds

The results at the front of a stream are taken without any work.  A round takes
all of them, and then one piece of work is done (`Stream.nextRound`).  So what a
caller gets before work is done for yet another time are the results at the
front in the rounds up to then (`Stream.takeWithin`), and a caller who goes on
asking gets nothing else (`Stream.delivers_iff_exists_takeWithin`).
-/

namespace RelationalSearch

namespace Stream

variable {m : Type → Type} {Later Next Result : Type}

/-! ## The front of a stream -/

/-- The results that are worked out. -/
def worked : Stream Later Next Result → List Result
  | ready result rest => result :: worked rest
  | _ => []

/-- What is left when the results that are worked out have been taken. -/
def behind : Stream Later Next Result → Stream Later Next Result
  | ready _ rest => behind rest
  | stream => stream

@[simp]
theorem worked_empty : (empty : Stream Later Next Result).worked = [] :=
  rfl

@[simp]
theorem behind_empty : (empty : Stream Later Next Result).behind = empty :=
  rfl

@[simp]
theorem worked_ready (result : Result) (rest : Stream Later Next Result) :
    (ready result rest).worked = result :: rest.worked :=
  rfl

@[simp]
theorem behind_ready (result : Result) (rest : Stream Later Next Result) :
    (ready result rest).behind = rest.behind :=
  rfl

theorem worked_of_pending
    {stream : Stream Later Next Result}
    (pending : stream.shape = .pending) :
    stream.worked = [] := by
  cases stream with
  | empty | ready => cases pending
  | _ => rfl

theorem behind_of_pending
    {stream : Stream Later Next Result}
    (pending : stream.shape = .pending) :
    stream.behind = stream := by
  cases stream with
  | empty | ready => cases pending
  | _ => rfl

theorem worked_map
    {OtherLater OtherResult : Type}
    (later : Later → OtherLater)
    (result : Result → OtherResult)
    (stream : Stream Later Next Result) :
    (stream.map later result).worked = stream.worked.map result := by
  induction stream with
  | ready found rest ih => rw [map_ready, worked_ready, ih, worked_ready, List.map]
  | _ => rfl

/-- Of two streams, the second one follows if the first one is worked out. -/
theorem worked_interleave
    {left : Stream Later Next Result}
    (ended : left.behind = empty)
    (right : Stream Later Next Result) :
    (left.interleave right).worked = left.worked ++ right.worked := by
  induction left with
  | empty => rfl
  | ready result rest ih =>
    rw [interleave_ready, worked_ready, ih ended, worked_ready,
      List.cons_append]
  | _ => cases ended

theorem behind_interleave
    {left : Stream Later Next Result}
    (ended : left.behind = empty)
    (right : Stream Later Next Result) :
    (left.interleave right).behind = right.behind := by
  induction left with
  | empty => rfl
  | ready result rest ih => exact ih ended
  | _ => cases ended

/-! ## Rounds -/

section Rounds

variable [Monad m] (engine : Engine m Later Next Result)

/-- Does one piece of work behind the results that are worked out. -/
def nextRound (stream : Stream Later Next Result) :
    m (Stream Later Next Result) :=
  advance engine stream.behind

/--
The results that a caller gets who does work at most `count` times: before each
time, and at the end, all results that are worked out are taken.
-/
def takeWithin : Nat → Stream Later Next Result → m (List Result)
  | 0, stream => pure stream.worked
  | count + 1, stream => do
    let later ← nextRound engine stream
    let results ← takeWithin count later
    pure (stream.worked ++ results)

end Rounds

/-! ### Rounds and requests -/

section Requests

variable {engine : Engine Search Later Next Result}
  {stream : Stream Later Next Result} {session : Session} {index : Nat}
  {result : Result}

/-- What is worked out is delivered, in order. -/
theorem delivers_of_worked
    (worked : stream.worked[index]? = some result) :
    Delivers engine stream session index result := by
  induction stream generalizing index with
  | ready first rest ih =>
    cases index with
    | zero =>
      cases worked
      exact .first (pull_zero_ready _ rest session)
    | succ index => exact .later (pull_zero_ready first rest session) (ih worked)
  | _ => cases worked

/-- What is delivered in the next round comes behind what is worked out. -/
theorem Delivers.of_nextRound
    (delivers :
      Delivers engine ((nextRound engine stream).run session).1
        ((nextRound engine stream).run session).2 index result) :
    Delivers engine stream session (stream.worked.length + index) result := by
  induction stream with
  | empty =>
    rw [nextRound, behind_empty, advance_empty] at delivers
    rwa [worked_empty, List.length_nil, Nat.zero_add]
  | ready first rest ih =>
    rw [worked_ready, List.length_cons, Nat.add_right_comm]
    exact .later (pull_zero_ready first rest session) (ih delivers)
  | suspended | merge | bind | append =>
    rw [worked_of_pending rfl, List.length_nil, Nat.zero_add]
    apply Delivers.of_nextMoment rfl
    rwa [nextMoment_of_pending engine rfl]

theorem takeWithin_ready
    (count : Nat)
    (first : Result)
    (rest : Stream Later Next Result) :
    ((takeWithin engine count (ready first rest)).run session).1 =
      first :: ((takeWithin engine count rest).run session).1 := by
  cases count <;> rfl

theorem takeWithin_succ_of_pending
    (pending : stream.shape = .pending)
    (count : Nat) :
    ((takeWithin engine (count + 1) stream).run session).1 =
      ((takeWithin engine count (nextMoment engine (stream, session)).1).run
        (nextMoment engine (stream, session)).2).1 := by
  rw [nextMoment_of_pending engine pending, takeWithin, nextRound,
    behind_of_pending pending, worked_of_pending pending]
  rfl

/-- What has been taken at some moment is taken in rounds. -/
theorem delivered_prefix_takeWithin (time : Nat) :
    ∃ count,
      delivered (stagesFrom engine (stream, session)) time <+:
        ((takeWithin engine count stream).run session).1 := by
  induction time generalizing stream session with
  | zero => exact ⟨0, List.nil_prefix⟩
  | succ time ih =>
    rw [delivered_succ_left, stagesFrom_succ, stagesFrom_zero]
    rcases @ih (nextMoment engine (stream, session)).1
      (nextMoment engine (stream, session)).2 with ⟨count, included⟩
    rcases stream.cases_of_shape with rfl | ⟨_, _, rfl⟩ | shaped
    · rw [nextMoment_empty] at included
      exact ⟨count, included⟩
    · refine ⟨count, ?_⟩
      rw [takeWithin_ready]
      exact (List.prefix_cons_inj _).mpr included
    · refine ⟨count + 1, ?_⟩
      rw [takeWithin_succ_of_pending shaped, front_of_pending shaped]
      exact included

/-- What is taken in rounds is delivered, in order. -/
theorem delivers_of_takeWithin
    {count : Nat}
    (taken :
      ((takeWithin engine count stream).run session).1[index]? =
        some result) :
    Delivers engine stream session index result := by
  induction count generalizing stream session index with
  | zero => exact delivers_of_worked taken
  | succ count ih =>
    rcases Nat.lt_or_ge index stream.worked.length with inside | beyond
    · apply delivers_of_worked
      rw [← taken]
      exact (List.getElem?_append_left inside).symm
    · have later := (List.getElem?_append_right beyond).symm.trans taken
      have delivers := (ih later).of_nextRound
      rwa [Nat.add_sub_cancel' beyond] at delivers

/-- A caller gets what is taken in rounds, and nothing else. -/
theorem delivers_iff_exists_takeWithin :
    Delivers engine stream session index result ↔
      ∃ count,
        ((takeWithin engine count stream).run session).1[index]? =
          some result := by
  constructor
  · intro delivers
    rcases delivers.exists_getElem? with ⟨time, taken⟩
    have rounds : ∃ count, delivered (stagesFrom engine (stream, session)) time
        <+: ((takeWithin engine count stream).run session).1 :=
      delivered_prefix_takeWithin time
    rcases rounds with ⟨count, included⟩
    rcases List.getElem?_eq_some_iff.mp taken with ⟨inside, rfl⟩
    exact ⟨count, List.prefix_iff_getElem?.mp included index inside⟩
  · rintro ⟨count, taken⟩
    exact delivers_of_takeWithin taken

end Requests

end Stream

end RelationalSearch
