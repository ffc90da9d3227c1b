import RelationalSearch.Stream.Advance

/-!
# Advancing by the structure of a stream

`Stream.advance` walks down to its work with a list of frames and puts the
frames around the outcome again.  Putting a frame around an outcome is what the
combination of that frame does, so the walk can be read as a recursion over the
stream: a combination advances its left part and is then made anew.  The
equations of that recursion are all that proofs about the engine use.
-/

namespace RelationalSearch

namespace Stream

variable {m : Type → Type} {Later Next Result : Type}

theorem isReady_eq_false_iff {stream : Stream Later Next Result} :
    stream.isReady = false ↔ stream.shape = .pending := by
  cases stream <;> simp [isReady, shape]

/-- A stream has ended, or has a result in front, or has work to be done first. -/
theorem cases_of_shape (stream : Stream Later Next Result) :
    stream = empty ∨
      (∃ result rest, stream = ready result rest) ∨
        stream.shape = .pending := by
  cases stream with
  | empty => exact .inl rfl
  | ready result rest => exact .inr (.inl ⟨result, rest, rfl⟩)
  | _ => exact .inr (.inr rfl)

/-! ## One step -/

section Equations

variable [Monad m] [LawfulMonad m] (engine : Engine m Later Next Result)

/-- The frames that are around already wait until the stream has advanced. -/
theorem perform_descend
    (stream : Stream Later Next Result)
    (frames : List (Frame Later Next Result)) :
    ((descend stream frames).1.perform engine >>=
        rebuild engine (descend stream frames).2) =
      advance engine stream >>= rebuild engine frames := by
  induction stream generalizing frames with
  | empty => simp [advance_eq]
  | ready result rest => simp [advance_eq]
  | suspended work => simp [advance_eq]
  | merge left right leftIH rightIH =>
    simp only [advance_eq, descend_merge]
    rw [leftIH, leftIH]
    simp
  | bind inner next ih =>
    simp only [advance_eq, descend_bind]
    rw [ih, ih]
    simp
  | append inner queue ih =>
    simp only [advance_eq, descend_append]
    split
    · simp
    · rw [ih, ih]
      simp

@[simp]
theorem advance_empty :
    advance engine (empty : Stream Later Next Result) = pure empty := by
  simp [advance_eq]

@[simp]
theorem advance_ready
    (result : Result)
    (rest : Stream Later Next Result) :
    advance engine (ready result rest) = pure (ready result rest) := by
  simp [advance_eq]

@[simp]
theorem advance_suspended (work : Later) :
    advance engine (suspended work) = engine.force work := by
  simp [advance_eq]

/-- The left side advances, and the sides change places. -/
theorem advance_merge (left right : Stream Later Next Result) :
    advance engine (merge left right) =
      (do
        let stream ← advance engine left
        pure (interleave right stream)) := by
  rw [advance_eq, descend_merge, perform_descend]
  simp

theorem advance_bind (inner : Stream Later Next Result) (next : Next) :
    advance engine (bind inner next) =
      (do
        let stream ← advance engine inner
        andThen (engine.feed next) next stream) := by
  rw [advance_eq, descend_bind, perform_descend]
  simp

/-- Queued work is taken up where nothing is in front of it any more. -/
theorem advance_append_of_isReady
    {inner : Stream Later Next Result}
    (worked : inner.isReady = true)
    (queue : Queue Later) :
    advance engine (append inner queue) =
      followedBy engine.force inner queue := by
  simp [advance_eq, descend_append, worked]

theorem advance_append_of_pending
    {inner : Stream Later Next Result}
    (pending : inner.isReady = false)
    (queue : Queue Later) :
    advance engine (append inner queue) =
      (do
        let stream ← advance engine inner
        followedBy engine.force stream queue) := by
  rw [advance_eq, descend_append, pending, if_neg Bool.false_ne_true,
    perform_descend]
  simp

end Equations

/-! ## The equations of combinations -/

section Combinations

variable [Monad m]

theorem interleave_of_pending
    {left right : Stream Later Next Result}
    (leftPending : left.shape = .pending)
    (rightRest : right ≠ empty) :
    interleave left right = merge left right := by
  cases left with
  | empty | ready => cases leftPending
  | _ =>
    cases right with
    | empty => exact (rightRest rfl).elim
    | _ => rfl

theorem andThen_of_pending
    (feed : Result → m (Stream Later Next Result))
    (next : Next)
    {stream : Stream Later Next Result}
    (pending : stream.shape = .pending) :
    andThen feed next stream = pure (bind stream next) := by
  cases stream with
  | empty | ready => cases pending
  | _ => rfl

theorem followedBy_of_ne_empty
    (force : Later → m (Stream Later Next Result))
    {stream : Stream Later Next Result}
    (rest : stream ≠ empty)
    (queue : Queue Later) :
    followedBy force stream queue = pure (enqueue queue stream) := by
  cases stream <;> simp_all [followedBy]

theorem followedBy_empty_of_last
    (force : Later → m (Stream Later Next Result))
    {queue : Queue Later}
    {work : Later}
    (taken : queue.take = (work, none)) :
    followedBy force empty queue = force work := by
  rw [followedBy]
  split <;> simp_all

theorem followedBy_empty_of_more
    (force : Later → m (Stream Later Next Result))
    {queue rest : Queue Later}
    {work : Later}
    (taken : queue.take = (work, some rest)) :
    followedBy force empty queue =
      (do
        let stream ← force work
        followedBy force stream rest) := by
  rw [followedBy]
  split <;> simp_all

end Combinations

end Stream

end RelationalSearch
