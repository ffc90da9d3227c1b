import RelationalSearch.Proofs.Stream.Advance
import RelationalSearch.Session

/-!
# Frames around a stream

`Stream.advance` takes a stream apart on its way down and keeps what it has passed
in a list of frames.  Frames are put around a stream by `Stream.enclose`, and what
the way down leaves, the work and the frames, is the whole stream
(`Stream.enclose_descend`).  On the way up each frame is made anew around the
outcome (`Stream.Frame.remake`), the innermost one first.

So the two ways together are a recursion over the stream (`Stream.advanceLeft`):
a combination advances its left part, and is then made anew around what comes of
it.  This is so at any depth and for any nesting of combinations
(`Stream.advance_eq_advanceLeft_and_enclosed`).
-/

namespace RelationalSearch

namespace Stream

variable {m : Type → Type} {Later Next Result : Type}

/-! ## Taking apart and putting together -/

/-- The combination of which the stream is the left part. -/
def Frame.around :
    Frame Later Next Result →
      Stream Later Next Result → Stream Later Next Result
  | merge right, stream => .merge stream right
  | bind next, stream => .bind stream next
  | append queue, stream => .append stream queue

/-- Puts frames around a stream, the innermost one first. -/
def enclose
    (frames : List (Frame Later Next Result))
    (stream : Stream Later Next Result) : Stream Later Next Result :=
  frames.foldl (fun inner frame => frame.around inner) stream

@[simp]
theorem enclose_nil (stream : Stream Later Next Result) :
    enclose [] stream = stream :=
  rfl

@[simp]
theorem enclose_cons
    (frame : Frame Later Next Result)
    (frames : List (Frame Later Next Result))
    (stream : Stream Later Next Result) :
    enclose (frame :: frames) stream = enclose frames (frame.around stream) :=
  rfl

/-- The stream in which a piece of work is found. -/
def Work.stream : Work Later Next Result → Stream Later Next Result
  | force work => suspended work
  | resume inner queue => append inner queue
  | idle stream => stream

/-- The way down loses nothing. -/
theorem enclose_descend
    (stream : Stream Later Next Result)
    (frames : List (Frame Later Next Result)) :
    enclose (descend stream frames).2 (descend stream frames).1.stream =
      enclose frames stream := by
  induction stream generalizing frames with
  | empty | ready | suspended => rfl
  | merge left right leftIH _ => exact leftIH (.merge right :: frames)
  | bind inner next ih => exact ih (.bind next :: frames)
  | append inner queue ih =>
    rw [descend_append]
    split
    · rfl
    · exact ih (.append queue :: frames)

/-- The way down passes through all frames around a stream that is pending. -/
theorem descend_enclose
    {stream : Stream Later Next Result}
    (pending : stream.isReady = false)
    (frames outer : List (Frame Later Next Result)) :
    descend (enclose frames stream) outer = descend stream (frames ++ outer) := by
  induction frames generalizing stream with
  | nil => rfl
  | cons frame frames ih =>
    rw [enclose_cons, List.cons_append]
    cases frame with
    | merge right => exact ih rfl
    | bind next => exact ih rfl
    | append queue =>
      rw [ih rfl, Frame.around, descend_append, pending, if_neg Bool.false_ne_true]

/-! ## The recursion -/

section Recursion

variable [Monad m] (engine : Engine m Later Next Result)

/-- Makes the combination of a frame anew; the sides of a merge change places. -/
def Frame.remake :
    Frame Later Next Result →
      Stream Later Next Result → m (Stream Later Next Result)
  | merge right, stream => pure (interleave right stream)
  | bind next, stream => andThen (engine.feed next) next stream
  | append queue, stream => followedBy engine.force stream queue

/-- Does one piece of work, by recursion over the stream. -/
def advanceLeft : Stream Later Next Result → m (Stream Later Next Result)
  | suspended work => engine.force work
  | merge left right => do
    let stream ← advanceLeft left
    pure (interleave right stream)
  | bind inner next => do
    let stream ← advanceLeft inner
    andThen (engine.feed next) next stream
  | append inner queue =>
    if inner.isReady then
      followedBy engine.force inner queue
    else do
      let stream ← advanceLeft inner
      followedBy engine.force stream queue
  | stream => pure stream

variable [LawfulMonad m]

/-- On the way up every frame is made anew, in order. -/
theorem rebuild_eq_foldlM
    (frames : List (Frame Later Next Result))
    (stream : Stream Later Next Result) :
    rebuild engine frames stream =
      frames.foldlM (fun inner frame => frame.remake engine inner) stream := by
  induction frames generalizing stream with
  | nil => rfl
  | cons frame frames ih =>
    rw [List.foldlM_cons]
    cases frame with
    | merge right =>
      rw [rebuild_merge, Frame.remake, pure_bind]
      exact ih _
    | bind | append => exact bind_congr ih

/-- The frames are made anew around what comes of advancing the stream inside. -/
theorem advance_enclose
    {stream : Stream Later Next Result}
    (pending : stream.isReady = false)
    (frames : List (Frame Later Next Result)) :
    advance engine (enclose frames stream) =
      advance engine stream >>= rebuild engine frames := by
  rw [← perform_descend, advance_eq, descend_enclose pending, List.append_nil]

theorem advance_eq_advanceLeft (stream : Stream Later Next Result) :
    advance engine stream = advanceLeft engine stream := by
  induction stream with
  | empty => exact advance_empty engine
  | ready result rest => exact advance_ready engine result rest
  | suspended work => exact advance_suspended engine work
  | merge left right leftIH _ => rw [advance_merge, leftIH, advanceLeft]
  | bind inner next ih => rw [advance_bind, ih, advanceLeft]
  | append inner queue ih =>
    rw [advanceLeft]
    split
    next worked => exact advance_append_of_isReady engine worked queue
    next pending =>
      rw [advance_append_of_pending engine (Bool.eq_false_iff.mpr pending), ih]

/--
Advancing a stream is the recursion over it.  What the way down leaves is the whole
stream, and any frames around pending work are made anew around what comes of the
work, every one of them and the innermost one first.
-/
theorem advance_eq_advanceLeft_and_enclosed (stream : Stream Later Next Result) :
    advance engine stream = advanceLeft engine stream ∧
    enclose (descend stream []).2 (descend stream []).1.stream = stream ∧
    (stream.isReady = false →
      ∀ frames : List (Frame Later Next Result),
        advance engine (enclose frames stream) =
          advance engine stream >>=
            frames.foldlM fun inner frame => frame.remake engine inner) := by
  refine ⟨advance_eq_advanceLeft engine stream, enclose_descend stream [],
    fun pending frames => ?_⟩
  rw [advance_enclose engine pending]
  exact bind_congr (rebuild_eq_foldlM engine frames)

end Recursion

/--
A suspension on the left of a merge, with queued work behind the merge and a goal
around it all: the outcome is on the right of the merge, which is pending still.
-/
theorem advance_eq_advanceLeft_and_enclosed_nested :
    let engine : Engine Search Nat Nat Nat :=
      { force := fun work => pure (unit work)
        feed := fun next result => pure (unit (next + result)) }
    let inner : Stream Nat Nat Nat := suspended 1
    let frames : List (Frame Nat Nat Nat) :=
      [.merge (suspended 2), .append (.one 3), .bind 10]
    inner.isReady = false ∧
      advance engine (enclose frames inner) =
        advanceLeft engine (enclose frames inner) ∧
      advance engine (enclose frames inner) =
        pure (.bind (.append (.merge (suspended 2) (unit 1)) (.one 3)) 10) := by
  intro engine inner frames
  have recursion :=
    (advance_eq_advanceLeft_and_enclosed engine (enclose frames inner)).1
  have nested := (advance_eq_advanceLeft_and_enclosed engine inner).2.2 rfl frames
  refine ⟨rfl, recursion, ?_⟩
  rw [nested, advance_suspended]
  simp [engine, frames, Frame.remake, unit, interleave, followedBy, enqueue,
    andThen]

end Stream

end RelationalSearch
