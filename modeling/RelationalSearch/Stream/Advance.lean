import RelationalSearch.Stream.Basic

/-!
# Advancing streams

`Stream.advance` does one piece of work.  It goes down the left side of the
pending combinations to the work at the bottom (`Stream.descend`), does it
(`Stream.Work.perform`) and puts the combinations around the outcome again
(`Stream.rebuild`).  The way down is kept in a list of frames.

`Stream.pull` advances until a result is ready or the stream has ended.
-/

namespace RelationalSearch

namespace Stream

variable {m : Type → Type} {Later Next Result : Type}

/-- A combination on the way down to the work, without its left part. -/
inductive Frame (Later Next Result : Type) where
  | merge (right : Stream Later Next Result)
  | bind (next : Next)
  | append (queue : Queue Later)

/-- The piece of work at the bottom of the left side of a stream. -/
inductive Work (Later Next Result : Type) where
  /-- A suspension is to be forced. -/
  | force (work : Later)
  /-- What is in front of a queue is worked out. -/
  | resume (inner : Stream Later Next Result) (queue : Queue Later)
  /-- There is nothing to do. -/
  | idle (stream : Stream Later Next Result)

/-- Finds the work of a stream, and the way to it, innermost frame first. -/
def descend :
    Stream Later Next Result →
      List (Frame Later Next Result) →
        Work Later Next Result × List (Frame Later Next Result)
  | merge left right, frames => descend left (.merge right :: frames)
  | bind inner next, frames => descend inner (.bind next :: frames)
  | append inner queue, frames =>
    if inner.isReady then
      (.resume inner queue, frames)
    else
      descend inner (.append queue :: frames)
  | suspended work, frames => (.force work, frames)
  | stream, frames => (.idle stream, frames)

section Descend

variable (frames : List (Frame Later Next Result))

@[simp]
theorem descend_empty :
    descend empty frames =
      ((.idle empty, frames) : Work Later Next Result × _) := rfl

@[simp]
theorem descend_ready (result : Result) (rest : Stream Later Next Result) :
    descend (ready result rest) frames = (.idle (ready result rest), frames) :=
  rfl

@[simp]
theorem descend_suspended (work : Later) :
    descend (suspended work) frames = (.force work, frames) := rfl

@[simp]
theorem descend_merge (left right : Stream Later Next Result) :
    descend (merge left right) frames = descend left (.merge right :: frames) :=
  rfl

@[simp]
theorem descend_bind (inner : Stream Later Next Result) (next : Next) :
    descend (bind inner next) frames = descend inner (.bind next :: frames) :=
  rfl

theorem descend_append
    (inner : Stream Later Next Result)
    (queue : Queue Later) :
    descend (append inner queue) frames =
      if inner.isReady then
        (.resume inner queue, frames)
      else
        descend inner (.append queue :: frames) := rfl

end Descend

/-- Does a piece of work. -/
@[specialize]
def Work.perform
    [Monad m]
    (engine : Engine m Later Next Result) :
    Work Later Next Result → m (Stream Later Next Result)
  | force work => engine.force work
  | resume inner queue => followedBy engine.force inner queue
  | idle stream => pure stream

/-- Puts frames around a stream.  The two sides of a merge change places. -/
@[specialize]
def rebuild
    [Monad m]
    (engine : Engine m Later Next Result) :
    List (Frame Later Next Result) →
      Stream Later Next Result → m (Stream Later Next Result)
  | [], stream => pure stream
  | .merge right :: frames, stream =>
    rebuild engine frames (interleave right stream)
  | .bind next :: frames, stream => do
    let stream ← andThen (engine.feed next) next stream
    rebuild engine frames stream
  | .append queue :: frames, stream => do
    let stream ← followedBy engine.force stream queue
    rebuild engine frames stream

section Equations

variable [Monad m] (engine : Engine m Later Next Result)
  (frames : List (Frame Later Next Result)) (stream : Stream Later Next Result)

@[simp]
theorem perform_force (work : Later) :
    Work.perform engine (.force work) = engine.force work := rfl

@[simp]
theorem perform_resume (queue : Queue Later) :
    Work.perform engine (.resume stream queue) =
      followedBy engine.force stream queue := rfl

@[simp]
theorem perform_idle : Work.perform engine (.idle stream) = pure stream := rfl

@[simp]
theorem rebuild_nil : rebuild engine [] = pure := rfl

@[simp]
theorem rebuild_merge (right : Stream Later Next Result) :
    rebuild engine (.merge right :: frames) =
      fun stream => rebuild engine frames (interleave right stream) := rfl

@[simp]
theorem rebuild_bind (next : Next) :
    rebuild engine (.bind next :: frames) =
      fun stream =>
        andThen (engine.feed next) next stream >>= rebuild engine frames := rfl

@[simp]
theorem rebuild_append (queue : Queue Later) :
    rebuild engine (.append queue :: frames) =
      fun stream =>
        followedBy engine.force stream queue >>= rebuild engine frames := rfl

end Equations

/-- Does one piece of work in a stream. -/
@[specialize]
def advance
    [Monad m]
    (engine : Engine m Later Next Result)
    (stream : Stream Later Next Result) :
    m (Stream Later Next Result) := do
  let (work, frames) := descend stream []
  let stream ← work.perform engine
  rebuild engine frames stream

theorem advance_eq
    [Monad m]
    (engine : Engine m Later Next Result)
    (stream : Stream Later Next Result) :
    advance engine stream =
      (descend stream []).1.perform engine >>=
        rebuild engine (descend stream []).2 := rfl

/-! ## Taking results -/

/-- What came of asking a stream for a result. -/
inductive Pulled (Later Next Result : Type) where
  /-- The stream has ended. -/
  | ended
  /-- A result, and the stream behind it. -/
  | result (result : Result) (rest : Stream Later Next Result)
  /-- As much work as was allowed has been done, without a result. -/
  | unfinished (stream : Stream Later Next Result)

/-- Asks for a result, and does at most `effort` pieces of work for it. -/
@[specialize]
def pull
    [Monad m]
    (engine : Engine m Later Next Result) :
    Nat → Stream Later Next Result → m (Pulled Later Next Result)
  | _, empty => pure .ended
  | _, ready result rest => pure (.result result rest)
  | 0, pending => pure (.unfinished pending)
  | effort + 1, pending => do
    let stream ← advance engine pending
    pull engine effort stream

/--
The first `count` results, or all of them if there are fewer.  At most `effort`
pieces of work are done for each.
-/
@[specialize]
def take
    [Monad m]
    (engine : Engine m Later Next Result)
    (effort : Nat) :
    Nat → Stream Later Next Result → m (List Result)
  | 0, _ => pure []
  | count + 1, stream => do
    match ← pull engine effort stream with
    | .result result rest =>
      let results ← take engine effort count rest
      pure (result :: results)
    | _ => pure []

end Stream

end RelationalSearch
