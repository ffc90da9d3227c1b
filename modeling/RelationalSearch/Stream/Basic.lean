import RelationalSearch.Stream.Queue

/-!
# Streams of results

A stream is a sequence of results that is only partly worked out.  It may be
empty, may have a result ready, or may be pending: a suspension, which gives
the rest of the stream when it is forced, or a combination of streams that are
pending themselves.

A stream is plain data.  It names the work left in it by values of three types:
`Later` for suspended work, `Next` for what results are fed to, and `Result`
for the results.  What such values mean is said by an `Engine`.
-/

namespace RelationalSearch

/-- A sequence of results with the work that is left in it. -/
inductive Stream (Later Next Result : Type) where
  /-- No results. -/
  | empty
  /-- A result, and then the others. -/
  | ready (result : Result) (rest : Stream Later Next Result)
  /-- Whatever the work gives. -/
  | suspended (work : Later)
  /-- The results of both; the two change places when the left one advances. -/
  | merge (left right : Stream Later Next Result)
  /-- The results that come of feeding those of the inner stream onwards. -/
  | bind (inner : Stream Later Next Result) (next : Next)
  /-- The inner stream, followed by what each piece of work gives, in order. -/
  | append (inner : Stream Later Next Result) (queue : Queue Later)

/--
The meaning of the work in a stream: how to force a suspension, and what comes
of feeding a result onwards.
-/
structure Engine (m : Type → Type) (Later Next Result : Type) where
  force : Later → m (Stream Later Next Result)
  feed : Next → Result → m (Stream Later Next Result)

namespace Stream

variable {m : Type → Type} {Later Next Result : Type}

instance : Inhabited (Stream Later Next Result) := ⟨empty⟩

/-- The stream of a single result. -/
def unit (result : Result) : Stream Later Next Result := ready result empty

/-- True of a stream that is known to have no results. -/
def isEmpty : Stream Later Next Result → Bool
  | empty => true
  | _ => false

/-- True of a stream whose front is worked out. -/
def isReady : Stream Later Next Result → Bool
  | empty => true
  | ready _ _ => true
  | _ => false

/-! ## Combining streams -/

/--
The results of two streams.  Those ready on the left come first; at the first
piece of pending work the two streams are left to take turns.
-/
def interleave :
    Stream Later Next Result →
      Stream Later Next Result → Stream Later Next Result
  | empty, right => right
  | ready result rest, right => ready result (interleave rest right)
  | left, empty => left
  | left, right => merge left right

@[simp]
theorem interleave_empty_left (right : Stream Later Next Result) :
    interleave empty right = right := rfl

@[simp]
theorem interleave_ready
    (result : Result)
    (rest right : Stream Later Next Result) :
    interleave (ready result rest) right =
      ready result (interleave rest right) := rfl

@[simp]
theorem interleave_empty_right (left : Stream Later Next Result) :
    interleave left empty = left := by
  induction left with
  | ready result rest hypothesis => rw [interleave_ready, hypothesis]
  | _ => rfl

/--
Feeds the results that are ready onwards, in order, and puts off the others.
What comes of the results is interleaved.  Here `feed` is the meaning of `next`.
-/
@[specialize]
def andThen
    [Monad m]
    (feed : Result → m (Stream Later Next Result))
    (next : Next) :
    Stream Later Next Result → m (Stream Later Next Result)
  | empty => pure empty
  | ready result rest => do
    let front ← feed result
    let back ← andThen feed next rest
    pure (interleave front back)
  | pending => pure (bind pending next)

/-- Queues work behind a stream, behind the work that is queued already. -/
def enqueue (queue : Queue Later) :
    Stream Later Next Result → Stream Later Next Result
  | ready result rest => ready result (enqueue queue rest)
  | append inner earlier => append inner (.join earlier queue)
  | stream => append stream queue

@[simp]
theorem enqueue_ready
    (queue : Queue Later)
    (result : Result)
    (rest : Stream Later Next Result) :
    enqueue queue (ready result rest) = ready result (enqueue queue rest) := rfl

@[simp]
theorem enqueue_append
    (queue earlier : Queue Later)
    (inner : Stream Later Next Result) :
    enqueue queue (append inner earlier) = append inner (.join earlier queue) :=
  rfl

/--
A stream followed by what one piece of work gives.  The work is done at once
if nothing comes before it.  Here `force` is the meaning of `work`.
-/
@[specialize]
def before
    [Monad m]
    (force : m (Stream Later Next Result))
    (work : Later) :
    Stream Later Next Result → m (Stream Later Next Result)
  | empty => force
  | stream => pure (enqueue (.one work) stream)

/--
A stream followed by what the queued work gives.  Work is taken from the queue
only when nothing comes before it any more.
-/
@[specialize]
def followedBy
    [Monad m]
    (force : Later → m (Stream Later Next Result)) :
    Stream Later Next Result → Queue Later → m (Stream Later Next Result)
  | empty, queue =>
    match _taken : queue.take with
    | (work, none) => force work
    | (work, some rest) => do
      let stream ← force work
      followedBy force stream rest
  | stream, queue => pure (enqueue queue stream)
termination_by _ queue => queue.size
decreasing_by exact Queue.size_lt_of_take _taken

theorem followedBy_one
    [Monad m]
    (force : Later → m (Stream Later Next Result))
    (work : Later)
    (stream : Stream Later Next Result) :
    followedBy force stream (.one work) = before (force work) work stream := by
  cases stream <;> simp [followedBy, before, Queue.take]

/-! ## Shapes -/

/-- What can be seen of a stream without working on it. -/
inductive Shape where
  | empty
  | mature
  | pending
  deriving DecidableEq, Repr

/-- What can be seen of a stream without working on it. -/
def shape : Stream Later Next Result → Shape
  | empty => .empty
  | ready _ _ => .mature
  | _ => .pending

/-- The word for a shape. -/
def Shape.text : Shape → String
  | empty => "Empty"
  | mature => "Mature"
  | pending => "Pending"

end Stream

end RelationalSearch
