import RelationalSearch.Proofs.Stream.Delivery
import RelationalSearch.Proofs.Stream.Descent
import RelationalSearch.Proofs.Stream.Map

/-!
# Well-formed streams

The combinations of a stream are made only where there is something to combine.  In
a well-formed stream the left side of a merge is pending and the right side has not
ended, what is fed onwards is pending, and in front of a queue there is neither a
result nor another queue (`Stream.WellFormed`).  This is so at every depth.

Combining well-formed streams and advancing one keeps to this form, if forcing work
and feeding results onwards does (`Stream.KeepsForm`).  A piece of work may give a
stream of any shape, and the frames that are put around it again are frames of a
well-formed stream, so what decides is what the combinations make of it.

Work is then found at the bottom of the left side of every pending stream, and
advancing the stream begins with it (`Stream.Progresses`): there is always something
to do.
-/

namespace RelationalSearch

/-- In whatever session the computation runs, its value has the property. -/
def Search.Ensures {α : Type} (search : Search α) (property : α → Prop) : Prop :=
  ∀ session, property (search.run session).1

namespace Search

variable {α β : Type}

theorem ensures_pure {property : α → Prop} {value : α} (holds : property value) :
    Ensures (pure value) property :=
  fun _ => holds

theorem Ensures.bind
    {search : Search α}
    {next : α → Search β}
    {property : α → Prop}
    {later : β → Prop}
    (ensures : Ensures search property)
    (follows : ∀ value, property value → Ensures (next value) later) :
    Ensures (search >>= next) later :=
  fun session => follows _ (ensures session) _

end Search

namespace Stream

open Search

variable {m : Type → Type} {Later Next Result : Type}
  {stream left right inner : Stream Later Next Result}

/-! ## The form of streams -/

/-- True of a stream followed by queued work. -/
def isAppend : Stream Later Next Result → Bool
  | append _ _ => true
  | _ => false

/-- Combinations are made only where there is something to combine, at every depth. -/
inductive WellFormed : Stream Later Next Result → Prop where
  | empty : WellFormed .empty
  | ready
      {result : Result} {rest : Stream Later Next Result}
      (restForm : WellFormed rest) :
      WellFormed (.ready result rest)
  | suspended {work : Later} : WellFormed (.suspended work)
  | merge
      {left right : Stream Later Next Result}
      (pending : left.shape = .pending)
      (notEnded : right ≠ .empty)
      (leftForm : WellFormed left)
      (rightForm : WellFormed right) :
      WellFormed (.merge left right)
  | bind
      {inner : Stream Later Next Result} {next : Next}
      (pending : inner.shape = .pending)
      (innerForm : WellFormed inner) :
      WellFormed (.bind inner next)
  | append
      {inner : Stream Later Next Result} {queue : Queue Later}
      (queued : queue.toList ≠ [])
      (notMature : inner.shape ≠ .mature)
      (notAppend : inner.isAppend = false)
      (innerForm : WellFormed inner) :
      WellFormed (.append inner queue)

/-! ## Combining well-formed streams -/

theorem WellFormed.interleave_of_pending
    (leftForm : left.WellFormed)
    (pending : left.shape = .pending)
    (rightForm : right.WellFormed) :
    (left.interleave right).WellFormed := by
  by_cases ended : right = .empty
  · rwa [ended, interleave_empty_right]
  · rw [Stream.interleave_of_pending pending ended]
    exact .merge pending ended leftForm rightForm

theorem WellFormed.interleave
    (leftForm : left.WellFormed)
    (rightForm : right.WellFormed) :
    (left.interleave right).WellFormed := by
  induction left with
  | empty => exact rightForm
  | ready result rest ih =>
    cases leftForm with
    | ready restForm => exact .ready (ih restForm)
  | suspended | merge | bind | append =>
    exact leftForm.interleave_of_pending rfl rightForm

theorem WellFormed.enqueue
    (form : stream.WellFormed)
    (queue : Queue Later) :
    (stream.enqueue queue).WellFormed := by
  have queued := queue.toList_ne_nil
  induction form with
  | ready _ ih => exact .ready ih
  | append _ notMature notAppend inner _ =>
    -- The queues are joined, so that there is one queue behind what was in front.
    exact .append (Queue.toList_ne_nil _) notMature notAppend inner
  | empty => exact .append queued Shape.noConfusion rfl .empty
  | suspended => exact .append queued Shape.noConfusion rfl .suspended
  | merge pending notEnded left right _ _ =>
    exact .append queued Shape.noConfusion rfl
      (.merge pending notEnded left right)
  | bind pending inner _ =>
    exact .append queued Shape.noConfusion rfl (.bind pending inner)

theorem ensures_andThen
    {feed : Result → Search (Stream Later Next Result)}
    (feeds : ∀ result, Ensures (feed result) WellFormed)
    (next : Next)
    (form : stream.WellFormed) :
    Ensures (andThen feed next stream) WellFormed := by
  induction stream with
  | empty => exact ensures_pure .empty
  | ready result rest ih =>
    cases form with
    | ready restForm =>
      exact (feeds result).bind fun front frontForm =>
        (ih restForm).bind fun back backForm =>
          ensures_pure (frontForm.interleave backForm)
  | suspended | merge | bind | append => exact ensures_pure (.bind rfl form)

theorem ensures_followedBy
    {force : Later → Search (Stream Later Next Result)}
    (forces : ∀ work, Ensures (force work) WellFormed)
    (queue : Queue Later)
    (form : stream.WellFormed) :
    Ensures (followedBy force stream queue) WellFormed := by
  fun_induction followedBy force stream queue with
  | case1 queue work taken => exact forces work
  | case2 queue work rest taken ih =>
    exact (forces work).bind fun later laterForm => ih later laterForm
  | case3 stream queue => exact ensures_pure (form.enqueue queue)

theorem ensures_before
    {force : Search (Stream Later Next Result)}
    (forces : Ensures force WellFormed)
    (work : Later)
    (form : stream.WellFormed) :
    Ensures (before force work stream) WellFormed := by
  rw [← followedBy_one fun _ => force]
  exact ensures_followedBy (fun _ => forces) _ form

/-! ## Advancing well-formed streams -/

/-- The work of the engine gives well-formed streams. -/
structure KeepsForm (engine : Engine Search Later Next Result) : Prop where
  forces : ∀ work, Ensures (engine.force work) WellFormed
  feeds : ∀ next result, Ensures (engine.feed next result) WellFormed

namespace KeepsForm

variable {engine : Engine Search Later Next Result}

theorem advance
    (keeps : KeepsForm engine)
    (form : stream.WellFormed) :
    Ensures (advance engine stream) WellFormed := by
  rw [advance_eq_advanceLeft]
  induction form with
  | empty => exact ensures_pure .empty
  | ready rest _ => exact ensures_pure (.ready rest)
  | suspended => exact keeps.forces _
  | merge _ _ _ right leftIH _ =>
    exact leftIH.bind fun _ later => ensures_pure (right.interleave later)
  | bind _ _ ih =>
    exact ih.bind fun _ later => ensures_andThen (keeps.feeds _) _ later
  | append _ _ _ inner ih =>
    rw [advanceLeft]
    split
    · exact ensures_followedBy keeps.forces _ inner
    · exact ih.bind fun _ later => ensures_followedBy keeps.forces _ later

theorem nextMoment
    (keeps : KeepsForm engine)
    {moment : Moment Later Next Result}
    (form : moment.1.WellFormed) :
    (nextMoment engine moment).1.WellFormed := by
  rcases moment with ⟨stream, session⟩
  cases stream with
  | ready result rest =>
    cases form with
    | ready restForm => exact restForm
  | empty | suspended | merge | bind | append => exact keeps.advance form session

/-- Whatever a caller has taken and had done, the stream is well-formed. -/
theorem iterate
    (keeps : KeepsForm engine)
    {moment : Moment Later Next Result}
    (form : moment.1.WellFormed)
    (time : Nat) :
    ((Stream.nextMoment engine)^[time] moment).1.WellFormed := by
  induction time with
  | zero => exact form
  | succ time ih =>
    rw [Function.iterate_succ_apply']
    exact keeps.nextMoment ih

end KeepsForm

/-! ## Progress -/

/-- At the bottom of the left side there is work to be done. -/
theorem WellFormed.exists_work
    (form : stream.WellFormed)
    (pending : stream.shape = .pending)
    (frames : List (Frame Later Next Result)) :
    (∃ work, (descend stream frames).1 = .force work) ∨
      ∃ queue, (descend stream frames).1 = .resume .empty queue := by
  induction form generalizing frames with
  | empty | ready => cases pending
  | suspended => exact .inl ⟨_, rfl⟩
  | merge leftPending _ _ _ ih _ => exact ih leftPending _
  | bind innerPending _ ih => exact ih innerPending _
  | @append inner queue _ notMature _ _ ih =>
    rw [descend_append]
    split
    next worked =>
      -- Nothing that is ready is in front of a queue, unless it has ended.
      cases inner with
      | empty => exact .inr ⟨queue, rfl⟩
      | ready => exact (notMature rfl).elim
      | _ => cases worked
    next unworked =>
      exact ih (isReady_eq_false_iff.mp (Bool.eq_false_iff.mpr unworked)) _

section Progress

variable [Monad m]

/-- What is done when the first piece of queued work has given a stream. -/
def resumeWith
    (force : Later → m (Stream Later Next Result))
    (first : Stream Later Next Result) :
    Option (Queue Later) → m (Stream Later Next Result)
  | none => pure first
  | some rest => followedBy force first rest

variable [LawfulMonad m]

theorem followedBy_empty
    (force : Later → m (Stream Later Next Result))
    (queue : Queue Later) :
    followedBy force empty queue =
      (do
        let first ← force queue.take.1
        resumeWith force first queue.take.2) := by
  rcases taken : queue.take with ⟨work, _ | rest⟩
  · rw [followedBy_empty_of_last force taken]
    exact (bind_pure _).symm
  · exact followedBy_empty_of_more force taken

/--
There is work at the bottom of the left side, and advancing the stream begins with
it.  The work is a suspension, or the first piece of a queue with nothing in front
of it any more.
-/
inductive Progresses
    (engine : Engine m Later Next Result)
    (stream : Stream Later Next Result) : Prop where
  | forced
      (frames : List (Frame Later Next Result))
      (work : Later)
      (path : stream = enclose frames (.suspended work))
      (advances :
        advance engine stream = engine.force work >>= rebuild engine frames)
  | resumed
      (frames : List (Frame Later Next Result))
      (queue : Queue Later)
      (path : stream = enclose frames (.append .empty queue))
      (advances :
        advance engine stream =
          (do
            let first ← engine.force queue.take.1
            let inner ← resumeWith engine.force first queue.take.2
            rebuild engine frames inner))

theorem WellFormed.progresses
    (form : stream.WellFormed)
    (pending : stream.shape = .pending)
    (engine : Engine m Later Next Result) :
    Progresses engine stream := by
  have path :
      stream = enclose (descend stream []).2 (descend stream []).1.stream := by
    rw [enclose_descend, enclose_nil]
  have ways :
      advance engine stream =
        (descend stream []).1.perform engine >>=
          rebuild engine (descend stream []).2 :=
    rfl
  rcases form.exists_work pending [] with ⟨work, found⟩ | ⟨queue, found⟩
  · rw [found] at path
    rw [found] at ways
    exact .forced _ work path ways
  · rw [found] at path
    rw [found, perform_resume, followedBy_empty, bind_assoc] at ways
    exact .resumed _ queue path ways

end Progress

/-! ## What is handed to `advance` -/

/-- Asks for a result as `Stream.pull` does, and advances streams as it is told. -/
def pullWith
    [Monad m]
    (advancing : Stream Later Next Result → m (Stream Later Next Result)) :
    Nat → Stream Later Next Result → m (Pulled Later Next Result)
  | _, empty => pure .ended
  | _, ready result rest => pure (.result result rest)
  | 0, pending => pure (.unfinished pending)
  | effort + 1, pending => do
    let stream ← advancing pending
    pullWith advancing effort stream

/--
Only well-formed pending streams are advanced for the sake of a result: how others are
advanced does not matter.
-/
theorem KeepsForm.pullWith_eq
    {engine : Engine Search Later Next Result}
    (keeps : KeepsForm engine)
    {advancing : Stream Later Next Result → Search (Stream Later Next Result)}
    (agrees :
      ∀ stream : Stream Later Next Result, stream.WellFormed →
        stream.shape = .pending → advancing stream = Stream.advance engine stream)
    (form : stream.WellFormed)
    (effort : Nat)
    (session : Session) :
    (pullWith advancing effort stream).run session =
      (pull engine effort stream).run session := by
  induction effort generalizing stream session with
  | zero => cases stream <;> rfl
  | succ effort ih =>
    cases stream with
    | empty | ready => rfl
    | suspended | merge | bind | append =>
      have same := agrees _ form rfl
      change (advancing _ >>= pullWith advancing effort).run session =
        (Stream.advance engine _ >>= pull engine effort).run session
      rw [same]
      exact ih (keeps.advance form session) _

end Stream

end RelationalSearch
