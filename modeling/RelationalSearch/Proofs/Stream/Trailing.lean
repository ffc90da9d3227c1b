import RelationalSearch.Proofs.Stream.Map

/-!
# Work that waits behind a stream

A piece of work is queued behind a stream, and is done when the stream has been
exhausted.  Until then the stream goes on as it would do alone, result for
result and in the same sessions (`Stream.Trails`).  When it has ended the work
is done in the session that it leaves behind, and nothing else comes first
(`Stream.HandsOver`).

Where the stream has a queue of its own, the work comes behind what is in that
queue.  Joining queues does not change their order, but it may nest them in
another way, and so it is only the order of a queue that is compared.
-/

namespace RelationalSearch

namespace Stream

variable {Later Next Result : Type}

/-! ## Streams to their end -/

/--
The stream gives these results and then has ended, in the session that it
leaves behind.
-/
def Exhausts
    (engine : Engine Search Later Next Result)
    (moment : Moment Later Next Result)
    (results : List Result)
    (after : Session) : Prop :=
  ∃ time,
    (nextMoment engine)^[time] moment = (empty, after) ∧
      delivered (stagesFrom engine moment) time = results

theorem Exhausts.drains
    {engine : Engine Search Later Next Result}
    {moment : Moment Later Next Result}
    {results : List Result}
    {after : Session}
    (exhausts : Exhausts engine moment results after) :
    Drains engine moment.1 moment.2 results := by
  rcases exhausts with ⟨time, reached, rfl⟩
  exact drains_of_eq_empty (congrArg Prod.fst reached)

/-- A request that finds a stream at its end ends at that moment. -/
theorem exhausts_of_pull
    {engine : Engine Search Later Next Result}
    {effort : Nat}
    {stream : Stream Later Next Result}
    {session after : Session}
    (pulled : (pull engine effort stream).run session = (.ended, after)) :
    Exhausts engine (stream, session) [] after := by
  induction effort generalizing stream session with
  | zero =>
    cases stream <;> cases pulled
    exact ⟨0, rfl, rfl⟩
  | succ effort ih =>
    rcases stream.cases_of_shape with rfl | ⟨_, _, rfl⟩ | shaped
    · cases pulled
      exact ⟨0, rfl, rfl⟩
    · cases pulled
    · rw [pull_succ_of_pending shaped] at pulled
      rcases ih pulled with ⟨time, reached, nothing⟩
      refine ⟨time + 1, reached, ?_⟩
      rw [delivered_succ_left, stagesFrom_succ, nothing, stagesFrom_zero,
        front_of_pending shaped, List.nil_append]

/-- What a caller gets who asks until the end is given up to the end. -/
theorem Drains.exists_exhausts
    {engine : Engine Search Later Next Result}
    {stream : Stream Later Next Result}
    {session : Session}
    {results : List Result}
    (drains : Drains engine stream session results) :
    ∃ after, Exhausts engine (stream, session) results after := by
  induction drains with
  | ended pulled => exact ⟨_, exhausts_of_pull pulled⟩
  | @result stream rest session middle _ result results pulled _ ih =>
    rcases ih with ⟨after, time, reached, rfl⟩
    rcases exists_ready_of_pull pulled with ⟨earlier, front, nothing⟩
    have taken : (nextMoment engine)^[earlier + 1] (stream, session) =
        (rest, middle) := by
      rw [Function.iterate_succ_apply', front, nextMoment_ready]
    refine ⟨after, time + (earlier + 1), ?_, ?_⟩
    · rw [Function.iterate_add_apply, taken, reached]
    · rw [Nat.add_comm, delivered_add, taken, delivered_succ, nothing,
        stagesFrom, front]
      rfl

/-! ## A piece of work behind a stream -/

/-- The second stream is the first one with the work queued behind it. -/
inductive Trails (work : Later) :
    Stream Later Next Result → Stream Later Next Result → Prop where
  | ready
      {result : Result} {rest whole : Stream Later Next Result}
      (behind : Trails work rest whole) :
      Trails work (.ready result rest) (.ready result whole)
  | joined
      {inner : Stream Later Next Result} {earlier queue : Queue Later}
      (order : queue.toList = earlier.toList ++ [work]) :
      Trails work (.append inner earlier) (.append inner queue)
  | queued
      {stream : Stream Later Next Result} {queue : Queue Later}
      (nothing : stream.front = [])
      (order : queue.toList = [work]) :
      Trails work stream (.append stream queue)

/--
The stream goes on, with the work behind it, or it has ended and the work has
been done.
-/
def HandsOver
    (engine : Engine Search Later Next Result)
    (work : Later)
    (alone whole : Moment Later Next Result) : Prop :=
  (Trails work alone.1 whole.1 ∧ whole.2 = alone.2) ∨
    (alone.1 = empty ∧ whole = (engine.force work).run alone.2)

section Steps

variable {engine : Engine Search Later Next Result} {work : Later}
  {alone whole : Moment Later Next Result}

theorem Trails.front_eq
    {stream other : Stream Later Next Result}
    (trails : Trails work stream other) :
    other.front = stream.front := by
  cases trails with
  | ready => rfl
  | joined => rfl
  | queued nothing => exact nothing.symm

/-- While work is behind a stream it has not ended. -/
theorem Trails.ne_empty
    {stream other : Stream Later Next Result}
    (trails : Trails work stream other) :
    other ≠ empty := by
  rintro rfl
  cases trails

theorem trails_enqueue
    {queue : Queue Later}
    (order : queue.toList = [work])
    (stream : Stream Later Next Result) :
    Trails work stream (enqueue queue stream) := by
  induction stream with
  | ready result rest ih => exact .ready ih
  | append inner earlier =>
    refine .joined ?_
    rw [Queue.toList_join, order]
  | empty | suspended | merge | bind => exact .queued rfl order

/-- The work comes behind a queue that is put behind a stream. -/
theorem trails_enqueue_enqueue
    {earlier queue : Queue Later}
    (order : queue.toList = earlier.toList ++ [work])
    (stream : Stream Later Next Result) :
    Trails work (enqueue earlier stream) (enqueue queue stream) := by
  induction stream with
  | ready result rest ih => exact .ready ih
  | append inner first =>
    refine .joined ?_
    rw [Queue.toList_join, Queue.toList_join, order, List.append_assoc]
  | empty | suspended | merge | bind => exact .joined order

/-- A queue with one piece of work is worked off when that is done. -/
theorem followedBy_empty_of_toList
    {queue : Queue Later}
    (order : queue.toList = [work]) :
    followedBy engine.force empty queue = engine.force work :=
  followedBy_empty_of_last _ (Queue.take_of_toList_eq_singleton order)

/-- Behind a stream there is no other work than this. -/
theorem handsOver_followedBy
    {queue : Queue Later}
    (order : queue.toList = [work])
    (stream : Stream Later Next Result)
    (session : Session) :
    HandsOver engine work (stream, session)
      ((followedBy engine.force stream queue).run session) := by
  by_cases ended : stream = empty
  · subst ended
    rw [followedBy_empty_of_toList order]
    exact .inr ⟨rfl, rfl⟩
  · rw [followedBy_of_ne_empty _ ended]
    exact .inl ⟨trails_enqueue order stream, rfl⟩

theorem handsOver_before
    (stream : Stream Later Next Result)
    (session : Session) :
    HandsOver engine work (stream, session)
      ((before (engine.force work) work stream).run session) := by
  rw [← followedBy_one]
  exact handsOver_followedBy (Queue.toList_one work) stream session

/-- The work is done when the queue in front of it has been worked off. -/
theorem handsOver_followedBy_followedBy
    {earlier queue : Queue Later}
    (order : queue.toList = earlier.toList ++ [work])
    (stream : Stream Later Next Result)
    (session : Session) :
    HandsOver engine work
      ((followedBy engine.force stream earlier).run session)
      ((followedBy engine.force stream queue).run session) := by
  induction counted : earlier.size using Nat.strongRecOn
    generalizing stream session earlier queue with
  | _ size ih =>
    by_cases ended : stream = empty
    · subst ended
      rcases taken : earlier.take with ⟨first, _ | rest⟩
      · rw [earlier.toList_of_last taken] at order
        rcases Queue.exists_take_of_toList_eq_cons order
            (List.cons_ne_nil _ _) with ⟨others, takenToo, onwards⟩
        rw [followedBy_empty_of_last _ taken,
          followedBy_empty_of_more _ takenToo]
        exact handsOver_followedBy onwards _ _
      · rw [earlier.toList_of_more taken, List.cons_append] at order
        rcases Queue.exists_take_of_toList_eq_cons order
            (List.append_ne_nil_of_left_ne_nil rest.toList_ne_nil _) with
          ⟨others, takenToo, onwards⟩
        rw [followedBy_empty_of_more _ taken,
          followedBy_empty_of_more _ takenToo]
        have smaller : rest.size < size :=
          counted ▸ Queue.size_lt_of_take taken
        exact ih rest.size smaller onwards _ _ rfl
    · left
      rw [followedBy_of_ne_empty _ ended, followedBy_of_ne_empty _ ended]
      exact ⟨trails_enqueue_enqueue order stream, rfl⟩

/-- A piece of work in the stream is done alike with and without a queue. -/
theorem Trails.handsOver_advance
    {stream other : Stream Later Next Result}
    (trails : Trails work stream other)
    (pending : stream.shape = .pending)
    (session : Session) :
    HandsOver engine work ((advance engine stream).run session)
      ((advance engine other).run session) := by
  cases trails with
  | ready => cases pending
  | @joined inner earlier queue order =>
    rcases worked : inner.isReady with _ | _
    · rw [advance_append_of_pending engine worked,
        advance_append_of_pending engine worked]
      exact handsOver_followedBy_followedBy order _ _
    · rw [advance_append_of_isReady engine worked,
        advance_append_of_isReady engine worked]
      exact handsOver_followedBy_followedBy order _ _
  | queued _ order =>
    rw [advance_append_of_pending engine (isReady_eq_false_iff.mpr pending)]
    exact handsOver_followedBy order _ _

/-- The work behind a stream that has ended is done next. -/
theorem Trails.nextMoment_of_empty
    {other : Stream Later Next Result}
    (trails : Trails work empty other)
    (session : Session) :
    Stream.nextMoment engine (other, session) =
      (engine.force work).run session := by
  cases trails with
  | queued _ order =>
    rw [nextMoment_of_pending engine rfl, advance_append_of_isReady engine rfl,
      followedBy_empty_of_toList order]

/-- One step of a stream with work behind it. -/
theorem Trails.handsOver_nextMoment
    {stream other : Stream Later Next Result}
    (trails : Trails work stream other)
    (session : Session) :
    HandsOver engine work (nextMoment engine (stream, session))
      (nextMoment engine (other, session)) := by
  by_cases pending : stream.shape = .pending
  · have pendingToo : other.shape = .pending := by
      cases trails with
      | ready => cases pending
      | joined => rfl
      | queued => rfl
    rw [nextMoment_of_pending engine pending,
      nextMoment_of_pending engine pendingToo]
    exact trails.handsOver_advance pending session
  · cases trails with
    | ready behind => exact .inl ⟨behind, rfl⟩
    | joined => exact (pending rfl).elim
    | queued nothing order =>
      cases stream with
      | empty =>
        rw [(Trails.queued nothing order).nextMoment_of_empty,
          nextMoment_empty]
        exact .inr ⟨rfl, rfl⟩
      | ready => cases nothing
      | suspended | merge | bind | append => exact (pending rfl).elim

end Steps

/-! ## Whole runs -/

section Runs

variable {engine : Engine Search Later Next Result} {work : Later}
  {alone whole : Moment Later Next Result} {results : List Result}
  {after : Session}

/-- A stream that has ended stays as it is. -/
theorem iterate_nextMoment_of_empty
    {time : Nat}
    (ended : ((nextMoment engine)^[time] alone).1 = empty)
    (more : Nat) :
    (nextMoment engine)^[time + more] alone = (nextMoment engine)^[time] alone ∧
      delivered (stagesFrom engine alone) (time + more) =
        delivered (stagesFrom engine alone) time := by
  induction more with
  | zero => exact ⟨rfl, rfl⟩
  | succ more ih =>
    rw [← Nat.add_assoc, Function.iterate_succ_apply', ih.1, delivered_succ,
      ih.2, stagesFrom, ih.1, ended]
    rcases moment : (nextMoment engine)^[time] alone with ⟨stream, session⟩
    rw [moment] at ended
    subst ended
    exact ⟨nextMoment_empty engine session, List.append_nil _⟩

/-- What a stream gives, and the session in which it ends, are determined. -/
theorem Exhausts.unique
    {others : List Result}
    {otherAfter : Session}
    (exhausts : Exhausts engine alone results after)
    (otherExhausts : Exhausts engine alone others otherAfter) :
    results = others ∧ after = otherAfter := by
  rcases exhausts with ⟨time, reached, rfl⟩
  rcases otherExhausts with ⟨otherTime, otherReached, rfl⟩
  have late := iterate_nextMoment_of_empty (congrArg Prod.fst reached) otherTime
  have otherLate :=
    iterate_nextMoment_of_empty (congrArg Prod.fst otherReached) time
  rw [Nat.add_comm] at otherLate
  have sameEnd := reached.symm.trans
    (late.1.symm.trans (otherLate.1.trans otherReached))
  exact ⟨late.2.symm.trans otherLate.2, congrArg Prod.snd sameEnd⟩

/--
At each moment the stream is where it is alone, or it has ended before and has
handed over.
-/
theorem HandsOver.at_moment
    (handsOver : HandsOver engine work alone whole)
    (time : Nat) :
    (Trails work ((nextMoment engine)^[time] alone).1
          ((nextMoment engine)^[time] whole).1 ∧
        ((nextMoment engine)^[time] whole).2 =
          ((nextMoment engine)^[time] alone).2 ∧
        delivered (stagesFrom engine whole) time =
          delivered (stagesFrom engine alone) time) ∨
      ∃ earlier results after,
        earlier ≤ time ∧
          Exhausts engine alone results after ∧
          (nextMoment engine)^[earlier] whole =
            (engine.force work).run after ∧
          delivered (stagesFrom engine whole) earlier = results := by
  induction time with
  | zero =>
    rcases handsOver with ⟨trails, same⟩ | ⟨ended, done⟩
    · exact .inl ⟨trails, same, rfl⟩
    · exact .inr ⟨0, [], alone.2, Nat.le_refl 0,
        ⟨0, Prod.ext ended rfl, rfl⟩, done, rfl⟩
  | succ time ih =>
    rcases ih with ⟨trails, same, sameResults⟩ | ⟨earlier, results, after,
      early, handedOver⟩
    · have onwards : delivered (stagesFrom engine whole) (time + 1) =
          delivered (stagesFrom engine alone) (time + 1) := by
        rw [delivered_succ, delivered_succ, sameResults, stagesFrom, stagesFrom,
          trails.front_eq]
      rw [Function.iterate_succ_apply', Function.iterate_succ_apply']
      rcases here : (nextMoment engine)^[time] alone with ⟨stream, session⟩
      rcases hereToo : (nextMoment engine)^[time] whole with ⟨other, sessionToo⟩
      rw [here, hereToo] at trails same
      cases same
      rcases trails.handsOver_nextMoment session with
        ⟨still, sameSession⟩ | ⟨ended, done⟩
      · exact .inl ⟨still, sameSession, onwards⟩
      · have ends : Exhausts engine alone
            (delivered (stagesFrom engine alone) (time + 1))
            (nextMoment engine (stream, session)).2 := by
          refine ⟨time + 1, ?_, rfl⟩
          rw [Function.iterate_succ_apply', here]
          exact Prod.ext ended rfl
        refine .inr ⟨time + 1, _, _, Nat.le_refl _, ends, ?_, onwards⟩
        rw [Function.iterate_succ_apply', hereToo]
        exact done
    · exact .inr ⟨earlier, results, after, Nat.le_succ_of_le early, handedOver⟩

/-- A stream that ends hands over, with its results and in its last session. -/
theorem HandsOver.exists_done
    (handsOver : HandsOver engine work alone whole)
    (exhausts : Exhausts engine alone results after) :
    ∃ time,
      (nextMoment engine)^[time] whole = (engine.force work).run after ∧
        delivered (stagesFrom engine whole) time = results := by
  have ends := exhausts
  rcases ends with ⟨time, reached, rfl⟩
  rcases handsOver.at_moment time with ⟨trails, same, sameResults⟩ |
    ⟨earlier, others, otherAfter, _, otherExhausts, done, given⟩
  · rw [reached] at trails same
    refine ⟨time + 1, ?_, ?_⟩
    · rw [Function.iterate_succ_apply', ← trails.nextMoment_of_empty after]
      exact congrArg (nextMoment engine) (Prod.ext rfl same)
    · rw [delivered_succ, sameResults, stagesFrom, trails.front_eq]
      exact List.append_nil _
  · rcases exhausts.unique otherExhausts with ⟨rfl, rfl⟩
    exact ⟨earlier, done, given⟩

/-- What the stream delivers alone is delivered with work behind it. -/
theorem HandsOver.delivers
    (handsOver : HandsOver engine work alone whole)
    {index : Nat}
    {result : Result}
    (delivers : Delivers engine alone.1 alone.2 index result) :
    Delivers engine whole.1 whole.2 index result := by
  rcases delivers_iff.mp delivers with ⟨time, taken⟩
  rcases handsOver.at_moment time with ⟨_, _, sameResults⟩ |
    ⟨earlier, results, after, _, ⟨last, reached, rfl⟩, _, given⟩
  · rw [← sameResults] at taken
    exact delivers_iff.mpr ⟨time, taken⟩
  · -- Nothing is delivered any more when the stream has ended.
    have late :=
      (iterate_nextMoment_of_empty (congrArg Prod.fst reached) time).2
    have takenByThen :=
      delivered_getElem?_mono (Nat.le_add_left time last) taken
    rw [late, ← given] at takenByThen
    exact delivers_iff.mpr ⟨earlier, takenByThen⟩

end Runs

end Stream

end RelationalSearch
