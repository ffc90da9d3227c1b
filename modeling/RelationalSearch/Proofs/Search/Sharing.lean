import RelationalSearch.Proofs.Search.Immediate
import RelationalSearch.Proofs.Search.Parallel

/-!
# Streams that take turns

Two streams that are interleaved take turns: what is worked out on the left
comes first, one piece of work is done on the left, and then it is the turn of
the right.  So the stream on the left is worked on in every other round, and
that on the right waits for one round more.  Whatever the other stream does in
its rounds, and even if it has neither results nor an end, each stream gives
what it has worked out in its own (`Stream.KeptBy.servesLeft`,
`Stream.KeptBy.servesRight`).

The other stream mints variables in its rounds (`Stream.SharedRounds`).  A
generic stream gives the same results as alone all the same, up to the numbers
of the variables that it mints itself.
-/

namespace RelationalSearch

namespace Stream

variable {Later Next Result : Type} {engine : Engine Search Later Next Result}

/--
The results of a number of rounds of a stream that shares its session: between
the rounds others may mint variables.
-/
inductive SharedRounds (engine : Engine Search Later Next Result) :
    Stream Later Next Result → Session → Nat → List Result → Prop where
  | last
      {stream : Stream Later Next Result} {session : Session} :
      SharedRounds engine stream session 0 stream.worked
  | round
      {stream : Stream Later Next Result} {session start : Session}
      {count : Nat} {rest : List Result}
      (minted : session.supply ≤ start.supply)
      (onwards :
        SharedRounds engine ((nextRound engine stream).run start).1
          ((nextRound engine stream).run start).2 count rest) :
      SharedRounds engine stream session (count + 1) (stream.worked ++ rest)

theorem SharedRounds.of_later
    {stream : Stream Later Next Result}
    {session later : Session}
    {count : Nat}
    {results : List Result}
    (shared : SharedRounds engine stream later count results)
    (minted : session.supply ≤ later.supply) :
    SharedRounds engine stream session count results := by
  cases shared with
  | last => exact .last
  | round mintedToo onwards => exact .round (minted.trans mintedToo) onwards

theorem sharedRounds_of_behind_eq_empty
    {stream : Stream Later Next Result}
    (ended : stream.behind = empty)
    (session : Session)
    (count : Nat) :
    SharedRounds engine stream session count stream.worked := by
  induction count generalizing stream with
  | zero => exact .last
  | succ count ih =>
    have still : (nextRound engine stream).run session = (empty, session) := by
      rw [nextRound, ended, advance_empty]
      rfl
    have onwards : SharedRounds engine ((nextRound engine stream).run session).1
        ((nextRound engine stream).run session).2 count [] := by
      rw [still]
      exact ih rfl
    have round := SharedRounds.round (Nat.le_refl session.supply) onwards
    rwa [List.append_nil] at round

/-! ## Rounds of streams that are interleaved -/

/-- What is worked out on the left comes first. -/
theorem worked_prefix_interleave (left right : Stream Later Next Result) :
    left.worked <+: (left.interleave right).worked := by
  induction left with
  | empty => exact List.nil_prefix
  | ready result rest ih => exact (List.prefix_cons_inj result).mpr ih
  | suspended | merge | bind | append => exact List.nil_prefix

/-- If the left is not worked out, nothing of the right is taken. -/
theorem behind_interleave_of_pending
    {left right : Stream Later Next Result}
    (pending : left.behind.shape = .pending)
    (rest : right ≠ empty) :
    (left.interleave right).behind = merge left.behind right := by
  induction left with
  | empty => cases pending
  | ready result rest ih => exact ih pending
  | suspended | merge | bind | append =>
    rw [interleave_of_pending rfl rest]
    rfl

theorem shape_behind_of_ne_empty
    {stream : Stream Later Next Result}
    (rest : stream.behind ≠ empty) :
    stream.behind.shape = .pending := by
  induction stream with
  | empty => exact (rest rfl).elim
  | ready result stream ih => exact ih rest
  | suspended | merge | bind | append => rfl

/-- A round of the left, after which the streams have changed places. -/
theorem nextRound_interleave
    {left right : Stream Later Next Result}
    (leftRest : left.behind ≠ empty)
    (rightRest : right ≠ empty) :
    nextRound engine (left.interleave right) =
      (do
        let stream ← nextRound engine left
        pure (right.interleave stream)) := by
  rw [nextRound, behind_interleave_of_pending
    (shape_behind_of_ne_empty leftRest) rightRest, advance_merge]
  rfl

/-! ## What is taken in rounds -/

/-- What is taken in a number of rounds from a session on. -/
def takenWithin
    (engine : Engine Search Later Next Result)
    (stream : Stream Later Next Result)
    (session : Session)
    (count : Nat) : List Result :=
  ((takeWithin engine count stream).run session).1

theorem takenWithin_succ
    (stream : Stream Later Next Result)
    (session : Session)
    (count : Nat) :
    takenWithin engine stream session (count + 1) =
      stream.worked ++
        takenWithin engine ((nextRound engine stream).run session).1
          ((nextRound engine stream).run session).2 count :=
  rfl

theorem worked_prefix_takenWithin
    (stream : Stream Later Next Result)
    (session : Session)
    (count : Nat) :
    stream.worked <+: takenWithin engine stream session count := by
  cases count with
  | zero => exact List.prefix_rfl
  | succ count => exact List.prefix_append _ _

/-- In more rounds more is taken. -/
theorem takenWithin_prefix_takenWithin
    (stream : Stream Later Next Result)
    (session : Session)
    {few many : Nat}
    (ordered : few ≤ many) :
    takenWithin engine stream session few <+:
      takenWithin engine stream session many := by
  induction few generalizing stream session many with
  | zero => exact worked_prefix_takenWithin stream session many
  | succ few ih =>
    cases many with
    | zero => exact absurd ordered (Nat.not_succ_le_zero few)
    | succ many =>
      exact (List.prefix_append_right_inj _).mpr
        (ih _ _ (Nat.le_of_succ_le_succ ordered))

/-- Where the left stream has ended, the right one follows. -/
theorem takenWithin_interleave_of_left_ended
    {left : Stream Later Next Result}
    (ended : left.behind = empty)
    (right : Stream Later Next Result)
    (session : Session)
    (count : Nat) :
    takenWithin engine (left.interleave right) session count =
      left.worked ++ takenWithin engine right session count := by
  cases count with
  | zero => exact worked_interleave ended right
  | succ count =>
    have same : nextRound engine (left.interleave right) =
        nextRound engine right := by
      rw [nextRound, behind_interleave ended, nextRound]
    rw [takenWithin_succ, worked_interleave ended, same, takenWithin_succ,
      List.append_assoc]

/-! ## Neither stream is starved -/

/-- The left stream has its turns, and what it gives is taken. -/
def ServesLeft
    (engine : Engine Search Later Next Result)
    (count rounds : Nat) : Prop :=
  ∀ (left right : Stream Later Next Result) (session : Session),
    ∃ results,
      SharedRounds engine left session count results ∧
        results.Sublist
          (takenWithin engine (left.interleave right) session rounds)

/-- The right stream has its turns, and what it gives is taken. -/
def ServesRight
    (engine : Engine Search Later Next Result)
    (count rounds : Nat) : Prop :=
  ∀ (left right : Stream Later Next Result) (session : Session),
    ∃ results,
      SharedRounds engine right session count results ∧
        results.Sublist
          (takenWithin engine (left.interleave right) session rounds)

theorem servesLeft_zero : ServesLeft engine 0 0 := by
  intro left right session
  exact ⟨_, .last, (worked_prefix_interleave left right).sublist⟩

/-- When the left stream has been worked on it is on the right. -/
theorem ServesRight.servesLeft_succ
    {count rounds : Nat}
    (serves : ServesRight engine count rounds) :
    ServesLeft engine (count + 1) (rounds + 1) := by
  intro left right session
  by_cases leftEnded : left.behind = empty
  · refine ⟨_, sharedRounds_of_behind_eq_empty leftEnded session _, ?_⟩
    exact ((worked_prefix_interleave left right).trans
      (worked_prefix_takenWithin _ _ _)).sublist
  · -- A right stream that has ended is no longer there.
    have swapped : ∃ other : Stream Later Next Result,
        (nextRound engine (left.interleave right)).run session =
          (other.interleave ((nextRound engine left).run session).1,
            ((nextRound engine left).run session).2) := by
      by_cases rightEnded : right = empty
      · subst rightEnded
        rw [interleave_empty_right]
        exact ⟨empty, rfl⟩
      · rw [nextRound_interleave leftEnded rightEnded]
        exact ⟨right, rfl⟩
    rcases swapped with ⟨other, swapped⟩
    rcases serves other ((nextRound engine left).run session).1
        ((nextRound engine left).run session).2 with ⟨rest, shared, taken⟩
    refine ⟨_, .round (Nat.le_refl session.supply) shared, ?_⟩
    rw [takenWithin_succ, swapped]
    exact (worked_prefix_interleave left right).sublist.append taken

/-- When the left stream has been worked on the right one is on the left. -/
theorem ServesLeft.servesRight
    (kept : KeptBy engine)
    {count rounds : Nat}
    (serves : ServesLeft engine count rounds) :
    ServesRight engine count (rounds + 1) := by
  intro left right session
  by_cases leftEnded : left.behind = empty
  · rcases serves right empty session with ⟨results, shared, taken⟩
    rw [interleave_empty_right] at taken
    refine ⟨results, shared, ?_⟩
    rw [takenWithin_interleave_of_left_ended leftEnded]
    have longer : takenWithin engine right session rounds <+:
        takenWithin engine right session (rounds + 1) :=
      takenWithin_prefix_takenWithin right session (Nat.le_succ rounds)
    exact (taken.trans longer.sublist).trans (List.sublist_append_right _ _)
  · by_cases rightEnded : right = empty
    · subst rightEnded
      exact ⟨[], sharedRounds_of_behind_eq_empty rfl session count,
        List.nil_sublist _⟩
    · rcases serves right ((nextRound engine left).run session).1
          ((nextRound engine left).run session).2 with ⟨results, shared, taken⟩
      refine ⟨results, shared.of_later (kept.nextRound left session), ?_⟩
      rw [takenWithin_succ, nextRound_interleave leftEnded rightEnded]
      exact taken.trans (List.sublist_append_right _ _)

/-- A stream on the left is worked on in every other round. -/
theorem KeptBy.servesLeft
    (kept : KeptBy engine)
    (count : Nat) :
    ServesLeft engine count (2 * count) := by
  induction count with
  | zero => exact servesLeft_zero
  | succ count ih => exact (ih.servesRight kept).servesLeft_succ

/-- A stream on the right waits for one round more. -/
theorem KeptBy.servesRight
    (kept : KeptBy engine)
    (count : Nat) :
    ServesRight engine count (2 * count + 1) :=
  (kept.servesLeft count).servesRight kept

/-! ## Generic streams -/

variable {Code : Type} {goalOf : Code → Recipe (Goal Code)}

/--
The stream holds variables below the supply only, and treats all variables that
are minted later in the same way.
-/
def GenericStream
    (goalOf : Code → Recipe (Goal Code))
    (stream : Results Code)
    (supply : Nat) : Prop :=
  ∃ codes : Pairing → Code → Code → Prop,
    GenericCodes goalOf codes ∧ Alike codes (.upTo supply) stream stream

/-- The rounds of a stream that shares its session are those of one alike. -/
theorem AlikeMoments.exists_forall₂
    {codes : Pairing → Code → Code → Prop}
    (generic : GenericCodes goalOf codes)
    {pairing : Pairing}
    {stream other : Results Code}
    {session otherSession : Session}
    {count : Nat}
    {results : List Subst}
    (moments :
      AlikeMoments codes pairing (stream, session) (other, otherSession))
    (shared :
      SharedRounds (searchEngine goalOf) other otherSession count results) :
    ∃ larger : Pairing,
      pairing.Widens larger ∧
        List.Forall₂ (Subst.Alike larger)
          (takenWithin (searchEngine goalOf) stream session count) results := by
  induction shared generalizing stream session pairing with
  | last =>
    exact ⟨pairing, moments.oneToOne.widens_refl, moments.streams.worked⟩
  | @round other otherSession start count rest minted _ ih =>
    have within : pairing.Within session.supply start.supply :=
      moments.within.mono (Nat.le_refl _) minted
    rcases AlikeMoments.of_run (moments.streams.nextRound generic)
        moments.oneToOne within with ⟨middle, widens, later⟩
    rcases ih later with ⟨larger, further, rests⟩
    have whole := widens.trans further
    refine ⟨larger, whole, List.rel_append ?_ rests⟩
    exact moments.streams.worked.imp fun _ _ substs =>
      substs.mono whole.oneToOne whole.included

/-- A generic stream gives in a shared session what it gives alone. -/
theorem GenericStream.forall₂_renamed
    {stream : Results Code}
    {session : Session}
    (generic : GenericStream goalOf stream session.supply)
    {count : Nat}
    {results : List Subst}
    (shared : SharedRounds (searchEngine goalOf) stream session count results) :
    List.Forall₂ (Subst.Renamed session.supply)
      (takenWithin (searchEngine goalOf) stream session count) results := by
  rcases generic with ⟨codes, genericCodes, streams⟩
  have moments :
      AlikeMoments codes (.upTo session.supply) (stream, session)
        (stream, session) :=
    ⟨streams, Pairing.oneToOne_upTo _, Pairing.within_upTo _⟩
  rcases moments.exists_forall₂ genericCodes shared with
    ⟨larger, widens, found⟩
  exact found.imp fun _ _ alike => alike.renamed widens

/--
Of two streams that take turns neither is starved.  What the left one gives
when work has been done on it for a number of times is taken when work has been
done twice as often on both.  For the right one that takes one time more.
-/
theorem interleave_starves_neither
    (goalOf : Code → Recipe (Goal Code))
    (left right : Results Code)
    (session : Session)
    (calls : Nat) :
    (∃ results,
      SharedRounds (searchEngine goalOf) left session calls results ∧
        results.Sublist
          (takenWithin (searchEngine goalOf) (left.interleave right) session
            (2 * calls))) ∧
    (∃ results,
      SharedRounds (searchEngine goalOf) right session calls results ∧
        results.Sublist
          (takenWithin (searchEngine goalOf) (left.interleave right) session
            (2 * calls + 1))) ∧
    (GenericStream goalOf left session.supply →
      ∃ results,
        List.Forall₂ (Subst.Renamed session.supply)
            (takenWithin (searchEngine goalOf) left session calls) results ∧
          results.Sublist
            (takenWithin (searchEngine goalOf) (left.interleave right) session
              (2 * calls))) ∧
    (GenericStream goalOf right session.supply →
      ∃ results,
        List.Forall₂ (Subst.Renamed session.supply)
            (takenWithin (searchEngine goalOf) right session calls) results ∧
          results.Sublist
            (takenWithin (searchEngine goalOf) (left.interleave right) session
              (2 * calls + 1))) := by
  have kept := keptBy_searchEngine goalOf
  rcases kept.servesLeft calls left right session with
    ⟨lefts, leftShared, leftTaken⟩
  rcases kept.servesRight calls left right session with
    ⟨rights, rightShared, rightTaken⟩
  exact ⟨⟨lefts, leftShared, leftTaken⟩, ⟨rights, rightShared, rightTaken⟩,
    fun generic => ⟨lefts, generic.forall₂_renamed leftShared, leftTaken⟩,
    fun generic => ⟨rights, generic.forall₂_renamed rightShared, rightTaken⟩⟩

/-- Of two endless streams the right one has given three results in time. -/
theorem interleave_starves_neither_endless :
    ∃ found other,
      (takenWithin (searchEngine (firstFreshOr (.defer ())))
          (.suspended (.deferred () ∅)) ⟨#["q"], #[]⟩ 3)[2]? = some found ∧
        Subst.Renamed 1 found other ∧
        other ∈
          takenWithin (searchEngine (firstFreshOr (.defer ())))
            (interleave (.suspended (.deferred () ∅))
              (.suspended (.deferred () ∅)))
            ⟨#["q"], #[]⟩ 7 := by
  have endless : Generic (firstFreshOr (.defer ())) (.defer ()) ∅ 1 :=
    generic_firstFreshOr (fun _ paired => .defer paired)
      (.defer ⟨rfl, Nat.one_pos⟩)
  have generic : GenericStream (firstFreshOr (.defer ()))
      (.suspended (.deferred () ∅)) 1 := by
    rcases endless with ⟨codes, genericCodes, goals, substs⟩
    cases goals with
    | defer same =>
      exact ⟨codes, genericCodes, .suspended (.deferred same substs)⟩
  have third :
      ((takenWithin (searchEngine (firstFreshOr (.defer ())))
        (.suspended (.deferred () ∅)) ⟨#["q"], #[]⟩ 3)[2]?).isSome = true := by
    decide +kernel
  rcases Option.isSome_iff_exists.mp third with ⟨found, taken⟩
  rcases (interleave_starves_neither (firstFreshOr (.defer ()))
      (.suspended (.deferred () ∅)) (.suspended (.deferred () ∅))
      ⟨#["q"], #[]⟩ 3).2.2.2 generic with ⟨results, renamed, within⟩
  rcases exists_getElem?_of_forall₂ renamed taken with
    ⟨other, takenToo, alike⟩
  exact ⟨found, other, taken, alike,
    within.subset (List.mem_of_getElem? takenToo)⟩

end Stream

end RelationalSearch
