import RelationalSearch.Proofs.Search.Sharing
import RelationalSearch.Proofs.Stream.Shuffle

/-!
# Streams that are merged in order

Two streams that take turns are two runs in one session.  At every moment the
merged stream is what is left of the two streams, with one of them on the left,
and each of its steps is a step of the one on the left: it takes a result of it,
or does work on it and makes the streams change places
(`Stream.nextMoment_interleave`).  So what has been delivered is a shuffle of
what the two streams have given in some number of steps each, and the merged
stream has ended when both have (`Stream.interleave_merges_in_order`).

Before each of its steps the other stream may have minted variables
(`Stream.SharedSteps`).  A generic stream gives what it gives alone all the
same, up to the numbers of the variables that it mints itself.
-/

namespace RelationalSearch

namespace Stream

section Runs

variable {Later Next Result : Type} {engine : Engine Search Later Next Result}

/-! ## Steps in a shared session -/

/--
The results that a stream gives in a number of steps, and what is left of it
then, if it shares its session: before each step others may mint variables.
-/
inductive SharedSteps (engine : Engine Search Later Next Result) :
    Stream Later Next Result → Session → Nat → List Result →
      Stream Later Next Result → Prop where
  | here
      {stream : Stream Later Next Result} {session : Session} :
      SharedSteps engine stream session 0 [] stream
  | step
      {stream rest : Stream Later Next Result} {session start : Session}
      {count : Nat} {results : List Result}
      (minted : session.supply ≤ start.supply)
      (onwards :
        SharedSteps engine (nextMoment engine (stream, start)).1
          (nextMoment engine (stream, start)).2 count results rest) :
      SharedSteps engine stream session (count + 1) (stream.front ++ results)
        rest

variable {stream left right merged rest : Stream Later Next Result}
  {session later : Session} {results : List Result}

theorem SharedSteps.of_later
    {count : Nat}
    (shared : SharedSteps engine stream later count results rest)
    (minted : session.supply ≤ later.supply) :
    SharedSteps engine stream session count results rest := by
  cases shared with
  | here => exact .here
  | step mintedToo onwards => exact .step (minted.trans mintedToo) onwards

theorem KeptBy.supply_le_nextMoment
    (kept : KeptBy engine)
    (stream : Stream Later Next Result)
    (session : Session) :
    session.supply ≤ (nextMoment engine (stream, session)).2.supply :=
  kept.supply_le_iterate (stream, session) 1

/-! ## Turns -/

/-- Nothing is left of a merged stream if nothing is left of both streams. -/
theorem eq_empty_of_interleave
    (ended : left.interleave right = empty) :
    left = empty ∧ right = empty := by
  by_cases rightEnded : right = empty
  · subst rightEnded
    exact ⟨(interleave_empty_right left).symm.trans ended, rfl⟩
  · rcases left.cases_of_shape with rfl | ⟨_, _, rfl⟩ | shaped
    · exact ⟨rfl, ended⟩
    · cases ended
    · rw [interleave_of_pending shaped rightEnded] at ended
      cases ended

/-- The merged stream has one of the two streams on its left. -/
def Joins (left right merged : Stream Later Next Result) : Prop :=
  merged = left.interleave right ∨ merged = right.interleave left

theorem Joins.symm (joins : Joins left right merged) : Joins right left merged :=
  Or.symm joins

/--
A stream on the left takes the next step, and a result that it has worked out
comes first.  A stream that has ended leaves the turn to one that has not.
-/
theorem nextMoment_interleave
    (engine : Engine Search Later Next Result)
    (turn : left ≠ empty ∨ right = empty)
    (session : Session) :
    (left.interleave right).front = left.front ∧
      (nextMoment engine (left.interleave right, session)).2 =
        (nextMoment engine (left, session)).2 ∧
      Joins (nextMoment engine (left, session)).1 right
        (nextMoment engine (left.interleave right, session)).1 := by
  by_cases rightEnded : right = empty
  · subst rightEnded
    rw [interleave_empty_right]
    exact ⟨rfl, rfl, .inl (interleave_empty_right _).symm⟩
  · rcases left.cases_of_shape with rfl | ⟨_, _, rfl⟩ | shaped
    · exact (turn.resolve_right rightEnded rfl).elim
    · exact ⟨rfl, rfl, .inl rfl⟩
    · rw [interleave_of_pending shaped rightEnded, front_of_pending shaped,
        nextMoment_of_pending engine rfl, nextMoment_of_pending engine shaped,
        advance_merge]
      exact ⟨rfl, rfl, .inr rfl⟩

/--
The two streams have each given some results in a shared session.  All results
are a shuffle of these, and what is left is what is left of the two streams.
-/
def MergesTo
    (engine : Engine Search Later Next Result)
    (left right : Stream Later Next Result)
    (session : Session)
    (results : List Result)
    (rest : Stream Later Next Result) : Prop :=
  ∃ (leftCount rightCount : Nat) (lefts rights : List Result)
      (leftRest rightRest : Stream Later Next Result),
    SharedSteps engine left session leftCount lefts leftRest ∧
      SharedSteps engine right session rightCount rights rightRest ∧
      Shuffle lefts rights results ∧
      Joins leftRest rightRest rest

theorem MergesTo.here
    (joins : Joins left right merged) :
    MergesTo engine left right session [] merged :=
  ⟨0, 0, [], [], left, right, .here, .here, .nil, joins⟩

theorem MergesTo.symm
    (merges : MergesTo engine left right session results rest) :
    MergesTo engine right left session results rest := by
  rcases merges with ⟨_, _, _, _, _, _, onLeft, onRight, shuffle, joins⟩
  exact ⟨_, _, _, _, _, _, onRight, onLeft, shuffle.symm, joins.symm⟩

/-- Before its turn comes again, a stream on the left has taken one step. -/
theorem MergesTo.step
    (kept : KeptBy engine)
    (merges :
      MergesTo engine (nextMoment engine (left, session)).1 right
        (nextMoment engine (left, session)).2 results rest) :
    MergesTo engine left right session (left.front ++ results) rest := by
  rcases merges with ⟨_, _, _, rights, _, _, onLeft, onRight, shuffle, joins⟩
  refine ⟨_, _, _, rights, _, _, .step (Nat.le_refl session.supply) onLeft,
    onRight.of_later (kept.supply_le_nextMoment left session), ?_, joins⟩
  exact (Shuffle.nil_right left.front).append shuffle

/-- At every moment a merged stream is two runs in one session. -/
theorem KeptBy.mergesTo
    (kept : KeptBy engine)
    (joins : Joins left right merged)
    (session : Session)
    (time : Nat) :
    MergesTo engine left right session
      (delivered (stagesFrom engine (merged, session)) time)
      (stagesFrom engine (merged, session) time) := by
  induction time generalizing left right merged session with
  | zero => exact .here joins
  | succ time ih =>
    have onTurn
        {left right : Stream Later Next Result}
        (turn : left ≠ empty ∨ right = empty) :
        MergesTo engine left right session
          (delivered
            (stagesFrom engine (left.interleave right, session)) (time + 1))
          (stagesFrom engine (left.interleave right, session) (time + 1)) := by
      rcases nextMoment_interleave engine turn session with
        ⟨front, same, next⟩
      have onwards := ih next (nextMoment engine (left, session)).2
      rw [← same] at onwards
      rw [delivered_succ_left, stagesFrom_zero, stagesFrom_succ, front]
      rw [Prod.mk.eta, same] at onwards
      exact onwards.step kept
    -- A stream that has ended may as well be on the right.
    have whole (left right : Stream Later Next Result) :
        MergesTo engine left right session
          (delivered
            (stagesFrom engine (left.interleave right, session)) (time + 1))
          (stagesFrom engine (left.interleave right, session) (time + 1)) := by
      by_cases ended : left = empty
      · subst ended
        rw [interleave_empty_left]
        have turn : right ≠ empty ∨ (empty : Stream Later Next Result) = empty :=
          .inr rfl
        have swapped := (onTurn turn).symm
        rwa [interleave_empty_right] at swapped
      · exact onTurn (.inl ended)
    rcases joins with rfl | rfl
    · exact whole left right
    · exact (whole right left).symm

/-! ## Streams that end -/

/-- After this number of steps the stream has ended, whatever others mint. -/
def EndsWithin
    (engine : Engine Search Later Next Result)
    (count : Nat)
    (stream : Stream Later Next Result)
    (session : Session) : Prop :=
  ∀ results rest, SharedSteps engine stream session count results rest →
    rest = empty

theorem EndsWithin.of_later
    {count : Nat}
    (ends : EndsWithin engine count stream session)
    (minted : session.supply ≤ later.supply) :
    EndsWithin engine count stream later :=
  fun results rest shared => ends results rest (shared.of_later minted)

theorem EndsWithin.nextMoment
    {count : Nat}
    (ends : EndsWithin engine (count + 1) stream session) :
    EndsWithin engine count (nextMoment engine (stream, session)).1
      (Stream.nextMoment engine (stream, session)).2 :=
  fun _ rest shared => ends _ rest (.step (Nat.le_refl _) shared)

/-- A stream that ends in a shared session ends alone. -/
theorem EndsWithin.stagesFrom_eq_empty
    {count : Nat}
    (ends : EndsWithin engine count stream session) :
    stagesFrom engine (stream, session) count = empty := by
  induction count generalizing stream session with
  | zero => exact ends _ _ .here
  | succ count ih => exact ih ends.nextMoment

/-- A stream that has ended stays as it is. -/
theorem stagesFrom_eq_empty_of_le
    {moment : Moment Later Next Result}
    {few many : Nat}
    (ended : stagesFrom engine moment few = empty)
    (ordered : few ≤ many) :
    stagesFrom engine moment many = empty := by
  rw [← Nat.add_sub_cancel' ordered, stagesFrom,
    (iterate_nextMoment_of_empty ended (many - few)).1]
  exact ended

/-- A merged stream ends when both streams have. -/
theorem KeptBy.stagesFrom_eq_empty
    (kept : KeptBy engine)
    {leftCount rightCount : Nat}
    (joins : Joins left right merged)
    (leftEnds : EndsWithin engine leftCount left session)
    (rightEnds : EndsWithin engine rightCount right session) :
    stagesFrom engine (merged, session) (leftCount + rightCount) = empty := by
  generalize sum : leftCount + rightCount = total
  induction total generalizing left right merged session leftCount
      rightCount with
  | zero =>
    rcases Nat.add_eq_zero_iff.mp sum with ⟨rfl, rfl⟩
    cases leftEnds _ _ .here
    cases rightEnds _ _ .here
    rcases joins with rfl | rfl <;> rfl
  | succ total ih =>
    have whole
        {left right : Stream Later Next Result}
        {leftCount rightCount : Nat}
        (leftEnds : EndsWithin engine leftCount left session)
        (rightEnds : EndsWithin engine rightCount right session)
        (sum : leftCount + rightCount = total + 1) :
        stagesFrom engine (left.interleave right, session) (total + 1) =
          empty := by
      by_cases ended : left = empty
      · subst ended
        exact stagesFrom_eq_empty_of_le rightEnds.stagesFrom_eq_empty
          (sum ▸ Nat.le_add_left _ _)
      · cases leftCount with
        | zero => exact (ended (leftEnds _ _ .here)).elim
        | succ leftCount =>
          have turn : left ≠ empty ∨ right = empty := .inl ended
          rcases nextMoment_interleave engine turn session with ⟨_, same, next⟩
          have minted := kept.supply_le_nextMoment left session
          have onwards := ih next leftEnds.nextMoment
            (rightEnds.of_later minted) (by omega)
          rw [← same, Prod.mk.eta] at onwards
          exact onwards
    rcases joins with rfl | rfl
    · exact whole leftEnds rightEnds sum
    · exact whole rightEnds leftEnds (by omega)

/-- What a merged stream has given at its end is all of both streams. -/
theorem KeptBy.exists_drains
    (kept : KeptBy engine)
    {leftCount rightCount : Nat}
    (leftEnds : EndsWithin engine leftCount left session)
    (rightEnds : EndsWithin engine rightCount right session) :
    ∃ (results lefts rights : List Result) (leftSteps rightSteps : Nat),
      Drains engine (left.interleave right) session results ∧
        Shuffle lefts rights results ∧
        SharedSteps engine left session leftSteps lefts empty ∧
        SharedSteps engine right session rightSteps rights empty := by
  have ended := kept.stagesFrom_eq_empty (.inl rfl) leftEnds rightEnds
  rcases kept.mergesTo (.inl rfl) session (leftCount + rightCount) with
    ⟨leftSteps, rightSteps, lefts, rights, leftRest, rightRest, onLeft, onRight,
      shuffle, joins⟩
  rw [ended] at joins
  have none : leftRest = empty ∧ rightRest = empty := by
    rcases joins with same | same
    · exact eq_empty_of_interleave same.symm
    · exact (eq_empty_of_interleave same.symm).symm
  rw [none.1] at onLeft
  rw [none.2] at onRight
  exact ⟨_, lefts, rights, leftSteps, rightSteps, drains_of_eq_empty ended,
    shuffle, onLeft, onRight⟩

end Runs

/-! ## Generic streams -/

section Generic

variable {Code : Type} {goalOf : Code → Recipe (Goal Code)}

/-- The steps of a stream that shares its session are those of one alike. -/
theorem AlikeMoments.exists_steps
    {codes : Pairing → Code → Code → Prop}
    (generic : GenericCodes goalOf codes)
    {pairing : Pairing}
    {stream other rest : Results Code}
    {session otherSession : Session}
    {count : Nat}
    {results : List Subst}
    (moments :
      AlikeMoments codes pairing (stream, session) (other, otherSession))
    (shared :
      SharedSteps (searchEngine goalOf) other otherSession count results
        rest) :
    ∃ larger : Pairing,
      pairing.Widens larger ∧
        List.Forall₂ (Subst.Alike larger)
          (delivered (stagesFrom (searchEngine goalOf) (stream, session)) count)
          results ∧
        Alike codes larger
          (stagesFrom (searchEngine goalOf) (stream, session) count) rest := by
  induction shared generalizing stream session pairing with
  | here =>
    exact ⟨pairing, moments.oneToOne.widens_refl, .nil, moments.streams⟩
  | @step other rest otherSession start count results minted _ ih =>
    have within : pairing.Within session.supply start.supply :=
      moments.within.mono (Nat.le_refl _) minted
    rcases AlikeMoments.of_run (moments.streams.step generic)
        moments.oneToOne within with ⟨middle, widens, later⟩
    rcases ih later with ⟨larger, further, rests, left⟩
    have whole := widens.trans further
    refine ⟨larger, whole, ?_, left⟩
    rw [delivered_succ_left]
    refine List.rel_append ?_ rests
    exact moments.streams.front.imp fun _ _ substs =>
      substs.mono whole.oneToOne whole.included

/--
A generic stream gives in a shared session what it gives alone, and it has
ended there when it has ended alone.
-/
theorem GenericStream.forall₂_delivered
    {stream rest : Results Code}
    {session : Session}
    (generic : GenericStream goalOf stream session.supply)
    {count : Nat}
    {results : List Subst}
    (shared :
      SharedSteps (searchEngine goalOf) stream session count results rest) :
    List.Forall₂ (Subst.Renamed session.supply)
        (delivered (stagesFrom (searchEngine goalOf) (stream, session)) count)
        results ∧
      (stagesFrom (searchEngine goalOf) (stream, session) count = empty ↔
        rest = empty) := by
  rcases generic with ⟨codes, genericCodes, streams⟩
  have moments :
      AlikeMoments codes (.upTo session.supply) (stream, session)
        (stream, session) :=
    ⟨streams, Pairing.oneToOne_upTo _, Pairing.within_upTo _⟩
  rcases moments.exists_steps genericCodes shared with
    ⟨larger, widens, found, left⟩
  refine ⟨found.imp fun _ _ alike => alike.renamed widens, ?_, ?_⟩
  · intro ended
    rw [ended] at left
    exact left.eq_empty
  · rintro rfl
    exact left.eq_empty_left

/-- A generic stream that ends alone ends in a shared session. -/
theorem GenericStream.exists_endsWithin
    {stream : Results Code}
    {session : Session}
    (generic : GenericStream goalOf stream session.supply)
    {results : List Subst}
    (drains : Drains (searchEngine goalOf) stream session results) :
    ∃ count, EndsWithin (searchEngine goalOf) count stream session := by
  rcases drains.exists_exhausts with ⟨after, time, reached, _⟩
  refine ⟨time, fun others rest shared => ?_⟩
  exact (generic.forall₂_delivered shared).2.mp (congrArg Prod.fst reached)

/-- In a shared session it has given all that it gives alone. -/
theorem GenericStream.forall₂_drained
    {stream : Results Code}
    {session : Session}
    (generic : GenericStream goalOf stream session.supply)
    {results others : List Subst}
    (drains : Drains (searchEngine goalOf) stream session results)
    {count : Nat}
    (shared :
      SharedSteps (searchEngine goalOf) stream session count others empty) :
    List.Forall₂ (Subst.Renamed session.supply) results others := by
  have given := generic.forall₂_delivered shared
  have all := drains_of_eq_empty (given.2.mpr rfl)
  rw [drains.unique all]
  exact given.1

/--
Two streams that take turns are merged in order.  At every moment what has been
delivered is a shuffle of what each stream gives in some number of steps.  If
both end, whatever the other one mints, then the merged stream ends and has
given all of both.  A generic stream gives what it gives alone, in as many
steps, and it ends if it ends alone.
-/
theorem interleave_merges_in_order
    (goalOf : Code → Recipe (Goal Code))
    (left right : Results Code)
    (session : Session) :
    (∀ time, ∃ (leftCount rightCount : Nat) (lefts rights : List Subst)
        (leftRest rightRest : Results Code),
      Shuffle lefts rights
          (delivered
            (stagesFrom (searchEngine goalOf)
              (left.interleave right, session)) time) ∧
        SharedSteps (searchEngine goalOf) left session leftCount lefts
          leftRest ∧
        SharedSteps (searchEngine goalOf) right session rightCount rights
          rightRest ∧
        (GenericStream goalOf left session.supply →
          List.Forall₂ (Subst.Renamed session.supply)
            (delivered (stagesFrom (searchEngine goalOf) (left, session))
              leftCount)
            lefts) ∧
        (GenericStream goalOf right session.supply →
          List.Forall₂ (Subst.Renamed session.supply)
            (delivered (stagesFrom (searchEngine goalOf) (right, session))
              rightCount)
            rights)) ∧
    (∀ leftCount rightCount : Nat,
      EndsWithin (searchEngine goalOf) leftCount left session →
        EndsWithin (searchEngine goalOf) rightCount right session →
          ∃ (results lefts rights : List Subst) (leftSteps rightSteps : Nat),
            Drains (searchEngine goalOf) (left.interleave right) session
                results ∧
              Shuffle lefts rights results ∧
              SharedSteps (searchEngine goalOf) left session leftSteps lefts
                empty ∧
              SharedSteps (searchEngine goalOf) right session rightSteps rights
                empty) ∧
    (∀ lefts rights : List Subst,
      GenericStream goalOf left session.supply →
        GenericStream goalOf right session.supply →
          Drains (searchEngine goalOf) left session lefts →
            Drains (searchEngine goalOf) right session rights →
              ∃ results otherLefts otherRights : List Subst,
                Drains (searchEngine goalOf) (left.interleave right) session
                    results ∧
                  Shuffle otherLefts otherRights results ∧
                  List.Forall₂ (Subst.Renamed session.supply) lefts
                    otherLefts ∧
                  List.Forall₂ (Subst.Renamed session.supply) rights
                    otherRights) := by
  have kept := keptBy_searchEngine goalOf
  refine ⟨?_, ?_, ?_⟩
  · intro time
    rcases kept.mergesTo (.inl rfl) session time with
      ⟨leftCount, rightCount, lefts, rights, leftRest, rightRest, onLeft,
        onRight, shuffle, _⟩
    exact ⟨leftCount, rightCount, lefts, rights, leftRest, rightRest, shuffle,
      onLeft, onRight, fun generic => (generic.forall₂_delivered onLeft).1,
      fun generic => (generic.forall₂_delivered onRight).1⟩
  · intro leftCount rightCount leftEnds rightEnds
    exact kept.exists_drains leftEnds rightEnds
  · intro lefts rights leftGeneric rightGeneric leftDrains rightDrains
    rcases leftGeneric.exists_endsWithin leftDrains with ⟨_, leftEnds⟩
    rcases rightGeneric.exists_endsWithin rightDrains with ⟨_, rightEnds⟩
    rcases kept.exists_drains leftEnds rightEnds with
      ⟨results, otherLefts, otherRights, _, _, drains, shuffle, onLeft,
        onRight⟩
    exact ⟨results, otherLefts, otherRights, drains, shuffle,
      leftGeneric.forall₂_drained leftDrains onLeft,
      rightGeneric.forall₂_drained rightDrains onRight⟩

/-- A suspended goal is a generic stream if the goal is generic. -/
theorem genericStream_deferred
    {code : Code}
    {subst : Subst}
    {supply : Nat}
    (generic : Generic goalOf (.defer code) subst supply) :
    GenericStream goalOf (.suspended (.deferred code subst)) supply := by
  rcases generic with ⟨codes, genericCodes, goals, substs⟩
  cases goals with
  | defer same =>
    exact ⟨codes, genericCodes, .suspended (.deferred same substs)⟩

end Generic

/-- Two streams of two results each, in which a variable is minted. -/
theorem interleave_merges_in_order_two :
    let goalOf := firstFreshOr .succeed
    let stream : Results Unit := .suspended (.deferred () ∅)
    let session : Session := ⟨#["q"], #[]⟩
    ∃ own results lefts rights : List Subst,
      GenericStream goalOf stream session.supply ∧
        Drains (searchEngine goalOf) stream session own ∧
        own.length = 2 ∧
        Drains (searchEngine goalOf) (stream.interleave stream) session
          results ∧
        Shuffle lefts rights results ∧
        List.Forall₂ (Subst.Renamed 1) own lefts ∧
        List.Forall₂ (Subst.Renamed 1) own rights := by
  intro goalOf stream session
  have generic : GenericStream goalOf stream session.supply :=
    genericStream_deferred
      (generic_firstFreshOr (fun _ _ => .succeed) (.defer ⟨rfl, Nat.one_pos⟩))
  have ended :
      stagesFrom (searchEngine goalOf) (stream, session) 3 = empty := by
    have seen :
        (stagesFrom (searchEngine goalOf) (stream, session) 3).isEmpty =
          true := by
      decide +kernel
    generalize stagesFrom (searchEngine goalOf) (stream, session) 3 = rest
      at seen
    cases rest with
    | empty => rfl
    | _ => cases seen
  have drains := drains_of_eq_empty ended
  have length :
      (delivered (stagesFrom (searchEngine goalOf) (stream, session))
        3).length = 2 := by
    decide +kernel
  rcases (interleave_merges_in_order goalOf stream stream session).2.2 _ _
      generic generic drains drains with
    ⟨results, lefts, rights, together, shuffle, onLeft, onRight⟩
  exact ⟨_, results, lefts, rights, generic, drains, length, together, shuffle,
    onLeft, onRight⟩

end Stream

end RelationalSearch
