import RelationalSearch.Proofs.Search.Lockstep
import RelationalSearch.Proofs.Search.Outcome
import RelationalSearch.Proofs.Stream.Trailing

/-!
# Generic searches in other sessions

A generic search may be made in another session than it was meant for, in which
more variables have been minted by then.  Its results are the same, in the same
order and after as much work, up to the numbers of the variables that the
search mints itself (`Subst.Renamed`).
-/

namespace RelationalSearch

variable {Code : Type} {goalOf : Code → Recipe (Goal Code)}
  {codes : Pairing → Code → Code → Prop} {pairing : Pairing}

/-- Streams that are alike, where the paired variables have been minted. -/
structure Stream.AlikeMoments
    (codes : Pairing → Code → Code → Prop)
    (pairing : Pairing)
    (moment other : Stream.Moment (Plan Code) (Goal Code) Subst) : Prop where
  streams : Stream.Alike codes pairing moment.1 other.1
  oneToOne : pairing.OneToOne
  within : pairing.Within moment.2.supply other.2.supply

namespace Stream

variable {moment other : Stream.Moment (Plan Code) (Goal Code) Subst}

theorem AlikeMoments.of_run
    {search otherSearch : Search (Results Code)}
    (searches : Search.AlikeStreams codes pairing search otherSearch)
    {session otherSession : Session}
    (oneToOne : pairing.OneToOne)
    (within : pairing.Within session.supply otherSession.supply) :
    ∃ larger : Pairing,
      pairing.Widens larger ∧
        AlikeMoments codes larger (search.run session)
          (otherSearch.run otherSession) := by
  rcases searches (Pairing.growth_refl oneToOne within) with
    ⟨larger, growth, streams⟩
  exact ⟨larger, growth.widens, streams, growth.oneToOne, growth.within⟩

/-- Moments that are alike are followed by moments that are alike. -/
theorem AlikeMoments.nextMoment
    (generic : GenericCodes goalOf codes)
    (moments : AlikeMoments codes pairing moment other) :
    ∃ larger : Pairing,
      pairing.Widens larger ∧
        AlikeMoments codes larger (nextMoment (searchEngine goalOf) moment)
          (nextMoment (searchEngine goalOf) other) :=
  AlikeMoments.of_run (moments.streams.step generic) moments.oneToOne
    moments.within

theorem AlikeMoments.iterate
    (generic : GenericCodes goalOf codes)
    (moments : AlikeMoments codes pairing moment other)
    (time : Nat) :
    ∃ larger : Pairing,
      pairing.Widens larger ∧
        AlikeMoments codes larger
          ((Stream.nextMoment (searchEngine goalOf))^[time] moment)
          ((Stream.nextMoment (searchEngine goalOf))^[time] other) ∧
        List.Forall₂ (Subst.Alike larger)
          (delivered (stagesFrom (searchEngine goalOf) moment) time)
          (delivered (stagesFrom (searchEngine goalOf) other) time) := by
  induction time with
  | zero =>
    exact ⟨pairing, moments.oneToOne.widens_refl, moments, .nil⟩
  | succ time ih =>
    rcases ih with ⟨larger, widens, reached, results⟩
    rcases reached.nextMoment generic with ⟨largest, further, next⟩
    rw [Function.iterate_succ_apply', Function.iterate_succ_apply',
      delivered_succ, delivered_succ]
    refine ⟨largest, widens.trans further, next, ?_⟩
    refine List.Forall₂.imp (fun _ _ substs => ?_)
      (List.rel_append results reached.streams.front)
    exact substs.mono further.oneToOne further.included

end Stream

/-! ## Goals -/

section Goals

variable (goalOf : Code → Recipe (Goal Code)) (goal : Goal Code)
  (subst : Subst) (session : Session)

/-- The moment after a number of steps of the search of a goal. -/
def Goal.momentAt (time : Nat) :
    Stream.Moment (Plan Code) (Goal Code) Subst :=
  (Stream.nextMoment (searchEngine goalOf))^[time]
    ((goal.apply subst).run session)

/-- What has been delivered before a moment of the search of a goal. -/
def Goal.deliveredBy (time : Nat) : List Subst :=
  Stream.delivered
    (Stream.stagesFrom (searchEngine goalOf) ((goal.apply subst).run session))
    time

/--
All results of a goal that is applied in a session, and the session that its
search leaves behind.
-/
def Goal.Exhausts (results : List Subst) (after : Session) : Prop :=
  Stream.Exhausts (searchEngine goalOf) ((goal.apply subst).run session)
    results after

end Goals

section Renamed

variable {supply : Nat} {session later : Session} {goal : Goal Code}
  {subst : Subst}

theorem Goal.delivers_iff_deliveredBy
    {index : Nat}
    {found : Subst} :
    goal.Delivers goalOf subst session index found ↔
      ∃ time,
        (goal.deliveredBy goalOf subst session time)[index]? = some found :=
  Stream.delivers_iff

theorem Goal.Exhausts.drains
    {results : List Subst}
    {after : Session}
    (exhausts : goal.Exhausts goalOf subst session results after) :
    goal.Drains goalOf subst session results :=
  Stream.Exhausts.drains exhausts

/-- Numbers of variables are not given back until the search has ended. -/
theorem Goal.Exhausts.supply_le
    {results : List Subst}
    {after : Session}
    (exhausts : goal.Exhausts goalOf subst session results after) :
    session.supply ≤ after.supply := by
  rcases exhausts with ⟨time, reached, _⟩
  have minted := (keptBy_searchEngine goalOf).supply_le_iterate
    ((goal.apply subst).run session) time
  rw [reached] at minted
  exact (goal.keeps_apply subst session).trans minted

theorem Subst.Alike.renamed
    {other : Subst}
    (alike : subst.Alike pairing other)
    (widens : (Pairing.upTo supply).Widens pairing) :
    Subst.Renamed supply subst other :=
  ⟨pairing, widens.oneToOne, fun x below => widens.included x x ⟨rfl, below⟩,
    alike⟩

/-- Lists with related elements have them at the same positions. -/
theorem exists_getElem?_of_forall₂
    {α β : Type}
    {related : α → β → Prop}
    {values : List α}
    {others : List β}
    (relates : List.Forall₂ related values others)
    {index : Nat}
    {value : α}
    (taken : values[index]? = some value) :
    ∃ other, others[index]? = some other ∧ related value other := by
  rcases List.getElem?_eq_some_iff.mp taken with ⟨inside, rfl⟩
  have insideToo := relates.length_eq ▸ inside
  exact ⟨_, List.getElem?_eq_getElem insideToo,
    relates.get inside insideToo⟩

/-- The searches of a generic goal in two sessions are alike at all moments. -/
theorem Generic.alikeMoments
    (generic : Generic goalOf goal subst session.supply)
    (minted : session.supply ≤ later.supply)
    (time : Nat) :
    ∃ codes pairing,
      (Pairing.upTo session.supply).Widens pairing ∧
        Stream.AlikeMoments codes pairing
          (goal.momentAt goalOf subst session time)
          (goal.momentAt goalOf subst later time) ∧
        List.Forall₂ (Subst.Alike pairing)
          (goal.deliveredBy goalOf subst session time)
          (goal.deliveredBy goalOf subst later time) := by
  rcases generic with ⟨codes, genericCodes, goals, substs⟩
  rcases Stream.AlikeMoments.of_run (goals.apply genericCodes substs)
      (Pairing.oneToOne_upTo _)
      ((Pairing.within_upTo _).mono (Nat.le_refl _) minted) with
    ⟨pairing, widens, moments⟩
  rcases moments.iterate genericCodes time with
    ⟨larger, further, reached, results⟩
  exact ⟨codes, larger, widens.trans further, reached, results⟩

/-- What a generic goal delivers is delivered in any later session. -/
theorem Generic.exists_delivers
    (generic : Generic goalOf goal subst session.supply)
    (minted : session.supply ≤ later.supply)
    {index : Nat}
    {found : Subst}
    (delivers : goal.Delivers goalOf subst session index found) :
    ∃ other,
      Subst.Renamed session.supply found other ∧
        goal.Delivers goalOf subst later index other := by
  rcases Goal.delivers_iff_deliveredBy.mp delivers with ⟨time, taken⟩
  rcases generic.alikeMoments minted time with
    ⟨codes, pairing, widens, _, results⟩
  rcases exists_getElem?_of_forall₂ results taken with ⟨other, takenToo, alike⟩
  exact ⟨other, alike.renamed widens,
    Goal.delivers_iff_deliveredBy.mpr ⟨time, takenToo⟩⟩

/-- What it delivers in a later session is delivered in the session itself. -/
theorem Generic.exists_delivers_of_later
    (generic : Generic goalOf goal subst session.supply)
    (minted : session.supply ≤ later.supply)
    {index : Nat}
    {other : Subst}
    (delivers : goal.Delivers goalOf subst later index other) :
    ∃ found,
      Subst.Renamed session.supply found other ∧
        goal.Delivers goalOf subst session index found := by
  rcases Goal.delivers_iff_deliveredBy.mp delivers with ⟨time, taken⟩
  rcases generic.alikeMoments minted time with
    ⟨codes, pairing, widens, _, results⟩
  rcases exists_getElem?_of_forall₂ results.flip taken with
    ⟨found, takenToo, alike⟩
  exact ⟨found, Subst.Alike.renamed alike widens,
    Goal.delivers_iff_deliveredBy.mpr ⟨time, takenToo⟩⟩

/-- A generic goal whose search ends does so in any later session. -/
theorem Generic.exists_exhausts
    (generic : Generic goalOf goal subst session.supply)
    (minted : session.supply ≤ later.supply)
    {results : List Subst}
    (drains : goal.Drains goalOf subst session results) :
    ∃ others after,
      List.Forall₂ (Subst.Renamed session.supply) results others ∧
        goal.Exhausts goalOf subst later others after := by
  rcases Stream.Drains.exists_exhausts drains with ⟨after, time, reached, rfl⟩
  rcases generic.alikeMoments minted time with
    ⟨codes, pairing, widens, moments, found⟩
  have streams := moments.streams
  have stopped : (goal.momentAt goalOf subst session time).1 = .empty :=
    congrArg Prod.fst reached
  rw [stopped] at streams
  exact ⟨_, _, found.imp fun _ _ alike => alike.renamed widens, time,
    Prod.ext streams.eq_empty rfl, rfl⟩

/-- A generic goal whose search ends in a later session ends in the session. -/
theorem Generic.exists_drains_of_later
    (generic : Generic goalOf goal subst session.supply)
    (minted : session.supply ≤ later.supply)
    {others : List Subst}
    {after : Session}
    (exhausts : goal.Exhausts goalOf subst later others after) :
    ∃ results, goal.Drains goalOf subst session results := by
  rcases exhausts with ⟨time, reached, _⟩
  rcases generic.alikeMoments minted time with ⟨codes, pairing, _, moments, _⟩
  have streams := moments.streams
  have stopped : (goal.momentAt goalOf subst later time).1 = .empty :=
    congrArg Prod.fst reached
  rw [stopped] at streams
  exact ⟨_, Stream.drains_of_eq_empty streams.eq_empty_left⟩

end Renamed

end RelationalSearch
