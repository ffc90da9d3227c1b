import RelationalSearch.Proofs.Search.Follow

/-!
# Runs of located searches

One step of a search of the library is followed by one step of the located
search.  The gaps that the steps of an endless run make known never contradict
each other, since each step visits traces that no earlier one has visited.  So
there are gaps with which the located search is at every moment where the
search of the library is (`Gaps.exists_fit`), and no two of the results that it
delivers have the same trace.
-/

namespace RelationalSearch

variable {Code : Type}

/-! ## One step -/

theorem Task.follows
    (goalOf : Code → Recipe (Goal Code))
    (task : Located (Task Code))
    (session : Session)
    (enough : task.place.supply ≤ session.supply) :
    Follows [task.place] (fun gaps => Task.explore goalOf gaps task) session
      ((task.value.plan.build goalOf).run session) := by
  rcases task with ⟨place, _ | _⟩
  · rename_i goal subst
    exact goal.followed ⟨place, subst⟩ session enough
  · rename_i code subst
    refine Follows.build ⟨place, subst⟩ enough ?_
    intro inner later innerEnough
    exact Goal.followed _ ⟨inner, subst⟩ later innerEnough

theorem Branches.follows_advance
    (goalOf : Code → Recipe (Goal Code))
    (stream : Branches Code)
    (session : Session)
    (scattered : Scattered stream.places)
    (below : Below session.supply stream.places) :
    Follows stream.places (fun gaps => Branches.advance goalOf gaps stream)
      session
      ((Stream.advance (searchEngine goalOf) stream.erase).run session) := by
  induction stream generalizing session with
  | empty =>
    change Follows _ _ _
      ((Stream.advance (searchEngine goalOf) Stream.empty).run session)
    rw [Stream.advance_empty]
    exact .still below fun _ => Nat.le_refl _
  | ready result rest =>
    change Follows _ _ _
      ((Stream.advance (searchEngine goalOf)
        (.ready result.value (Stream.erase rest))).run session)
    rw [Stream.advance_ready]
    exact .still below fun _ => Nat.le_refl _
  | suspended task =>
    change Follows _ _ _
      ((Stream.advance (searchEngine goalOf)
        (.suspended task.value.plan)).run session)
    rw [Stream.advance_suspended]
    simp only [Branches.advance_suspended]
    exact Task.follows goalOf task session (below _ List.mem_cons_self)
  | merge left right leftIH _ =>
    rcases below_append_iff.mp below with ⟨leftBelow, rightBelow⟩
    change Follows _ _ _
      ((Stream.advance (searchEngine goalOf)
        (.merge (Stream.erase left) (Stream.erase right))).run session)
    rw [Stream.advance_merge]
    simp only [Branches.advance_merge]
    have front := leftIH session scattered.of_append_left leftBelow
    exact front.interleave_left scattered rightBelow
  | bind inner goal ih =>
    change Follows _ _ _
      ((Stream.advance (searchEngine goalOf)
        (.bind (Stream.erase inner) goal)).run session)
    rw [Stream.advance_bind]
    simp only [Branches.advance_bind]
    refine Follows.chain (fun gaps stream => Branches.andThen gaps goal stream)
      scattered (ih session scattered below) ?_
    intro stream erased streamBelow apart
    have fed := goal.followed.andThen stream _ apart streamBelow
    rw [← erased] at fed
    exact fed
  | append inner queue ih =>
    rcases below_append_iff.mp below with ⟨innerBelow, queueBelow⟩
    have forces := fun task (_ : task ∈ queue.toList) (later : Session) =>
      Task.follows goalOf task later
    change Follows _ _ _
      ((Stream.advance (searchEngine goalOf)
        (.append (Stream.erase inner)
          (queue.map fun task => task.value.plan))).run session)
    rcases worked : inner.isReady with _ | _
    · have workedPlan : (Stream.erase inner).isReady = false :=
        (Stream.isReady_map _ _ inner).trans worked
      rw [Stream.advance_append_of_pending _ workedPlan]
      simp only [Branches.advance_append_of_pending goalOf _ worked]
      refine Follows.seq
        (fun gaps stream => Branches.followedBy goalOf gaps stream queue)
        scattered queueBelow
        (ih session scattered.of_append_left innerBelow) ?_
      intro stream erased bothBelow apart
      have followed := Follows.followedBy
        (fun gaps => Task.explore goalOf gaps) (Plan.build goalOf) stream queue
        _ forces apart bothBelow
      rw [← erased] at followed
      exact followed
    · have workedPlan : (Stream.erase inner).isReady = true :=
        (Stream.isReady_map _ _ inner).trans worked
      rw [Stream.advance_append_of_isReady _ workedPlan]
      simp only [Branches.advance_append_of_isReady goalOf _ worked]
      exact Follows.followedBy
        (fun gaps => Task.explore goalOf gaps) (Plan.build goalOf) inner queue
        session forces scattered below

/--
A step is followed from the places behind the result that it takes, if it takes
one.
-/
theorem Branches.exists_follows_step
    (goalOf : Code → Recipe (Goal Code))
    (stream : Branches Code)
    (session : Session)
    (scattered : Scattered stream.places)
    (below : Below session.supply stream.places) :
    ∃ roots,
      stream.places = stream.front.map Located.place ++ roots ∧
        Follows roots (fun gaps => Branches.step goalOf gaps stream) session
          (Stream.nextMoment (searchEngine goalOf)
            (stream.erase, session)) := by
  by_cases pending : stream.shape = .pending
  · have pendingPlan : stream.erase.shape = .pending :=
      (Stream.shape_map _ _ stream).trans pending
    refine ⟨stream.places, ?_, ?_⟩
    · rw [Stream.front_of_pending pending]
      rfl
    · rw [Stream.nextMoment_of_pending _ pendingPlan]
      simp only [Branches.step_of_pending goalOf _ pending]
      exact Branches.follows_advance goalOf stream session scattered below
  · rcases stream with _ | ⟨result, rest⟩ | _ | _ | _ | _
    · refine ⟨[], rfl, ?_⟩
      change Follows _ _ _
        (Stream.nextMoment (searchEngine goalOf) (Stream.empty, session))
      rw [Stream.nextMoment_empty]
      simp only [Branches.step_empty]
      exact .still (below_nil _) fun _ => Nat.le_refl _
    · refine ⟨Stream.places rest, rfl, ?_⟩
      exact .still (below_cons_iff.mp below).2 fun _ => Nat.le_refl _
    all_goals exact (pending rfl).elim

/-! ## Endless runs -/

/--
Gaps that become known step by step, and never otherwise than they are known
already, are all known together.
-/
theorem exists_gaps_of_known
    (visited : Nat → List Trace)
    (known : Nat → Gaps)
    (grows :
      ∀ time, ∀ trace ∈ visited time,
        trace ∈ visited (time + 1) ∧
          known (time + 1) trace = known time trace) :
    ∃ gaps : Gaps,
      ∀ time, ∀ trace ∈ visited time, gaps trace = known time trace := by
  classical
  have stays : ∀ {early late : Nat}, early ≤ late →
      ∀ trace ∈ visited early,
        trace ∈ visited late ∧ known late trace = known early trace := by
    intro early late ordered trace member
    induction ordered with
    | refl => exact ⟨member, rfl⟩
    | step _ ih =>
      rcases grows _ trace ih.1 with ⟨memberNext, same⟩
      exact ⟨memberNext, same.trans ih.2⟩
  refine ⟨fun trace =>
    if reached : ∃ time, trace ∈ visited time then
      known reached.choose trace
    else
      0, ?_⟩
  intro time trace member
  have reached : ∃ time, trace ∈ visited time := ⟨time, member⟩
  change dite _ _ _ = _
  rw [dif_pos reached]
  rcases Nat.le_total time reached.choose with ordered | ordered
  · exact (stays ordered trace member).2
  · exact (stays ordered trace reached.choose_spec).2.symm

/-- A moment of a located search, with what is known of the gaps by then. -/
structure Point (Code : Type) where
  visited : List Trace
  known : Gaps
  /-- The places of the results taken so far. -/
  taken : List Place
  stream : Branches Code
  session : Session

/-- All that a point holds comes of one root. -/
structure Point.Rooted (root : Place) (point : Point Code) : Prop where
  below : Below point.session.supply point.stream.places
  charge_le :
    ∀ trace,
      charge (point.taken ++ point.stream.places) trace +
          point.visited.count trace ≤
        charge [root] trace

/-- One point comes of another one by a step. -/
structure Point.Next
    (goalOf : Code → Recipe (Goal Code))
    (point after : Point Code) : Prop where
  moment :
    Stream.nextMoment (searchEngine goalOf)
        (point.stream.erase, point.session) =
      (after.stream.erase, after.session)
  taken : after.taken = point.taken ++ point.stream.front.map Located.place
  grows :
    ∀ trace ∈ point.visited,
      trace ∈ after.visited ∧ after.known trace = point.known trace
  step_eq :
    ∀ gaps, (∀ trace ∈ after.visited, gaps trace = after.known trace) →
      Branches.step goalOf gaps point.stream = after.stream

theorem Point.exists_next
    (goalOf : Code → Recipe (Goal Code))
    {root : Place}
    {point : Point Code}
    (rooted : point.Rooted root) :
    ∃ after : Point Code, point.Next goalOf after ∧ after.Rooted root := by
  have total : ∀ trace,
      charge (point.taken ++ point.stream.places) trace +
          point.visited.count trace ≤ 1 := by
    intro trace
    exact (rooted.charge_le trace).trans (charge_singleton_le root trace)
  have scattered : Scattered (point.taken ++ point.stream.places) := by
    intro trace
    exact (Nat.le_add_right _ _).trans (total trace)
  rcases Branches.exists_follows_step goalOf point.stream point.session
      scattered.of_append_right rooted.below with
    ⟨roots, places, visited, known, stream, steps⟩
  have balance : ∀ trace,
      charge ((point.taken ++ point.stream.front.map Located.place) ++
            stream.places) trace +
          (point.visited ++ visited).count trace ≤
        charge [root] trace := by
    intro trace
    have before := rooted.charge_le trace
    have step := steps.charge_le trace
    rw [places] at before
    simp only [charge_append, List.count_append] at before ⊢
    omega
  have disjoint : ∀ trace, trace ∈ visited → trace ∉ point.visited := by
    intro trace visitedNow visitedBefore
    have bounded := (balance trace).trans (charge_singleton_le root trace)
    have once := List.count_pos_iff.mpr visitedBefore
    have again := List.count_pos_iff.mpr visitedNow
    rw [List.count_append] at bounded
    omega
  refine ⟨⟨point.visited ++ visited,
    fun trace =>
      if trace ∈ point.visited then point.known trace else known trace,
    point.taken ++ point.stream.front.map Located.place, stream,
    (Stream.nextMoment (searchEngine goalOf)
      (point.stream.erase, point.session)).2⟩, ?_, ?_⟩
  · constructor
    · exact Prod.ext steps.erase_eq rfl
    · rfl
    · intro trace member
      exact ⟨List.mem_append_left _ member, if_pos member⟩
    · intro gaps agree
      refine steps.located_eq gaps ?_
      intro trace member
      exact (agree trace (List.mem_append_right _ member)).trans
        (if_neg (disjoint trace member))
  · exact ⟨steps.below, balance⟩

/-- A rooted point is the first of an endless sequence of points. -/
theorem Point.exists_sequence
    (goalOf : Code → Recipe (Goal Code))
    {root : Place}
    {initial : Point Code}
    (rooted : initial.Rooted root) :
    ∃ points : Nat → Point Code,
      points 0 = initial ∧
        ∀ time,
          (points time).Rooted root ∧
            (points time).Next goalOf (points (time + 1)) := by
  have successors : ∀ point : { point : Point Code // point.Rooted root },
      ∃ after : { point : Point Code // point.Rooted root },
        point.1.Next goalOf after.1 := by
    intro point
    rcases Point.exists_next goalOf point.2 with ⟨after, next, afterRooted⟩
    exact ⟨⟨after, afterRooted⟩, next⟩
  choose following linked using successors
  refine ⟨fun time => (following^[time] ⟨initial, rooted⟩).1, rfl, ?_⟩
  intro time
  refine ⟨(following^[time] ⟨initial, rooted⟩).2, ?_⟩
  have here := linked (following^[time] ⟨initial, rooted⟩)
  rwa [← Function.iterate_succ_apply' following time] at here

section Sequence

variable {goalOf : Code → Recipe (Goal Code)} {points : Nat → Point Code}
  (linked : ∀ time, (points time).Next goalOf (points (time + 1)))

include linked

theorem Point.moment_eq (time : Nat) :
    (Stream.nextMoment (searchEngine goalOf))^[time]
        ((points 0).stream.erase, (points 0).session) =
      ((points time).stream.erase, (points time).session) := by
  induction time with
  | zero => rfl
  | succ time ih =>
    rw [Function.iterate_succ_apply', ih]
    exact (linked time).moment

/-- There are gaps with which a located search is where the points are. -/
theorem Point.exists_stream_eq :
    ∃ gaps : Gaps,
      ∀ time,
        (points time).stream =
          Branches.stagesFrom goalOf gaps (points 0).stream time := by
  rcases exists_gaps_of_known (fun time => (points time).visited)
      (fun time => (points time).known)
      (fun time => (linked time).grows) with
    ⟨gaps, agree⟩
  refine ⟨gaps, ?_⟩
  intro time
  induction time with
  | zero => rfl
  | succ time ih =>
    rw [← (linked time).step_eq gaps (agree (time + 1)), ih]
    exact (Function.iterate_succ_apply' _ time (points 0).stream).symm

theorem Point.taken_eq
    {gaps : Gaps}
    (streams :
      ∀ time,
        (points time).stream =
          Branches.stagesFrom goalOf gaps (points 0).stream time)
    (nothing : (points 0).taken = [])
    (time : Nat) :
    (points time).taken =
      (Stream.delivered
        (Branches.stagesFrom goalOf gaps (points 0).stream) time).map
          Located.place := by
  induction time with
  | zero => exact nothing
  | succ time ih =>
    rw [(linked time).taken, ih, Stream.delivered_succ, List.map_append,
      ← streams time]

end Sequence

/-! ## The whole search -/

/-- The results of a located search that have been taken by some time. -/
def Goal.located
    (goalOf : Code → Recipe (Goal Code))
    (gaps : Gaps)
    (goal : Goal Code)
    (start : Located Subst)
    (time : Nat) : List (Located Subst) :=
  Stream.delivered
    (Branches.stagesFrom goalOf gaps (goal.explore gaps start)) time

/-- With these gaps, a located search is at every time where the search is. -/
structure Gaps.Fit
    (goalOf : Code → Recipe (Goal Code))
    (goal : Goal Code)
    (subst : Subst)
    (session : Session)
    (gaps : Gaps) : Prop where
  stages :
    ∀ time,
      Stream.stagesFrom (searchEngine goalOf)
          ((goal.apply subst).run session) time =
        (Branches.stagesFrom goalOf gaps
          (goal.explore gaps (.root subst session)) time).erase
  traces :
    ∀ time,
      ((goal.located goalOf gaps (.root subst session) time).map
        fun result => result.place.trace).Nodup

/-- Each search has gaps, and its places are below the numbers in use. -/
theorem Gaps.exists_fit_below
    (goalOf : Code → Recipe (Goal Code))
    (goal : Goal Code)
    (subst : Subst)
    (session : Session) :
    ∃ gaps : Gaps,
      gaps.Fit goalOf goal subst session ∧
        ∀ time,
          Below
            ((Stream.nextMoment (searchEngine goalOf))^[time]
              ((goal.apply subst).run session)).2.supply
            (Branches.stagesFrom goalOf gaps
              (goal.explore gaps (.root subst session)) time).places := by
  let root : Place := ⟨[], session.supply⟩
  let start : Branches Code := .suspended ⟨root, .apply goal subst⟩
  let initial : Point Code := ⟨[], fun _ => 0, [], start, session⟩
  have rooted : initial.Rooted root := by
    constructor
    · exact below_singleton_iff.mpr (Nat.le_refl _)
    · intro trace
      exact Nat.le_refl _
  rcases Point.exists_sequence goalOf rooted with ⟨points, first, linked⟩
  have next := fun time => (linked time).2
  rcases Point.exists_stream_eq next with ⟨gaps, streams⟩
  have moments := Point.moment_eq next
  have taken := Point.taken_eq next streams (first ▸ rfl)
  rw [first] at streams moments taken
  -- The first step does no more than to apply the goal.
  have applied : Branches.step goalOf gaps start =
      goal.explore gaps (.root subst session) :=
    (Branches.step_of_pending goalOf gaps rfl).trans
      (Branches.advance_suspended goalOf gaps _)
  refine ⟨gaps, ⟨?_, ?_⟩, ?_⟩
  · intro time
    rw [← applied, ← Branches.stagesFrom_succ]
    change _ = (Branches.stagesFrom goalOf gaps start (time + 1)).erase
    rw [← streams (time + 1)]
    exact congrArg Prod.fst (moments (time + 1))
  · intro time
    have scattered : Scattered (points (time + 1)).taken := by
      intro trace
      have charged := (linked (time + 1)).1.charge_le trace
      have bounded := charge_singleton_le root trace
      rw [charge_append] at charged
      omega
    have nodup := scattered.nodup
    rw [taken, Stream.delivered_succ_left, List.map_map] at nodup
    rw [Goal.located, ← applied, ← Branches.stagesFrom_succ]
    exact nodup
  · intro time
    have below := (linked (time + 1)).1.below
    rw [streams (time + 1)] at below
    rw [← applied, ← Branches.stagesFrom_succ]
    have reached := congrArg Prod.snd (moments (time + 1))
    exact reached ▸ below

/-- Each search has gaps. -/
theorem Gaps.exists_fit
    (goalOf : Code → Recipe (Goal Code))
    (goal : Goal Code)
    (subst : Subst)
    (session : Session) :
    ∃ gaps : Gaps, gaps.Fit goalOf goal subst session := by
  rcases Gaps.exists_fit_below goalOf goal subst session with ⟨gaps, fit, _⟩
  exact ⟨gaps, fit⟩

end RelationalSearch
