import RelationalSearch.Proofs.Search.Explore

/-!
# Located searches follow the searches of the library

A search of the library fixes the numbers of the variables that it mints while
it runs.  Read as gaps, these numbers make the located search do the same, step
for step: `Follows` says that some gaps do so, and that only the traces that
have been passed matter.

Computations are put together with `Follows.seq`.  The gaps of two parts never
contradict each other, because the parts start from scattered places and so
pass different traces.  `Gaps.exists_fit` collects those of an endless run.
-/

namespace RelationalSearch

variable {Code : Type}

/-! ## Computations that follow each other -/

/--
A located computation gives the outcome of a search, as soon as the gaps of the
visited traces are the known ones.
-/
structure Footsteps
    (roots : List Place)
    (located : Gaps → Branches Code)
    (session : Session)
    (outcome : Results Code × Session)
    (visited : List Trace)
    (known : Gaps)
    (stream : Branches Code) : Prop where
  located_eq :
    ∀ gaps, (∀ trace ∈ visited, gaps trace = known trace) →
      located gaps = stream
  erase_eq : outcome.1 = stream.erase
  supply_le : session.supply ≤ outcome.2.supply
  below : Below outcome.2.supply stream.places
  charge_le :
    ∀ trace, charge stream.places trace + visited.count trace ≤
      charge roots trace

/-- With some gaps a located computation gives the outcome of a search. -/
def Follows
    (roots : List Place)
    (located : Gaps → Branches Code)
    (session : Session)
    (outcome : Results Code × Session) : Prop :=
  ∃ visited known stream,
    Footsteps roots located session outcome visited known stream

namespace Follows

variable {roots frame : List Place} {session : Session}

/-- A stream that is there already. -/
theorem still
    {stream : Branches Code}
    (below : Below session.supply stream.places)
    (charged : ∀ trace, charge stream.places trace ≤ charge roots trace) :
    Follows roots (fun _ => stream) session (stream.erase, session) := by
  refine ⟨[], fun _ => 0, stream, ?_⟩
  constructor
  · intro gaps agree
    rfl
  · rfl
  · exact Nat.le_refl _
  · exact below
  · intro trace
    simpa using charged trace

/-- Only the charge of the roots matters. -/
theorem weaken
    {others : List Place}
    {located : Gaps → Branches Code}
    {outcome : Results Code × Session}
    (follows : Follows roots located session outcome)
    (charged : ∀ trace, charge roots trace ≤ charge others trace) :
    Follows others located session outcome := by
  rcases follows with ⟨visited, known, stream, steps⟩
  refine ⟨visited, known, stream, ?_⟩
  constructor
  · exact steps.located_eq
  · exact steps.erase_eq
  · exact steps.supply_le
  · exact steps.below
  · intro trace
    exact (steps.charge_le trace).trans (charged trace)

/--
One computation after another.  The second one may use what the first one gave,
and the places of the frame.
-/
theorem seq
    {located : Gaps → Branches Code}
    (after : Gaps → Branches Code → Branches Code)
    {middle outcome : Results Code × Session}
    (scattered : Scattered (roots ++ frame))
    (frameBelow : Below session.supply frame)
    (first : Follows roots located session middle)
    (second :
      ∀ stream : Branches Code,
        middle.1 = stream.erase →
        Below middle.2.supply (stream.places ++ frame) →
        Scattered (stream.places ++ frame) →
          Follows (stream.places ++ frame) (fun gaps => after gaps stream)
            middle.2 outcome) :
    Follows (roots ++ frame) (fun gaps => after gaps (located gaps)) session
      outcome := by
  rcases first with ⟨visited, known, stream, steps⟩
  have below : Below middle.2.supply (stream.places ++ frame) :=
    below_append_iff.mpr ⟨steps.below, frameBelow.mono steps.supply_le⟩
  have apart : Scattered (stream.places ++ frame) := by
    refine scattered.of_charge_le ?_
    intro trace
    have conserved := steps.charge_le trace
    simp only [charge_append]
    omega
  rcases second stream steps.erase_eq below apart with
    ⟨visitedAfter, knownAfter, result, stepsAfter⟩
  have balance : ∀ trace,
      charge result.places trace +
          (visited.count trace + visitedAfter.count trace) ≤
        charge (roots ++ frame) trace := by
    intro trace
    have before := steps.charge_le trace
    have later := stepsAfter.charge_le trace
    rw [charge_append] at later ⊢
    omega
  -- A trace that both have visited would be charged twice.
  have disjoint : ∀ trace, trace ∈ visitedAfter → trace ∉ visited := by
    intro trace visitedLater visitedBefore
    have total := (balance trace).trans (scattered trace)
    have once := List.count_pos_iff.mpr visitedBefore
    have again := List.count_pos_iff.mpr visitedLater
    omega
  refine ⟨visited ++ visitedAfter,
    fun trace => if trace ∈ visited then known trace else knownAfter trace,
    result, ?_⟩
  constructor
  · intro gaps agree
    have firstEq : located gaps = stream := by
      refine steps.located_eq gaps ?_
      intro trace member
      rw [agree trace (List.mem_append_left _ member), if_pos member]
    change after gaps (located gaps) = result
    rw [firstEq]
    refine stepsAfter.located_eq gaps ?_
    intro trace member
    rw [agree trace (List.mem_append_right _ member),
      if_neg (disjoint trace member)]
  · exact stepsAfter.erase_eq
  · exact steps.supply_le.trans stepsAfter.supply_le
  · exact stepsAfter.below
  · intro trace
    rw [List.count_append]
    exact balance trace

/-- One computation after another, from the places that the first one left. -/
theorem chain
    {located : Gaps → Branches Code}
    (after : Gaps → Branches Code → Branches Code)
    {middle outcome : Results Code × Session}
    (scattered : Scattered roots)
    (first : Follows roots located session middle)
    (second :
      ∀ stream : Branches Code,
        middle.1 = stream.erase →
        Below middle.2.supply stream.places →
        Scattered stream.places →
          Follows stream.places (fun gaps => after gaps stream) middle.2
            outcome) :
    Follows roots (fun gaps => after gaps (located gaps)) session outcome := by
  have framed : Follows (roots ++ []) (fun gaps => after gaps (located gaps))
      session outcome := by
    refine seq after (by rwa [List.append_nil]) (below_nil _) first ?_
    simpa using second
  rwa [List.append_nil] at framed

/-- The order of the roots does not matter. -/
theorem symm
    {located : Gaps → Branches Code}
    {outcome : Results Code × Session}
    (follows : Follows (roots ++ frame) located session outcome) :
    Follows (frame ++ roots) located session outcome := by
  refine follows.weaken ?_
  intro trace
  rw [charge_append, charge_append, Nat.add_comm]

/-- A stream in front of one that is yet to be worked out. -/
theorem interleave_left
    {located : Gaps → Branches Code}
    {outcome : Results Code × Session}
    {front : Branches Code}
    (scattered : Scattered (roots ++ front.places))
    (below : Below session.supply front.places)
    (follows : Follows roots located session outcome) :
    Follows (roots ++ front.places)
      (fun gaps => front.interleave (located gaps)) session
      (front.erase.interleave outcome.1, outcome.2) := by
  refine seq (fun _ stream => front.interleave stream) scattered below
    follows ?_
  intro stream erased streamBelow _
  rw [erased, ← Stream.erase_interleave]
  refine still ?_ ?_
  · rw [Stream.places_interleave, below_append_iff]
    exact (below_append_iff.mp streamBelow).symm
  · intro trace
    rw [Stream.places_interleave, charge_append, charge_append, Nat.add_comm]

/-- A stream behind one that is yet to be worked out. -/
theorem interleave_right
    {located : Gaps → Branches Code}
    {outcome : Results Code × Session}
    {back : Branches Code}
    (scattered : Scattered (roots ++ back.places))
    (below : Below session.supply back.places)
    (follows : Follows roots located session outcome) :
    Follows (roots ++ back.places)
      (fun gaps => (located gaps).interleave back) session
      (outcome.1.interleave back.erase, outcome.2) := by
  refine seq (fun _ stream => stream.interleave back) scattered below
    follows ?_
  intro stream erased streamBelow _
  rw [erased, ← Stream.erase_interleave, ← Stream.places_interleave]
  refine still ?_ fun _ => Nat.le_refl _
  rwa [Stream.places_interleave]

end Follows

/-! ## Building goals -/

/-- A recipe makes in a session what it makes from the supply of the session. -/
theorem Recipe.run_eq_made
    {α : Type}
    (recipe : Recipe α)
    (session : Session) :
    (recipe.run.run session).1 = (recipe.made session.supply).1 ∧
      (recipe.run.run session).2.supply = (recipe.made session.supply).2 := by
  induction recipe generalizing session with
  | done value => exact ⟨rfl, rfl⟩
  | mint name next ih =>
    have minted := ih ⟨session.supply⟩
      { session with names := session.names.push name }
    have supply :
        Session.supply { session with names := session.names.push name } =
          session.supply + 1 :=
      Array.size_push name
    rw [supply] at minted
    exact minted
  | note event next ih =>
    exact ih { session with journal := session.journal.push event }

/--
Building a goal visits the place where it is built.  What is done with the goal
starts from the place of the goal.
-/
theorem Follows.build
    {recipe : Recipe (Goal Code)}
    (start : Located Subst)
    {session : Session}
    (enough : start.place.supply ≤ session.supply)
    (parts :
      ∀ place (later : Session), place.supply ≤ later.supply →
        Follows [place]
          (fun gaps =>
            (recipe.made session.supply).1.explore gaps ⟨place, start.value⟩)
          later
          (((recipe.made session.supply).1.apply start.value).run later)) :
    Follows [start.place]
      (fun gaps =>
        (recipe.goalAt gaps start).explore gaps (start.enter gaps recipe))
      session ((applyRecipe recipe start.value).run session) := by
  rcases recipe.run_eq_made session with ⟨goalEq, supplyEq⟩
  have outcomeEq :
      (applyRecipe recipe start.value).run session =
        ((recipe.made session.supply).1.apply start.value).run
          (recipe.run.run session).2 := by
    rw [applyRecipe_eq, ← goalEq]
    rfl
  have entered := parts (start.place.built (recipe.made session.supply).2)
    (recipe.run.run session).2 supplyEq.ge
  rw [← outcomeEq] at entered
  rcases entered with ⟨visited, known, stream, steps⟩
  -- The place where the goal is built is not visited again.
  have apart : start.place.trace ∉ visited := by
    intro visitedAgain
    have total := steps.charge_le start.place.trace
    have counted := List.count_pos_iff.mpr visitedAgain
    have left := charge_built_add_count_le start.place
      (recipe.made session.supply).2 start.place.trace
    rw [charge_singleton_self, List.count_singleton_self] at left
    omega
  refine ⟨start.place.trace :: visited,
    fun trace =>
      if trace = start.place.trace then
        session.supply - start.place.supply
      else
        known trace,
    stream, ?_⟩
  constructor
  · intro gaps agree
    have gap : gaps start.place.trace =
        session.supply - start.place.supply := by
      rw [agree _ List.mem_cons_self, if_pos rfl]
    have opened : start.place.opening gaps = session.supply := by
      rw [Place.opening, gap]
      omega
    simp only [Recipe.goalAt, Located.enter, opened]
    refine steps.located_eq gaps ?_
    intro trace member
    have other : trace ≠ start.place.trace := by
      intro same
      exact apart (same ▸ member)
    rw [agree trace (List.mem_cons_of_mem _ member), if_neg other]
  · exact steps.erase_eq
  · exact (recipe.le_made session.supply).trans
      (supplyEq.ge.trans steps.supply_le)
  · exact steps.below
  · intro trace
    have later := steps.charge_le trace
    have left := charge_built_add_count_le start.place
      (recipe.made session.supply).2 trace
    rw [← List.singleton_append, List.count_append]
    omega

/-! ## Combinations -/

/-- A goal that can be applied at all places. -/
def Followed (goal : Goal Code) : Prop :=
  ∀ (start : Located Subst) (session : Session),
    start.place.supply ≤ session.supply →
      Follows [start.place] (fun gaps => goal.explore gaps start) session
        ((goal.apply start.value).run session)

theorem Followed.andThen
    {goal : Goal Code}
    (followed : Followed goal)
    (stream : Branches Code)
    (session : Session)
    (scattered : Scattered stream.places)
    (below : Below session.supply stream.places) :
    Follows stream.places (fun gaps => Branches.andThen gaps goal stream)
      session ((stream.erase.andThen goal.apply goal).run session) := by
  induction stream generalizing session with
  | ready result rest ih =>
    rcases below_cons_iff.mp below with ⟨resultBelow, restBelow⟩
    refine Follows.seq
      (fun gaps front => front.interleave (Branches.andThen gaps goal rest))
      scattered restBelow (followed result session resultBelow) ?_
    intro front erased bothBelow apart
    rcases below_append_iff.mp bothBelow with ⟨frontBelow, restLater⟩
    have back := ih _ apart.of_append_right restLater
    have joined := back.interleave_left apart.symm frontBelow
    rw [← erased] at joined
    exact joined.symm
  | empty | suspended | merge | bind | append =>
    exact .still below fun _ => Nat.le_refl _

/-- Queued work is taken up as soon as nothing is in front of it. -/
theorem Follows.followedBy
    (force : Gaps → Located (Task Code) → Branches Code)
    (build : Plan Code → Search (Results Code))
    (stream : Branches Code)
    (queue : Queue (Located (Task Code)))
    (session : Session)
    (forces :
      ∀ task ∈ queue.toList, ∀ later : Session,
        task.place.supply ≤ later.supply →
          Follows [task.place] (fun gaps => force gaps task) later
            ((build task.value.plan).run later))
    (scattered :
      Scattered (stream.places ++ queue.toList.map Located.place))
    (below :
      Below session.supply
        (stream.places ++ queue.toList.map Located.place)) :
    Follows (stream.places ++ queue.toList.map Located.place)
      (fun gaps => Stream.followedBy (m := Id) (force gaps) stream queue)
      session
      ((stream.erase.followedBy build
        (queue.map fun task => task.value.plan)).run session) := by
  induction counted : queue.size using Nat.strongRecOn
    generalizing stream queue session with
  | _ size ih =>
    by_cases ended : stream = .empty
    · subst ended
      change Follows (queue.toList.map Located.place) _ _
        ((Stream.followedBy build Stream.empty _).run session)
      rcases taken : queue.take with ⟨task, _ | rest⟩
      · have takenPlan :
            (queue.map fun task => task.value.plan).take =
              (task.value.plan, none) := by
          rw [Queue.take_map, taken]
          rfl
        have queued := queue.toList_of_last taken
        rw [Stream.followedBy_empty_of_last build takenPlan, queued]
        simp only [Stream.followedBy_empty_of_last _ taken]
        have member : task ∈ queue.toList := by simp [queued]
        refine forces task member session ?_
        exact below _ (by simp [queued])
      · have takenPlan :
            (queue.map fun task => task.value.plan).take =
              (task.value.plan,
                some (rest.map fun task => task.value.plan)) := by
          rw [Queue.take_map, taken]
          rfl
        have queued := queue.toList_of_more taken
        rw [Stream.followedBy_empty_of_more build takenPlan, queued]
        simp only [Stream.followedBy_empty_of_more _ taken]
        have restScattered : Scattered
            ([task.place] ++ rest.toList.map Located.place) := by
          rwa [queued] at scattered
        have restBelow : Below session.supply
            ([task.place] ++ rest.toList.map Located.place) := by
          rwa [queued] at below
        rcases below_append_iff.mp restBelow with ⟨taskBelow, queueBelow⟩
        have member : task ∈ queue.toList := by simp [queued]
        refine Follows.seq
          (fun gaps stream =>
            Stream.followedBy (m := Id) (force gaps) stream rest)
          restScattered queueBelow
          (forces task member session (taskBelow _ List.mem_cons_self)) ?_
        intro stream erased bothBelow apart
        have restForces := fun other memberRest =>
          forces other (queued ▸ List.mem_cons_of_mem task memberRest)
        have smaller : rest.size < size :=
          counted ▸ Queue.size_lt_of_take taken
        have followed := ih rest.size smaller stream rest _ restForces apart
          bothBelow rfl
        rw [← erased] at followed
        exact followed
    · have endedPlan : stream.erase ≠ .empty := by
        intro erased
        exact ended ((Stream.map_eq_empty_iff _ _ stream).mp erased)
      rw [Stream.followedBy_of_ne_empty build endedPlan,
        ← Stream.erase_enqueue, ← Stream.places_enqueue]
      simp only [Stream.followedBy_of_ne_empty _ ended]
      rw [← Stream.places_enqueue] at below
      exact .still below fun _ => Nat.le_refl _

theorem Goal.followed (goal : Goal Code) : Followed goal := by
  induction goal using Goal.induction with
  | eq left right =>
    intro start session enough
    have below := below_singleton_iff.mpr enough
    rcases unified : start.value.unify left right with _ | extended
    · simp only [Goal.explore, Goal.apply, unified]
      exact .still (below_nil _) fun _ => Nat.zero_le _
    · simp only [Goal.explore, Goal.apply, unified]
      exact .still below fun _ => Nat.le_refl _
  | succeed =>
    intro start session enough
    have below := below_singleton_iff.mpr enough
    exact .still below fun _ => Nat.le_refl _
  | fail =>
    intro start session enough
    exact .still (below_nil _) fun _ => Nat.zero_le _
  | both first second firstIH secondIH =>
    intro start session enough
    refine Follows.chain
      (fun gaps stream => Branches.andThen gaps second stream)
      (scattered_singleton _) (firstIH start session enough) ?_
    intro stream erased below apart
    have fed := secondIH.andThen stream _ apart below
    rw [← erased] at fed
    exact fed
  | either left right leftIH rightIH =>
    intro start session enough
    have leftBelow : Below session.supply [start.place.left] :=
      below_singleton_iff.mpr enough
    -- The right goal is applied first.
    refine Follows.weaken (Follows.symm ?_) (charge_branches_le start.place)
    refine Follows.seq
      (fun gaps last =>
        (left.explore gaps ⟨start.place.left, start.value⟩).interleave last)
      (scattered_branches start.place).symm leftBelow
      (rightIH ⟨start.place.right, start.value⟩ session enough) ?_
    intro last erased bothBelow apart
    rcases below_append_iff.mp bothBelow with ⟨lastBelow, leftLater⟩
    have front := leftIH ⟨start.place.left, start.value⟩ _
      (leftLater _ List.mem_cons_self)
    have joined := front.interleave_right apart.symm lastBelow
    rw [← erased] at joined
    exact joined.symm
  | ordered left right leftIH rightIH =>
    intro start session enough
    have rightBelow : Below session.supply [start.place.right] :=
      below_singleton_iff.mpr enough
    refine Follows.weaken ?_ (charge_branches_le start.place)
    refine Follows.seq
      (fun gaps stream =>
        Stream.before (m := Id)
          (right.explore gaps ⟨start.place.right, start.value⟩)
          ⟨start.place.right, .apply right start.value⟩ stream)
      (scattered_branches start.place) rightBelow
      (leftIH ⟨start.place.left, start.value⟩ session enough) ?_
    intro stream erased bothBelow apart
    -- Coming before one piece of work is being followed by a queue of one.
    have followed := Follows.followedBy
      (fun gaps _ => right.explore gaps ⟨start.place.right, start.value⟩)
      (fun _ => right.apply start.value) stream
      (.one ⟨start.place.right, .apply right start.value⟩) _
      (by
        intro task member last lastEnough
        rw [Queue.toList_one, List.mem_singleton] at member
        subst member
        exact rightIH ⟨start.place.right, start.value⟩ last lastEnough)
      apart bothBelow
    rw [← erased] at followed
    simp only [Queue.map, Stream.followedBy_one] at followed
    exact followed
  | defer code =>
    intro start session enough
    have below := below_singleton_iff.mpr enough
    exact .still below fun _ => Nat.le_refl _
  | dynamic builder parts =>
    intro start session enough
    simp only [Goal.explore_dynamic]
    refine Follows.build start enough ?_
    intro place later placeEnough
    exact parts start.value session.supply ⟨place, start.value⟩ later
      placeEnough

end RelationalSearch
