import RelationalSearch.Proofs.Relation.Expansion
import RelationalSearch.Proofs.Relation.Refusal

/-!
# Goals that are worked out at once

Applying a goal in which nothing is put off gives a stream that is worked out to
its end.  The stream is the list of the results of a reading of the goal: those
of the left goal of a disjunction come before those of the right one, and in a
conjunction the results of the first goal are followed one by one
(`Goal.Immediate.apply_eq_ofList`).

The right goal of a disjunction is applied before the left one and what comes of
the results of a conjunction is merged back to front.  This shows in the numbers
of the variables that are minted, and a reading may take any of those; it does
not show in the order of the results.
-/

namespace RelationalSearch

/-! ## Streams that are lists -/

namespace Stream

variable {Later Next Result : Type}

/-- The stream of results that are all worked out. -/
def ofList (results : List Result) : Stream Later Next Result :=
  results.foldr ready empty

@[simp]
theorem ofList_nil : (ofList [] : Stream Later Next Result) = empty :=
  rfl

@[simp]
theorem ofList_cons (result : Result) (results : List Result) :
    (ofList (result :: results) : Stream Later Next Result) =
      ready result (ofList results) :=
  rfl

@[simp]
theorem worked_ofList (results : List Result) :
    (ofList results : Stream Later Next Result).worked = results := by
  induction results with
  | nil => rfl
  | cons result results ih => rw [ofList_cons, worked_ready, ih]

/-- Of two lists the right one follows. -/
theorem interleave_ofList (lefts rights : List Result) :
    (ofList lefts : Stream Later Next Result).interleave (ofList rights) =
      ofList (lefts ++ rights) := by
  induction lefts with
  | nil => rfl
  | cons result lefts ih =>
    rw [ofList_cons, interleave_ready, ih, List.cons_append, ofList_cons]

end Stream

/-! ## Goals and their readings -/

variable {Code : Type} {goalOf : Code → Recipe (Goal Code)}

/--
Applying the goal gives the list of these results, which are those of a reading,
and leaves a session in which all their variables have been minted.
-/
structure Goal.ListsAs
    (goalOf : Code → Recipe (Goal Code))
    (goal : Goal Code)
    (subst : Subst)
    (session : Session)
    (found : List Snapshot)
    (later : Session) : Prop where
  run :
    (goal.apply subst).run session =
      (.ofList (found.map Snapshot.value), later)
  reading : Reading goalOf goal ⟨subst, session.supply⟩ found
  supply_le : session.supply ≤ later.supply
  within : ∀ result ∈ found, result.supply ≤ later.supply

/-- What a goal makes of each result of a list follows in the same order. -/
theorem Goal.exists_fed
    {goal : Goal Code}
    (lists :
      ∀ subst session, ∃ found later,
        goal.ListsAs goalOf subst session found later)
    (middles : List Snapshot)
    {session : Session}
    (low : ∀ middle ∈ middles, middle.supply ≤ session.supply) :
    ∃ (entries : List (Snapshot × List Snapshot)) (later : Session),
      entries.map Prod.fst = middles ∧
        (∀ entry ∈ entries, Reading goalOf goal entry.1 entry.2) ∧
        (Stream.andThen goal.apply goal
            (.ofList (middles.map Snapshot.value))).run session =
          (.ofList ((entries.flatMap Prod.snd).map Snapshot.value), later) ∧
        session.supply ≤ later.supply ∧
        ∀ result ∈ entries.flatMap Prod.snd,
          result.supply ≤ later.supply := by
  induction middles generalizing session with
  | nil => exact ⟨[], session, rfl, by simp, rfl, Nat.le_refl _, by simp⟩
  | cons middle middles ih =>
    rw [List.forall_mem_cons] at low
    rcases lists middle.value session with ⟨found, between, here⟩
    have lowLater : ∀ middle ∈ middles, middle.supply ≤ between.supply :=
      fun middle member => (low.2 middle member).trans here.supply_le
    rcases ih lowLater with
      ⟨entries, later, firsts, readings, fed, supply, within⟩
    have run :
        (Stream.andThen goal.apply goal
            (.ofList ((middle :: middles).map Snapshot.value))).run session =
          (((goal.apply middle.value).run session).1.interleave
              ((Stream.andThen goal.apply goal
                (.ofList (middles.map Snapshot.value))).run
                  ((goal.apply middle.value).run session).2).1,
            ((Stream.andThen goal.apply goal
              (.ofList (middles.map Snapshot.value))).run
                ((goal.apply middle.value).run session).2).2) :=
      rfl
    refine ⟨(middle, found) :: entries, later, ?_, ?_, ?_,
      here.supply_le.trans supply, ?_⟩
    · rw [List.map_cons, firsts]
    · rw [List.forall_mem_cons]
      exact ⟨here.reading.lower low.1, readings⟩
    · rw [run, here.run, fed, Stream.interleave_ofList, List.flatMap_cons,
        List.map_append]
    · rw [List.flatMap_cons, List.forall_mem_append]
      exact ⟨fun result member => (here.within result member).trans supply,
        within⟩

namespace Goal.Immediate

variable {goal : Goal Code}

/-- An immediate goal is worked out from every substitution. -/
theorem exists_listsAs
    (immediate : goal.Immediate)
    (goalOf : Code → Recipe (Goal Code))
    (subst : Subst)
    (session : Session) :
    ∃ found later, goal.ListsAs goalOf subst session found later := by
  induction immediate generalizing subst session with
  | eq left right =>
    cases outcome : subst.unify left right with
    | none =>
      refine ⟨[], session, ⟨?_, .clash outcome, Nat.le_refl _, by simp⟩⟩
      rw [Goal.apply, outcome]
      rfl
    | some extended =>
      refine ⟨[⟨extended, session.supply⟩], session,
        ⟨?_, .unified outcome (Nat.le_refl _), Nat.le_refl _, by simp⟩⟩
      rw [Goal.apply, outcome]
      rfl
  | succeed =>
    exact ⟨[⟨subst, session.supply⟩], session,
      ⟨rfl, .succeed (Nat.le_refl _), Nat.le_refl _, by simp⟩⟩
  | fail => exact ⟨[], session, ⟨rfl, .fail, Nat.le_refl _, by simp⟩⟩
  | @both first second _ _ firstIH secondIH =>
    rcases firstIH subst session with ⟨middles, between, front⟩
    rcases Goal.exists_fed secondIH middles front.within with
      ⟨entries, later, firsts, readings, fed, supply, within⟩
    have run :
        ((Goal.both first second).apply subst).run session =
          (Stream.andThen second.apply second
            ((first.apply subst).run session).1).run
              ((first.apply subst).run session).2 := by
      rw [Goal.apply]
      rfl
    have fronts : Reading goalOf first ⟨subst, session.supply⟩
        (entries.map Prod.fst) := by
      rw [firsts]
      exact front.reading
    refine ⟨_, later, ⟨?_, .both fronts readings,
      front.supply_le.trans supply, within⟩⟩
    rw [run, front.run, fed]
  | @either left right _ _ leftIH rightIH =>
    -- The right goal is applied first, and so has the lower numbers.
    rcases rightIH subst session with ⟨rights, between, onRight⟩
    rcases leftIH subst between with ⟨lefts, later, onLeft⟩
    refine ⟨lefts ++ rights, later, ⟨?_, ?_,
      onRight.supply_le.trans onLeft.supply_le, ?_⟩⟩
    · rw [Goal.run_either, onRight.run]
      simp only [onLeft.run]
      rw [Stream.interleave_ofList, List.map_append]
    · exact .either (onLeft.reading.lower onRight.supply_le) onRight.reading
    · rw [List.forall_mem_append]
      exact ⟨onLeft.within, fun result member =>
        (onRight.within result member).trans onLeft.supply_le⟩
  | @dynamic builder _ ih =>
    rcases run_applyRecipe (builder subst) subst session with
      ⟨built, supply, run⟩
    rcases ih subst session.supply subst built with ⟨found, later, lists⟩
    have reading := lists.reading
    rw [supply] at reading
    refine ⟨found, later, ⟨?_, .dynamic (Nat.le_refl _) reading, ?_,
      lists.within⟩⟩
    · rw [Goal.apply, run, lists.run]
    · have minted : session.supply ≤ built.supply := by
        rw [supply]
        exact Recipe.le_made _ _
      exact minted.trans lists.supply_le

/--
Applying an immediate goal gives the list of its results, depth first and from
left to right, and nothing is left to be worked out.  If the goal is generic
then each way to read it gives this list, up to the names of the variables that
are minted.
-/
theorem apply_eq_ofList
    (immediate : goal.Immediate)
    (goalOf : Code → Recipe (Goal Code))
    (subst : Subst)
    (session : Session) :
    ∃ (found : List Snapshot) (later : Session),
      (goal.apply subst).run session =
          (.ofList (found.map Snapshot.value), later) ∧
        Reading goalOf goal ⟨subst, session.supply⟩ found ∧
        (Generic goalOf goal subst session.supply →
          ∀ others, Reading goalOf goal ⟨subst, session.supply⟩ others →
            List.Forall₂ (Subst.Renamed session.supply)
              (others.map Snapshot.value) (found.map Snapshot.value)) := by
  rcases immediate.exists_listsAs goalOf subst session with
    ⟨found, later, lists⟩
  exact ⟨found, later, lists.run, lists.reading, fun generic _ reading =>
    generic.renamed_readings reading lists.reading⟩

/-- A choice, a choice that mints a variable, and what they are parts of. -/
def twoChoices : Goal Unit :=
  .all
    [.any [[.eq (.var ⟨0⟩) (.int 1)], [.eq (.var ⟨0⟩) (.int 2)]],
      .dynamic fun _ => do
        let tail ← Recipe.freshTerm "tail"
        pure (.any
          [[.allEmpty [tail, .var ⟨1⟩] .list],
            [.cons (.int 3) tail (.var ⟨1⟩), .allEmpty [tail] .tuple]]),
      .application (.quiet .sequence) (.var ⟨0⟩) (.var ⟨1⟩) (.var ⟨2⟩)]

theorem immediate_twoChoices : twoChoices.Immediate := by
  have first : (Goal.any
      [[.eq (.var ⟨0⟩) (.int 1)], [.eq (.var ⟨0⟩) (.int 2)]] :
        Goal Unit).Immediate :=
    .any (by simp [Immediate.eq])
  have second (tail : Term) : (Goal.any
      [[.allEmpty [tail, .var ⟨1⟩] .list],
        [.cons (.int 3) tail (.var ⟨1⟩), .allEmpty [tail] .tuple]] :
          Goal Unit).Immediate :=
    .any (by simp [Immediate.allEmpty, Immediate.cons])
  exact .both (.both first (.dynamic fun _ _ => second _))
    (.application _ _ _ _)

/-- The second choice is made anew for each result of the first one. -/
theorem apply_eq_ofList_twoChoices :
    twoChoices.Immediate ∧
      ∃ found : List Subst,
        ((twoChoices.apply ∅).run ⟨#["q", "r", "s"], #[]⟩).1 = .ofList found ∧
          found.map (fun result => result.reify (.var ⟨2⟩)) =
            [.sequence .list [.int 1], .sequence .tuple [.int 1, .int 3],
              .sequence .list [.int 2],
              .sequence .tuple [.int 2, .int 3]] := by
  rcases immediate_twoChoices.apply_eq_ofList (fun _ => .done .fail) ∅
      ⟨#["q", "r", "s"], #[]⟩ with ⟨found, later, run, _⟩
  have same : ((twoChoices.apply ∅).run ⟨#["q", "r", "s"], #[]⟩).1 =
      .ofList (found.map Snapshot.value) :=
    congrArg Prod.fst run
  refine ⟨immediate_twoChoices, found.map Snapshot.value, same, ?_⟩
  rw [← Stream.worked_ofList (found.map Snapshot.value), ← same]
  decide +kernel

end Goal.Immediate

end RelationalSearch
