import RelationalSearch.Proofs.Search.Derivation
import RelationalSearch.Relation.Empty

/-!
# Fair searches

A stream brings results if they are in front one after another, each after
finitely many steps, and it emits a result that it brings alone.  Taking turns is
fair: what one side of a merge brings on its own is brought by the merge, in the
same order and whatever the other side does, because the sides change places with
each piece of work (`Stream.Brings.interleave`).  What an inner stream brings is
fed onwards in the same way.  So each derivation of a goal without ordered
disjunctions is found (`Derivation.emits`).
-/

namespace RelationalSearch

variable {Code : Type}

/--
No disjunction of the goal, or of a goal that it builds, waits for the end of
one of its branches.
-/
inductive Goal.Fair : Goal Code → Prop where
  | eq (left right : Term) : Fair (.eq left right)
  | succeed : Fair .succeed
  | fail : Fair .fail
  | both
      {first second : Goal Code}
      (firstFair : Fair first)
      (secondFair : Fair second) :
      Fair (.both first second)
  | either
      {left right : Goal Code}
      (leftFair : Fair left)
      (rightFair : Fair right) :
      Fair (.either left right)
  | defer (code : Code) : Fair (.defer code)
  | dynamic
      {builder : Subst → Recipe (Goal Code)}
      (parts : ∀ subst supply, Fair ((builder subst).made supply).1) :
      Fair (.dynamic builder)

namespace Goal

theorem fair_all
    {goals : List (Goal Code)}
    (each : ∀ goal ∈ goals, goal.Fair) :
    (all goals).Fair := by
  have fold : ∀ (rest : List (Goal Code)) (first : Goal Code), first.Fair →
      (∀ goal ∈ rest, goal.Fair) → (rest.foldl both first).Fair := by
    intro rest
    induction rest with
    | nil => exact fun _ fair _ => fair
    | cons goal rest ih =>
      intro first fair restFair
      rw [List.forall_mem_cons] at restFair
      exact ih _ (.both fair restFair.1) restFair.2
  cases goals with
  | nil => exact .succeed
  | cons goal goals =>
    rw [List.forall_mem_cons] at each
    exact fold goals goal each.1 each.2

theorem fair_any
    {branches : List (List (Goal Code))}
    (each : ∀ branch ∈ branches, ∀ goal ∈ branch, goal.Fair) :
    (any branches).Fair := by
  induction branches with
  | nil => exact .fail
  | cons branch branches ih =>
    rw [List.forall_mem_cons] at each
    exact .either (fair_all each.1) (ih each.2)

theorem fair_cons (head tail whole : Term) :
    (cons head tail whole : Goal Code).Fair :=
  .eq _ _

theorem fair_allEmpty (terms : List Term) (default : SeqKind) :
    (allEmpty terms default : Goal Code).Fair := by
  refine .dynamic ?_
  intro subst supply
  rcases subst.agreedKind? terms none with _ | kind
  · exact .fail
  · refine fair_all ?_
    intro goal member
    rcases List.mem_map.mp member with ⟨term, _, rfl⟩
    exact .eq _ _

end Goal

/-- All goals that codes stand for are fair. -/
def FairCodes (goalOf : Code → Recipe (Goal Code)) : Prop :=
  ∀ code supply, ((goalOf code).made supply).1.Fair

section Brings

variable (goalOf : Code → Recipe (Goal Code)) (gaps : Gaps)

/--
The results come to the front one after another, perhaps with others in between.
-/
inductive Stream.Brings : Branches Code → List (Located Subst) → Prop where
  | nothing {stream : Branches Code} : Brings stream []
  | here
      {result : Located Subst} {rest : Branches Code}
      {results : List (Located Subst)}
      (later : Brings rest results) :
      Brings (.ready result rest) (result :: results)
  | skip
      {other : Located Subst} {rest : Branches Code}
      {results : List (Located Subst)}
      (later : Brings rest results) :
      Brings (.ready other rest) results
  | wait
      {stream : Branches Code} {results : List (Located Subst)}
      (pending : stream.shape = .pending)
      (later : Brings (Branches.advance goalOf gaps stream) results) :
      Brings stream results

variable {goalOf gaps}

namespace Stream.Brings

variable {stream : Branches Code} {results others : List (Located Subst)}

theorem eq_nil_of_empty
    (brings : (Stream.empty : Branches Code).Brings goalOf gaps results) :
    results = [] := by
  rcases brings with _ | _ | _ | ⟨pending, _⟩
  · rfl
  · cases pending

theorem sublist
    (brings : stream.Brings goalOf gaps results)
    (included : others.Sublist results) :
    stream.Brings goalOf gaps others := by
  induction brings generalizing others with
  | nothing =>
    rw [List.sublist_nil] at included
    subst included
    exact .nothing
  | here _ ih =>
    cases included with
    | cons _ behind => exact .skip (ih behind)
    | cons_cons _ behind => exact .here (ih behind)
  | skip _ ih => exact .skip (ih included)
  | wait pending _ ih => exact .wait pending (ih included)

/-- A stream keeps what it brings when another one is put in front of it. -/
theorem behind
    (brings : stream.Brings goalOf gaps results)
    (turn :
      ∀ left : Branches Code,
        (Stream.merge left stream).Brings goalOf gaps results)
    (front : Branches Code) :
    (front.interleave stream).Brings goalOf gaps results := by
  induction front with
  | empty => exact brings
  | ready result rest ih => exact .skip ih
  | suspended | merge | bind | append =>
    by_cases ended : stream = .empty
    · subst ended
      cases brings.eq_nil_of_empty
      exact .nothing
    · rw [Stream.interleave_of_pending rfl ended]
      exact turn _

/-- A side of a merge brings what it brings alone, whatever the other one does. -/
theorem interleave
    (brings : stream.Brings goalOf gaps results)
    (other : Branches Code) :
    (stream.interleave other).Brings goalOf gaps results ∧
      (other.interleave stream).Brings goalOf gaps results := by
  induction brings generalizing other with
  | nothing => exact ⟨.nothing, .nothing⟩
  | here later ih =>
    refine ⟨.here (ih other).1, behind (.here later) (fun left => ?_) other⟩
    refine .wait rfl ?_
    rw [Branches.advance_merge]
    exact .here (ih _).1
  | skip later ih =>
    refine ⟨.skip (ih other).1, behind (.skip later) (fun left => ?_) other⟩
    refine .wait rfl ?_
    rw [Branches.advance_merge]
    exact .skip (ih _).1
  | wait pending later ih =>
    rename_i stream results
    -- With the stream in front, its next step puts it behind the other one.
    have infront : ∀ other : Branches Code,
        (stream.interleave other).Brings goalOf gaps results := by
      intro other
      by_cases ended : other = .empty
      · subst ended
        rw [Stream.interleave_empty_right]
        exact .wait pending later
      · rw [Stream.interleave_of_pending pending ended]
        refine .wait rfl ?_
        rw [Branches.advance_merge]
        exact (ih other).2
    refine ⟨infront other, behind (.wait pending later) (fun left => ?_) other⟩
    refine .wait rfl ?_
    rw [Branches.advance_merge]
    exact infront _

/-- What a result leads to is brought, as soon as the result is. -/
theorem andThen
    {goal : Goal Code}
    {middle : Located Subst}
    (brings : stream.Brings goalOf gaps [middle])
    (fed : (goal.explore gaps middle).Brings goalOf gaps results) :
    (Branches.andThen gaps goal stream).Brings goalOf gaps results := by
  generalize found : [middle] = middles at brings
  induction brings with
  | nothing => cases found
  | here =>
    cases found
    exact (fed.interleave _).1
  | skip _ ih => exact ((ih found).interleave _).2
  | wait pending _ ih =>
    have bound : Branches.andThen gaps goal _ = Stream.bind _ goal :=
      Stream.andThen_of_pending (m := Id) (goal.explore gaps) goal pending
    rw [bound]
    refine .wait rfl ?_
    rw [Branches.advance_bind]
    exact ih found

/-- What comes to the front is delivered in this order. -/
theorem exists_sublist_delivered
    (brings : stream.Brings goalOf gaps results) :
    ∃ count,
      results.Sublist
        (Stream.delivered (Branches.stagesFrom goalOf gaps stream) count) := by
  induction brings with
  | nothing => exact ⟨0, List.nil_sublist _⟩
  | here _ ih =>
    rcases ih with ⟨count, included⟩
    refine ⟨count + 1, ?_⟩
    rw [Stream.delivered_succ_left, Branches.stagesFrom_succ]
    exact included.cons_cons _
  | skip _ ih =>
    rcases ih with ⟨count, included⟩
    refine ⟨count + 1, ?_⟩
    rw [Stream.delivered_succ_left, Branches.stagesFrom_succ]
    exact included.cons _
  | wait pending _ ih =>
    rcases ih with ⟨count, included⟩
    refine ⟨count + 1, ?_⟩
    rw [Stream.delivered_succ_left, Branches.stagesFrom_succ,
      Branches.step_of_pending goalOf gaps pending]
    exact included.trans (List.sublist_append_right _ _)

/-- What is delivered by some time comes to the front. -/
theorem of_delivered (stream : Branches Code) (count : Nat) :
    stream.Brings goalOf gaps
      (Stream.delivered (Branches.stagesFrom goalOf gaps stream) count) := by
  induction count generalizing stream with
  | zero => exact .nothing
  | succ count ih =>
    rw [Stream.delivered_succ_left, Branches.stagesFrom_succ]
    by_cases pending : stream.shape = .pending
    · rw [Branches.step_of_pending goalOf gaps pending]
      have later := ih (Branches.advance goalOf gaps stream)
      rw [← List.nil_append (Stream.delivered _ _),
        ← Stream.front_of_pending pending] at later
      exact .wait pending later
    · rcases stream with _ | ⟨result, rest⟩ | _ | _ | _ | _
      · rw [Branches.step_empty]
        exact ih .empty
      · exact .here (ih rest)
      all_goals exact (pending rfl).elim

end Stream.Brings

end Brings

section Emits

variable (goalOf : Code → Recipe (Goal Code)) (gaps : Gaps)

/-- The result is in front after finitely many steps. -/
inductive Stream.Emits : Branches Code → Located Subst → Prop where
  | here {result : Located Subst} {rest : Branches Code} :
      Emits (.ready result rest) result
  | skip
      {result finish : Located Subst} {rest : Branches Code}
      (later : Emits rest finish) :
      Emits (.ready result rest) finish
  | wait
      {stream : Branches Code} {finish : Located Subst}
      (pending : stream.shape = .pending)
      (later : Emits (Branches.advance goalOf gaps stream) finish) :
      Emits stream finish

variable {goalOf gaps}

/-- What is emitted is brought alone. -/
theorem Stream.emits_iff_brings
    {stream : Branches Code}
    {finish : Located Subst} :
    stream.Emits goalOf gaps finish ↔ stream.Brings goalOf gaps [finish] := by
  constructor
  · intro emits
    induction emits with
    | here => exact .here .nothing
    | skip _ ih => exact .skip ih
    | wait pending _ ih => exact .wait pending ih
  · intro brings
    generalize found : [finish] = results at brings
    induction brings with
    | nothing => cases found
    | here =>
      cases found
      exact .here
    | skip _ ih => exact .skip (ih found)
    | wait pending _ ih => exact .wait pending (ih found)

/-- A side of a merge emits what it emits alone, whatever the other one does. -/
theorem Stream.Emits.interleave
    {stream : Branches Code}
    {finish : Located Subst}
    (emits : stream.Emits goalOf gaps finish)
    (other : Branches Code) :
    (stream.interleave other).Emits goalOf gaps finish ∧
      (other.interleave stream).Emits goalOf gaps finish := by
  simp only [Stream.emits_iff_brings] at emits ⊢
  exact emits.interleave other

/-- What is fed onwards is emitted, as soon as what it comes of is. -/
theorem Stream.Emits.andThen
    {goal : Goal Code}
    {stream : Branches Code}
    {middle finish : Located Subst}
    (emits : stream.Emits goalOf gaps middle)
    (fed : (goal.explore gaps middle).Emits goalOf gaps finish) :
    (Branches.andThen gaps goal stream).Emits goalOf gaps finish := by
  rw [Stream.emits_iff_brings] at emits fed ⊢
  exact emits.andThen fed

/-- Each derivation of a fair goal is found. -/
theorem Derivation.emits
    {goal : Goal Code}
    {start finish : Located Subst}
    (derivation : Derivation goalOf gaps goal start finish)
    (fairCodes : FairCodes goalOf)
    (fair : goal.Fair) :
    (goal.explore gaps start).Emits goalOf gaps finish := by
  induction derivation with
  | eq unified =>
    simp only [Goal.explore, unified]
    exact .here
  | succeed => exact .here
  | both _ _ frontIH backIH =>
    cases fair with
    | both firstFair secondFair =>
      exact (frontIH firstFair).andThen (backIH secondFair)
  | left _ ih =>
    cases fair with
    | either leftFair rightFair => exact ((ih leftFair).interleave _).1
  | right _ ih =>
    cases fair with
    | either leftFair rightFair => exact ((ih rightFair).interleave _).2
  | orderedLeft | orderedRight => cases fair
  | defer _ ih =>
    rw [Goal.explore]
    refine .wait rfl ?_
    rw [Branches.advance_suspended]
    exact ih (fairCodes _ _)
  | dynamic _ ih =>
    cases fair with
    | dynamic parts =>
      rw [Goal.explore_dynamic]
      exact ih (parts _ _)

theorem Stream.Emits.exists_mem_delivered
    {stream : Branches Code}
    {finish : Located Subst}
    (emits : stream.Emits goalOf gaps finish) :
    ∃ count,
      finish ∈
        Stream.delivered (Branches.stagesFrom goalOf gaps stream) count := by
  rw [Stream.emits_iff_brings] at emits
  rcases emits.exists_sublist_delivered with ⟨count, included⟩
  exact ⟨count, List.singleton_sublist.mp included⟩

end Emits

end RelationalSearch
