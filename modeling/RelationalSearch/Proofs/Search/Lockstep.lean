import RelationalSearch.Proofs.Search.Alike
import RelationalSearch.Proofs.Search.Minting

/-!
# Searches in lockstep

A search is run in two sessions that have minted different numbers of variables.
If its goals are generic then it does the same work in both, and mints as many
variables, and the streams that come of it are alike once these variables are
paired (`Stream.Alike`).  The sessions need not stay as they are between two
pieces of work: other parts of a search may mint variables in the meantime.

Alikeness of computations (`Search.Alike`) is put together as the computations
are.  It holds of applying goals, of carrying out plans and of each operation on
streams, and so of advancing a stream.
-/

namespace RelationalSearch

/-! ## More pairs -/

/-- A pairing with more pairs, in which each variable still has at most one. -/
structure Pairing.Widens (pairing larger : Pairing) : Prop where
  included : ∀ x y, pairing x y → larger x y
  oneToOne : larger.OneToOne

namespace Pairing

variable {pairing larger largest : Pairing} {supply other : Nat}

theorem OneToOne.widens_refl (oneToOne : pairing.OneToOne) :
    pairing.Widens pairing :=
  ⟨fun _ _ paired => paired, oneToOne⟩

theorem Widens.trans
    (widens : pairing.Widens larger)
    (further : larger.Widens largest) :
    pairing.Widens largest :=
  ⟨fun x y paired => further.included x y (widens.included x y paired),
    further.oneToOne⟩

theorem Growth.widens (growth : pairing.Growth larger supply other) :
    pairing.Widens larger :=
  ⟨growth.included, growth.oneToOne⟩

theorem Growth.of_widens
    (growth : larger.Growth largest supply other)
    (widens : pairing.Widens larger) :
    pairing.Growth largest supply other :=
  ⟨(widens.trans growth.widens).included, growth.oneToOne, growth.within⟩

/-- Minting as many variables in both sessions pairs them. -/
theorem Growth.extend
    (growth : pairing.Growth larger supply other)
    (count : Nat) :
    larger.Growth (larger.extend supply other count) (supply + count)
      (other + count) :=
  ⟨fun _ _ paired => .inl paired, growth.oneToOne.extend growth.within count,
    growth.within.extend count⟩

end Pairing

/-! ## Computations -/

/--
Whatever variables have been minted, the computations give related outcomes
once the variables that they mint are paired.
-/
def Search.Alike
    {α β : Type}
    (related : Pairing → α → β → Prop)
    (pairing : Pairing)
    (search : Search α)
    (other : Search β) : Prop :=
  ∀ ⦃larger : Pairing⦄ ⦃session otherSession : Session⦄,
    pairing.Growth larger session.supply otherSession.supply →
      ∃ largest : Pairing,
        larger.Growth largest (search.run session).2.supply
            (other.run otherSession).2.supply ∧
          related largest (search.run session).1 (other.run otherSession).1

namespace Search

variable {α β γ δ : Type} {pairing larger : Pairing}

theorem alike_pure
    {related : Pairing → α → β → Prop}
    {value : α}
    {other : β}
    (relates :
      ∀ larger : Pairing, pairing.Widens larger → related larger value other) :
    Alike related pairing (pure value) (pure other) :=
  fun larger _ _ growth =>
    ⟨larger, Pairing.growth_refl growth.oneToOne growth.within,
      relates larger growth.widens⟩

theorem Alike.widen
    {related : Pairing → α → β → Prop}
    {search : Search α}
    {other : Search β}
    (alike : Alike related pairing search other)
    (widens : pairing.Widens larger) :
    Alike related larger search other :=
  fun _ _ _ growth => alike (growth.of_widens widens)

/-- Computations may be compared where more variables have been paired. -/
theorem alike_of_widens
    {related : Pairing → α → β → Prop}
    {search : Search α}
    {other : Search β}
    (alike :
      ∀ larger : Pairing, pairing.Widens larger →
        Alike related larger search other) :
    Alike related pairing search other :=
  fun larger _ _ growth =>
    alike larger growth.widens
      (Pairing.growth_refl growth.oneToOne growth.within)

theorem Alike.bind
    {first : Pairing → α → β → Prop}
    {second : Pairing → γ → δ → Prop}
    {search : Search α}
    {other : Search β}
    {next : α → Search γ}
    {otherNext : β → Search δ}
    (front : Alike first pairing search other)
    (back :
      ∀ (larger : Pairing) (value : α) (otherValue : β),
        pairing.Widens larger → first larger value otherValue →
          Alike second larger (next value) (otherNext otherValue)) :
    Alike second pairing (search >>= next) (other >>= otherNext) := by
  intro larger session otherSession growth
  rcases front growth with ⟨middle, grown, values⟩
  have widens := growth.widens.trans grown.widens
  rcases back middle _ _ widens values
      (Pairing.growth_refl grown.oneToOne grown.within) with
    ⟨largest, grownAgain, outcomes⟩
  exact ⟨largest, grownAgain.of_widens grown.widens, outcomes⟩

theorem alike_note
    {related : Pairing → γ → δ → Prop}
    {next : Search γ}
    {otherNext : Search δ}
    (later : Alike related pairing next otherNext)
    (event otherEvent : String) :
    Alike related pairing (do Session.note event; next)
      (do Session.note otherEvent; otherNext) :=
  fun _ _ _ growth => later growth

/-- Recipes that are alike are run alike. -/
theorem alike_recipe
    {related : Pairing → α → β → Prop}
    {recipe : Recipe α}
    {other : Recipe β}
    (recipes : Recipe.Alike related pairing recipe other) :
    Alike related pairing recipe.run other.run := by
  intro larger session otherSession growth
  rcases recipe.run_eq_made session with ⟨made, supply⟩
  rcases other.run_eq_made otherSession with ⟨otherMade, otherSupply⟩
  rcases recipes growth with ⟨sameCount, relates⟩
  have minted := recipe.le_made session.supply
  have otherMinted := other.le_made otherSession.supply
  rw [made, otherMade, supply, otherSupply]
  refine ⟨_, ?_, relates⟩
  have grown := growth.extend ((recipe.made session.supply).2 - session.supply)
  have reached : session.supply +
      ((recipe.made session.supply).2 - session.supply) =
        (recipe.made session.supply).2 := by
    omega
  have otherReached : otherSession.supply +
      ((recipe.made session.supply).2 - session.supply) =
        (other.made otherSession.supply).2 := by
    omega
  rwa [reached, otherReached] at grown

end Search

/-! ## Streams -/

variable {Code : Type}

/-- The plans differ in paired variables only. -/
inductive Plan.Alike (codes : Pairing → Code → Code → Prop)
    (pairing : Pairing) : Plan Code → Plan Code → Prop where
  | empty : Alike codes pairing .empty .empty
  | unit
      {subst other : Subst}
      (substs : subst.Alike pairing other) :
      Alike codes pairing (.unit subst) (.unit other)
  | apply
      {goal otherGoal : Goal Code} {subst other : Subst}
      (goals : Goal.Alike codes pairing goal otherGoal)
      (substs : subst.Alike pairing other) :
      Alike codes pairing (.apply goal subst) (.apply otherGoal other)
  | make
      {recipe otherRecipe : Recipe (Goal Code)} {subst other : Subst}
      (recipes : Recipe.Alike (Goal.Alike codes) pairing recipe otherRecipe)
      (substs : subst.Alike pairing other) :
      Alike codes pairing (.make recipe subst) (.make otherRecipe other)
  | deferred
      {code otherCode : Code} {subst other : Subst}
      (same : codes pairing code otherCode)
      (substs : subst.Alike pairing other) :
      Alike codes pairing (.deferred code subst) (.deferred otherCode other)
  | note
      {event otherEvent : String} {plan other : Plan Code}
      (plans : Alike codes pairing plan other) :
      Alike codes pairing (.note event plan) (.note otherEvent other)
  | later
      {plan other : Unit → Plan Code}
      (plans : Alike codes pairing (plan ()) (other ())) :
      Alike codes pairing (.later plan) (.later other)
  | suspend
      {plan other : Plan Code}
      (plans : Alike codes pairing plan other) :
      Alike codes pairing (.suspend plan) (.suspend other)
  | merge
      {left right otherLeft otherRight : Plan Code}
      (lefts : Alike codes pairing left otherLeft)
      (rights : Alike codes pairing right otherRight) :
      Alike codes pairing (.merge left right) (.merge otherLeft otherRight)
  | append
      {first second otherFirst otherSecond : Plan Code}
      (firsts : Alike codes pairing first otherFirst)
      (seconds : Alike codes pairing second otherSecond) :
      Alike codes pairing (.append first second)
        (.append otherFirst otherSecond)
  | bind
      {plan other : Plan Code} {recipe otherRecipe : Recipe (Goal Code)}
      (plans : Alike codes pairing plan other)
      (recipes : Recipe.Alike (Goal.Alike codes) pairing recipe otherRecipe) :
      Alike codes pairing (.bind plan recipe) (.bind other otherRecipe)

/--
The streams differ in paired variables only, and in how queues are nested.
-/
inductive Stream.Alike (codes : Pairing → Code → Code → Prop)
    (pairing : Pairing) : Results Code → Results Code → Prop where
  | empty : Alike codes pairing .empty .empty
  | ready
      {subst otherSubst : Subst} {rest otherRest : Results Code}
      (substs : subst.Alike pairing otherSubst)
      (rests : Alike codes pairing rest otherRest) :
      Alike codes pairing (.ready subst rest) (.ready otherSubst otherRest)
  | suspended
      {plan other : Plan Code}
      (plans : Plan.Alike codes pairing plan other) :
      Alike codes pairing (.suspended plan) (.suspended other)
  | merge
      {left right otherLeft otherRight : Results Code}
      (lefts : Alike codes pairing left otherLeft)
      (rights : Alike codes pairing right otherRight) :
      Alike codes pairing (.merge left right) (.merge otherLeft otherRight)
  | bind
      {inner other : Results Code} {goal otherGoal : Goal Code}
      (inners : Alike codes pairing inner other)
      (goals : Goal.Alike codes pairing goal otherGoal) :
      Alike codes pairing (.bind inner goal) (.bind other otherGoal)
  | append
      {inner other : Results Code} {queue otherQueue : Queue (Plan Code)}
      (inners : Alike codes pairing inner other)
      (queues :
        List.Forall₂ (Plan.Alike codes pairing) queue.toList
          otherQueue.toList) :
      Alike codes pairing (.append inner queue) (.append other otherQueue)

/-- The computations give streams that are alike. -/
abbrev Search.AlikeStreams
    (codes : Pairing → Code → Code → Prop)
    (pairing : Pairing)
    (search other : Search (Results Code)) : Prop :=
  Search.Alike (Stream.Alike codes) pairing search other

section Lockstep

variable {goalOf : Code → Recipe (Goal Code)}
  {codes : Pairing → Code → Code → Prop} {pairing larger : Pairing}

theorem Recipe.Alike.widen
    {α β : Type}
    {related : Pairing → α → β → Prop}
    {recipe : Recipe α}
    {other : Recipe β}
    (recipes : Recipe.Alike related pairing recipe other)
    (widens : pairing.Widens larger) :
    Recipe.Alike related larger recipe other :=
  fun _ _ _ growth => recipes (growth.of_widens widens)

theorem Plan.Alike.widen
    (generic : GenericCodes goalOf codes)
    {plan other : Plan Code}
    (plans : Plan.Alike codes pairing plan other)
    (widens : pairing.Widens larger) :
    Plan.Alike codes larger plan other := by
  have substsToo {subst other : Subst} (substs : subst.Alike pairing other) :=
    substs.mono widens.oneToOne widens.included
  induction plans with
  | empty => exact .empty
  | unit substs => exact .unit (substsToo substs)
  | apply goals substs =>
    exact .apply (goals.mono generic widens.included) (substsToo substs)
  | make recipes substs => exact .make (recipes.widen widens) (substsToo substs)
  | deferred same substs =>
    exact .deferred (generic.mono widens.included same) (substsToo substs)
  | note _ ih => exact .note ih
  | later _ ih => exact .later ih
  | suspend _ ih => exact .suspend ih
  | merge _ _ leftIH rightIH => exact .merge leftIH rightIH
  | append _ _ firstIH secondIH => exact .append firstIH secondIH
  | bind _ recipes ih => exact .bind ih (recipes.widen widens)

/-- In front of queues of related work is related work, and so is behind it. -/
theorem Queue.related_take
    {Later : Type}
    {related : Later → Later → Prop}
    {queue other : Queue Later}
    (queues : List.Forall₂ related queue.toList other.toList) :
    related queue.take.1 other.take.1 ∧
      Option.Rel
        (fun rest otherRest =>
          List.Forall₂ related rest.toList otherRest.toList)
        queue.take.2 other.take.2 := by
  rw [queue.toList_take, other.toList_take] at queues
  generalize queue.take = taken at queues ⊢
  generalize other.take = otherTaken at queues ⊢
  rcases List.forall₂_cons.mp queues with ⟨works, rests⟩
  refine ⟨works, ?_⟩
  rcases taken with ⟨_, _ | rest⟩
  · rcases otherTaken with ⟨_, _ | otherRest⟩
    · exact .none
    · exact (otherRest.toList_ne_nil (List.forall₂_nil_left_iff.mp rests)).elim
  · rcases otherTaken with ⟨_, _ | otherRest⟩
    · exact (rest.toList_ne_nil (List.forall₂_nil_right_iff.mp rests)).elim
    · exact .some rests

namespace Stream

theorem Alike.widen
    (generic : GenericCodes goalOf codes)
    {stream other : Results Code}
    (streams : Alike codes pairing stream other)
    (widens : pairing.Widens larger) :
    Alike codes larger stream other := by
  induction streams with
  | empty => exact .empty
  | ready substs _ ih =>
    exact .ready (substs.mono widens.oneToOne widens.included) ih
  | suspended plans => exact .suspended (plans.widen generic widens)
  | merge _ _ leftIH rightIH => exact .merge leftIH rightIH
  | bind _ goals ih => exact .bind ih (goals.mono generic widens.included)
  | append _ queues ih =>
    exact .append ih
      (queues.imp fun _ _ plans => plans.widen generic widens)

theorem Alike.pure
    (generic : GenericCodes goalOf codes)
    {stream other : Results Code}
    (streams : Alike codes pairing stream other) :
    Search.AlikeStreams codes pairing (pure stream) (pure other) :=
  Search.alike_pure fun _ widens => streams.widen generic widens

theorem alike_unit
    {subst other : Subst}
    (substs : subst.Alike pairing other) :
    Alike codes pairing (.unit subst) (.unit other) :=
  .ready substs .empty

theorem Alike.shape_eq
    {stream other : Results Code}
    (streams : Alike codes pairing stream other) :
    stream.shape = other.shape := by
  cases streams <;> rfl

theorem Alike.eq_empty
    {other : Results Code}
    (streams : Alike codes pairing .empty other) :
    other = .empty := by
  cases streams
  rfl

theorem Alike.eq_empty_left
    {stream : Results Code}
    (streams : Alike codes pairing stream .empty) :
    stream = .empty := by
  cases streams
  rfl

theorem Alike.interleave
    {left right otherLeft otherRight : Results Code}
    (lefts : Alike codes pairing left otherLeft)
    (rights : Alike codes pairing right otherRight) :
    Alike codes pairing (left.interleave right)
      (otherLeft.interleave otherRight) := by
  -- A pending stream is merged with the right one, unless that is empty.
  have merged {left other : Results Code}
      (lefts : Alike codes pairing left other)
      (pending : left.shape = .pending) :
      Alike codes pairing (left.interleave right)
        (other.interleave otherRight) := by
    cases ended : right.isEmpty with
    | true =>
      cases rights <;> cases ended
      rwa [interleave_empty_right, interleave_empty_right]
    | false =>
      rw [interleave_of_pending pending (by rintro rfl; cases ended),
        interleave_of_pending (lefts.shape_eq ▸ pending) (by
          rintro rfl
          cases rights
          cases ended)]
      exact .merge lefts rights
  induction lefts with
  | empty => exact rights
  | ready substs _ ih => exact .ready substs ih
  | suspended plans => exact merged (.suspended plans) rfl
  | merge lefts rights => exact merged (.merge lefts rights) rfl
  | bind inners goals => exact merged (.bind inners goals) rfl
  | append inners queues => exact merged (.append inners queues) rfl

theorem Alike.enqueue
    {stream other : Results Code}
    {queue otherQueue : Queue (Plan Code)}
    (streams : Alike codes pairing stream other)
    (queues :
      List.Forall₂ (Plan.Alike codes pairing) queue.toList
        otherQueue.toList) :
    Alike codes pairing (enqueue queue stream) (enqueue otherQueue other) := by
  induction streams with
  | empty => exact .append .empty queues
  | ready substs _ ih => exact .ready substs ih
  | suspended plans => exact .append (.suspended plans) queues
  | merge lefts rights => exact .append (.merge lefts rights) queues
  | bind inners goals => exact .append (.bind inners goals) queues
  | append inners earlier _ =>
    refine .append inners ?_
    rw [Queue.toList_join, Queue.toList_join]
    exact List.rel_append earlier queues

theorem Alike.andThen
    (generic : GenericCodes goalOf codes)
    {feed otherFeed : Subst → Search (Results Code)}
    {goal otherGoal : Goal Code}
    {stream other : Results Code}
    (feeds :
      ∀ (larger : Pairing) (subst otherSubst : Subst),
        pairing.Widens larger → subst.Alike larger otherSubst →
          Search.AlikeStreams codes larger (feed subst) (otherFeed otherSubst))
    (goals : Goal.Alike codes pairing goal otherGoal)
    (streams : Alike codes pairing stream other) :
    Search.AlikeStreams codes pairing (andThen feed goal stream)
      (andThen otherFeed otherGoal other) := by
  induction streams with
  | empty => exact Alike.empty.pure generic
  | @ready subst otherSubst _ _ substs _ ih =>
    have fed : Search.AlikeStreams codes pairing (feed subst)
        (otherFeed otherSubst) :=
      Search.alike_of_widens fun larger widens =>
        feeds larger subst otherSubst widens
          (substs.mono widens.oneToOne widens.included)
    exact fed.bind fun _ _ _ widens fronts =>
      (ih.widen widens).bind fun _ _ _ further backs =>
        ((fronts.widen generic further).interleave backs).pure generic
  | suspended plans => exact (Alike.bind (.suspended plans) goals).pure generic
  | merge lefts rights =>
    exact (Alike.bind (.merge lefts rights) goals).pure generic
  | bind inners others =>
    exact (Alike.bind (.bind inners others) goals).pure generic
  | append inners queues =>
    exact (Alike.bind (.append inners queues) goals).pure generic

theorem Alike.followedBy
    (generic : GenericCodes goalOf codes)
    {force otherForce : Plan Code → Search (Results Code)}
    {stream other : Results Code}
    {queue otherQueue : Queue (Plan Code)}
    (forces :
      ∀ (larger : Pairing) (plan otherPlan : Plan Code),
        pairing.Widens larger → Plan.Alike codes larger plan otherPlan →
          Search.AlikeStreams codes larger (force plan) (otherForce otherPlan))
    (streams : Alike codes pairing stream other)
    (queues :
      List.Forall₂ (Plan.Alike codes pairing) queue.toList
        otherQueue.toList) :
    Search.AlikeStreams codes pairing (followedBy force stream queue)
      (followedBy otherForce other otherQueue) := by
  induction counted : queue.size using Nat.strongRecOn
    generalizing pairing stream other queue otherQueue with
  | _ size ih =>
    cases ended : stream.isEmpty with
    | false =>
      rw [followedBy_of_ne_empty _ (by rintro rfl; cases ended),
        followedBy_of_ne_empty _ (by
          rintro rfl
          cases streams
          cases ended)]
      exact (streams.enqueue queues).pure generic
    | true =>
      cases streams <;> cases ended
      have fronts := Queue.related_take queues
      rcases taken : queue.take with ⟨plan, _ | rest⟩
      · rcases takenToo : otherQueue.take with ⟨otherPlan, _ | otherRest⟩
        all_goals
          rw [taken, takenToo] at fronts
          rcases fronts with ⟨plans, rests⟩
        · rw [followedBy_empty_of_last _ taken,
            followedBy_empty_of_last _ takenToo]
          exact Search.alike_of_widens fun larger widens =>
            forces larger plan otherPlan widens (plans.widen generic widens)
        · cases rests
      · rcases takenToo : otherQueue.take with ⟨otherPlan, _ | otherRest⟩
        all_goals
          rw [taken, takenToo] at fronts
          rcases fronts with ⟨plans, rests⟩
        · cases rests
        · rw [followedBy_empty_of_more _ taken,
            followedBy_empty_of_more _ takenToo]
          have forced : Search.AlikeStreams codes pairing (force plan)
              (otherForce otherPlan) :=
            Search.alike_of_widens fun larger widens =>
              forces larger plan otherPlan widens (plans.widen generic widens)
          rcases rests with ⟨rests⟩
          have smaller : rest.size < size :=
            counted ▸ Queue.size_lt_of_take taken
          refine forced.bind fun larger _ _ widens laters => ?_
          refine ih rest.size smaller ?_ laters ?_ rfl
          · exact fun _ _ _ further => forces _ _ _ (widens.trans further)
          · exact rests.imp fun _ _ plans => plans.widen generic widens

theorem Alike.before
    (generic : GenericCodes goalOf codes)
    {force otherForce : Search (Results Code)}
    {stream other : Results Code}
    {plan otherPlan : Plan Code}
    (forces :
      ∀ larger : Pairing, pairing.Widens larger →
        Search.AlikeStreams codes larger force otherForce)
    (plans : Plan.Alike codes pairing plan otherPlan)
    (streams : Alike codes pairing stream other) :
    Search.AlikeStreams codes pairing (before force plan stream)
      (before otherForce otherPlan other) := by
  rw [← followedBy_one fun _ => force, ← followedBy_one fun _ => otherForce]
  exact streams.followedBy generic
    (fun larger _ _ widens _ => forces larger widens) (.cons plans .nil)

end Stream

/-! ## Goals and plans -/

/-- Alike goals are applied to alike substitutions alike. -/
theorem Goal.Alike.apply
    (generic : GenericCodes goalOf codes)
    {goal otherGoal : Goal Code}
    {subst other : Subst}
    (goals : Goal.Alike codes pairing goal otherGoal)
    (substs : subst.Alike pairing other) :
    Search.AlikeStreams codes pairing (goal.apply subst)
      (otherGoal.apply other) := by
  refine Search.alike_of_widens fun larger widens => ?_
  replace substs := substs.mono widens.oneToOne widens.included
  induction goals generalizing larger subst other with
  | eq lefts rights =>
    have outcomes := substs.unify widens.oneToOne
      (lefts.mono widens.included) (rights.mono widens.included)
    rw [Goal.apply, Goal.apply]
    generalize subst.unify _ _ = outcome at outcomes ⊢
    generalize other.unify _ _ = otherOutcome at outcomes ⊢
    cases outcomes with
    | none => exact Stream.Alike.empty.pure generic
    | some extended => exact (Stream.alike_unit extended).pure generic
  | succeed => exact (Stream.alike_unit substs).pure generic
  | fail => exact Stream.Alike.empty.pure generic
  | both _ seconds firstIH secondIH =>
    rw [Goal.apply, Goal.apply]
    refine (firstIH larger widens substs).bind
      fun middle _ _ further streams => ?_
    refine streams.andThen generic ?_
      (seconds.mono generic (widens.trans further).included)
    intro largest _ _ furtherStill results
    exact secondIH largest ((widens.trans further).trans furtherStill) results
  | either _ _ leftIH rightIH =>
    rw [Goal.apply, Goal.apply]
    refine (rightIH larger widens substs).bind
      fun middle _ _ further lasts => ?_
    have front := leftIH middle (widens.trans further)
      (substs.mono further.oneToOne further.included)
    exact front.bind fun _ _ _ furtherStill fronts =>
      (fronts.interleave (lasts.widen generic furtherStill)).pure generic
  | ordered _ rights leftIH rightIH =>
    rw [Goal.apply, Goal.apply]
    refine (leftIH larger widens substs).bind
      fun middle _ _ further streams => ?_
    have middles := substs.mono further.oneToOne further.included
    refine streams.before generic ?_
      (.apply (rights.mono generic (widens.trans further).included) middles)
    intro largest furtherStill
    exact rightIH largest ((widens.trans further).trans furtherStill)
      (middles.mono furtherStill.oneToOne furtherStill.included)
  | defer same =>
    exact (Stream.Alike.suspended (.deferred
      (generic.mono widens.included same) substs)).pure generic
  | @dynamic pairing builder otherBuilder counts parts partsIH =>
    rw [Goal.apply, Goal.apply, applyRecipe_eq, applyRecipe_eq]
    -- What is built is compared by what comes of applying it.
    have recipes : Recipe.Alike
        (fun pairing goal otherGoal =>
          ∀ larger : Pairing, pairing.Widens larger →
            ∀ {subst other : Subst}, subst.Alike larger other →
              Search.AlikeStreams codes larger (goal.apply subst)
                (otherGoal.apply other))
        larger (builder subst) (otherBuilder other) := by
      intro middle supply otherSupply growth
      have grown := growth.of_widens widens
      have middles := substs.mono growth.oneToOne growth.included
      refine ⟨counts grown middles, ?_⟩
      intro largest further subst other results
      exact partsIH grown middles largest further results
    refine (Search.alike_recipe recipes).bind
      fun middle _ _ further applied => ?_
    exact applied middle further.oneToOne.widens_refl
      (substs.mono further.oneToOne further.included)

theorem Recipe.Alike.apply
    (generic : GenericCodes goalOf codes)
    {recipe otherRecipe : Recipe (Goal Code)}
    {subst other : Subst}
    (recipes : Recipe.Alike (Goal.Alike codes) pairing recipe otherRecipe)
    (substs : subst.Alike pairing other) :
    Search.AlikeStreams codes pairing (applyRecipe recipe subst)
      (applyRecipe otherRecipe other) := by
  rw [applyRecipe_eq, applyRecipe_eq]
  exact (Search.alike_recipe recipes).bind fun _ _ _ widens goals =>
    goals.apply generic (substs.mono widens.oneToOne widens.included)

/-- Alike plans are carried out alike. -/
theorem Plan.Alike.build
    (generic : GenericCodes goalOf codes)
    {plan other : Plan Code}
    (plans : Plan.Alike codes pairing plan other) :
    Search.AlikeStreams codes pairing (plan.build goalOf)
      (other.build goalOf) := by
  induction plans with
  | empty => exact Stream.Alike.empty.pure generic
  | unit substs => exact (Stream.alike_unit substs).pure generic
  | apply goals substs => exact goals.apply generic substs
  | make recipes substs => exact recipes.apply generic substs
  | deferred same substs =>
    exact (generic.unfolds same).recipes.apply generic substs
  | note _ ih => exact Search.alike_note ih _ _
  | later _ ih => exact ih
  | suspend plans => exact (Stream.Alike.suspended plans).pure generic
  | merge _ _ leftIH rightIH =>
    exact leftIH.bind fun _ _ _ widens fronts =>
      (rightIH.widen widens).bind fun _ _ _ further lasts =>
        ((fronts.widen generic further).interleave lasts).pure generic
  | append _ seconds firstIH secondIH =>
    exact firstIH.bind fun _ _ _ widens streams =>
      streams.before generic
        (fun _ further => secondIH.widen (widens.trans further))
        (seconds.widen generic widens)
  | bind _ recipes ih =>
    refine ih.bind fun _ _ _ widens streams =>
      (Search.alike_recipe (recipes.widen widens)).bind
        fun _ _ _ further goals =>
          (streams.widen generic further).andThen generic ?_ goals
    intro largest _ _ furtherStill results
    exact (goals.mono generic furtherStill.included).apply generic results

/-! ## Working on streams -/

namespace Stream

theorem Alike.advance
    (generic : GenericCodes goalOf codes)
    {stream other : Results Code}
    (streams : Alike codes pairing stream other) :
    Search.AlikeStreams codes pairing
      (advance (searchEngine goalOf) stream)
      (advance (searchEngine goalOf) other) := by
  induction streams with
  | empty =>
    rw [advance_empty]
    exact Alike.empty.pure generic
  | ready substs rests =>
    rw [advance_ready, advance_ready]
    exact (Alike.ready substs rests).pure generic
  | suspended plans =>
    rw [advance_suspended, advance_suspended]
    exact plans.build generic
  | merge _ rights leftIH _ =>
    rw [advance_merge, advance_merge]
    exact leftIH.bind fun _ _ _ widens streams =>
      ((rights.widen generic widens).interleave streams).pure generic
  | bind _ goals ih =>
    rw [advance_bind, advance_bind]
    refine ih.bind fun _ _ _ widens streams => ?_
    have goalsToo := goals.mono generic widens.included
    refine streams.andThen generic ?_ goalsToo
    intro largest _ _ further results
    exact (goalsToo.mono generic further.included).apply generic results
  | @append inner other queue otherQueue inners queues ih =>
    have forces (larger : Pairing) (plan otherPlan : Plan Code)
        (_ : pairing.Widens larger)
        (plans : Plan.Alike codes larger plan otherPlan) :
        Search.AlikeStreams codes larger ((searchEngine goalOf).force plan)
          ((searchEngine goalOf).force otherPlan) :=
      plans.build generic
    rcases worked : inner.isReady with _ | _
    · have workedToo : other.isReady = false := by
        rw [isReady_eq_false_iff] at worked ⊢
        exact inners.shape_eq.symm.trans worked
      rw [advance_append_of_pending _ worked,
        advance_append_of_pending _ workedToo]
      exact ih.bind fun _ _ _ widens streams =>
        streams.followedBy generic
          (fun _ _ _ further => forces _ _ _ (widens.trans further))
          (queues.imp fun _ _ plans => plans.widen generic widens)
    · have workedToo : other.isReady = true := by
        cases inners <;> cases worked <;> rfl
      rw [advance_append_of_isReady _ worked,
        advance_append_of_isReady _ workedToo]
      exact inners.followedBy generic forces queues

theorem Alike.worked
    {stream other : Results Code}
    (streams : Alike codes pairing stream other) :
    List.Forall₂ (Subst.Alike pairing) stream.worked other.worked := by
  induction streams with
  | ready substs _ ih => exact .cons substs ih
  | empty | suspended | merge | bind | append => exact .nil

theorem Alike.behind
    {stream other : Results Code}
    (streams : Alike codes pairing stream other) :
    Alike codes pairing stream.behind other.behind := by
  induction streams with
  | empty => exact .empty
  | ready _ _ ih => exact ih
  | suspended plans => exact .suspended plans
  | merge lefts rights => exact .merge lefts rights
  | bind inners goals => exact .bind inners goals
  | append inners queues => exact .append inners queues

theorem Alike.front
    {stream other : Results Code}
    (streams : Alike codes pairing stream other) :
    List.Forall₂ (Subst.Alike pairing) stream.front other.front := by
  cases streams with
  | ready substs => exact .cons substs .nil
  | empty | suspended | merge | bind | append => exact .nil

theorem Alike.nextRound
    (generic : GenericCodes goalOf codes)
    {stream other : Results Code}
    (streams : Alike codes pairing stream other) :
    Search.AlikeStreams codes pairing
      (nextRound (searchEngine goalOf) stream)
      (nextRound (searchEngine goalOf) other) :=
  streams.behind.advance generic

theorem Alike.step
    (generic : GenericCodes goalOf codes)
    {stream other : Results Code}
    (streams : Alike codes pairing stream other) :
    Search.AlikeStreams codes pairing (step (searchEngine goalOf) stream)
      (step (searchEngine goalOf) other) := by
  cases streams with
  | ready _ rests => exact rests.pure generic
  | empty => exact Alike.empty.advance generic
  | suspended plans => exact (Alike.suspended plans).advance generic
  | merge lefts rights => exact (Alike.merge lefts rights).advance generic
  | bind inners goals => exact (Alike.bind inners goals).advance generic
  | append inners queues => exact (Alike.append inners queues).advance generic

end Stream

end Lockstep

end RelationalSearch
