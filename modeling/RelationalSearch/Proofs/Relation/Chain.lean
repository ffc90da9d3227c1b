import RelationalSearch.Proofs.Relation.Question
import RelationalSearch.Proofs.Relation.Refusal

/-!
# Chains that are taken apart

A chain has items, and it ends in an empty sequence or goes on in an unbound
variable (`Chain`).  A term unrolls as a chain if this is where its bindings lead
(`Subst.Unrolls`).

Taking a cell off a chain binds two fresh variables to an item and to the rest,
or makes the variable at the end a cell of the fresh variables
(`Subst.Unrolls.exists_takesCell`).  Ending a chain without items binds at most
the variable at the end (`Subst.Unrolls.exists_ended`).  No other variables are
bound in either case.

So two chains with different ends do not get in each other's way, and what fills
the rests behind a cell of each fills the chains (`Subst.Fills.of_rest`).
-/

namespace RelationalSearch

/-! ## Chains -/

/-- What is at the end of a chain. -/
inductive Ending where
  | closed (kind : SeqKind)
  | unbound (tail : Var)
  deriving DecidableEq

def Ending.term : Ending → Term
  | closed kind => .nil kind
  | unbound tail => .var tail

/-- Items, and what is behind them. -/
structure Chain where
  items : List Term
  last : Ending

namespace Chain

def term (chain : Chain) : Term :=
  .chain chain.items chain.last.term

/-- What is behind the first cell; an unbound end goes on in the next variable. -/
def rest (chain : Chain) (next : Var) : Chain :=
  match chain.items with
  | [] => ⟨[], .unbound next⟩
  | _ :: items => ⟨items, chain.last⟩

/-- The new variable in front of the rest, if there is no item. -/
def opens (chain : Chain) (head : Var) : List Var :=
  match chain.items with
  | [] => [head]
  | _ :: _ => []

/-- There are no items, and none can be added. -/
def IsOver (chain : Chain) : Prop :=
  chain.items = [] ∧ ∃ kind, chain.last = .closed kind

variable {chain : Chain} {x next : Var}

theorem mem_opens_iff {head : Var} :
    x ∈ chain.opens head ↔ chain.items = [] ∧ x = head := by
  rcases chain with ⟨_ | ⟨item, items⟩, last⟩
  · simp [opens]
  · simp [opens]

theorem nodup_opens (chain : Chain) (head : Var) : (chain.opens head).Nodup := by
  rcases chain with ⟨_ | ⟨item, items⟩, last⟩
  · exact List.nodup_singleton head
  · exact .nil

/-- A cell is taken off, which is that of an item or a new one. -/
theorem length_rest (chain : Chain) (head next : Var) :
    chain.items.length + (chain.opens head).length =
      (chain.rest next).items.length + 1 := by
  rcases chain with ⟨_ | ⟨item, items⟩, last⟩
  · rfl
  · rfl

theorem last_rest_ne
    (other : x ≠ next)
    (apart : chain.last ≠ .unbound x) :
    (chain.rest next).last ≠ .unbound x := by
  rcases chain with ⟨_ | ⟨item, items⟩, last⟩
  · rintro ⟨⟩
    exact other rfl
  · exact apart

/-- The end of the rest is that of the chain, or it is new. -/
theorem eq_or_last_eq_of_last_rest (last : (chain.rest next).last = .unbound x) :
    x = next ∨ chain.last = .unbound x := by
  rcases chain with ⟨_ | ⟨item, items⟩, end'⟩
  · cases last
    exact .inl rfl
  · exact .inr last

end Chain

/--
The variable was there when a search began, and is not one of the four that its
goal was made with.
-/
def Var.Foreign (supply bound : Nat) (x : Var) : Prop :=
  x.id < bound ∧ (x.id < supply ∨ supply + 4 ≤ x.id)

theorem Var.le_of_not_foreign
    {supply bound : Nat}
    {x : Var}
    (room : supply + 4 ≤ bound)
    (new : ¬ x.Foreign supply bound) :
    supply ≤ x.id := by
  rw [Foreign] at new
  omega

theorem Var.Foreign.ne
    {supply bound index : Nat}
    {x : Var}
    (foreign : x.Foreign supply bound)
    (own : index < 4) :
    x ≠ ⟨supply + index⟩ := by
  rintro rfl
  rcases foreign.2 with old | later
  · exact Nat.not_lt.mpr (Nat.le_add_right supply index) old
  · exact Nat.not_lt.mpr (Nat.le_of_add_le_add_left later) own

namespace Subst

/-! ## Fresh variables -/

section Fresh

variable {subst : Subst} {supply : Nat} {x : Var} {term : Term}

/-- The terms of a session do not lead to variables that are minted later. -/
theorem Within.not_reaches
    (within : subst.Within supply)
    (low : term.ceiling ≤ supply)
    (fresh : supply ≤ x.id) :
    ¬ subst.Reaches term x := by
  intro reached
  have member := (reified_reify within.acyclic term).mem_vars_of_reaches
    (within.lookup_eq_none fresh) reached
  have inside := Term.id_lt_ceiling member
  have below := within.ceiling_reify_le low
  omega

/-- A fresh variable comes to stand for what a term leads to. -/
theorem Within.unify_fresh
    (within : subst.Within supply)
    (low : term.ceiling ≤ supply)
    (fresh : supply ≤ x.id) :
    subst.unify (.var x) term = some (subst.bind x (subst.walk term)) := by
  have ends := (follow_eq_some_walk within.acyclic term).2
  have found := within.ceiling_ends_le ends low
  refine unify_eq_bind within.acyclic
    (ends_of_lookup_eq_none (within.lookup_eq_none fresh)) ends ?_
    (within.not_reaches found fresh)
  rw [meet, if_neg]
  intro same
  cases walked : subst.walk term with
  | var y =>
    rw [walked] at same found
    cases same
    simp only [Term.ceiling] at found
    omega
  | _ => simp [walked, Term.asVar?] at same

theorem Within.bind_fresh
    (within : subst.Within supply)
    (low : term.ceiling ≤ supply) :
    (subst.bind ⟨supply⟩ term).Within (supply + 1) := by
  refine (within.mono (Nat.le_succ supply)).bind (Nat.lt_succ_self supply)
    (low.trans (Nat.le_succ supply)) ?_
  exact within.not_reaches low (Nat.le_refl supply)

/-- A variable that ends its bindings does so where only new ones are bound. -/
theorem next?_bind_fresh
    (low : term.ceiling ≤ supply)
    (last : subst.next? term = none)
    (value : Term) :
    (subst.bind ⟨supply⟩ value).next? term = none := by
  cases term with
  | var y =>
    refine (lookup_bind_of_ne _ _ ?_).trans last
    rintro rfl
    exact Nat.lt_irrefl supply low
  | _ => rfl

/-- Two fresh variables come to stand for the parts of a cell. -/
theorem Within.unify_freshCell
    {head tail : Term}
    (within : subst.Within supply)
    (low : term.ceiling ≤ supply)
    (ends : subst.Ends term (.cons head tail))
    (last : subst.next? tail = none) :
    let after := subst.bindPair supply (subst.walk head) tail
    subst.unify (.cons (.var ⟨supply⟩) (.var ⟨supply + 1⟩)) term = some after ∧
      after.Within (supply + 2) ∧
      after.reify (.var ⟨supply⟩) = after.reify head := by
  intro after
  have acyclic := within.acyclic
  have found := within.ceiling_ends_le ends low
  rw [Term.ceiling, Nat.max_le] at found
  have tailLow : tail.ceiling ≤ supply + 1 := found.2.trans (Nat.le_succ supply)
  let middle := subst.bind ⟨supply⟩ (subst.walk head)
  have headEnds := (follow_eq_some_walk acyclic head).2
  have middleWithin : middle.Within (supply + 1) :=
    within.bind_fresh (within.ceiling_ends_le headEnds found.1)
  have first : subst.unify (.var ⟨supply⟩) head = some middle :=
    within.unify_fresh found.1 (Nat.le_refl supply)
  have second : middle.unify (.var ⟨supply + 1⟩) tail = some after := by
    have unified := middleWithin.unify_fresh (x := ⟨supply + 1⟩) tailLow
      (Nat.le_refl (supply + 1))
    rwa [walk_eq_of_ends middleWithin.acyclic
      (.here (next?_bind_fresh found.2 last _))] at unified
  refine ⟨?_, middleWithin.bind_fresh tailLow, ?_⟩
  · rw [unify_cons_of_ends acyclic ends, first]
    exact second
  · exact (middleWithin.acyclic.grows_of_unify second).reify_congr
      middleWithin.acyclic (reify_eq_of_unify acyclic first)

end Fresh

/-! ## Unrolled terms -/

/-- The bindings of the term lead to the chain, and its end is as it says. -/
structure Unrolls (subst : Subst) (term : Term) (chain : Chain) : Prop where
  ends : subst.Ends term chain.term
  free : ∀ x, chain.last = .unbound x → subst.lookup x = none

variable {before after result : Subst} {supply : Nat} {term : Term}
  {chain : Chain}

/-- There are no bindings to be followed from a chain with such an end. -/
theorem next?_chain_eq_none
    (free : ∀ x, chain.last = .unbound x → before.lookup x = none) :
    before.next? chain.term = none := by
  rcases chain with ⟨_ | ⟨item, items⟩, _ | x⟩
  · rfl
  · exact free x rfl
  · rfl
  · rfl

/-- The chain is still there if what has been bound is not its end. -/
theorem Unrolls.later
    (unrolls : before.Unrolls term chain)
    (grows : before.Grows after)
    (free : ∀ x, chain.last = .unbound x → after.lookup x = none) :
    after.Unrolls term chain where
  ends := grows.ends unrolls.ends (.here (next?_chain_eq_none free))
  free := free

/-- The variable at the end is one of the session. -/
theorem Unrolls.id_lt
    (unrolls : before.Unrolls term chain)
    (within : before.Within supply)
    (low : term.ceiling ≤ supply)
    {x : Var}
    (last : chain.last = .unbound x) :
    x.id < supply := by
  have found := within.ceiling_ends_le unrolls.ends low
  rw [Chain.term, last] at found
  generalize chain.items = items at found
  induction items with
  | nil => exact found
  | cons item items ih =>
    rw [Term.chain_cons, Term.ceiling, Nat.max_le] at found
    exact ih found.2

/--
A cell has been taken off the chain: two variables stand for its parts, and the
chain goes on behind it.
-/
structure TakesCell
    (before : Subst)
    (supply : Nat)
    (term : Term)
    (chain : Chain)
    (after : Subst) : Prop where
  within : after.Within (supply + 2)
  grows : before.Grows after
  reify_eq :
    after.reify term =
      after.reify (.cons (.var ⟨supply⟩) (.var ⟨supply + 1⟩))
  head :
    match chain.items with
    | [] => after.lookup ⟨supply⟩ = none
    | item :: _ => after.reify (.var ⟨supply⟩) = after.reify item
  tail : after.Unrolls (.var ⟨supply + 1⟩) (chain.rest ⟨supply + 1⟩)
  spared :
    ∀ x : Var, x.id < supply → chain.last ≠ .unbound x →
      after.lookup x = before.lookup x

/-- An item is taken off a chain. -/
theorem Unrolls.exists_takesCell_item
    {item : Term}
    {items : List Term}
    {last : Ending}
    (unrolls : before.Unrolls term ⟨item :: items, last⟩)
    (within : before.Within supply)
    (low : term.ceiling ≤ supply) :
    ∃ after,
      before.unify (.cons (.var ⟨supply⟩) (.var ⟨supply + 1⟩)) term =
          some after ∧
        before.TakesCell supply term ⟨item :: items, last⟩ after := by
  have acyclic := within.acyclic
  rcases within.unify_freshCell low unrolls.ends
      (@next?_chain_eq_none before ⟨items, last⟩ unrolls.free) with
    ⟨success, afterWithin, head_eq⟩
  have spared (x : Var) (young : x.id < supply) :
      (before.bindPair supply (before.walk item)
        (.chain items last.term)).lookup x = before.lookup x :=
    lookup_bindPair_of_apart (.inl young)
  have free (x : Var) (same : last = .unbound x) :
      (before.bindPair supply (before.walk item)
        (.chain items last.term)).lookup x = none := by
    rw [spared x (unrolls.id_lt within low same), unrolls.free x same]
  refine ⟨_, success, afterWithin, acyclic.grows_of_unify success, ?_, head_eq,
    ⟨?_, free⟩, fun x young _ => spared x young⟩
  · exact (reify_eq_of_unify acyclic success).symm
  · refine .step lookup_bindPair_tail (.here ?_)
    exact @next?_chain_eq_none _ ⟨items, last⟩ free

/-- The variable at the end becomes a cell of two others. -/
theorem Unrolls.exists_takesCell_end
    {x : Var}
    (unrolls : before.Unrolls term ⟨[], .unbound x⟩)
    (within : before.Within supply)
    (low : term.ceiling ≤ supply) :
    ∃ after,
      before.unify (.cons (.var ⟨supply⟩) (.var ⟨supply + 1⟩)) term =
          some after ∧
        before.TakesCell supply term ⟨[], .unbound x⟩ after := by
  have inside := unrolls.id_lt within low rfl
  have apart (index : Nat) : x ≠ ⟨supply + index⟩ := by
    rintro rfl
    dsimp only at inside
    omega
  have fresh (index : Nat) : before.lookup ⟨supply + index⟩ = none :=
    within.lookup_eq_none (Nat.le_add_right supply index)
  have unreached :
      ¬ before.Reaches (.cons (.var ⟨supply⟩) (.var ⟨supply + 1⟩)) x := by
    have head := (reaches_var_iff (x := x) (fresh 0)).not.mpr (apart 0).symm
    have tail := (reaches_var_iff (x := x) (fresh 1)).not.mpr (apart 1).symm
    rw [reaches_cons_iff]
    exact not_or.mpr ⟨head, tail⟩
  have success := unify_eq_bind within.acyclic
    (.here rfl : before.Ends (.cons (.var ⟨supply⟩) (.var ⟨supply + 1⟩)) _)
    unrolls.ends rfl unreached
  have unbound (index : Nat) :
      (before.bind x (.cons (.var ⟨supply⟩) (.var ⟨supply + 1⟩))).lookup
        ⟨supply + index⟩ = none := by
    rw [lookup_bind_of_ne _ _ (apart index), fresh index]
  refine ⟨_, success, ?_, within.acyclic.grows_of_unify success, ?_, ?_, ?_, ?_⟩
  · refine (within.mono (Nat.le_add_right _ _)).bind ?_ ?_ unreached
    · exact inside.trans_le (Nat.le_add_right _ _)
    · simp [Term.ceiling]
  · exact (reify_eq_of_unify within.acyclic success).symm
  · exact unbound 0
  · refine ⟨ends_of_lookup_eq_none (unbound 1), ?_⟩
    rintro _ ⟨⟩
    exact unbound 1
  · intro y _ other
    exact lookup_bind_of_ne _ _ fun same => other (same ▸ rfl)

/-- A cell can be taken off a chain, unless the chain is over. -/
theorem Unrolls.exists_takesCell
    (unrolls : before.Unrolls term chain)
    (within : before.Within supply)
    (low : term.ceiling ≤ supply)
    (goesOn : ¬ chain.IsOver) :
    ∃ after,
      before.unify (.cons (.var ⟨supply⟩) (.var ⟨supply + 1⟩)) term =
          some after ∧
        before.TakesCell supply term chain after := by
  rcases chain with ⟨_ | ⟨item, items⟩, kind | x⟩
  · exact (goesOn ⟨rfl, kind, rfl⟩).elim
  · exact unrolls.exists_takesCell_end within low
  · exact unrolls.exists_takesCell_item within low
  · exact unrolls.exists_takesCell_item within low

/-- A chain that is over has no cell. -/
theorem Unrolls.unify_cons_eq_none
    (unrolls : before.Unrolls term chain)
    (acyclic : before.Acyclic)
    (isOver : chain.IsOver)
    (head tail : Term) :
    before.unify (.cons head tail) term = none := by
  rcases chain with ⟨items, last⟩
  rcases isOver with ⟨rfl, kind, rfl⟩
  exact unify_cell_eq_none acyclic unrolls.ends rfl rfl

/-! ## Chains that end -/

/-- The chain has ended here, as an empty sequence of the kind. -/
structure Ended
    (before : Subst)
    (term : Term)
    (chain : Chain)
    (kind : SeqKind)
    (after : Subst) : Prop where
  grows : before.Grows after
  reify_eq : after.reify term = .nil kind
  spared :
    ∀ x : Var, chain.last ≠ .unbound x → after.lookup x = before.lookup x

/-- A chain without items can end, if it does not end otherwise already. -/
theorem Unrolls.exists_ended
    {kind : SeqKind}
    (unrolls : before.Unrolls term chain)
    (acyclic : before.Acyclic)
    (nothing : chain.items = [])
    (agrees : ∀ other, chain.last = .closed other → other = kind) :
    ∃ after,
      before.unify term (.nil kind) = some after ∧
        before.Ended term chain kind after := by
  rcases chain with ⟨_, last⟩
  cases nothing
  cases last with
  | closed other =>
    cases agrees other rfl
    refine ⟨_, unify_nil acyclic unrolls.ends (.here rfl), .refl acyclic, ?_,
      fun _ _ => rfl⟩
    exact reify_eq_of_ends acyclic unrolls.ends rfl
  | unbound x =>
    have success := unify_var_of_isGround acyclic unrolls.ends
      (Term.isGround_nil kind)
    have grows := acyclic.grows_of_unify success
    refine ⟨_, success, grows, ?_, fun y other => ?_⟩
    · rw [reify_eq_of_unify acyclic success]
      exact reify_eq_of_isGround grows.acyclic rfl
    · exact lookup_bind_of_ne _ _ fun same => other (same ▸ rfl)

/-! ## Two chains -/

/-- Two terms of the session unroll as chains, with different variables at the ends. -/
structure Faces
    (subst : Subst)
    (supply : Nat)
    (first second : Term)
    (chain other : Chain) : Prop where
  within : subst.Within supply
  firstLow : first.ceiling ≤ supply
  secondLow : second.ceiling ≤ supply
  firstUnrolls : subst.Unrolls first chain
  secondUnrolls : subst.Unrolls second other
  apart : ∀ x, chain.last = .unbound x → other.last ≠ .unbound x

/--
Both terms have become sequences of the kind and the length: their own items,
and behind them new variables.  No variables that were there have been bound,
other than those at the ends.
-/
structure Fills
    (before : Subst)
    (supply bound : Nat)
    (first second : Term)
    (chain other : Chain)
    (kind : SeqKind)
    (length : Nat)
    (added others : List Var)
    (after : Subst) : Prop where
  grows : before.Grows after
  first_eq :
    after.reify first =
      .sequence kind (chain.items.map after.reify ++ added.map .var)
  second_eq :
    after.reify second =
      .sequence kind (other.items.map after.reify ++ others.map .var)
  first_length : chain.items.length + added.length = length
  second_length : other.items.length + others.length = length
  first_nodup : added.Nodup
  second_nodup : others.Nodup
  disjoint : added.Disjoint others
  fresh :
    ∀ x, x ∈ added ∨ x ∈ others →
      ¬ x.Foreign supply bound ∧ after.lookup x = none
  spared :
    ∀ x : Var, x.Foreign supply bound → chain.last ≠ .unbound x →
      other.last ≠ .unbound x → after.lookup x = before.lookup x

/-- Both terms have become sequences of the kind and the length. -/
def Lengthens
    (before : Subst)
    (supply bound : Nat)
    (first second : Term)
    (chain other : Chain)
    (extent : SeqKind × Nat)
    (after : Subst) : Prop :=
  ∃ added others,
    before.Fills supply bound first second chain other extent.1 extent.2 added
      others after

section Faces

variable {middle : Subst} {first second : Term} {other : Chain}

/-- A cell is taken off the first chain, unless it is over; the other is left. -/
theorem Faces.exists_firstCell
    (faces : before.Faces supply first second chain other)
    (goesOn : ¬ chain.IsOver) :
    ∃ middle,
      before.unify (.cons (.var ⟨supply⟩) (.var ⟨supply + 1⟩)) first =
          some middle ∧
        before.TakesCell supply first chain middle ∧
        middle.Unrolls second other := by
  rcases faces.firstUnrolls.exists_takesCell faces.within faces.firstLow
      goesOn with
    ⟨middle, unified, one⟩
  refine ⟨middle, unified, one, ?_⟩
  refine faces.secondUnrolls.later one.grows fun x last => ?_
  have inside := faces.secondUnrolls.id_lt faces.within faces.secondLow last
  rw [one.spared x inside fun same => faces.apart x same last]
  exact faces.secondUnrolls.free x last

/-- Chains of which none is over have cells that can be taken off. -/
theorem Faces.exists_cells
    (faces : before.Faces supply first second chain other)
    (firstGoesOn : ¬ chain.IsOver)
    (secondGoesOn : ¬ other.IsOver) :
    ∃ middle after,
      before.unify (.cons (.var ⟨supply⟩) (.var ⟨supply + 1⟩)) first =
          some middle ∧
        middle.unify (.cons (.var ⟨supply + 2⟩) (.var ⟨supply + 3⟩)) second =
          some after ∧
        before.TakesCell supply first chain middle ∧
        middle.TakesCell (supply + 2) second other after := by
  rcases faces.exists_firstCell firstGoesOn with ⟨middle, unified, one, still⟩
  rcases still.exists_takesCell one.within
      (faces.secondLow.trans (Nat.le_add_right _ _)) secondGoesOn with
    ⟨after, otherUnified, two⟩
  exact ⟨middle, after, unified, otherUnified, one, two⟩

/-- Variables that are minted later are at neither end. -/
theorem Faces.last_ne_of_le
    (faces : before.Faces supply first second chain other)
    {x : Var}
    (young : supply ≤ x.id) :
    chain.last ≠ .unbound x ∧ other.last ≠ .unbound x := by
  constructor
  · intro last
    exact Nat.not_lt.mpr young
      (faces.firstUnrolls.id_lt faces.within faces.firstLow last)
  · intro last
    exact Nat.not_lt.mpr young
      (faces.secondUnrolls.id_lt faces.within faces.secondLow last)

section Cells

variable (faces : before.Faces supply first second chain other)
  (one : before.TakesCell supply first chain middle)
  (two : middle.TakesCell (supply + 2) second other after)

include faces one two

/-- The rests of the chains face each other. -/
theorem Faces.rest
    {bound : Nat}
    (room : supply + 4 ≤ bound) :
    after.Faces bound (.var ⟨supply + 1⟩) (.var ⟨supply + 3⟩)
      (chain.rest ⟨supply + 1⟩) (other.rest ⟨supply + 3⟩) where
  within := two.within.mono room
  firstLow := by
    simp only [Term.ceiling]
    omega
  secondLow := by
    simp only [Term.ceiling]
    omega
  firstUnrolls := by
    refine one.tail.later two.grows fun x last => ?_
    rw [two.spared x, one.tail.free x last]
    · rcases Chain.eq_or_last_eq_of_last_rest last with rfl | same
      · exact Nat.lt_succ_self _
      · have inside := faces.firstUnrolls.id_lt faces.within faces.firstLow same
        omega
    · rcases Chain.eq_or_last_eq_of_last_rest last with rfl | own
      · exact (faces.last_ne_of_le (Nat.le_succ supply)).2
      · exact faces.apart x own
  secondUnrolls := two.tail
  apart x last := by
    rcases Chain.eq_or_last_eq_of_last_rest last with rfl | own
    · exact Chain.last_rest_ne (by simp)
        (faces.last_ne_of_le (Nat.le_succ supply)).2
    · refine Chain.last_rest_ne ?_ (faces.apart x own)
      rintro rfl
      exact (faces.last_ne_of_le (Nat.le_add_right supply 3)).1 own

end Cells

/-- What fills the rest of a chain fills the chain, with a new variable or none. -/
theorem TakesCell.reify_eq_sequence
    {kind : SeqKind}
    {added : List Var}
    (takes : before.TakesCell supply first chain after)
    (grows : after.Grows result)
    (free : chain.items = [] → result.lookup ⟨supply⟩ = none)
    (tail_eq :
      result.reify (.var ⟨supply + 1⟩) =
        .sequence kind ((chain.rest ⟨supply + 1⟩).items.map result.reify ++
          added.map .var)) :
    result.reify first =
      .sequence kind (chain.items.map result.reify ++
        (chain.opens ⟨supply⟩ ++ added).map .var) := by
  have acyclic := takes.within.acyclic
  have whole := grows.reify_congr acyclic takes.reify_eq
  rw [whole, reify_cons grows.acyclic, tail_eq]
  rcases chain with ⟨_ | ⟨item, items⟩, last⟩
  · rw [reify_var_eq_self grows.acyclic (free rfl)]
    rfl
  · have head := grows.reify_congr acyclic takes.head
    rw [head]
    rfl

/-- New items have been minted with the goal at hand, or later. -/
theorem Fills.le_id
    {bound length : Nat}
    {kind : SeqKind}
    {added others : List Var}
    (fills :
      before.Fills supply bound first second chain other kind length added others
        after)
    (room : supply + 4 ≤ bound)
    {x : Var}
    (member : x ∈ added ∨ x ∈ others) :
    supply ≤ x.id :=
  Var.le_of_not_foreign room (fills.fresh x member).1

section Lift

variable {bound later length : Nat} {kind : SeqKind} {added others : List Var}
  {x : Var}
  (laterRoom : bound + 4 ≤ later)
  (inner :
    after.Fills bound later (.var ⟨supply + 1⟩) (.var ⟨supply + 3⟩)
      (chain.rest ⟨supply + 1⟩) (other.rest ⟨supply + 3⟩) kind length added
      others result)
  (room : supply + 4 ≤ bound)
  (faces : before.Faces supply first second chain other)
  (one : before.TakesCell supply first chain middle)
  (two : middle.TakesCell (supply + 2) second other after)

include laterRoom inner

/-- Behind the cells, older variables are left alone, but for those at the ends. -/
theorem Fills.lookup_of_rest
    (older : x.id < bound)
    (firstTail : x ≠ ⟨supply + 1⟩)
    (secondTail : x ≠ ⟨supply + 3⟩)
    (firstLast : chain.last ≠ .unbound x)
    (secondLast : other.last ≠ .unbound x) :
    result.lookup x = after.lookup x :=
  inner.spared x ⟨by omega, .inl older⟩ (Chain.last_rest_ne firstTail firstLast)
    (Chain.last_rest_ne secondTail secondLast)

section Foreign

include faces one two

/-- Foreign variables are left alone, but for those at the ends. -/
theorem Fills.spared_of_rest
    (foreign : x.Foreign supply bound)
    (firstLast : chain.last ≠ .unbound x)
    (secondLast : other.last ≠ .unbound x) :
    result.lookup x = before.lookup x := by
  rw [inner.lookup_of_rest laterRoom foreign.1 (foreign.ne (by decide))
    (foreign.ne (by decide)) firstLast secondLast]
  rcases foreign.2 with old | new
  · rw [two.spared x (by omega) secondLast, one.spared x old firstLast]
  · rw [two.within.lookup_eq_none new, faces.within.lookup_eq_none (by omega)]

end Foreign

include room

/-- New items behind the cells are not among the parts of the cells. -/
theorem Fills.ne_of_rest
    {index : Nat}
    (member : x ∈ added ∨ x ∈ others)
    (own : index < 4) :
    x ≠ ⟨supply + index⟩ := by
  rintro rfl
  have newer := inner.le_id laterRoom member
  dsimp only at newer
  omega

/-- The new items of one chain are not those of the other. -/
theorem Fills.disjoint_of_rest :
    (chain.opens ⟨supply⟩ ++ added).Disjoint
      (other.opens ⟨supply + 2⟩ ++ others) := by
  intro x onFirst onSecond
  rw [List.mem_append, Chain.mem_opens_iff] at onFirst onSecond
  rcases onFirst with ⟨_, rfl⟩ | onFirst
  · rcases onSecond with ⟨_, same⟩ | onSecond
    · simp at same
    · exact inner.ne_of_rest laterRoom room (.inr onSecond)
        (by decide : 0 < 4) rfl
  · rcases onSecond with ⟨_, rfl⟩ | onSecond
    · exact inner.ne_of_rest laterRoom room (.inl onFirst)
        (by decide : 2 < 4) rfl
    · exact inner.disjoint onFirst onSecond

include faces two

/-- The head of a new cell of the second chain is not bound later. -/
theorem Fills.lookup_secondHead (nothing : other.items = []) :
    result.lookup ⟨supply + 2⟩ = none := by
  have unbound := two.head
  rw [nothing] at unbound
  have young := faces.last_ne_of_le (x := ⟨supply + 2⟩) (Nat.le_add_right _ _)
  rw [← unbound]
  exact inner.lookup_of_rest laterRoom (by dsimp only; omega) (by simp) (by simp)
    young.1 young.2

include one

/-- The head of a new cell of the first chain is not bound later. -/
theorem Fills.lookup_firstHead (nothing : chain.items = []) :
    result.lookup ⟨supply⟩ = none := by
  have unbound := one.head
  rw [nothing] at unbound
  have young := faces.last_ne_of_le (x := ⟨supply⟩) (Nat.le_refl _)
  calc
    result.lookup ⟨supply⟩ = after.lookup ⟨supply⟩ :=
      inner.lookup_of_rest laterRoom (by dsimp only; omega) (by simp) (by simp)
        young.1 young.2
    _ = middle.lookup ⟨supply⟩ :=
      two.spared ⟨supply⟩ (by dsimp only; omega) young.2
    _ = none := unbound

/-- New items are unbound, and none of them was there before. -/
theorem Fills.fresh_of_rest
    (member :
      x ∈ chain.opens ⟨supply⟩ ++ added ∨ x ∈ other.opens ⟨supply + 2⟩ ++ others) :
    ¬ x.Foreign supply bound ∧ result.lookup x = none := by
  have behind (member : x ∈ added ∨ x ∈ others) :
      ¬ x.Foreign supply bound ∧ result.lookup x = none := by
    refine ⟨fun foreign => ?_, (inner.fresh x member).2⟩
    exact Nat.not_lt.mpr (inner.le_id laterRoom member) foreign.1
  rw [List.mem_append, List.mem_append, Chain.mem_opens_iff,
    Chain.mem_opens_iff] at member
  rcases member with (⟨nothing, rfl⟩ | member) | ⟨nothing, rfl⟩ | member
  · exact ⟨fun foreign => foreign.ne (by decide : 0 < 4) rfl,
      inner.lookup_firstHead laterRoom room faces one two nothing⟩
  · exact behind (.inl member)
  · exact ⟨fun foreign => foreign.ne (by decide : 2 < 4) rfl,
      inner.lookup_secondHead laterRoom room faces two nothing⟩
  · exact behind (.inr member)

/-- What fills the rests of both chains fills the chains. -/
theorem Fills.of_rest :
    before.Fills supply bound first second chain other kind (length + 1)
      (chain.opens ⟨supply⟩ ++ added) (other.opens ⟨supply + 2⟩ ++ others)
      result where
  grows := one.grows.trans (two.grows.trans inner.grows)
  first_eq :=
    one.reify_eq_sequence (two.grows.trans inner.grows)
      (inner.lookup_firstHead laterRoom room faces one two) inner.first_eq
  second_eq :=
    two.reify_eq_sequence inner.grows
      (inner.lookup_secondHead laterRoom room faces two) inner.second_eq
  first_length := by
    rw [List.length_append, ← Nat.add_assoc,
      chain.length_rest ⟨supply⟩ ⟨supply + 1⟩, Nat.add_right_comm,
      inner.first_length]
  second_length := by
    rw [List.length_append, ← Nat.add_assoc,
      other.length_rest ⟨supply + 2⟩ ⟨supply + 3⟩, Nat.add_right_comm,
      inner.second_length]
  first_nodup := by
    refine (chain.nodup_opens _).append inner.first_nodup fun x mine theirs => ?_
    exact inner.ne_of_rest laterRoom room (.inl theirs) (by decide : 0 < 4)
      (Chain.mem_opens_iff.mp mine).2
  second_nodup := by
    refine (other.nodup_opens _).append inner.second_nodup fun x mine theirs => ?_
    exact inner.ne_of_rest laterRoom room (.inr theirs) (by decide : 2 < 4)
      (Chain.mem_opens_iff.mp mine).2
  disjoint := inner.disjoint_of_rest laterRoom room
  fresh _ member := inner.fresh_of_rest laterRoom room faces one two member
  spared _ foreign firstLast secondLast :=
    inner.spared_of_rest laterRoom faces one two foreign firstLast secondLast

end Lift

theorem Lengthens.of_rest
    {bound later length whole : Nat}
    {kind : SeqKind}
    (inner :
      after.Lengthens bound later (.var ⟨supply + 1⟩) (.var ⟨supply + 3⟩)
        (chain.rest ⟨supply + 1⟩) (other.rest ⟨supply + 3⟩) (kind, length)
        result)
    (faces : before.Faces supply first second chain other)
    (one : before.TakesCell supply first chain middle)
    (two : middle.TakesCell (supply + 2) second other after)
    (room : supply + 4 ≤ bound)
    (laterRoom : bound + 4 ≤ later)
    (longer : whole = length + 1) :
    before.Lengthens supply bound first second chain other (kind, whole)
      result := by
  rcases inner with ⟨added, others, fills⟩
  subst longer
  exact ⟨_, _, fills.of_rest laterRoom room faces one two⟩

end Faces

end Subst

end RelationalSearch
