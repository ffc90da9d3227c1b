import RelationalSearch.Proofs.Relation.Linking

/-!
# Applications of known terms

Where its whole is known, `Goal.application` takes it apart, and where the whole
and the parts are unbound, it makes a cell of them.  In both cases it has the
result that a plain cell has, unless the protocol refuses the whole
(`readsAs_application_parts`, `readsAs_application_whole`).

The protocol refuses a chain for the end of its spine only.  This end stays what
it is, so nothing that is refused now would be accepted later
(`Protocol.terminator?_ne_of_split`).
-/

namespace RelationalSearch

/-! ## Ends of spines -/

namespace Term

theorem terminator?_cons (head tail : Term) :
    (cons head tail).terminator? = tail.terminator? := by
  rw [terminator?, terminator?, spine_cons]

/-- The end of a spine stays what it is, unless it is unbound. -/
theorem last_spine_under
    {term : Term}
    (known : term.spine.2.isVar = false)
    (valuation : Var → Term) :
    (term.under valuation).spine.2 = term.spine.2 := by
  induction term with
  | var x =>
    rw [spine_of_isCons_eq_false rfl] at known
    cases known
  | cons head tail _ tailIH =>
    rw [spine_cons] at known
    rw [under_cons, spine_cons, spine_cons, tailIH known]
  | _ => rfl

theorem terminator?_under
    {term : Term}
    (known : term.spine.2.isVar = false)
    (valuation : Var → Term) :
    (term.under valuation).terminator? = term.terminator? := by
  rw [terminator?, terminator?, last_spine_under known]

theorem isVar_spine_eq_false {term : Term} (ground : term.isGround = true) :
    term.spine.2.isVar = false := by
  induction term with
  | var x => simp at ground
  | cons head tail _ tailIH =>
    rw [isGround_cons, Bool.and_eq_true] at ground
    rw [spine_cons]
    exact tailIH ground.2
  | _ => rfl

end Term

/-! ## Protocols -/

namespace Protocol

variable {protocol : Protocol} {whole operator operands : Term}

/-- Chains are accepted for their end. -/
theorem checkSpine_expr_eq_ok_iff (term : Term) (otherwise : Error) :
    expr.checkSpine term otherwise = .ok () ↔
      term.spine.2.isVar = true ∨ term.terminator? = some .expr := by
  rw [checkSpine, Term.terminator?]
  generalize term.spine.2 = last
  cases last with
  | nil kind => cases kind <;> simp [checkKind, Term.isVar]
  | _ => simp [Term.isVar]

theorem eq_cons_of_split
    (accepted : protocol.split whole = .ok (operator, operands)) :
    whole = .cons operator operands := by
  cases protocol with
  | sequence =>
    cases whole with
    | cons head tail =>
      cases accepted
      rfl
    | _ => cases accepted
  | expr =>
    cases whole with
    | cons head tail =>
      rw [split] at accepted
      cases checked : expr.checkSpine (.cons head tail) _ with
      | error => cases checked ▸ accepted
      | ok =>
        rw [checked] at accepted
        cases accepted
        rfl
    | _ => cases accepted

/-- The operands of a known expression end as those of expressions do. -/
theorem terminator?_of_split
    (accepted : expr.split whole = .ok (operator, operands))
    (ground : whole.isGround = true) :
    operands.terminator? = some .expr := by
  have cell := eq_cons_of_split accepted
  subst cell
  rw [split] at accepted
  cases checked : expr.checkSpine (.cons operator operands) _ with
  | error => cases checked ▸ accepted
  | ok =>
    rw [checkSpine_expr_eq_ok_iff, Term.isVar_spine_eq_false ground,
      Term.terminator?_cons] at checked
    exact checked.resolve_left Bool.false_ne_true

/-- A cell that is refused never has the end of an expression. -/
theorem terminator?_ne_of_split
    {error : Error}
    (refused : protocol.split (.cons operator operands) = .error error)
    (valuation : Var → Term) :
    protocol = .expr ∧
      (operands.under valuation).terminator? ≠ some .expr := by
  cases protocol with
  | sequence => cases refused
  | expr =>
    refine ⟨rfl, ?_⟩
    rw [split] at refused
    have checked : ¬ expr.checkSpine (.cons operator operands)
        (.notCompound (.cons operator operands)) = .ok () := by
      intro passed
      rw [passed] at refused
      cases refused
    rw [checkSpine_expr_eq_ok_iff, not_or, Term.terminator?_cons,
      Term.spine_cons, Bool.not_eq_true] at checked
    rw [Term.terminator?_under checked.1]
    exact checked.2

/--
What is refused does not become a cell, the tail of which ends as the operands
of something that is accepted.
-/
theorem not_reify_eq_of_split
    {error : Error}
    {known head tail : Term}
    {subst : Subst}
    (accepted : protocol.split known = .ok (operator, operands))
    (ground : known.isGround = true)
    (refused : protocol.split whole = .error error)
    (bound : whole.isVar = false)
    (acyclic : subst.Acyclic)
    (ends : (subst.reify tail).terminator? = operands.terminator?) :
    subst.reify (.cons head tail) ≠ subst.reify whole := by
  intro same
  rw [Subst.reify_cons acyclic] at same
  cases whole with
  | var x => cases bound
  | cons otherHead otherTail =>
    rw [Subst.reify_cons acyclic] at same
    rcases terminator?_ne_of_split refused fun x => subst.reify (.var x) with
      ⟨rfl, differs⟩
    rw [← Subst.reify_eq_under acyclic, ← (Term.cons.inj same).2, ends] at differs
    exact differs (terminator?_of_split accepted ground)
  | int value =>
    rw [Subst.reify_eq_of_isGround acyclic (Term.isGround_int value)] at same
    cases same
  | sym name =>
    rw [Subst.reify_eq_of_isGround acyclic (Term.isGround_sym name)] at same
    cases same
  | nil kind =>
    rw [Subst.reify_eq_of_isGround acyclic (Term.isGround_nil kind)] at same
    cases same

end Protocol

/-! ## Goals -/

section Goals

variable {Base Custom Code : Type} {program : Program Base Custom}
  {gaps : Gaps} {start : Located Subst} {decomposer : Decomposer}
  {x y : Var}

/-- Both parts of a whole are unified, if there are such parts. -/
theorem made_takenApart
    (decomposer : Decomposer)
    (operator operands whole : Term)
    (supply : Nat) :
    ((Goal.takenApart decomposer operator operands whole :
        Recipe (Goal Code)).made supply) =
      (match decomposer.protocol.split whole with
        | .error _ => .fail
        | .ok parts => .all [.eq operator parts.1, .eq operands parts.2],
        supply) := by
  rcases decomposer with ⟨protocol, announces⟩
  cases outcome : protocol.split whole with
  | error error =>
    cases announces
    all_goals
      simp [Goal.takenApart, Decomposer.operator, Protocol.operator, outcome,
        Decomposer.announce, Recipe.andThen, Recipe.event, Recipe.made,
        Except.map]
  | ok parts =>
    cases announces
    all_goals
      simp [Goal.takenApart, Decomposer.operator, Decomposer.operands,
        Protocol.operator, Protocol.operands, outcome, Decomposer.announce,
        Recipe.andThen, Recipe.event, Recipe.made, Except.map]

/-- The whole is unified with what is made of the parts, if there is such. -/
theorem made_putTogether
    (decomposer : Decomposer)
    (operator operands whole : Term)
    (supply : Nat) :
    ((Goal.putTogether decomposer operator operands whole :
        Recipe (Goal Code)).made supply) =
      (match decomposer.protocol.construct operator operands with
        | .error _ => .fail
        | .ok constructed => .eq whole constructed,
        supply) := by
  rcases decomposer with ⟨protocol, announces⟩
  cases outcome : protocol.construct operator operands with
  | error | ok =>
    cases announces
    all_goals
      simp [Goal.putTogether, Decomposer.construct, outcome,
        Decomposer.announce, Recipe.andThen, Recipe.event, Recipe.made]

/-- What an application to unbound parts does, as the whole shows. -/
theorem made_application
    {subst : Subst}
    {whole found : Term}
    (acyclic : subst.Acyclic)
    (operatorUnbound : subst.lookup x = none)
    (operandsUnbound : subst.lookup y = none)
    (shown : subst.reify whole = found) :
    ∃ builder : Subst → Recipe (Goal Code),
      Goal.application decomposer (.var x) (.var y) whole = .dynamic builder ∧
        ∀ supply, (builder subst).made supply =
          (if found.isVar then .cons (.var x) (.var y) found
            else match decomposer.protocol.split found with
              | .error _ => .fail
              | .ok parts => .all [.eq (.var x) parts.1, .eq (.var y) parts.2],
            supply) := by
  refine ⟨_, rfl, fun supply => ?_⟩
  simp only [Subst.reify_var_eq_self acyclic operatorUnbound,
    Subst.reify_var_eq_self acyclic operandsUnbound, shown]
  cases found.isVar with
  | true => rfl
  | false => exact made_takenApart decomposer (.var x) (.var y) found supply

/-- A whole that is refused has no parts. -/
theorem listing_application_nil
    {goalOf : Code → Recipe (Goal Code)}
    {whole found : Term}
    {error : Protocol.Error}
    (acyclic : start.value.Acyclic)
    (operatorUnbound : start.value.lookup x = none)
    (operandsUnbound : start.value.lookup y = none)
    (shown : start.value.reify whole = found)
    (bound : found.isVar = false)
    (refused : decomposer.protocol.split found = .error error) :
    Listing goalOf gaps (.application decomposer (.var x) (.var y) whole) start
      [] := by
  rcases made_application acyclic operatorUnbound operandsUnbound shown with
    ⟨builder, same, made⟩
  rw [same]
  apply Listing.dynamic
  rw [Recipe.goalAt, made, bound, refused]
  exact .fail

/-- Two variables become known, one after the other. -/
theorem readsAs_bind_bind
    {goalOf : Code → Recipe (Goal Code)}
    {operator operands : Term}
    (within : start.value.Within start.place.supply)
    (operatorLow : x.id < start.place.supply)
    (operandsLow : y.id < start.place.supply)
    (operatorUnbound : start.value.lookup x = none)
    (operandsUnbound : start.value.lookup y = none)
    (different : x ≠ y)
    (operatorGround : operator.isGround = true)
    (operandsGround : operands.isGround = true) :
    (Goal.all [.eq (.var x) operator, .eq (.var y) operands]).ReadsAs goalOf
      gaps (.all [.eq (.var x) operator, .eq (.var y) operands]) start
      fun subst => subst = (start.value.bind x operator).bind y operands := by
  have firstWithin := within.bind_of_isGround operatorLow operatorGround
  have secondWithin := firstWithin.bind_of_isGround operandsLow operandsGround
  have first := Subst.unify_var_of_isGround within.acyclic
    (Subst.ends_of_lookup_eq_none operatorUnbound) operatorGround
  have stillUnbound : (start.value.bind x operator).lookup y = none := by
    rw [Subst.lookup_bind_of_ne _ _ different, operandsUnbound]
  have second := Subst.unify_var_of_isGround firstWithin.acyclic
    (Subst.ends_of_lookup_eq_none stillUnbound) operandsGround
  apply Goal.ReadsAs.both within.acyclic (.unified first firstWithin)
  intro middle _ later _ same
  rw [← same] at second secondWithin ⊢
  exact .unified second (secondWithin.mono later)

/-- The parts of a known whole become known. -/
theorem readsAs_application_parts
    {goalOf : Code → Recipe (Goal Code)}
    {whole found operator operands : Term}
    (within : start.value.Within start.place.supply)
    (operatorLow : x.id < start.place.supply)
    (operandsLow : y.id < start.place.supply)
    (operatorUnbound : start.value.lookup x = none)
    (operandsUnbound : start.value.lookup y = none)
    (different : x ≠ y)
    (shown : start.value.reify whole = found)
    (ground : found.isGround = true)
    (accepted : decomposer.protocol.split found = .ok (operator, operands)) :
    (Goal.application decomposer (.var x) (.var y) whole).ReadsAs goalOf gaps
      (.all [.eq (.var x) operator, .eq (.var y) operands]) start
      fun subst => subst = (start.value.bind x operator).bind y operands := by
  have bound := Term.isVar_eq_false_of_isGround ground
  rcases made_application within.acyclic operatorUnbound operandsUnbound shown
    with ⟨builder, same, made⟩
  rw [Protocol.eq_cons_of_split accepted, Term.isGround_cons,
    Bool.and_eq_true] at ground
  have opened := start.place.le_opening gaps
  rw [same]
  apply Goal.ReadsAs.enter_dynamic
  rw [Recipe.goalAt, Located.enter, made, bound, accepted]
  exact readsAs_bind_bind (within.mono opened) (operatorLow.trans_le opened)
    (operandsLow.trans_le opened) operatorUnbound operandsUnbound different
    ground.1 ground.2

/-- Two equations of parts read as one equation of cells. -/
theorem reading_eq_cells
    {goalOf : Code → Recipe (Goal Code)}
    {before : Snapshot}
    {found : List Snapshot}
    {leftHead leftTail rightHead rightTail : Term}
    (acyclic : before.value.Acyclic)
    (reading :
      Reading goalOf (.both (.eq leftHead rightHead) (.eq leftTail rightTail))
        before found) :
    Reading goalOf (.eq (.cons leftHead leftTail) (.cons rightHead rightTail))
      before found := by
  have whole := Subst.unify_cons acyclic leftHead leftTail rightHead rightTail
  rcases reading.exists_entries with ⟨entries, front, back, rfl⟩
  generalize firsts : entries.map Prod.fst = middles at front
  cases front with
  | clash failure =>
    rw [failure] at whole
    rw [List.map_eq_nil_iff.mp firsts]
    exact .clash whole
  | @unified _ _ _ middle later success ordered =>
    rcases List.map_eq_singleton_iff.mp firsts with
      ⟨⟨_, lasts⟩, rfl, rfl⟩
    rw [success] at whole
    rw [List.flatMap_singleton]
    cases back _ List.mem_cons_self with
    | clash failure => exact .clash (whole.trans failure)
    | unified onwards laterStill =>
      exact .unified (whole.trans onwards) (ordered.trans laterStill)

theorem readsAs_eq_cells
    {goalOf : Code → Recipe (Goal Code)}
    {leftHead leftTail rightHead rightTail : Term}
    (within : start.value.Within start.place.supply)
    (leftLow : (Term.cons leftHead leftTail).ceiling ≤ start.place.supply)
    (rightLow : (Term.cons rightHead rightTail).ceiling ≤ start.place.supply) :
    (Goal.all [.eq leftHead rightHead, .eq leftTail rightTail]).ReadsAs goalOf
      gaps (.eq (.cons leftHead leftTail) (.cons rightHead rightTail)) start
      fun subst =>
        subst.reify (.cons leftHead leftTail) =
          subst.reify (.cons rightHead rightTail) := by
  rw [Term.ceiling, Nat.max_le] at leftLow rightLow
  suffices parts :
      (Goal.all [.eq leftHead rightHead, .eq leftTail rightTail]).ReadsAs
        goalOf gaps
        (.all [.eq leftHead rightHead, .eq leftTail rightTail]) start
        fun subst =>
          subst.reify (.cons leftHead leftTail) =
            subst.reify (.cons rightHead rightTail) by
    rcases parts with ⟨found, listing, reading, all⟩
    exact ⟨found, listing, reading_eq_cells within.acyclic reading, all⟩
  apply Goal.ReadsAs.both within.acyclic (.eq within leftLow.1 rightLow.1)
  intro middle grows later middleWithin heads
  apply (Goal.ReadsAs.eq middleWithin (leftLow.2.trans later)
    (rightLow.2.trans later)).imp middleWithin.acyclic
  intro subst onwards tails
  rw [Subst.reify_cons onwards.acyclic, Subst.reify_cons onwards.acyclic,
    onwards.reify_congr grows.acyclic heads, tails]

/-- An application to a whole that is not refused is a cell. -/
theorem readsAs_application_whole
    {goalOf : Code → Recipe (Goal Code)}
    {whole : Term}
    (within : start.value.Within start.place.supply)
    (operatorLow : x.id < start.place.supply)
    (operandsLow : y.id < start.place.supply)
    (wholeLow : whole.ceiling ≤ start.place.supply)
    (operatorUnbound : start.value.lookup x = none)
    (operandsUnbound : start.value.lookup y = none)
    (shown : start.value.reify whole = whole)
    (accepted :
      whole.isVar = true ∨
        ∃ parts, decomposer.protocol.split whole = .ok parts) :
    (Goal.application decomposer (.var x) (.var y) whole).ReadsAs goalOf gaps
      (.cons (.var x) (.var y) whole) start
      fun subst => subst.reify (.cons (.var x) (.var y)) = subst.reify whole := by
  have opened := start.place.le_opening gaps
  have cellLow : (Term.cons (.var x) (.var y)).ceiling ≤
      start.place.opening gaps :=
    Nat.max_le.mpr ⟨operatorLow.trans_le opened, operandsLow.trans_le opened⟩
  rcases made_application within.acyclic operatorUnbound operandsUnbound shown
    with ⟨builder, same, made⟩
  rw [same]
  apply Goal.ReadsAs.enter_dynamic
  rw [Recipe.goalAt, Located.enter, made]
  cases unbound : whole.isVar with
  | true =>
    exact .eq (within.mono opened) cellLow (wholeLow.trans opened)
  | false =>
    rcases accepted.resolve_left (by simp [unbound]) with
      ⟨⟨operator, operands⟩, split⟩
    rw [split]
    have cell := Protocol.eq_cons_of_split split
    subst cell
    exact readsAs_eq_cells (within.mono opened) cellLow (wholeLow.trans opened)

end Goals

end RelationalSearch
