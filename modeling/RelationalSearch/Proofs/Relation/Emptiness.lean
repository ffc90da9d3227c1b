import RelationalSearch.Proofs.Relation.Rearrangement

/-!
# Sequences that are empty alike

`Goal.allEmpty` looks for the kind of an end among what the terms lead to, and then
unifies one term after the other with the end of this kind.  The kind is found in
the first substitution and the terms are unified in later ones, where a variable may
be bound by then, since several terms may lead to it.

Of each of these substitutions it is known what it binds: the variables that the
terms up to here lead to, all to the end of the kind, and nothing else anew
(`Subst.EndsAll`).  So each term leads to an unbound variable or to this end when
its turn comes, and no unification fails (`Goal.allEmpty_just_if_ends_agree`).
-/

namespace RelationalSearch

namespace Subst

variable {subst current extended : Subst} {term found last : Term}
  {terms rest : List Term} {kind : SeqKind}

theorem lookup_eq_none_of_walk
    (acyclic : subst.Acyclic)
    {x : Var}
    (walked : subst.walk term = .var x) :
    subst.lookup x = none := by
  have ends := (follow_eq_some_walk acyclic term).2
  rw [walked] at ends
  exact ends.next?_eq_none

/-! ## The kind of the ends -/

/-- The term leads to an unbound variable or to the end of a sequence. -/
def MayEnd (subst : Subst) (term : Term) : Prop :=
  (∃ x, subst.walk term = .var x ∧ subst.lookup x = none) ∨
    ∃ kind, subst.walk term = .nil kind

/-- All ends that the terms lead to are of the kind. -/
def EndsAgree (subst : Subst) (terms : List Term) (kind : SeqKind) : Prop :=
  ∀ term ∈ terms, ∀ other, subst.walk term = .nil other → other = kind

theorem endsAgree_cons_iff :
    subst.EndsAgree (term :: terms) kind ↔
      (∀ other, subst.walk term = .nil other → other = kind) ∧
        subst.EndsAgree terms kind :=
  List.forall_mem_cons

/-- The ends agree on a kind, and on that which was found earlier, if there is one. -/
theorem isSome_agreedKind?_iff
    (acyclic : subst.Acyclic)
    {earlier : Option SeqKind} :
    (subst.agreedKind? terms earlier).isSome = true ↔
      (∀ term ∈ terms, subst.MayEnd term) ∧
        ∃ kind, earlier.getD kind = kind ∧ subst.EndsAgree terms kind := by
  induction terms generalizing earlier with
  | nil =>
    refine iff_of_true rfl ⟨nofun, earlier.getD .list, ?_, nofun⟩
    cases earlier <;> rfl
  | cons term terms ih =>
    rw [agreedKind?]
    simp only [List.forall_mem_cons, endsAgree_cons_iff]
    cases walked : subst.walk term with
    | var x =>
      have mayEnd : subst.MayEnd term :=
        .inl ⟨x, walked, lookup_eq_none_of_walk acyclic walked⟩
      simp [ih, mayEnd]
    | nil other =>
      have mayEnd : subst.MayEnd term := .inr ⟨other, walked⟩
      by_cases same : earlier.getD other = other
      · simp only [if_pos same, ih, mayEnd, true_and, Option.getD_some]
        refine and_congr_right fun _ => exists_congr fun kind => ?_
        constructor
        · rintro ⟨rfl, agree⟩
          exact ⟨same, by simp, agree⟩
        · rintro ⟨_, here, agree⟩
          exact ⟨here other rfl, agree⟩
      · refine iff_of_false (by simp [if_neg same]) ?_
        rintro ⟨_, kind, agreed, here, _⟩
        exact same (here other rfl ▸ agreed)
    | _ =>
      refine iff_of_false (by simp) fun both => ?_
      simp [MayEnd, walked] at both

/-- Without an end among the terms no kind is found. -/
theorem eq_of_agreedKind?_of_open
    {earlier agreed : Option SeqKind}
    (answer : subst.agreedKind? terms earlier = some agreed)
    (noEnd : ∀ term ∈ terms, ∀ kind, subst.walk term ≠ .nil kind) :
    agreed = earlier := by
  induction terms with
  | nil => exact (Option.some.inj answer).symm
  | cons term terms ih =>
    rw [List.forall_mem_cons] at noEnd
    rw [agreedKind?] at answer
    cases walked : subst.walk term with
    | var x =>
      rw [walked] at answer
      exact ih answer noEnd.2
    | nil kind => exact (noEnd.1 kind walked).elim
    | _ => simp [walked] at answer

/-- The kind is that of an end, or it is the given one if there are no ends. -/
def KindFor
    (subst : Subst)
    (terms : List Term)
    (default kind : SeqKind) : Prop :=
  (∃ term ∈ terms, subst.walk term = .nil kind) ∨
    kind = default ∧ ∀ term ∈ terms, ∀ other, subst.walk term ≠ .nil other

theorem kindFor_of_agreedKind?
    {agreed : Option SeqKind}
    (answer : subst.agreedKind? terms none = some agreed)
    (default : SeqKind) :
    subst.KindFor terms default (agreed.getD default) := by
  by_cases ends : ∃ kind, ∃ term ∈ terms, subst.walk term = .nil kind
  · rcases ends with ⟨kind, term, member, walked⟩
    rw [eq_of_agreedKind? answer (.inr ⟨term, member, walked⟩)]
    exact .inl ⟨term, member, walked⟩
  · have noEnd : ∀ term ∈ terms, ∀ other, subst.walk term ≠ .nil other :=
      fun term member other walked => ends ⟨other, term, member, walked⟩
    rw [eq_of_agreedKind?_of_open answer noEnd]
    exact .inr ⟨rfl, noEnd⟩

/-! ## Binding to an end -/

/-- One of the terms leads to the variable. -/
def LeadsTo (subst : Subst) (terms : List Term) (x : Var) : Prop :=
  ∃ term ∈ terms, subst.walk term = .var x

theorem leadsTo_append_iff {x : Var} :
    subst.LeadsTo (terms ++ rest) x ↔
      subst.LeadsTo terms x ∨ subst.LeadsTo rest x := by
  simp only [LeadsTo, List.mem_append, or_and_right, exists_or]

theorem leadsTo_singleton_iff {x : Var} :
    subst.LeadsTo [term] x ↔ subst.walk term = .var x := by
  simp [LeadsTo]

/--
The later substitution binds the variables that the terms lead to, all of them to
the end of the kind, and apart from them it is the same.
-/
structure EndsAll
    (subst : Subst)
    (terms : List Term)
    (kind : SeqKind)
    (later : Subst) : Prop where
  acyclic : later.Acyclic
  bound : ∀ x, subst.LeadsTo terms x → later.lookup x = some (.nil kind)
  same : ∀ x, ¬ subst.LeadsTo terms x → later.lookup x = subst.lookup x

namespace EndsAll

theorem refl (acyclic : subst.Acyclic) (kind : SeqKind) :
    subst.EndsAll [] kind subst where
  acyclic := acyclic
  bound x leads := by simp [LeadsTo] at leads
  same x _ := rfl

section Step

variable (ends : subst.EndsAll terms kind current)

include ends

/-- A term that leads to no further variable changes nothing. -/
theorem still
    (known : ∀ x, subst.walk term = .var x → subst.LeadsTo terms x) :
    subst.EndsAll (terms ++ [term]) kind current where
  acyclic := ends.acyclic
  bound x leads := by
    rw [leadsTo_append_iff, leadsTo_singleton_iff] at leads
    exact ends.bound x (leads.elim id (known x))
  same x apart := by
    rw [leadsTo_append_iff, not_or] at apart
    exact ends.same x apart.1

/-- The further variable that a term leads to is bound. -/
theorem bind {x : Var} (walked : subst.walk term = .var x) :
    subst.EndsAll (terms ++ [term]) kind (current.bind x (.nil kind)) where
  acyclic := ends.acyclic.bind (not_reaches_of_isGround rfl x)
  bound y leads := by
    rw [leadsTo_append_iff, leadsTo_singleton_iff] at leads
    by_cases here : x = y
    · rw [here, lookup_bind_self]
    · rw [lookup_bind_of_ne _ _ here]
      refine ends.bound y (leads.resolve_right fun other => ?_)
      exact here (Term.var.inj (walked.symm.trans other))
  same y apart := by
    rw [leadsTo_append_iff, leadsTo_singleton_iff, not_or] at apart
    rw [lookup_bind_of_ne, ends.same y apart.1]
    rintro rfl
    exact apart.2 walked

variable (acyclic : subst.Acyclic)

include acyclic

theorem grows : subst.Grows current where
  acyclic := ends.acyclic
  kept {x value} bound := by
    rw [ends.same x, bound]
    rintro ⟨term, _, walked⟩
    simp [lookup_eq_none_of_walk acyclic walked] at bound

/-- Where a term led before, the bindings go on from. -/
theorem ends_of_walk
    (walked : subst.walk term = found)
    (onwards : current.Ends found last) :
    current.Ends term last := by
  subst walked
  exact (ends.grows acyclic).ends (follow_eq_some_walk acyclic term).2 onwards

/-- The next term is made to end alike. -/
theorem exists_unify
    (mayEnd : subst.MayEnd term)
    (agrees : ∀ other, subst.walk term = .nil other → other = kind) :
    ∃ next,
      current.unify term (.nil kind) = some next ∧
        subst.EndsAll (terms ++ [term]) kind next := by
  have nilEnds : current.Ends (.nil kind) (.nil kind) := .here rfl
  rcases mayEnd with ⟨x, walked, unbound⟩ | ⟨other, walked⟩
  · by_cases known : subst.LeadsTo terms x
    · have bound := ends_of_lookup_eq_some (ends.bound x known)
        (Term.isGround_nil kind)
      refine ⟨current, unify_nil ends.acyclic
        (ends.ends_of_walk acyclic walked bound) nilEnds, ends.still ?_⟩
      intro y again
      rwa [← Term.var.inj (walked.symm.trans again)]
    · rw [← ends.same x known] at unbound
      exact ⟨_, unify_var_of_isGround ends.acyclic
        (ends.ends_of_walk acyclic walked (ends_of_lookup_eq_none unbound)) rfl,
        ends.bind walked⟩
  · rcases agrees other walked with rfl
    refine ⟨current, unify_nil ends.acyclic
      (ends.ends_of_walk acyclic walked nilEnds) nilEnds, ends.still ?_⟩
    intro y again
    cases walked.symm.trans again

/-- All further terms are made to end alike, each in what the last one has left. -/
theorem exists_unifyAll
    (mayEnd : ∀ term ∈ rest, subst.MayEnd term)
    (agree : subst.EndsAgree rest kind) :
    ∃ later,
      current.unifyAll (rest.map fun term => (term, .nil kind)) = some later ∧
        subst.EndsAll (terms ++ rest) kind later := by
  induction rest generalizing terms current with
  | nil => exact ⟨current, rfl, by rwa [List.append_nil]⟩
  | cons term rest ih =>
    rw [List.forall_mem_cons] at mayEnd
    rw [endsAgree_cons_iff] at agree
    rcases ends.exists_unify acyclic mayEnd.1 agree.1 with ⟨next, unified, after⟩
    rcases ih after mayEnd.2 agree.2 with ⟨later, all, endsLater⟩
    rw [List.append_assoc] at endsLater
    refine ⟨later, ?_, endsLater⟩
    rw [List.map_cons, unifyAll, unified, Option.bind_some, all]

/-- The terms stand for the end. -/
theorem reify_eq
    (mayEnd : subst.MayEnd term)
    (member : term ∈ terms)
    (agree : subst.EndsAgree terms kind) :
    current.reify term = .nil kind := by
  refine reify_eq_of_ends ends.acyclic ?_ (Term.isGround_nil kind)
  rcases mayEnd with ⟨x, walked, _⟩ | ⟨other, walked⟩
  · exact ends.ends_of_walk acyclic walked
      (ends_of_lookup_eq_some (ends.bound x ⟨term, member, walked⟩)
        (Term.isGround_nil kind))
  · rcases agree term member other walked with rfl
    exact ends.ends_of_walk acyclic walked (.here rfl)

end Step

end EndsAll

end Subst

/-! ## Empty sequences -/

namespace Goal

variable {Code : Type} {subst : Subst}

/-- Where a kind is found, the terms are unified with its end in their order. -/
theorem atOnce_allEmpty_unifyAll
    {terms : List Term}
    {agreed : Option SeqKind}
    (answer : subst.agreedKind? terms none = some agreed)
    (default : SeqKind) :
    (allEmpty terms default : Goal Code).AtOnce subst
      (subst.unifyAll
        (terms.map fun term => (term, .nil (agreed.getD default)))) := by
  refine .dynamic (fun supply => ?_) (atOnce_equations _)
  rw [answer, List.map_map]
  rfl

/--
Terms are made the same empty sequence just if they all lead to unbound variables and
to ends of one kind; there is one result then, and none otherwise.  In the result each
of the terms stands for the end of this kind, or of the given one if there was no end
among them.  The variables that the terms lead to are bound to that end, and all others
are bound, or not, as they were before.
-/
theorem allEmpty_just_if_ends_agree
    (acyclic : subst.Acyclic)
    (terms : List Term)
    (default : SeqKind) :
    ∃ found : Option Subst,
      (allEmpty terms default : Goal Code).AtOnce subst found ∧
        (found.isSome = true ↔
          (∀ term ∈ terms, subst.MayEnd term) ∧
            ∃ kind, subst.EndsAgree terms kind) ∧
        ∀ later ∈ found, ∃ kind,
          subst.KindFor terms default kind ∧
            (∀ term ∈ terms, later.reify term = .nil kind) ∧
            subst.Grows later ∧
            ∀ x,
              (subst.LeadsTo terms x → later.lookup x = some (.nil kind)) ∧
                (¬ subst.LeadsTo terms x → later.lookup x = subst.lookup x) := by
  have agrees_iff := @Subst.isSome_agreedKind?_iff subst terms acyclic none
  simp only [Option.getD_none, true_and] at agrees_iff
  cases answer : subst.agreedKind? terms none with
  | none =>
    rw [answer] at agrees_iff
    exact ⟨none, atOnce_allEmpty_none answer default, agrees_iff, nofun⟩
  | some agreed =>
    rw [answer] at agrees_iff
    rcases agrees_iff.mp rfl with ⟨mayEnd, shared, sharedAgree⟩
    have kindFor := Subst.kindFor_of_agreedKind? answer default
    have atOnce := @atOnce_allEmpty_unifyAll Code subst terms agreed answer default
    generalize agreed.getD default = kind at kindFor atOnce
    have agree : subst.EndsAgree terms kind := by
      rcases kindFor with ⟨term, member, walked⟩ | ⟨_, noEnd⟩
      · rwa [sharedAgree term member kind walked]
      · exact fun term member other walked => (noEnd term member other walked).elim
    rcases (Subst.EndsAll.refl acyclic kind).exists_unifyAll acyclic mayEnd agree with
      ⟨later, unified, ends⟩
    rw [unified] at atOnce
    rw [List.nil_append] at ends
    refine ⟨some later, atOnce, agrees_iff, ?_⟩
    rintro _ ⟨⟩
    exact ⟨kind, kindFor,
      fun term member => ends.reify_eq acyclic (mayEnd term member) member agree,
      ends.grows acyclic, fun x => ⟨ends.bound x, ends.same x⟩⟩

/-- Two aliases come to be the empty tuple that is among the terms. -/
theorem allEmpty_just_if_ends_agree_aliases :
    let subst := (∅ : Subst).bind ⟨1⟩ (.var ⟨0⟩)
    let terms : List Term := [.var ⟨0⟩, .var ⟨1⟩, .nil .tuple]
    subst.Acyclic ∧ (∀ term ∈ terms, subst.MayEnd term) ∧
      ∃ later,
        (allEmpty terms .list : Goal Empty).AtOnce subst (some later) ∧
          later.reify (.var ⟨1⟩) = .nil .tuple ∧
          later.lookup ⟨0⟩ = some (.nil .tuple) := by
  intro subst terms
  have acyclic : subst.Acyclic := by
    refine Subst.acyclic_empty.bind ?_
    rw [Subst.reaches_var_iff (Subst.lookup_empty _)]
    decide
  have first : subst.walk (.var ⟨0⟩) = .var ⟨0⟩ := by decide +kernel
  have second : subst.walk (.var ⟨1⟩) = .var ⟨0⟩ := by decide +kernel
  have unbound : subst.lookup ⟨0⟩ = none := by decide +kernel
  have mayEnd : ∀ term ∈ terms, subst.MayEnd term := by
    simp only [terms, List.forall_mem_cons]
    exact ⟨.inl ⟨_, first, unbound⟩, .inl ⟨_, second, unbound⟩, .inr ⟨_, rfl⟩, nofun⟩
  have agree : subst.EndsAgree terms .tuple := by
    intro term member other walked
    rcases by simpa [terms] using member with rfl | rfl | rfl
    · cases first.symm.trans walked
    · cases second.symm.trans walked
    · cases walked
      rfl
  rcases @allEmpty_just_if_ends_agree Empty subst acyclic terms .list with
    ⟨found, atOnce, isSome_iff, results⟩
  rcases Option.isSome_iff_exists.mp (isSome_iff.mpr ⟨mayEnd, _, agree⟩) with
    ⟨later, rfl⟩
  rcases results later rfl with ⟨kind, _, ends, grows, bindings⟩
  have known := ends (.nil .tuple) (by simp [terms])
  rw [Subst.reify_eq_of_isGround grows.acyclic rfl] at known
  cases known
  exact ⟨acyclic, mayEnd, later, atOnce, ends _ (by simp [terms]),
    (bindings ⟨0⟩).1 ⟨_, by simp [terms], first⟩⟩

end Goal

end RelationalSearch
