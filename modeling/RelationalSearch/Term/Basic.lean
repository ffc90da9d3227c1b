/-!
# Terms

A term is a logic variable, an atom (an integer or a symbol), a cons cell or
the end of a sequence.  There is one sequence constructor, `Term.cons`.  What
kind of sequence a chain of cells stands for shows only at its end, in the
`SeqKind` of its `Term.nil`: `[1, 2]`, `(1, 2)` and the expression `1(2)` have
the same cells and different ends.

Whether a term is ground is asked for at every step of the search, so a cell
keeps the answer (`Term.isGround` is a computed field).
-/

namespace RelationalSearch

/-- The kind of a sequence, which its terminator shows. -/
inductive SeqKind where
  | list
  | tuple
  | expr
  deriving DecidableEq, Repr, Inhabited, Hashable

namespace SeqKind

/-- Position in the order lists, tuples, expressions. -/
def rank : SeqKind → Nat
  | list => 0
  | tuple => 1
  | expr => 2

instance : Ord SeqKind := ⟨fun first second => compare first.rank second.rank⟩

theorem rank_injective {first second : SeqKind}
    (same : first.rank = second.rank) : first = second := by
  cases first <;> cases second <;> simp_all [rank]

/-- The kinds in ascending order, repetitions kept. -/
def sort (kinds : List SeqKind) : List SeqKind :=
  kinds.mergeSort fun first second => first.rank ≤ second.rank

end SeqKind

/--
A logic variable.  It is its number alone: the name under which a variable is
displayed belongs to the session that made it.
-/
structure Var where
  id : Nat
  deriving DecidableEq, Repr, Inhabited, Hashable

namespace Var

/-- Variables are ordered by age, the oldest first. -/
instance : Ord Var := ⟨fun first second => compare first.id second.id⟩

/-- The variables from the youngest to the oldest. -/
def sortDescending (vars : List Var) : List Var :=
  vars.mergeSort fun first second => second.id ≤ first.id

/-- Each variable is younger than the one before it. -/
def ascending : List Var → Bool
  | first :: second :: rest =>
    first.id < second.id && ascending (second :: rest)
  | _ => true

end Var

/-- The values that relations talk about. -/
inductive Term where
  | var (x : Var)
  | int (value : Int64)
  | sym (name : String)
  | cons (head tail : Term)
  | nil (kind : SeqKind)
with
  /-- True of a term in which no variable occurs. -/
  @[computed_field] isGround : Term → Bool
    | .var _ => false
    | .int _ => true
    | .sym _ => true
    | .cons head tail => head.isGround && tail.isGround
    | .nil _ => true

namespace Term

instance : Inhabited Term := ⟨.nil .list⟩

@[simp]
theorem isGround_var (x : Var) : (var x).isGround = false := rfl

@[simp]
theorem isGround_int (value : Int64) : (int value).isGround = true := rfl

@[simp]
theorem isGround_sym (name : String) : (sym name).isGround = true := rfl

@[simp]
theorem isGround_cons (head tail : Term) :
    (cons head tail).isGround = (head.isGround && tail.isGround) := rfl

@[simp]
theorem isGround_nil (kind : SeqKind) : (nil kind).isGround = true := rfl

/-! ## Building sequences -/

/-- The chain of `items` that ends in `last`. -/
def chain (items : List Term) (last : Term) : Term :=
  items.foldr cons last

@[simp]
theorem chain_nil (last : Term) : chain [] last = last := rfl

@[simp]
theorem chain_cons (item : Term) (items : List Term) (last : Term) :
    chain (item :: items) last = cons item (chain items last) := rfl

/-- The proper sequence of `items` with the terminator of `kind`. -/
def sequence (kind : SeqKind) (items : List Term) : Term :=
  chain items (nil kind)

/-- The compound term `operator(operands …)`. -/
def expr (operator : Term) (operands : List Term) : Term :=
  cons operator (sequence .expr operands)

/-! ## Looking into terms -/

def isVar : Term → Bool
  | var _ => true
  | _ => false

def asVar? : Term → Option Var
  | var x => some x
  | _ => none

def isCons : Term → Bool
  | cons _ _ => true
  | _ => false

def head? : Term → Option Term
  | cons head _ => some head
  | _ => none

def tail? : Term → Option Term
  | cons _ tail => some tail
  | _ => none

/-- The heads along the spine of a term whose earlier heads are `heads`. -/
def spineFrom (heads : Array Term) : Term → Array Term × Term
  | cons head tail => spineFrom (heads.push head) tail
  | last => (heads, last)

theorem spineFrom_cons (heads : Array Term) (head tail : Term) :
    spineFrom heads (cons head tail) = spineFrom (heads.push head) tail := rfl

/--
The heads along the cells of a term, and the first tail that is no cell (the
term itself, if it is none).
-/
def spine (term : Term) : List Term × Term :=
  let (heads, last) := spineFrom #[] term
  (heads.toList, last)

theorem spine_eq (term : Term) :
    term.spine = ((spineFrom #[] term).1.toList, (spineFrom #[] term).2) := rfl

theorem spineFrom_fst (term : Term) (heads : Array Term) :
    (spineFrom heads term).1.toList = heads.toList ++ (spine term).1 := by
  induction term generalizing heads with
  | cons head tail _ tailHypothesis =>
    rw [spine_eq, spineFrom_cons, spineFrom_cons, tailHypothesis, tailHypothesis]
    simp
  | _ => exact (List.append_nil _).symm

theorem spineFrom_snd (term : Term) (heads : Array Term) :
    (spineFrom heads term).2 = (spine term).2 := by
  induction term generalizing heads with
  | cons head tail _ tailHypothesis =>
    rw [spine_eq, spineFrom_cons, spineFrom_cons, tailHypothesis, tailHypothesis]
  | _ => rfl

@[simp]
theorem spine_cons (head tail : Term) :
    (cons head tail).spine = (head :: tail.spine.1, tail.spine.2) := by
  apply Prod.ext
  · exact spineFrom_fst tail #[head]
  · exact spineFrom_snd tail #[head]

theorem spine_of_isCons_eq_false {term : Term} (notCell : term.isCons = false) :
    term.spine = ([], term) := by
  cases term with
  | cons => cases notCell
  | _ => rfl

/-- A term is the chain along its spine. -/
theorem chain_spine (term : Term) : chain term.spine.1 term.spine.2 = term := by
  induction term with
  | cons head tail _ tailHypothesis => simp [tailHypothesis]
  | _ => rfl

/-- The kind of a proper sequence; other chains and terms have none. -/
def terminator? (term : Term) : Option SeqKind :=
  match term.spine.2 with
  | nil kind => some kind
  | _ => none

/-- The elements of a proper sequence. -/
def elements? (term : Term) : Option (List Term) :=
  match term.spine with
  | (heads, nil _) => some heads
  | _ => none

end Term

end RelationalSearch
