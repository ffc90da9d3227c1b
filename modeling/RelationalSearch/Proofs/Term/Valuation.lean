import RelationalSearch.Term.Census

/-!
# Variables and valuations of terms

A valuation gives every variable a term, bound or not.  It is the side of
unification that knows nothing of substitutions: a term stands for all that it
becomes under valuations.
-/

namespace RelationalSearch

namespace Term

/-! ## The variables of a term -/

/-- The variables are found by plain recursion. -/
theorem vars_eq_filterMap_preorder (term : Term) :
    term.vars = term.preorder.filterMap fun
      | .var x => some x
      | _ => none := by
  rw [← tokens_eq_preorder]
  rfl

@[simp]
theorem vars_var (x : Var) : (var x).vars = [x] := by
  rw [vars_eq_filterMap_preorder]
  rfl

@[simp]
theorem vars_int (value : Int64) : (int value).vars = [] := by
  rw [vars_eq_filterMap_preorder]
  rfl

@[simp]
theorem vars_sym (name : String) : (sym name).vars = [] := by
  rw [vars_eq_filterMap_preorder]
  rfl

@[simp]
theorem vars_cons (head tail : Term) :
    (cons head tail).vars = head.vars ++ tail.vars := by
  rw [vars_eq_filterMap_preorder head, vars_eq_filterMap_preorder tail,
    ← List.filterMap_append, vars_eq_filterMap_preorder]
  rfl

@[simp]
theorem vars_nil (kind : SeqKind) : (nil kind).vars = [] := by
  rw [vars_eq_filterMap_preorder]
  rfl

/-- The stored answer of a cell is right: ground terms have no variables. -/
theorem isGround_eq_true_iff (term : Term) :
    term.isGround = true ↔ term.vars = [] := by
  induction term with
  | cons head tail headIH tailIH => simp [headIH, tailIH]
  | _ => simp

theorem eq_var_of_asVar?_eq_some
    {term : Term}
    {x : Var}
    (found : term.asVar? = some x) :
    term = var x := by
  cases term <;> simp_all [asVar?]

/-! ## Valuations -/

/-- What a term becomes when every variable is replaced by its value. -/
def under (valuation : Var → Term) : Term → Term
  | var x => valuation x
  | int value => int value
  | sym name => sym name
  | cons head tail => cons (head.under valuation) (tail.under valuation)
  | nil kind => nil kind

section Under

variable (valuation : Var → Term)

@[simp]
theorem under_var (x : Var) : (var x).under valuation = valuation x := rfl

@[simp]
theorem under_int (value : Int64) :
    (int value).under valuation = int value := rfl

@[simp]
theorem under_sym (name : String) :
    (sym name).under valuation = sym name := rfl

@[simp]
theorem under_cons (head tail : Term) :
    (cons head tail).under valuation =
      cons (head.under valuation) (tail.under valuation) := rfl

@[simp]
theorem under_nil (kind : SeqKind) :
    (nil kind).under valuation = nil kind := rfl

end Under

end Term

end RelationalSearch
