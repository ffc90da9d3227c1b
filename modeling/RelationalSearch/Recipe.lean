import RelationalSearch.Session

/-!
# Recipes

A recipe says how a value is made: it mints variables, notes events, and ends
with the value.  It can not ask which variables exist, so what it makes depends
on the numbers of its variables only as far as it looks at them.
-/

namespace RelationalSearch

/-- How to make a value with variables of its own. -/
inductive Recipe (α : Type) where
  | done (value : α)
  | mint (name : String) (next : Var → Recipe α)
  | note (event : String) (next : Recipe α)

namespace Recipe

variable {α β : Type}

/-- Goes on with the value that a recipe makes. -/
def andThen (recipe : Recipe α) (next : α → Recipe β) : Recipe β :=
  match recipe with
  | done value => next value
  | mint name rest => mint name fun x => andThen (rest x) next
  | note event rest => note event (andThen rest next)

instance : Monad Recipe where
  pure := done
  bind := andThen

/-- A fresh variable, as a term. -/
def freshTerm (name : String) : Recipe Term :=
  mint name fun x => done (.var x)

/-- Notes an event. -/
def event (text : String) : Recipe Unit :=
  note text (done ())

/-- Makes the value in the session at hand. -/
def run : Recipe α → Search α
  | done value => pure value
  | mint name next => do
    let x ← Session.fresh name
    run (next x)
  | note event next => do
    Session.note event
    run next

@[simp]
theorem run_done (value : α) : (done value).run = pure value := rfl

@[simp]
theorem pure_eq_done (value : α) : (pure value : Recipe α) = done value := rfl

@[simp]
theorem bind_eq_andThen (recipe : Recipe α) (next : α → Recipe β) :
    recipe >>= next = recipe.andThen next := rfl

/-- A recipe made of two runs as the one and then the other. -/
theorem run_andThen (recipe : Recipe α) (next : α → Recipe β) :
    (recipe.andThen next).run = recipe.run >>= fun value => (next value).run := by
  induction recipe with
  | done value => rfl
  | mint name rest hypothesis => simp [andThen, run, hypothesis]
  | note event rest hypothesis => simp [andThen, run, hypothesis]

end Recipe

end RelationalSearch
