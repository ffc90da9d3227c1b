import RelationalSearch.Term.Basic

/-!
# Sessions

A session hands out fresh variables and keeps a journal of what happened.  All
of a search runs in one session (`Search`), so no two variables that it mints
are the same, and the journal shows what was done when.
-/

namespace RelationalSearch

/-- The variables made so far and the events noted so far. -/
structure Session where
  /-- The display names of the variables, by number. -/
  names : Array String
  /-- The events since the journal was last read. -/
  journal : Array String
  deriving Inhabited

/-- A step of a search: it may mint variables and note events. -/
abbrev Search (α : Type) := StateM Session α

namespace Session

/-- A session in which nothing has happened. -/
def start : Session := ⟨#[], #[]⟩

/-- The number of variables made so far, which the next variable gets. -/
def supply (session : Session) : Nat := session.names.size

/-- The name of a variable; a variable of another session has none. -/
def nameOf (session : Session) (x : Var) : String :=
  session.names.getD x.id ""

/-- Makes a variable that differs from all earlier ones. -/
def fresh (name : String) : Search Var :=
  modifyGet fun session =>
    (⟨session.supply⟩, { session with names := session.names.push name })

theorem run_fresh (name : String) (session : Session) :
    (fresh name).run session =
      (⟨session.supply⟩, { session with names := session.names.push name }) :=
  rfl

/-- Appends an event to the journal. -/
def note (event : String) : Search Unit :=
  modify fun session => { session with journal := session.journal.push event }

/-- Reads the journal and empties it. -/
def takeJournal : Search (List String) :=
  modifyGet fun session =>
    (session.journal.toList, { session with journal := #[] })

/-- Makes a variable for each of the names, in order. -/
def freshAll (names : List String) : Search (List Var) :=
  names.mapM fresh

end Session

end RelationalSearch
