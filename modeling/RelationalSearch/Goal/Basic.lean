import RelationalSearch.Recipe
import RelationalSearch.Subst.Unify

/-!
# Goals

A goal is a condition on substitutions.  Goals are plain values: they are
built once and can be applied any number of times.

A recursive condition is cut by `Goal.defer`, which holds only the `Code` of a
goal that is to be built later, or by `Goal.dynamic`, which builds its goal
when a substitution is at hand.
-/

namespace RelationalSearch

/-- A condition on substitutions; `Code` names the goals that are built later. -/
inductive Goal (Code : Type) where
  /-- The two terms are equal. -/
  | eq (left right : Term)
  /-- Always holds. -/
  | succeed
  /-- Never holds. -/
  | fail
  /-- Both goals hold. -/
  | both (first second : Goal Code)
  /-- One of the goals holds; the two take turns. -/
  | either (left right : Goal Code)
  /-- One of the goals holds; the right one waits for the end of the left. -/
  | ordered (left right : Goal Code)
  /-- The goal of this code, built when a suspension is forced. -/
  | defer (code : Code)
  /-- The goal that the builder makes of the substitution at hand. -/
  | dynamic (builder : Subst → Recipe (Goal Code))

namespace Goal

variable {Code : Type}

instance : Inhabited (Goal Code) := ⟨fail⟩

/-- All goals hold; they are tried in order. -/
def all : List (Goal Code) → Goal Code
  | [] => succeed
  | goal :: goals => goals.foldl both goal

/-- All goals of one of the branches hold; the branches take turns. -/
def any (branches : List (List (Goal Code))) : Goal Code :=
  branches.foldr (fun branch rest => either (all branch) rest) fail

/--
All goals of one of the branches hold; a branch waits for the end of those
before it.
-/
def anyInOrder (branches : List (List (Goal Code))) : Goal Code :=
  branches.foldr (fun branch rest => ordered (all branch) rest) fail

/-- Holds, and notes an event whenever it is applied. -/
def noting (event : String) : Goal Code :=
  dynamic fun _ => .note event (.done succeed)

/-- The whole is the cell of the head and the tail. -/
def cons (head tail whole : Term) : Goal Code :=
  eq (.cons head tail) whole

@[simp]
theorem all_nil : all ([] : List (Goal Code)) = succeed := rfl

@[simp]
theorem all_singleton (goal : Goal Code) : all [goal] = goal := rfl

@[simp]
theorem any_nil : any ([] : List (List (Goal Code))) = fail := rfl

@[simp]
theorem any_cons
    (branch : List (Goal Code))
    (branches : List (List (Goal Code))) :
    any (branch :: branches) = either (all branch) (any branches) := rfl

@[simp]
theorem anyInOrder_nil : anyInOrder ([] : List (List (Goal Code))) = fail := rfl

@[simp]
theorem anyInOrder_cons
    (branch : List (Goal Code))
    (branches : List (List (Goal Code))) :
    anyInOrder (branch :: branches) =
      ordered (all branch) (anyInOrder branches) := rfl

/-- What is shown of a goal in messages: nothing of its inside. -/
def text (_ : Goal Code) : String := "Goal(..)"

end Goal

end RelationalSearch
