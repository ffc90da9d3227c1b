/-!
# Queues of work

A queue holds one piece of work or more, in the order in which they are to be
done.  Two queues are joined in one step, however long they are: of the two, it
may be the first one that is long, or the second one.  The order is worked out
while work is taken from the front, and each join is then passed once.

`Queue.toList` is the view of a queue, in which a join is an append and taking
from the front is taking the head.
-/

namespace RelationalSearch

/-- One piece of work or more. -/
inductive Queue (Later : Type) where
  | one (work : Later)
  /-- The work in front, and then that behind it. -/
  | join (front back : Queue Later)

namespace Queue

variable {Later : Type}

/-- The work in the order in which it is done. -/
def toList : Queue Later → List Later
  | one work => [work]
  | join front back => front.toList ++ back.toList

/-- The number of pieces of work. -/
def size : Queue Later → Nat
  | one _ => 1
  | join front back => front.size + back.size

@[simp]
theorem toList_one (work : Later) : (one work).toList = [work] := rfl

@[simp]
theorem toList_join (front back : Queue Later) :
    (join front back).toList = front.toList ++ back.toList := rfl

theorem length_toList (queue : Queue Later) : queue.toList.length = queue.size := by
  induction queue with
  | one work => rfl
  | join front back frontHypothesis backHypothesis =>
    simp [size, frontHypothesis, backHypothesis]

theorem size_pos (queue : Queue Later) : 0 < queue.size := by
  induction queue with
  | one work => simp [size]
  | join front back frontHypothesis _ =>
    simp only [size]
    omega

/-- The first piece of work of a queue with another queue behind it. -/
def takeBefore (back : Queue Later) : Queue Later → Later × Queue Later
  | one work => (work, back)
  | join front rest => takeBefore (join rest back) front

/-- The first piece of work, and what is behind it, if anything. -/
def take : Queue Later → Later × Option (Queue Later)
  | one work => (work, none)
  | join front back =>
    let (work, rest) := takeBefore back front
    (work, some rest)

theorem toList_takeBefore (front back : Queue Later) :
    (takeBefore back front).1 :: (takeBefore back front).2.toList =
      front.toList ++ back.toList := by
  induction front generalizing back with
  | one work => rfl
  | join front rest hypothesis => simp [takeBefore, hypothesis]

/-- What is taken from the front is the head. -/
theorem toList_take (queue : Queue Later) :
    queue.toList =
      queue.take.1 :: (queue.take.2.elim [] fun rest => rest.toList) := by
  cases queue with
  | one work => rfl
  | join front back => simp [take, toList_takeBefore]

theorem size_lt_of_take
    {queue rest : Queue Later}
    {work : Later}
    (taken : queue.take = (work, some rest)) :
    rest.size < queue.size := by
  have lengths := congrArg List.length queue.toList_take
  simp only [taken, Option.elim_some, List.length_cons, length_toList] at lengths
  omega

end Queue

end RelationalSearch
