import Mathlib.Data.List.Perm.Basic
import RelationalSearch.Proofs.Stream.Delivery

/-!
# Streams with other labels

`Stream.map` changes the suspended work and the results of a stream and leaves
its shape alone, so it commutes with all that the engine does to shapes.
`Stream.leaves` lists the work and the results that a stream holds.  Combining
streams moves leaves about, and neither makes nor loses any.
-/

namespace RelationalSearch

/-! ## Queues -/

namespace Queue

variable {Later Other : Type}

/-- Changes each piece of work. -/
def map (change : Later → Other) : Queue Later → Queue Other
  | one work => one (change work)
  | join front back => join (front.map change) (back.map change)

@[simp]
theorem toList_map (change : Later → Other) (queue : Queue Later) :
    (queue.map change).toList = queue.toList.map change := by
  induction queue with
  | one work => rfl
  | join front back frontIH backIH => simp [map, frontIH, backIH]

theorem takeBefore_map
    (change : Later → Other)
    (front back : Queue Later) :
    takeBefore (back.map change) (front.map change) =
      (change (takeBefore back front).1,
        (takeBefore back front).2.map change) := by
  induction front generalizing back with
  | one work => rfl
  | join front rest ih => exact ih (join rest back)

theorem take_map (change : Later → Other) (queue : Queue Later) :
    (queue.map change).take =
      (change queue.take.1, queue.take.2.map (map change)) := by
  cases queue with
  | one work => rfl
  | join front back => simp [map, take, takeBefore_map]

theorem toList_of_last
    {queue : Queue Later}
    {work : Later}
    (taken : queue.take = (work, none)) :
    queue.toList = [work] := by
  rw [toList_take, taken]
  rfl

theorem toList_of_more
    {queue rest : Queue Later}
    {work : Later}
    (taken : queue.take = (work, some rest)) :
    queue.toList = work :: rest.toList := by
  rw [toList_take, taken]
  rfl

theorem toList_ne_nil (queue : Queue Later) : queue.toList ≠ [] := by
  rw [toList_take]
  exact List.cons_ne_nil _ _

/-- A single piece of work is taken from the queue, and nothing is left. -/
theorem take_of_toList_eq_singleton
    {queue : Queue Later}
    {work : Later}
    (order : queue.toList = [work]) :
    queue.take = (work, none) := by
  rcases taken : queue.take with ⟨first, _ | rest⟩
  · rw [toList_of_last taken] at order
    cases order
    rfl
  · rw [toList_of_more taken] at order
    exact (rest.toList_ne_nil (List.cons.inj order).2).elim

/-- Where there is more work, it is left when the first is taken. -/
theorem exists_take_of_toList_eq_cons
    {queue : Queue Later}
    {work : Later}
    {others : List Later}
    (order : queue.toList = work :: others)
    (more : others ≠ []) :
    ∃ rest, queue.take = (work, some rest) ∧ rest.toList = others := by
  rcases taken : queue.take with ⟨first, _ | rest⟩
  · rw [toList_of_last taken] at order
    exact (more (List.cons.inj order).2.symm).elim
  · rw [toList_of_more taken] at order
    cases order
    exact ⟨rest, rfl, rfl⟩

end Queue

namespace Stream

/-! ## Changing labels -/

section Map

variable {Later Next Result OtherLater OtherResult : Type}
  (later : Later → OtherLater) (result : Result → OtherResult)

/-- Changes the suspended work and the results. -/
def map :
    Stream Later Next Result → Stream OtherLater Next OtherResult
  | empty => empty
  | ready found rest => ready (result found) (map rest)
  | suspended work => suspended (later work)
  | merge left right => merge (map left) (map right)
  | bind inner next => bind (map inner) next
  | append inner queue => append (map inner) (queue.map later)

@[simp]
theorem map_empty :
    (empty : Stream Later Next Result).map later result = empty := rfl

@[simp]
theorem map_ready (found : Result) (rest : Stream Later Next Result) :
    (ready found rest).map later result =
      ready (result found) (rest.map later result) := rfl

@[simp]
theorem map_suspended (work : Later) :
    (suspended work : Stream Later Next Result).map later result =
      suspended (later work) := rfl

@[simp]
theorem map_merge (left right : Stream Later Next Result) :
    (merge left right).map later result =
      merge (left.map later result) (right.map later result) := rfl

@[simp]
theorem map_bind (inner : Stream Later Next Result) (next : Next) :
    (bind inner next).map later result = bind (inner.map later result) next :=
  rfl

@[simp]
theorem map_append (inner : Stream Later Next Result) (queue : Queue Later) :
    (append inner queue).map later result =
      append (inner.map later result) (queue.map later) := rfl

@[simp]
theorem shape_map (stream : Stream Later Next Result) :
    (stream.map later result).shape = stream.shape := by
  cases stream <;> rfl

@[simp]
theorem isReady_map (stream : Stream Later Next Result) :
    (stream.map later result).isReady = stream.isReady := by
  cases stream <;> rfl

theorem map_eq_empty_iff (stream : Stream Later Next Result) :
    stream.map later result = empty ↔ stream = empty := by
  cases stream <;> simp

@[simp]
theorem front_map (stream : Stream Later Next Result) :
    (stream.map later result).front = stream.front.map result := by
  cases stream <;> rfl

theorem map_interleave (left right : Stream Later Next Result) :
    (interleave left right).map later result =
      interleave (left.map later result) (right.map later result) := by
  induction left with
  | empty => rfl
  | ready found rest ih => simp [ih]
  | suspended | merge | bind | append => cases right <;> rfl

theorem map_enqueue
    (queue : Queue Later)
    (stream : Stream Later Next Result) :
    (enqueue queue stream).map later result =
      enqueue (queue.map later) (stream.map later result) := by
  induction stream with
  | ready found rest ih => simp [ih]
  | empty | suspended | merge | bind | append => rfl

end Map

/-! ## Leaves -/

section Leaves

variable {Later Next Result Label : Type}
  (later : Later → Label) (result : Result → Label)

/-- The labels of the work and of the results that a stream holds. -/
def leaves : Stream Later Next Result → List Label
  | empty => []
  | ready found rest => result found :: leaves rest
  | suspended work => [later work]
  | merge left right => leaves left ++ leaves right
  | bind inner _ => leaves inner
  | append inner queue => leaves inner ++ queue.toList.map later

@[simp]
theorem leaves_ready (found : Result) (rest : Stream Later Next Result) :
    (ready found rest).leaves later result =
      result found :: rest.leaves later result := rfl

@[simp]
theorem leaves_merge (left right : Stream Later Next Result) :
    (merge left right).leaves later result =
      left.leaves later result ++ right.leaves later result := rfl

@[simp]
theorem leaves_append (inner : Stream Later Next Result) (queue : Queue Later) :
    (append inner queue).leaves later result =
      inner.leaves later result ++ queue.toList.map later := rfl

theorem leaves_interleave (left right : Stream Later Next Result) :
    (interleave left right).leaves later result =
      left.leaves later result ++ right.leaves later result := by
  induction left with
  | empty => rfl
  | ready found rest ih => simp [ih]
  | suspended | merge | bind | append =>
    cases right with
    | empty => exact (List.append_nil _).symm
    | _ => rfl

theorem leaves_enqueue
    (queue : Queue Later)
    (stream : Stream Later Next Result) :
    (enqueue queue stream).leaves later result =
      stream.leaves later result ++ queue.toList.map later := by
  induction stream with
  | ready found rest ih => simp [ih]
  | append => simp
  | empty | suspended | merge | bind => rfl

theorem map_leaves
    {Other : Type}
    (change : Label → Other)
    (stream : Stream Later Next Result) :
    (stream.leaves later result).map change =
      stream.leaves (fun work => change (later work))
        (fun found => change (result found)) := by
  induction stream with
  | empty => rfl
  | ready found rest ih => simp [ih]
  | suspended work => rfl
  | merge left right leftIH rightIH => simp [leftIH, rightIH]
  | bind inner next ih => exact ih
  | append inner queue ih => simp [ih]

theorem leaves_map
    {Work Found : Type}
    (relabel : Work → Later)
    (change : Found → Result)
    (stream : Stream Work Next Found) :
    (stream.map relabel change).leaves later result =
      stream.leaves (fun work => later (relabel work))
        (fun found => result (change found)) := by
  induction stream with
  | empty => rfl
  | ready found rest ih => simp [ih]
  | suspended work => rfl
  | merge left right leftIH rightIH => simp [leftIH, rightIH]
  | bind inner next ih => exact ih
  | append inner queue ih => simp [ih]

end Leaves

end Stream

end RelationalSearch
