/-!
# Steps of arithmetic

The steps that a script can take from one integer to another.  A step is
undefined where it would leave the range of the integers.
-/

namespace RelationalSearch

/-- A partial function on integers. -/
inductive Arithmetic where
  | add
  | mul
  /-- Negative numbers lose their sign. -/
  | flipNegative
  /-- Even numbers are halved, odd ones kept. -/
  | halveIfEven
  /-- Zero is kept, positive numbers lose one. -/
  | countdown
  /-- Positive numbers are kept. -/
  | positive
  deriving DecidableEq, Repr

namespace Arithmetic

/-- The integer of its width, if it has that width. -/
def inRange? (value : Int) : Option Int64 :=
  if Int64.minValue.toInt ≤ value ∧ value ≤ Int64.maxValue.toInt then
    some (Int64.ofInt value)
  else
    none

/-- The outcome of a step; `operand` counts for `add` and `mul` only. -/
def step (operation : Arithmetic) (operand value : Int64) : Option Int64 :=
  let number := value.toInt
  match operation with
  | add => inRange? (number + operand.toInt)
  | mul => inRange? (number * operand.toInt)
  | flipNegative => if number < 0 then inRange? (-number) else none
  | halveIfEven =>
    if number % 2 = 0 then inRange? (number / 2) else some value
  | countdown =>
    if number = 0 then
      some value
    else if 0 < number then
      inRange? (number - 1)
    else
      none
  | positive => if 0 < number then some value else none

end Arithmetic

end RelationalSearch
