/-!
# Powers and places

Powers of natural numbers, and the digits of a number in the places of a base.
-/

namespace DocStore.Number

/-- `base` to the power `n`. -/
def power (base n : Nat) : Nat := Nat.pow base n

/-- The digits of a number in the last `count` places of a base, the highest place first. -/
def lastDigits (base count n : Nat) : List Nat :=
  (List.range count).map fun i => n / power base (count - 1 - i) % base

end DocStore.Number
