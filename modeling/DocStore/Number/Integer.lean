import DocStore.Number.Digits

/-!
# Integers of 64 bits

Which integers fit in 64 bits, and integers as text: an integer is written as an
optional sign and decimal digits.  Reading stops at the first character that is wrong:
one that is no digit, or a digit that takes the number out of range.
-/

namespace DocStore.Number

/-- The integer fits in 64 bits with a sign. -/
def fitsInt64 (n : Int) : Bool := -0x8000000000000000 ≤ n && n < 0x8000000000000000

/-- The same integer in 64 bits, if it fits. -/
def int64? (n : Int) : Option Int64 := if fitsInt64 n then some (Int64.ofInt n) else none

/-! ## Integers as text -/

/-- Why a text is no integer. -/
inductive IntegerFault
  | empty
  | badDigit
  | tooLarge
  | tooSmall
  deriving DecidableEq, Repr

/-- The fault as a phrase. -/
def IntegerFault.message : IntegerFault → String
  | empty => "cannot parse integer from empty string"
  | badDigit => "invalid digit found in string"
  | tooLarge => "number too large to fit in target type"
  | tooSmall => "number too small to fit in target type"

/-- Digits appended to a number that may not exceed `limit`. -/
def boundedDigits (limit : Nat) (overflow : IntegerFault) :
    Nat → List Char → Except IntegerFault Nat
  | n, [] => .ok n
  | n, c :: cs =>
    match digit? c with
    | none => .error .badDigit
    | some d =>
      if 10 * n + d ≤ limit then boundedDigits limit overflow (10 * n + d) cs
      else .error overflow

/-- The signed 64-bit integer that a text denotes. -/
def int64OfText (s : String) : Except IntegerFault Int64 :=
  match s.toList with
  | [] => .error .empty
  | ['+'] => .error .badDigit
  | ['-'] => .error .badDigit
  | '-' :: cs =>
    (boundedDigits 0x8000000000000000 .tooSmall 0 cs).map fun n => Int64.ofInt (-Int.ofNat n)
  | '+' :: cs =>
    (boundedDigits 0x7fffffffffffffff .tooLarge 0 cs).map fun n => Int64.ofInt (Int.ofNat n)
  | cs => (boundedDigits 0x7fffffffffffffff .tooLarge 0 cs).map fun n => Int64.ofInt (Int.ofNat n)

/-- The decimal text of an integer. -/
def intText (n : Int) : String :=
  String.ofList ((if n < 0 then ['-'] else []) ++ Nat.toDigits 10 n.natAbs)

end DocStore.Number
