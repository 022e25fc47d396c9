import DocStore.Double.Basic
import DocStore.Number.Digits
import DocStore.Number.Power

/-!
# Reading a double

A double is written as an optional sign, then `inf`, `infinity` or `nan` in any case,
or digits with at most one point and an optional exponent, at least one digit before
the exponent.  The value is the double nearest to the decimal.
-/

namespace DocStore.Double

open DocStore.Number

/-- Why a text is no double. -/
inductive ReadFault
  | empty
  | malformed
  deriving DecidableEq, Repr

/-- The fault as a phrase. -/
def ReadFault.message : ReadFault → String
  | empty => "cannot parse float from empty string"
  | malformed => "invalid float literal"

/-- The double nearest to `± coefficient * 10 ^ exponent`.  Numbers that are far out of
range are settled by their magnitude alone. -/
def ofDecimal (negative : Bool) (coefficient : Nat) (exponent : Int) : Double :=
  let size := Int.ofNat (digitCount coefficient) + exponent
  if coefficient = 0 || size < -400 then ofMagnitude negative 0
  else if 400 < size then infinity negative
  else ofRatio negative (coefficient * power 10 exponent.toNat) (power 10 (-exponent).toNat)

/-- The exponent after the letter: a sign and at least one digit, to the end. -/
def exponentOf? (cs : List Char) : Option Int :=
  let (negative, digits) :=
    match cs with
    | '-' :: rest => (true, rest)
    | '+' :: rest => (false, rest)
    | rest => (false, rest)
  if digits.isEmpty || !digits.all isDigit then none
  else
    let n := Int.ofNat (ofDigits digits)
    some (if negative then -n else n)

/-- The double of an unsigned decimal. -/
def ofUnsigned? (negative : Bool) (cs : List Char) : Option Double :=
  let (whole, rest) := spanDigits cs
  let (fraction, rest) :=
    match rest with
    | '.' :: rest => spanDigits rest
    | rest => ([], rest)
  if whole.isEmpty && fraction.isEmpty then none
  else
    let exponent? :=
      match rest with
      | [] => some 0
      | c :: rest => if c == 'e' || c == 'E' then exponentOf? rest else none
    exponent?.map fun e =>
      ofDecimal negative (ofDigits (whole ++ fraction)) (e - Int.ofNat fraction.length)

/-- An infinity or a NaN by its name. -/
def ofName? (negative : Bool) (cs : List Char) : Option Double :=
  let name := String.ofList (cs.map Char.toLower)
  if name == "inf" || name == "infinity" then some (infinity negative)
  else if name == "nan" then some (if negative then nan.neg else nan)
  else none

/-- The double that a text denotes. -/
def ofText (s : String) : Except ReadFault Double :=
  let (negative, cs) :=
    match s.toList with
    | '-' :: rest => (true, rest)
    | '+' :: rest => (false, rest)
    | rest => (false, rest)
  if s.isEmpty then .error .empty
  else
    match (ofUnsigned? negative cs).orElse fun _ => ofName? negative cs with
    | some d => .ok d
    | none => .error .malformed

end DocStore.Double
