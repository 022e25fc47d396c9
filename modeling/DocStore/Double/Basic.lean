import DocStore.Number.Power

/-!
# Binary floating-point numbers of 64 bits

A double is its bit pattern, so that the sign of a zero and the bits of a NaN are
part of the value.  A finite double is `± significand * 2 ^ exponent`; counted in
units of `2 ^ -1074`, the smallest positive double, every finite double is an
integer (`units`), and sums, products and quotients are exact fractions that are
rounded once, to the nearest double, a tie to the even significand (`ofRatio`).

There are two comparisons.  `equals` is numeric: the two zeros are equal and a NaN
equals nothing.  `compareBits` orders all patterns: negative NaN, negative numbers
from the largest magnitude down, `-0`, `+0`, positive numbers, positive NaN.
-/

namespace DocStore

/-- A double, given by its bits: sign, 11 bits of exponent, 52 bits of fraction. -/
structure Double where
  bits : UInt64
  deriving DecidableEq, Repr, Inhabited

namespace Double

open DocStore.Number

/-- The weight of the sign bit. -/
def signBit : Nat := 0x8000000000000000

/-- The weight of the lowest bit of the exponent.  The significands of normal doubles start
here, and those of the others are below. -/
def hiddenBit : Nat := 0x10000000000000

/-- The sign bit is set. -/
def isNegative (d : Double) : Bool := signBit ≤ d.bits.toNat

/-- The bits without the sign. -/
def magnitude (d : Double) : Nat := d.bits.toNat % signBit

/-- The magnitude of the infinities. -/
def infinityBits : Nat := 0x7ff0000000000000

def isNaN (d : Double) : Bool := infinityBits < d.magnitude

def isInfinite (d : Double) : Bool := d.magnitude == infinityBits

def isFinite (d : Double) : Bool := d.magnitude < infinityBits

def isZero (d : Double) : Bool := d.magnitude == 0

/-- The double with a sign and the bits without sign. -/
def ofMagnitude (negative : Bool) (m : Nat) : Double :=
  ⟨UInt64.ofNat (if negative then signBit + m else m)⟩

def zero : Double := ofMagnitude false 0

def infinity (negative : Bool) : Double := ofMagnitude negative infinityBits

/-- The quiet NaN that stands for "not a number" where no bits are asked for. -/
def nan : Double := ofMagnitude false 0x7ff8000000000000

/-- The NaN that an operation without a numeric result gives: its sign bit is set. -/
def invalid : Double := ofMagnitude true 0x7ff8000000000000

/-- A NaN as an operation passes it on: its quiet bit is set. -/
def quieted (d : Double) : Double := ⟨d.bits ||| 0x0008000000000000⟩

/-- The integer `s` with `|d| = s * 2 ^ d.exponent`, for a finite `d`. -/
def significand (d : Double) : Nat :=
  if d.magnitude < hiddenBit then d.magnitude else hiddenBit + d.magnitude % hiddenBit

/-- The exponent of the last bit of the significand, at least -1074. -/
def exponent (d : Double) : Int :=
  if d.magnitude < hiddenBit then -1074 else Int.ofNat (d.magnitude / hiddenBit) - 1075

/-- `|d|` in units of `2 ^ -1074`, for a finite `d`. -/
def unitsAbs (d : Double) : Nat := d.significand * power 2 (d.exponent + 1074).toNat

/-- `d` in units of `2 ^ -1074`, for a finite `d`. -/
def units (d : Double) : Int := if d.isNegative then -Int.ofNat d.unitsAbs else d.unitsAbs

/-- The number of units in one. -/
def unitsOfOne : Nat := power 2 1074

/-- The double nearest to `num / den`, a tie to the even significand; what lies
beyond the largest double by half a unit or more becomes infinite.  `den` is positive. -/
def ofRatio (negative : Bool) (num den : Nat) : Double :=
  if num = 0 then ofMagnitude negative 0
  else
    let guess : Int := max (-1074) (Int.ofNat num.log2 - Int.ofNat den.log2 - 53)
    let quotient (e : Int) : Nat × Nat × Nat :=
      let n := num * power 2 (-e).toNat
      let d := den * power 2 e.toNat
      (n / d, n % d, d)
    let e := if (quotient guess).1 < 2 * hiddenBit then guess else guess + 1
    let (q, r, d) := quotient e
    let rounded := if 2 * r < d || (2 * r == d && q % 2 == 0) then q else q + 1
    let bits := (e + 1074).toNat * hiddenBit + rounded
    if infinityBits ≤ bits then infinity negative else ofMagnitude negative bits

/-- The double nearest to an integer. -/
def ofInt (n : Int) : Double := ofRatio (n < 0) n.natAbs 1

def neg (d : Double) : Double := ⟨d.bits ^^^ 0x8000000000000000⟩

/-- The sum.  An exact zero is positive, unless both terms are negative zeros. -/
def add (a b : Double) : Double :=
  if a.isNaN then a.quieted
  else if b.isNaN then b.quieted
  else if a.isInfinite then
    if b.isInfinite && a.isNegative != b.isNegative then invalid else a
  else if b.isInfinite then b
  else
    let sum := a.units + b.units
    if sum = 0 then ofMagnitude (a.isNegative && b.isNegative) 0
    else ofRatio (sum < 0) sum.natAbs unitsOfOne

/-- The product. -/
def mul (a b : Double) : Double :=
  let negative := a.isNegative != b.isNegative
  if a.isNaN then a.quieted
  else if b.isNaN then b.quieted
  else if a.isInfinite || b.isInfinite then
    if a.isZero || b.isZero then invalid else infinity negative
  else ofRatio negative (a.unitsAbs * b.unitsAbs) (unitsOfOne * unitsOfOne)

/-- The quotient. -/
def div (a b : Double) : Double :=
  let negative := a.isNegative != b.isNegative
  if a.isNaN then a.quieted
  else if b.isNaN then b.quieted
  else if a.isInfinite then if b.isInfinite then invalid else infinity negative
  else if b.isInfinite then ofMagnitude negative 0
  else if b.isZero then if a.isZero then invalid else infinity negative
  else ofRatio negative a.unitsAbs b.unitsAbs

/-- Numeric equality: the zeros are equal, a NaN equals nothing. -/
def equals (a b : Double) : Bool :=
  !a.isNaN && !b.isNaN && (a == b || (a.isZero && b.isZero))

/-- The place of a pattern in the order of all patterns. -/
def orderKey (d : Double) : Int :=
  if d.isNegative then -Int.ofNat d.magnitude - 1 else d.magnitude

/-- The order of all patterns: by sign, then by magnitude. -/
def compareBits (a b : Double) : Ordering := compare a.orderKey b.orderKey

end Double

end DocStore
