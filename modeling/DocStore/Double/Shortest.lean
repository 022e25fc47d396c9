import DocStore.Double.Basic
import DocStore.Number.Digits
import DocStore.Number.Power

/-!
# The shortest decimal of a double

Among the decimals that are nearer to a double than to any other double, the
shortest is the one with the fewest digits, and of those the nearest, a tie going
up.  It is found on the grids of 1, 2, …, 17 digits: if any point of a grid reads
back as the double, one of the two neighbours of the double on that grid does.
-/

namespace DocStore.Double

open DocStore.Number

/-- The decimals that read back as a finite nonzero double: the open interval
`(low, high) / den`, with its ends where `closed`; the double itself is `mid / den`. -/
structure ReadBack where
  low : Nat
  mid : Nat
  high : Nat
  den : Nat
  closed : Bool

/-- Half the gap to each neighbour, in quarters of the last bit; below a power of two
the gap is half as wide. -/
def readBack (d : Double) : ReadBack :=
  let s := d.significand
  let gapBelow := if s == hiddenBit && -1074 < d.exponent then 1 else 2
  let up := power 2 d.exponent.toNat
  { low := (4 * s - gapBelow) * up
    mid := 4 * s * up
    high := (4 * s + 2) * up
    den := 4 * power 2 (-d.exponent).toNat
    closed := s % 2 == 0 }

/-- `num / den` reads back as the double. -/
def ReadBack.holds (r : ReadBack) (num den : Nat) : Bool :=
  if r.closed then r.low * den ≤ num * r.den && num * r.den ≤ r.high * den
  else r.low * den < num * r.den && num * r.den < r.high * den

/-- The number of digits before the point of `num / den`; for a number below one, one
minus the number of places up to its first nonzero digit. -/
def pointPlace (num den : Nat) : Int :=
  if den ≤ num then digitCount (num / den)
  else 1 - Int.ofNat (digitCount ((den + num - 1) / num - 1))

/-- The decimal with `digits` digits that reads back as the double, if there is one. -/
def onGrid? (r : ReadBack) (digits : Nat) : Option Decimal :=
  let exponent := pointPlace r.mid r.den - Int.ofNat digits
  let scaleUp := power 10 (-exponent).toNat
  let scaleDown := power 10 exponent.toNat
  let num := r.mid * scaleUp
  let den := r.den * scaleDown
  let below := num / den
  let hit (c : Nat) : Bool := r.holds (c * scaleDown) scaleUp
  let nearerBelow := 2 * (num % den) < den
  match hit below, hit (below + 1) with
  | true, true => some ⟨if nearerBelow then below else below + 1, exponent⟩
  | true, false => some ⟨below, exponent⟩
  | false, true => some ⟨below + 1, exponent⟩
  | false, false => none

/-- The shortest decimal of a finite double, without its sign. -/
def shortest (d : Double) : Decimal :=
  if d.isZero then ⟨0, 0⟩
  else
    let r := d.readBack
    ((List.range 17).findSome? fun n => onGrid? r (n + 1)).getD ⟨0, 0⟩

/-- The text of a double: its shortest decimal in positional notation, `inf`, `-inf`
and `NaN`. -/
def text (d : Double) : String :=
  if d.isNaN then "NaN"
  else
    (if d.isNegative then "-" else "")
      ++ if d.isInfinite then "inf" else d.shortest.positional

end DocStore.Double
