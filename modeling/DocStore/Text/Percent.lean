/-!
# Percent encoding

A segment of a URL: letters and digits of ASCII and the characters `- _ . ~ ( )` stand
for themselves, every other byte of the text in UTF-8 is written as `%` and two
hexadecimal digits.
-/

namespace DocStore.Text.Percent

/-- The byte stands for itself. -/
def isKept (b : UInt8) : Bool :=
  let n := b.toNat
  (0x30 ≤ n && n ≤ 0x39) || (0x41 ≤ n && n ≤ 0x5a) || (0x61 ≤ n && n ≤ 0x7a)
    || n == 0x2d || n == 0x5f || n == 0x2e || n == 0x7e || n == 0x28 || n == 0x29

/-- A hexadecimal digit in upper case. -/
def hexDigit (n : Nat) : Char :=
  if n < 10 then Char.ofNat ('0'.toNat + n) else Char.ofNat ('A'.toNat + (n - 10))

/-- A byte in a segment. -/
def encodeByte (b : UInt8) : List Char :=
  if isKept b then [Char.ofNat b.toNat]
  else ['%', hexDigit (b.toNat / 16), hexDigit (b.toNat % 16)]

/-- The bytes of a text in UTF-8. -/
def bytes (s : String) : List UInt8 := s.toUTF8.toList

/-- The text as a segment. -/
def encode (s : String) : String := String.ofList ((bytes s).flatMap encodeByte)

end DocStore.Text.Percent
