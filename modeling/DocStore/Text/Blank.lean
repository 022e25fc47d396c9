/-!
# Blank characters

The characters with the Unicode property `White_Space`, and trimming by it.
-/

namespace DocStore.Text

/-- The characters with the Unicode property `White_Space`. -/
def isBlank (c : Char) : Bool :=
  let n := c.toNat
  (0x09 ≤ n && n ≤ 0x0d) || n == 0x20 || n == 0x85 || n == 0xa0 || n == 0x1680
    || (0x2000 ≤ n && n ≤ 0x200a) || n == 0x2028 || n == 0x2029 || n == 0x202f
    || n == 0x205f || n == 0x3000

/-- The characters that remain when those with property `p` are taken from both ends. -/
def stripChars (p : Char → Bool) (cs : List Char) : List Char :=
  ((cs.dropWhile p).reverse.dropWhile p).reverse

/-- The text that remains when characters with property `p` are taken from both ends. -/
def strip (p : Char → Bool) (s : String) : String := String.ofList (stripChars p s.toList)

/-- The text without the blanks around it. -/
def trim (s : String) : String := strip isBlank s

/-- The text holds nothing but blanks. -/
def isAllBlank (s : String) : Bool := s.toList.all isBlank

end DocStore.Text
