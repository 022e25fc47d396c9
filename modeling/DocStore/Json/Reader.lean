import DocStore.Json.Basic
import DocStore.Number.Digits
import DocStore.Number.Power

/-!
# Reading JSON

A recursive reader over the characters of the text.  Each part of it takes the
characters it needs and gives back the rest.  Arrays and objects nest at most 127
deep.  A number with a point or an exponent, or beyond 64 bits, is a double: the
digits that fit in 64 bits are scaled by a power of ten in one or more rounded steps,
and a result beyond the largest double is refused.
-/

namespace DocStore.Json.Reader

open DocStore.Number

/-- The blanks of JSON. -/
def isSpace (c : Char) : Bool := c == ' ' || c == '\n' || c == '\t' || c == '\r'

/-- The text from its first character that is no blank. -/
def skip (cs : List Char) : List Char := cs.dropWhile isSpace

/-- What follows `word`, if the text starts with it. -/
def expect? : List Char → List Char → Option (List Char)
  | [], cs => some cs
  | w :: ws, c :: cs => if w == c then expect? ws cs else none
  | _ :: _, [] => none

/-! ## Strings -/

/-- A unit of 16 bits, written in four hexadecimal digits. -/
def unit? : List Char → Option (Nat × List Char)
  | a :: b :: c :: d :: rest => do
    let a ← hexDigit? a
    let b ← hexDigit? b
    let c ← hexDigit? c
    let d ← hexDigit? d
    some (((a * 16 + b) * 16 + c) * 16 + d, rest)
  | _ => none

/-- The character of a numeric escape, after its `u`.  A unit of the range of
surrogates needs its partner. -/
def escapedUnit? (cs : List Char) : Option (Char × List Char) := do
  let (high, rest) ← unit? cs
  if high < 0xd800 || 0xdfff < high then some (Char.ofNat high, rest)
  else if 0xdc00 ≤ high then none
  else
    match rest with
    | '\\' :: 'u' :: rest =>
      let (low, rest) ← unit? rest
      if low < 0xdc00 || 0xdfff < low then none
      else some (Char.ofNat (0x10000 + (high - 0xd800) * 0x400 + (low - 0xdc00)), rest)
    | _ => none

/-- The character of an escape, after the backslash. -/
def escaped? : List Char → Option (Char × List Char)
  | '"' :: rest => some ('"', rest)
  | '\\' :: rest => some ('\\', rest)
  | '/' :: rest => some ('/', rest)
  | 'b' :: rest => some ('\x08', rest)
  | 'f' :: rest => some ('\x0c', rest)
  | 'n' :: rest => some ('\n', rest)
  | 'r' :: rest => some ('\r', rest)
  | 't' :: rest => some ('\t', rest)
  | 'u' :: rest => escapedUnit? rest
  | _ => none

/-- The characters up to the closing quote, in reverse after those read before.  Every
round takes at least one character, so the length of the text is fuel enough. -/
def stringBody? : Nat → List Char → List Char → Option (List Char × List Char)
  | 0, _, _ => none
  | fuel + 1, done, cs =>
    match cs with
    | [] => none
    | '"' :: rest => some (done, rest)
    | '\\' :: rest =>
      match escaped? rest with
      | some (c, rest) => stringBody? fuel (c :: done) rest
      | none => none
    | c :: rest => if c.toNat < 0x20 then none else stringBody? fuel (c :: done) rest

/-- A string, after its opening quote. -/
def string? (cs : List Char) : Option (String × List Char) :=
  (stringBody? (cs.length + 1) [] cs).map fun (done, rest) => (String.ofList done.reverse, rest)

/-! ## Numbers -/

/-- The largest power of ten among the doubles. -/
def maxPower : Nat := 308

/-- The double nearest to a power of ten. -/
def powerOfTen (n : Nat) : Double := Double.ofRatio false (power 10 n) 1

/-- `d * 10 ^ exponent`, by one rounded multiplication or division, after divisions by
the largest power of ten while the exponent is below its range. -/
def scaled? (d : Double) (exponent : Int) : Option Double :=
  if d.isZero then some d
  else if maxPower < exponent then none
  else if 0 ≤ exponent then
    let product := d.mul (powerOfTen exponent.toNat)
    if product.isInfinite then none else some product
  else
    -- after four of these divisions every double is zero
    let rounds := min 4 (((-exponent).toNat - 1) / maxPower)
    let d := (List.range rounds).foldl (fun d _ => d.div (powerOfTen maxPower)) d
    let rest := (-exponent).toNat - rounds * maxPower
    some (if d.isZero then d else d.div (powerOfTen (min rest maxPower)))

/-- The double with a sign, the digits read and the power of ten to scale them by. -/
def fromParts? (negative : Bool) (digits : Nat) (exponent : Int) : Option Double :=
  (scaled? (Double.ofInt digits) exponent).map fun d => if negative then d.neg else d

/-- The digits that fit in 64 bits, and those that do not. -/
def takeDigits : Nat → List Char → Nat × List Char
  | n, c :: cs =>
    match digit? c with
    | some d =>
      if 10 * n + d < 0x10000000000000000 then takeDigits (10 * n + d) cs else (n, c :: cs)
    | none => (n, c :: cs)
  | n, [] => (n, [])

/-- The exponent after its letter, if any: an optional sign and at least one digit. -/
def withExponent? (negative : Bool) (digits : Nat) (exponent : Int) (cs : List Char) :
    Option (Double × List Char) :=
  match cs with
  | c :: rest =>
    if c == 'e' || c == 'E' then
      let (down, rest) :=
        match rest with
        | '+' :: rest => (false, rest)
        | '-' :: rest => (true, rest)
        | rest => (false, rest)
      let (ds, rest) := spanDigits rest
      if ds.isEmpty then none
      else
        let e := Int.ofNat (ofDigits ds)
        (fromParts? negative digits (exponent + if down then -e else e)).map (·, rest)
    else (fromParts? negative digits exponent).map (·, cs)
  | [] => (fromParts? negative digits exponent).map (·, cs)

/-- The part of a number after the integer digits that were kept. -/
def withFraction? (negative : Bool) (digits : Nat) (exponent : Int) (cs : List Char) :
    Option (Double × List Char) :=
  match cs with
  | '.' :: rest =>
    match rest with
    | c :: _ =>
      if isDigit c then
        let (kept, after) := takeDigits digits rest
        let places := Int.ofNat (rest.length - after.length)
        withExponent? negative kept (exponent - places) (spanDigits after).2
      else none
    | [] => none
  | cs => withExponent? negative digits exponent cs

/-- A number, after its sign. -/
def number? (negative : Bool) (cs : List Char) : Option (Json × List Char) :=
  match cs with
  | '0' :: c :: rest =>
    if isDigit c then none else finish 0 (c :: rest)
  | c :: _ =>
    if isDigit c then
      let (n, rest) := takeDigits 0 cs
      match rest with
      | d :: _ =>
        if isDigit d then
          let (dropped, rest) := spanDigits rest
          (withFraction? negative n (Int.ofNat dropped.length) rest).map
            fun (d, rest) => (.double d, rest)
        else finish n rest
      | [] => finish n rest
    else none
  | [] => none
where
  /-- A number whose integer digits fit in 64 bits. -/
  finish (n : Nat) (cs : List Char) : Option (Json × List Char) :=
    let isInteger :=
      match cs with
      | c :: _ => !(c == '.' || c == 'e' || c == 'E')
      | [] => true
    if isInteger then
      if !negative then some (.integer n, cs)
      else if n = 0 || 0x8000000000000000 < n then some (.double (Double.ofInt n).neg, cs)
      else some (.integer (-Int.ofNat n), cs)
    else (withFraction? negative n 0 cs).map fun (d, rest) => (.double d, rest)

/-! ## Values -/

/-- The items of an array up to its bracket, in reverse after those read before; the
text stands at an item. -/
def items? (value? : List Char → Option (Json × List Char)) :
    Nat → List Json → List Char → Option (List Json × List Char)
  | 0, _, _ => none
  | fuel + 1, done, cs =>
    match value? cs with
    | none => none
    | some (j, rest) =>
      match skip rest with
      | ',' :: rest => items? value? fuel (j :: done) rest
      | ']' :: rest => some ((j :: done).reverse, rest)
      | _ => none

/-- The fields of an object up to its brace, in reverse after those read before; the
text stands at a key.  How the value of a field is read may depend on its key. -/
def fields? (value? : String → List Char → Option (Json × List Char)) :
    Nat → List (String × Json) → List Char → Option (List (String × Json) × List Char)
  | 0, _, _ => none
  | fuel + 1, done, cs =>
    match skip cs with
    | '"' :: rest =>
      match string? rest with
      | none => none
      | some (key, rest) =>
        match skip rest with
        | ':' :: rest =>
          match value? key rest with
          | none => none
          | some (j, rest) =>
            match skip rest with
            | ',' :: rest => fields? value? fuel ((key, j) :: done) rest
            | '}' :: rest => some (((key, j) :: done).reverse, rest)
            | _ => none
        | _ => none
    | _ => none

/-- A value, nested at most one level less deep than the first argument says. -/
def value? : Nat → List Char → Option (Json × List Char)
  | 0, _ => none
  | depth + 1, cs =>
    match skip cs with
    | 'n' :: rest => (expect? ['u', 'l', 'l'] rest).map (.null, ·)
    | 't' :: rest => (expect? ['r', 'u', 'e'] rest).map (.bool true, ·)
    | 'f' :: rest => (expect? ['a', 'l', 's', 'e'] rest).map (.bool false, ·)
    | '"' :: rest => (string? rest).map fun (s, rest) => (.string s, rest)
    | '[' :: rest =>
      if depth = 0 then none
      else
        match skip rest with
        | ']' :: rest => some (.array [], rest)
        | rest =>
          (items? (value? depth) (rest.length + 1) [] rest).map
            fun (items, rest) => (.array items, rest)
    | '{' :: rest =>
      if depth = 0 then none
      else
        match skip rest with
        | '}' :: rest => some (.object [], rest)
        | rest =>
          (fields? (fun _ => value? depth) (rest.length + 1) [] rest).map
            fun (fields, rest) => (.object fields, rest)
    | '-' :: rest => number? true rest
    | rest => number? false rest

/-- One more than the depth to which arrays and objects nest. -/
def depthLimit : Nat := 128

end Reader

/-- The value that a text denotes, its fields in the order of the text. -/
def read? (s : String) : Option Json :=
  match Reader.value? Reader.depthLimit s.toList with
  | some (j, rest) => if (Reader.skip rest).isEmpty then some j else none
  | none => none

/-- The canonical value that a text denotes. -/
def parse? (s : String) : Option Json := (read? s).map canonical

end DocStore.Json
