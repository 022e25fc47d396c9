import DocStore.Json.Basic
import DocStore.Double.Shortest
import DocStore.Number.Integer

/-!
# Writing JSON

Compact text: no blanks, the fields of an object in their order, only what must be
escaped escaped.  A double is written in positional notation when its point lies
within or near its digits, else with an exponent; it always has one of the two.
-/

namespace DocStore.Json

open DocStore.Number

/-- A digit in base sixteen. -/
def hexChar (n : Nat) : Char := (Nat.digitChar (n % 16))

/-- A character inside a string. -/
def escapeChar (c : Char) : List Char :=
  if c == '"' then ['\\', '"']
  else if c == '\\' then ['\\', '\\']
  else if c == '\n' then ['\\', 'n']
  else if c == '\r' then ['\\', 'r']
  else if c == '\t' then ['\\', 't']
  else if c == '\x08' then ['\\', 'b']
  else if c == '\x0c' then ['\\', 'f']
  else if c.toNat < 0x20 then
    ['\\', 'u', '0', '0', hexChar (c.toNat / 16), hexChar c.toNat]
  else [c]

/-- A string between its quotes. -/
def quoted (s : String) : String :=
  String.ofList ('"' :: s.toList.flatMap escapeChar ++ ['"'])

/-- The number of a finite double. -/
def doubleText (d : Double) : String :=
  let sign := if d.isNegative then ['-'] else []
  let decimal := d.shortest
  let digits := ((Nat.toDigits 10 decimal.coefficient).reverse.dropWhile (· == '0')).reverse
  if digits.isEmpty then String.ofList (sign ++ ['0', '.', '0'])
  else
    let size := Int.ofNat digits.length
    let point := decimal.exponent + Int.ofNat (digitCount decimal.coefficient)
    let body :=
      if size ≤ point && point ≤ 16 then
        digits ++ List.replicate (point - size).toNat '0' ++ ['.', '0']
      else if 0 < point && point ≤ 16 then
        digits.take point.toNat ++ '.' :: digits.drop point.toNat
      else if -5 < point && point ≤ 0 then
        ['0', '.'] ++ List.replicate (-point).toNat '0' ++ digits
      else
        let exponent := 'e' :: (intText (point - 1)).toList
        if digits.length = 1 then digits ++ exponent
        else digits.take 1 ++ '.' :: digits.drop 1 ++ exponent
    String.ofList (sign ++ body)

mutual

/-- The text of a value.  A double that is no number is written as `null`. -/
def render : Json → String
  | null => "null"
  | bool true => "true"
  | bool false => "false"
  | integer n => intText n
  | double d => if d.isFinite then doubleText d else "null"
  | string s => quoted s
  | array items => "[" ++ String.intercalate "," (renderItems items) ++ "]"
  | object fields => "\x7b" ++ String.intercalate "," (renderFields fields) ++ "\x7d"

def renderItems : List Json → List String
  | [] => []
  | j :: rest => j.render :: renderItems rest

def renderFields : List (String × Json) → List String
  | [] => []
  | (k, j) :: rest => (quoted k ++ ":" ++ j.render) :: renderFields rest

end

end DocStore.Json
