import DocStore.Number.Digits
import DocStore.Number.Power
import DocStore.Tagged.Basic
import DocStore.Value.Basic

/-!
# Tagged values

Null, booleans, integers, strings and arrays stand for themselves.  The tags of the other
kinds are `$d` for the bits of a double in hexadecimal digits, `$ts` for the seconds and
nanoseconds of a timestamp, `$b` for bytes in hexadecimal digits, `$ref` for the path of a
reference, `$m` for the fields of a map, `$inc` for the operand of an increment, and `$del`
for the marker that deletes a field.  All NaNs are written alike.
-/

namespace DocStore.Tagged

/-! ## Writing -/

/-- The last `count` hexadecimal digits of a number. -/
def hexText (count n : Nat) : String :=
  String.ofList ((Number.lastDigits 16 count n).map Nat.digitChar)

def ofDouble (d : Double) : Json :=
  obj [("$d", str (if d.isNaN then "nan" else hexText 16 d.bits.toNat))]

def ofTime (t : Timestamp) : Json := .array [.integer t.seconds.toInt, .integer t.nanos.toInt]

mutual

/-- The tagged form of a value. -/
def ofValue : Value → Json
  | .null => .null
  | .boolean b => .bool b
  | .integer n => .integer n.toInt
  | .double d => ofDouble d
  | .timestamp t => obj [("$ts", ofTime t)]
  | .string s => str s
  | .bytes b => obj [("$b", str (String.join (b.map fun byte => hexText 2 byte.toNat)))]
  | .reference path => obj [("$ref", str path)]
  | .array items => .array (ofItems items)
  | .map fields => obj [("$m", .object (ofEntries fields))]
  | .increment operand => obj [("$inc", ofValue operand)]
  | .deleteField => obj [("$del", .bool true)]

def ofItems : List Value → List Json
  | [] => []
  | v :: rest => ofValue v :: ofItems rest

def ofEntries : Fields → List (String × Json)
  | [] => []
  | (name, v) :: rest => (name, ofValue v) :: ofEntries rest

end

def ofValues (values : List Value) : Json := .array (ofItems values)

def ofFields (fields : Fields) : Json := .object (ofEntries fields)

/-- A value in the field `some`, or null. -/
def ofOption (v : Option Value) : Json := orNull (fun v => obj [("some", ofValue v)]) v

mutual

/-- Plain JSON with its doubles tagged. -/
def ofPlain : Json → Json
  | .double d => ofDouble d
  | .array items => .array (ofPlainItems items)
  | .object fields => .object (ofPlainFields fields)
  | j => j

def ofPlainItems : List Json → List Json
  | [] => []
  | j :: rest => ofPlain j :: ofPlainItems rest

def ofPlainFields : List (String × Json) → List (String × Json)
  | [] => []
  | (name, j) :: rest => (name, ofPlain j) :: ofPlainFields rest

end

/-! ## Reading -/

/-- The number written by hexadecimal digits. -/
def hexValue? (cs : List Char) : Option Nat :=
  cs.foldlM (fun n c => (Number.hexDigit? c).map (16 * n + ·)) 0

/-- The bytes of pairs of hexadecimal digits. -/
def bytes? : List Char → Option (List UInt8)
  | [] => some []
  | [_] => none
  | a :: b :: rest => do
    let byte ← hexValue? [a, b]
    return UInt8.ofNat byte :: (← bytes? rest)

/-- The double of its bits. -/
def double? (digits : String) : Option Double :=
  if digits == "nan" then some .nan
  else (hexValue? digits.toList).map fun n => ⟨UInt64.ofNat n⟩

/-- The normal timestamp of seconds and nanoseconds. -/
def timeOf (seconds nanos : Int) : Timestamp :=
  Timestamp.normal (Int64.ofInt seconds) (Int32.ofInt nanos)

/-- A value whose tag holds no other values. -/
def toScalar (tag : String) (j : Json) : Reading Value :=
  match tag, j with
  | "$d", .string digits =>
    match double? digits with
    | some d => pure (.double d)
    | none => malformed "bad double"
  | "$ts", .array [.integer seconds, .integer nanos] =>
    pure (.timestamp (timeOf seconds nanos))
  | "$b", .string digits =>
    match bytes? digits.toList with
    | some b => pure (.bytes b)
    | none => malformed "bad bytes"
  | "$ref", .string path => pure (.reference path)
  | "$del", _ => pure .deleteField
  | _, _ => malformed "bad value"

mutual

/-- The value of a tagged form. -/
def toValue : Json → Reading Value
  | .null => pure .null
  | .bool b => pure (.boolean b)
  | .integer n => pure (.ofInt n)
  | .double d => pure (.double d)
  | .string s => pure (.string s)
  | .array items => do return .array (← toItems items)
  | .object [(tag, .object fields)] =>
    if tag == "$m" then do return .map (← toEntries fields)
    else if tag == "$inc" then do return .increment (← toValue (.object fields))
    else toScalar tag (.object fields)
  | .object [(tag, j)] =>
    if tag == "$inc" then do return .increment (← toValue j) else toScalar tag j
  | .object _ => malformed "bad value"

def toItems : List Json → Reading (List Value)
  | [] => pure []
  | j :: rest => do
    let v ← toValue j
    return v :: (← toItems rest)

def toEntries : List (String × Json) → Reading Fields
  | [] => pure []
  | (name, j) :: rest => do
    let v ← toValue j
    return (name, v) :: (← toEntries rest)

end

/-- Fields by their names. -/
def toFields : Json → Reading Fields
  | .object fields => toEntries fields
  | _ => malformed "bad fields"

def toValues (name : String) (j : Json) : Reading (List Value) := do
  toItems (← asList name j)

def needValue (name : String) (j : Json) : Reading Value := do toValue (← need name j)

def needValues (name : String) (j : Json) : Reading (List Value) := do
  toValues name (← need name j)

def needFields (name : String) (j : Json) : Reading Fields := do toFields (← need name j)

/-- Fields that may be missing. -/
def fieldsOr (name : String) (j : Json) : Reading Fields :=
  match given? name j with
  | some data => toFields data
  | none => pure []

/-- One record or a list of them. -/
def toRecords : Json → Reading (List Fields)
  | .array items => items.mapM toFields
  | j => do return [← toFields j]

def argValue (args : List Json) (n : Nat) : Reading Value := do toValue (← arg args n)

def argValues (args : List Json) (n : Nat) : Reading (List Value) := do
  toItems (← argList args n)

end DocStore.Tagged
