import DocStore.Double.Basic
import DocStore.Time.Timestamp
import DocStore.Keyed

/-!
# Values

The values that a document can hold, and two write-only markers: `increment`, which
adds its operand to the number that is stored, and `deleteField`, which removes the
field.  The fields of a map are sorted by name, each name once.
-/

namespace DocStore

inductive Value where
  | null
  | boolean (b : Bool)
  | integer (n : Int64)
  | double (d : Double)
  | timestamp (t : Timestamp)
  | string (s : String)
  | bytes (b : List UInt8)
  /-- A document, by its path below the root of the database. -/
  | reference (path : String)
  | array (items : List Value)
  | map (fields : List (String × Value))
  /-- Adds the operand to the stored number. -/
  | increment (operand : Value)
  /-- Removes the field. -/
  | deleteField
  deriving Inhabited, Repr

/-- The fields of a map or a document, sorted by name. -/
abbrev Fields := List (String × Value)

namespace Value

/-- A number: an integer if it fits in 64 bits, else a double. -/
def ofInt (n : Int) : Value :=
  match Number.int64? n with
  | some n => integer n
  | none => double (Double.ofInt n)

def isNull : Value → Bool
  | null => true
  | _ => false

def isNumeric : Value → Bool
  | integer _ | double _ => true
  | _ => false

/-- The value is a write-only marker. -/
def isMarker : Value → Bool
  | increment _ | deleteField => true
  | _ => false

def isDeleteField : Value → Bool
  | deleteField => true
  | _ => false

/-- A number as a double; integers are rounded. -/
def asDouble? : Value → Option Double
  | integer n => some (Double.ofInt n.toInt)
  | double d => some d
  | _ => none

def asInteger? : Value → Option Int64
  | integer n => some n
  | _ => none

/-- The text of a string or a reference. -/
def asText? : Value → Option String
  | string s | reference s => some s
  | _ => none

def asMap? : Value → Option Fields
  | map fields => some fields
  | _ => none

def asArray? : Value → Option (List Value)
  | array items => some items
  | _ => none

/-- The name of a kind of value. -/
def kindName : Value → String
  | null => "null"
  | boolean _ => "boolean"
  | integer _ => "integer"
  | double _ => "double"
  | timestamp _ => "timestamp"
  | string _ => "string"
  | bytes _ => "bytes"
  | reference _ => "reference"
  | array _ => "array"
  | map _ => "map"
  | increment _ | deleteField => "sentinel"

mutual

/-- The same kind and the same content.  Doubles are compared as numbers, so a NaN is
not equal to itself. -/
def equals : Value → Value → Bool
  | null, null => true
  | boolean a, boolean b => a == b
  | integer a, integer b => a == b
  | double a, double b => a.equals b
  | timestamp a, timestamp b => a == b
  | string a, string b => a == b
  | bytes a, bytes b => a == b
  | reference a, reference b => a == b
  | array a, array b => equalItems a b
  | map a, map b => equalFields a b
  | increment a, increment b => a.equals b
  | deleteField, deleteField => true
  | _, _ => false

def equalItems : List Value → List Value → Bool
  | [], [] => true
  | a :: as, b :: bs => a.equals b && equalItems as bs
  | _, _ => false

def equalFields : Fields → Fields → Bool
  | [], [] => true
  | (k, a) :: as, (l, b) :: bs => k == l && a.equals b && equalFields as bs
  | _, _ => false

end

mutual

/-- No write-only marker occurs in the value. -/
def isPlain : Value → Bool
  | array items => plainItems items
  | map fields => plainFields fields
  | increment _ | deleteField => false
  | _ => true

def plainItems : List Value → Bool
  | [] => true
  | v :: rest => v.isPlain && plainItems rest

def plainFields : Fields → Bool
  | [] => true
  | (_, v) :: rest => v.isPlain && plainFields rest

end

end Value

end DocStore
