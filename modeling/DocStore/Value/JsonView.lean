import DocStore.Value.Basic
import DocStore.Json.Basic
import DocStore.Text.Base64

/-!
# The plain JSON view of values

JSON without types: timestamps and bytes become strings, markers and numbers that JSON
cannot hold become null.  Read back, integers beyond 63 bits become doubles.
-/

namespace DocStore.Value

mutual

/-- The value of a JSON value. -/
def ofJson : Json → Value
  | .null => null
  | .bool b => boolean b
  | .integer n => ofInt n
  | .double d => double d
  | .string s => string s
  | .array items => array (itemsOfJson items)
  | .object fields => map (fieldsOfJson fields)

def itemsOfJson : List Json → List Value
  | [] => []
  | j :: rest => ofJson j :: itemsOfJson rest

def fieldsOfJson : List (String × Json) → Fields
  | [] => []
  | (k, j) :: rest => (k, ofJson j) :: fieldsOfJson rest

end

mutual

/-- The JSON view of a value. -/
def toJson : Value → Json
  | null => .null
  | boolean b => .bool b
  | integer n => .integer n.toInt
  | double d => if d.isFinite then .double d else .null
  | timestamp t => .string t.text
  | string s => .string s
  | bytes b => .string (Text.Base64.encode b)
  | reference path => .string path
  | array items => .array (itemsToJson items)
  | map fields => .object (fieldsToJson fields)
  | increment _ => .null
  | deleteField => .null

def itemsToJson : List Value → List Json
  | [] => []
  | v :: rest => v.toJson :: itemsToJson rest

def fieldsToJson : Fields → List (String × Json)
  | [] => []
  | (k, v) :: rest => (k, v.toJson) :: fieldsToJson rest

end

end DocStore.Value
