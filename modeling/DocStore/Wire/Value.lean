import DocStore.Double.Reader
import DocStore.Json.Basic
import DocStore.Number.Integer
import DocStore.Text.Base64
import DocStore.Value.Basic
import DocStore.Wire.Names

/-!
# Values on the wire

A value is an object with one field, whose name tells the kind.  Integers are strings,
timestamps follow RFC 3339, bytes are in base64, and a reference is the name of a
document.  Doubles that are no numbers of JSON are written as `null`; read are also the
names `NaN`, `Infinity` and `-Infinity` and other strings that denote doubles.
-/

namespace DocStore.Wire

/-- The object with one field. -/
def single (key : String) (j : Json) : Json := .object [(key, j)]

mutual

/-- The wire form of a value.  A marker has none and is written as null. -/
def ofValue (db : DatabaseId) : Value → Json
  | .null => single "nullValue" .null
  | .boolean b => single "booleanValue" (.bool b)
  | .integer n => single "integerValue" (.string (Number.intText n.toInt))
  | .double d => single "doubleValue" (if d.isFinite then .double d else .null)
  | .timestamp t => single "timestampValue" (.string t.text)
  | .string s => single "stringValue" (.string s)
  | .bytes b => single "bytesValue" (.string (Text.Base64.encode b))
  | .reference path => single "referenceValue" (.string (db.referenceName path))
  | .array items => single "arrayValue" (single "values" (.array (ofItems db items)))
  | .map fields => single "mapValue" (single "fields" (.object (ofFields db fields)))
  | .increment _ => single "nullValue" .null
  | .deleteField => single "nullValue" .null

def ofItems (db : DatabaseId) : List Value → List Json
  | [] => []
  | v :: rest => ofValue db v :: ofItems db rest

/-- The wire form of fields; markers are left out. -/
def ofFields (db : DatabaseId) : Fields → List (String × Json)
  | [] => []
  | (name, v) :: rest =>
    if v.isMarker then ofFields db rest else (name, ofValue db v) :: ofFields db rest

end

/-! ## Reading -/

/-- A malformed value. -/
def refuse {α : Type} (message : String) : Outcome α := throw (.invalidArgument message)

/-- An integer: a string, or a number that fits. -/
def readInteger : Json → Outcome Int64
  | .string s =>
    match Number.int64OfText s with
    | .ok n => pure n
    | .error fault => refuse ("Invalid integerValue: " ++ fault.message)
  | .integer n =>
    match Number.int64? n with
    | some n => pure n
    | none => refuse "Integer out of range"
  | .double _ => refuse "Integer out of range"
  | _ => refuse "integerValue must be a string or number"

/-- A double: a number, or a string that denotes one. -/
def readDouble : Json → Outcome Double
  | .integer n => pure (Double.ofInt n)
  | .double d => pure d
  | .string s =>
    match Double.ofText s with
    | .ok d => pure d
    | .error fault => refuse ("Invalid doubleValue: " ++ fault.message)
  | _ => refuse "doubleValue must be a number or string"

/-- A string of a kind of value, with the complaint if it is none. -/
def readText (complaint : String) : Json → Outcome String
  | .string s => pure s
  | _ => refuse complaint

/-- Bytes in base64. -/
def readBytes (s : String) : Outcome Value :=
  match Text.Base64.decode? s with
  | some b => pure (.bytes b)
  | none => refuse "Invalid bytesValue: not in padded base64"

/-- A value that holds no other values, by the name of its kind. -/
def readScalar (db : DatabaseId) (kind : String) (j : Json) : Outcome Value :=
  if kind == "nullValue" then pure .null
  else if kind == "booleanValue" then
    match j with
    | .bool b => pure (.boolean b)
    | _ => refuse "booleanValue must be bool"
  else if kind == "integerValue" then do return .integer (← readInteger j)
  else if kind == "doubleValue" then do return .double (← readDouble j)
  else if kind == "timestampValue" then do
    return .timestamp (← Timestamp.ofText (← readText "timestampValue must be string" j))
  else if kind == "stringValue" then do
    return .string (← readText "stringValue must be string" j)
  else if kind == "bytesValue" then do
    readBytes (← readText "bytesValue must be base64 string" j)
  else if kind == "referenceValue" then do
    return .reference (← db.relativePath (← readText "referenceValue must be string" j))
  else refuse ("Unknown Firestore value type '" ++ kind ++ "'")

mutual

/-- The value of a wire form; of several fields the first counts. -/
def toValue (db : DatabaseId) : Json → Outcome Value
  | .object ((kind, .object inner) :: _) =>
    if kind == "arrayValue" then do return .array (← arrayItems db inner)
    else if kind == "mapValue" then do return .map (← mapFields db inner)
    else readScalar db kind (.object inner)
  | .object ((kind, j) :: _) =>
    if kind == "arrayValue" then pure (.array [])
    else if kind == "mapValue" then pure (.map [])
    else readScalar db kind j
  | .object [] => refuse "Empty Firestore value object"
  | _ => refuse "Expected Firestore value object"

/-- The items in the field `values`; none if there is no such list. -/
def arrayItems (db : DatabaseId) : List (String × Json) → Outcome (List Value)
  | [] => pure []
  | (name, .array items) :: rest =>
    if name == "values" then toItems db items else arrayItems db rest
  | (name, _) :: rest => if name == "values" then pure [] else arrayItems db rest

/-- The fields in the field `fields`; none if it is missing. -/
def mapFields (db : DatabaseId) : List (String × Json) → Outcome Fields
  | [] => pure []
  | (name, .object fields) :: rest =>
    if name == "fields" then toFields db fields else mapFields db rest
  | (name, _) :: rest =>
    if name == "fields" then refuse "Expected 'fields' to be an object" else mapFields db rest

def toItems (db : DatabaseId) : List Json → Outcome (List Value)
  | [] => pure []
  | j :: rest => do
    let v ← toValue db j
    return v :: (← toItems db rest)

def toFields (db : DatabaseId) : List (String × Json) → Outcome Fields
  | [] => pure []
  | (name, j) :: rest => do
    let v ← toValue db j
    return (name, v) :: (← toFields db rest)

end

/-- The fields of a document of the wire; a document without fields is empty. -/
def documentFields (db : DatabaseId) : Json → Outcome Fields
  | .object fields => mapFields db fields
  | _ => pure []

end DocStore.Wire
