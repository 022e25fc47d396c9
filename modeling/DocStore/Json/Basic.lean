import DocStore.Double.Basic
import DocStore.Keyed

/-!
# JSON values

A number is an integer, if it fits in 64 bits with or without sign, or a double.  The
fields of an object are a list: as a reader finds them, in the order of the text; in a
canonical value (`Json.canonical`), sorted by key with the last of equal keys kept.
-/

namespace DocStore

inductive Json where
  | null
  | bool (b : Bool)
  | integer (n : Int)
  | double (d : Double)
  | string (s : String)
  | array (items : List Json)
  | object (fields : List (String × Json))
  deriving Inhabited

namespace Json

mutual

/-- The value with the fields of every object sorted, the last of equal keys kept. -/
def canonical : Json → Json
  | array items => array (canonicalItems items)
  | object fields => object (Keyed.ofList (canonicalFields fields))
  | j => j

def canonicalItems : List Json → List Json
  | [] => []
  | j :: rest => j.canonical :: canonicalItems rest

def canonicalFields : List (String × Json) → List (String × Json)
  | [] => []
  | (k, j) :: rest => (k, j.canonical) :: canonicalFields rest

end

/-- The value of a field of an object. -/
def field? (key : String) : Json → Option Json
  | object fields => Keyed.get? key fields
  | _ => none

/-- The object of some fields, sorted by key. -/
def ofFields (fields : List (String × Json)) : Json := object (Keyed.ofList fields)

def asString? : Json → Option String
  | string s => some s
  | _ => none

def asArray? : Json → Option (List Json)
  | array items => some items
  | _ => none

def asObject? : Json → Option (List (String × Json))
  | object fields => some fields
  | _ => none

def isNull : Json → Bool
  | null => true
  | _ => false

end Json

end DocStore
