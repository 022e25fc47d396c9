import DocStore.Document.Write
import DocStore.Value.Fields
import DocStore.Number.Integer

/-!
# Encoding data for a write

Data with markers is split into plain fields, increments and, for a merge, the mask:
the paths of the plain leaves and of the fields to delete, in order of the data.  A leaf
is a value that is no map, or an empty map.  A map that holds nothing but markers is
left out of the plain fields.
-/

namespace DocStore

/-- The data of a write. -/
structure EncodedData where
  fields : Fields
  /-- The paths that a merge touches; none for a write of the whole document. -/
  mask : Option (List FieldPath)
  increments : List Increment
  deriving Inhabited, Repr

/-- Plain fields, increments and mask, as they are gathered. -/
structure SplitData where
  fields : Fields := []
  increments : List Increment := []
  mask : List FieldPath := []
  deriving Inhabited, Repr

namespace SplitData

/-- The parts of two pieces of data, one after the other. -/
def append (a b : SplitData) : SplitData :=
  { fields := a.fields ++ b.fields
    increments := a.increments ++ b.increments
    mask := a.mask ++ b.mask }

mutual

/-- The parts of the value of one field. -/
def ofValue (merge : Bool) (name : String) (path : FieldPath) : Value → Outcome SplitData
  | .deleteField =>
    if merge then pure { mask := [path] }
    else
      throw (.invalidArgument
        ("delete_field() can only be used in merge writes (field '" ++ path.text ++ "')"))
  | .increment operand =>
    if operand.isNumeric then pure { increments := [⟨path, operand⟩] }
    else
      throw (.invalidArgument
        ("increment requires a numeric operand (field '" ++ path.text ++ "')"))
  | .map (first :: rest) => do
    let inner ← ofFields merge path.segments (first :: rest)
    let fields := if inner.fields.isEmpty then [] else [(name, .map inner.fields)]
    return { inner with fields }
  | v =>
    if v.isPlain then pure { fields := [(name, v)], mask := [path] }
    else
      throw (.invalidArgument
        ("Sentinel values cannot be nested inside arrays (field '" ++ path.text ++ "')"))

/-- The parts of all fields below some names. -/
def ofFields (merge : Bool) (parent : List String) : Fields → Outcome SplitData
  | [] => pure {}
  | (name, v) :: rest => do
    let path ← FieldPath.ofSegments (parent ++ [name])
    let here ← ofValue merge name path v
    return here.append (← ofFields merge parent rest)

end

end SplitData

/-- The list without the entries whose key came before. -/
def keepFirst {α κ : Type} [BEq κ] (key : α → κ) : List α → List κ → List α
  | [], _ => []
  | a :: rest, seen =>
    if seen.contains (key a) then keepFirst key rest seen
    else a :: keepFirst key rest (key a :: seen)

/-- The data of a write that sets a whole document, or merges fields into one. -/
def encodeSet (merge : Bool) (data : Fields) : Outcome EncodedData := do
  let parts ← SplitData.ofFields merge [] data
  if merge then
    let mask := keepFirst FieldPath.text parts.mask []
    if mask.isEmpty && parts.increments.isEmpty then
      throw (.invalidArgument "merge set requires the data to contain at least one field")
    return ⟨parts.fields, some mask, parts.increments⟩
  else return ⟨parts.fields, none, parts.increments⟩

/-- The data of a write that creates a document. -/
def encodeCreate (data : Fields) : Outcome EncodedData := encodeSet false data

/-- The data without the document id, and the id. -/
def stripDocumentId (data : Fields) : Fields × Option Value :=
  match Keyed.get? FieldPath.documentIdName data with
  | some id => (Keyed.erase FieldPath.documentIdName data, some id)
  | none => (data, none)

/-- The data of an update; none if there is nothing besides the document id. -/
def encodeUpdate (data : Fields) : Outcome (Option EncodedData) :=
  let fields := (stripDocumentId data).1
  if fields.isEmpty then pure none else (encodeSet true fields).map some

/-- The document id that a value stands for: a string, an integer, or the last name of a
reference. -/
def documentIdOf (v : Value) : Outcome String := do
  let id ←
    match v with
    | .string s => pure s
    | .integer n => pure (Number.intText n.toInt)
    | .reference path => pure ((Text.split '/' path).getLast?.getD "")
    | _ => throw (.invalidArgument "Document id must be a string, an integer or a reference")
  if id.isEmpty || Text.hasChar '/' id then
    throw (.invalidArgument
      ("Document id '" ++ id ++ "' must be a non-empty single path segment"))
  return id

end DocStore
