import DocStore.DatabaseId
import DocStore.Document.Reference
import DocStore.Tagged.Basic

/-!
# Tagged paths

Paths and keys with what can be asked of them.  A field path is read from a dotted text or
from a list of names.
-/

namespace DocStore.Tagged

def both (a b : Bool) : Json := .array [.bool a, .bool b]

def ofOrdering : Ordering → Json
  | .lt => .integer (-1)
  | .eq => .integer 0
  | .gt => .integer 1

/-- How something compares with another thing of its kind, if there is one, and which of
the two is the beginning of the other. -/
def ofRelation {α : Type} [Ord α] (p : α) (isBeginning : α → α → Bool) :
    Option α → List (String × Json)
  | some o =>
    [("prefix", both (isBeginning p o) (isBeginning o p)), ("cmp", ofOrdering (compare p o))]
  | none => []

/-- A database with the places where it is found; an emulator would be at a host. -/
def ofDatabase (db : DatabaseId) (host : String) : Json :=
  obj
    [("project", str db.project), ("database", str db.database), ("resource", str db.resourceName),
      ("root", str db.documentsRoot), ("production", str db.productionUrl),
      ("timeout", num defaultRequestTimeoutSecs), ("emulator", str (db.emulatorUrl host))]

def ofFieldPath (p : FieldPath) : List (String × Json) :=
  [("segments", strs p.segments), ("text", str p.text), ("id", .bool p.isDocumentId),
    ("first", str p.first), ("len", num p.size), ("empty", .bool (p.size == 0))]

def ofResourcePath (p : ResourcePath) : List (String × Json) :=
  [("segments", strs p.segments), ("text", str p.text), ("len", num p.size),
    ("empty", .bool p.isRoot), ("collection", .bool p.isCollection),
    ("document", .bool p.isDocument), ("nested", .bool p.isNested),
    ("last", orNull str p.last?), ("up", str p.parent.text)]

def ofKey (k : DocumentKey) : List (String × Json) :=
  [("path", str k.text), ("id", str k.id), ("collection_id", str k.collectionId),
    ("collection", str k.collection.text)]

/-- A reference to a document. -/
def ofReference (k : DocumentKey) : Json :=
  obj [("id", str k.id), ("path", str k.text), ("debug", str k.debugText),
    ("parent", str k.collection.text)]

/-- The paths of keys: all of them, or their number, the first and the last. -/
def ofKeys (keys : List DocumentKey) : Json :=
  match keys.head?, keys.getLast? with
  | some first, some last =>
    if 6 < keys.length then .array [num keys.length, str first.text, str last.text]
    else strs (keys.map (·.text))
  | _, _ => .array []

def toFieldPath : Json → Reading FieldPath
  | .string text => accept (FieldPath.ofText text)
  | .array names => do accept (FieldPath.ofSegments (← asTexts "path" names))
  | _ => missing "path"

def keyOf (path : String) : Reading DocumentKey := accept (DocumentKey.ofText path)

def needKey (name : String) (j : Json) : Reading DocumentKey := do keyOf (← needText name j)

def needPath (name : String) (j : Json) : Reading ResourcePath := do
  accept (ResourcePath.ofText (← needText name j))

end DocStore.Tagged
