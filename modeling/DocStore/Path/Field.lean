import DocStore.Error
import DocStore.Text.Blank
import DocStore.Text.Segments

/-!
# Field paths

A field path addresses a field of a document, nested fields included, by the names
on the way to it.  As text the names stand with dots between them.  The path with
the one name `__name__` addresses the id of the document itself.
-/

namespace DocStore

/-- The names on the way to a field. -/
structure FieldPath where
  segments : List String
  deriving DecidableEq, Repr, Inhabited

namespace FieldPath

/-- The name under which a document holds its own id. -/
def documentIdName : String := "__name__"

/-- The path of the id of a document. -/
def documentId : FieldPath := ⟨[documentIdName]⟩

/-- The path of some names: at least one, and none empty. -/
def ofSegments (segments : List String) : Outcome FieldPath :=
  if segments.isEmpty then
    throw (.invalidArgument "FieldPath must contain at least one segment")
  else if segments.any (·.isEmpty) then
    throw (.invalidArgument "FieldPath segments cannot be empty")
  else pure ⟨segments⟩

/-- The path of a text, cut at its dots. -/
def ofText (text : String) : Outcome FieldPath :=
  if Text.isAllBlank text then throw (.invalidArgument "FieldPath string cannot be empty")
  else if text == documentIdName then pure documentId
  else ofSegments (Text.split '.' text)

def isDocumentId (path : FieldPath) : Bool := path.segments == [documentIdName]

/-- The first name. -/
def first (path : FieldPath) : String := path.segments.headD ""

def size (path : FieldPath) : Nat := path.segments.length

/-- The path of a field inside this one. -/
def child (path : FieldPath) (segment : String) : FieldPath := ⟨path.segments ++ [segment]⟩

/-- The other path starts with the names of this one. -/
def isBeginningOf (path other : FieldPath) : Bool := path.segments.isPrefixOf other.segments

/-- The names with dots between them. -/
def text (path : FieldPath) : String := Text.joined "." path.segments

/-- The order of paths, name by name. -/
instance : Ord FieldPath := ⟨fun a b => compare a.segments b.segments⟩

end FieldPath

end DocStore
