import DocStore.Path.DocumentKey
import DocStore.Path.Field
import DocStore.Value.Basic

/-!
# Writes

One write of a commit: to create a document, to set a document or some of its fields,
or to delete a document.  A write may also increment fields by numbers; the store does
that after it has put the other fields in place.
-/

namespace DocStore

/-- A number to add to a field. -/
structure Increment where
  path : FieldPath
  operand : Value
  deriving Inhabited, Repr

/-- One write of a commit. -/
inductive Write
  /-- Creates a document that must not exist. -/
  | create (key : DocumentKey) (data : Fields) (increments : List Increment)
  /-- Replaces a document, or with a mask the fields at the paths of the mask. -/
  | set (key : DocumentKey) (data : Fields) (mask : Option (List FieldPath))
      (increments : List Increment)
  | delete (key : DocumentKey)
  deriving Inhabited, Repr

namespace Write

def key : Write → DocumentKey
  | create key _ _ => key
  | set key _ _ _ => key
  | delete key => key

/-- The name of a kind of write. -/
def kindName : Write → String
  | create _ _ _ => "create"
  | set _ _ _ _ => "set"
  | delete _ => "delete"

end Write

/-- The most writes of a batch. -/
def maxBatchWrites : Nat := 500

end DocStore
