import DocStore.Path.DocumentKey
import DocStore.Value.Fields

/-!
# Snapshots

A snapshot is what a store says of one document: its fields, or that it is missing, and
the times at which it was created, last updated and read, as far as the store tells.
-/

namespace DocStore

/-- A document as it was read. -/
structure Snapshot where
  key : DocumentKey
  /-- The fields, if the document exists. -/
  fields : Option Fields
  createTime : Option Timestamp := none
  updateTime : Option Timestamp := none
  readTime : Option Timestamp := none
  deriving Inhabited, Repr

namespace Snapshot

/-- A document that does not exist. -/
def missing (key : DocumentKey) : Snapshot := { key, fields := none }

def exists? (s : Snapshot) : Bool := s.fields.isSome

def id (s : Snapshot) : String := s.key.id

/-- The value at a path; the document itself, as a reference, at the path of its id. -/
def field? (s : Snapshot) (path : FieldPath) : Option Value :=
  if path.isDocumentId then some (.reference s.key.text)
  else s.fields.bind (Fields.get? · path)

/-- The value of a field given by its text. -/
def get? (s : Snapshot) (field : String) : Option Value :=
  match FieldPath.ofText field with
  | .ok path => s.field? path
  | .error _ => none

/-- The fields at some paths, each in its place. -/
def selectPaths (fields : Fields) (paths : List FieldPath) : Fields :=
  paths.foldl
    (fun kept path =>
      match Fields.get? fields path with
      | some v => Fields.set kept path v
      | none => kept)
    []

/-- The paths that some texts denote; a text that denotes none is left out. -/
def pathsOf (fields : List String) : List FieldPath :=
  fields.filterMap fun f => (FieldPath.ofText f).toOption

/-- The listed fields alone. -/
def only (s : Snapshot) (fields : List String) : Fields :=
  selectPaths (s.fields.getD []) (pathsOf fields)

/-- All fields but the listed ones. -/
def except (s : Snapshot) (fields : List String) : Fields :=
  (pathsOf fields).foldl Fields.remove (s.fields.getD [])

end Snapshot

end DocStore
