import DocStore.Document.Write
import DocStore.Wire.FieldPath
import DocStore.Wire.Value

/-!
# Writes on the wire

A creation demands that the document does not exist, a merge carries its mask, and
increments travel beside the fields.  The fields of every object are in order.
-/

namespace DocStore.Wire

/-- An increment on the wire. -/
def ofIncrement (db : DatabaseId) (i : Increment) : Json :=
  .object [("fieldPath", .string i.path.wireText), ("increment", ofValue db i.operand)]

/-- The document of a write. -/
def ofDocument (db : DatabaseId) (key : DocumentKey) (data : Fields) : Json :=
  .object [("fields", .object (ofFields db data)), ("name", .string (db.documentName key))]

/-- The increments of a write, if it has any. -/
def ofIncrements (db : DatabaseId) (increments : List Increment) : List (String × Json) :=
  if increments.isEmpty then []
  else [("updateTransforms", .array (increments.map (ofIncrement db)))]

/-- A write on the wire. -/
def ofWrite (db : DatabaseId) : Write → Json
  | .create key data increments =>
    .object
      ([("currentDocument", single "exists" (.bool false)),
          ("update", ofDocument db key data)]
        ++ ofIncrements db increments)
  | .set key data mask increments =>
    let maskField :=
      match mask with
      | some paths =>
        [("updateMask",
          single "fieldPaths" (.array (paths.map fun path => .string path.wireText)))]
      | none => []
    .object (("update", ofDocument db key data) :: maskField ++ ofIncrements db increments)
  | .delete key => single "delete" (.string (db.documentName key))

end DocStore.Wire
