import DocStore.Document.Batch
import DocStore.Document.Reference
import DocStore.Session.Model
import DocStore.Tagged.Path
import DocStore.Tagged.Value

/-!
# Tagged documents and writes

Snapshots, models, encoded data and writes.  The paths of masks and increments are written
as lists of names.
-/

namespace DocStore.Tagged

/-! ## Writing -/

def ofIncrements (increments : List Increment) : Json :=
  .array (increments.map fun i => .array [strs i.path.segments, ofValue i.operand])

def ofMask (mask : Option (List FieldPath)) : Json :=
  orNull (fun paths => .array (paths.map fun p => strs p.segments)) mask

def ofWrite : Write → Json
  | .create key data increments =>
    obj [("create", str key.text), ("data", ofFields data), ("inc", ofIncrements increments)]
  | .set key data mask increments =>
    obj [("set", str key.text), ("data", ofFields data), ("mask", ofMask mask),
      ("inc", ofIncrements increments)]
  | .delete key => obj [("delete", str key.text)]

/-- Writes one by one, or their number, the first and the last. -/
def ofWrites (writes : List Write) : Json :=
  match writes.head?, writes.getLast? with
  | some first, some last =>
    if 6 < writes.length then
      .array [.array [num writes.length, ofWrite first, ofWrite last]]
    else .array (writes.map fun w => .array [str w.kindName, ofWrite w])
  | _, _ => .array []

def ofEncoded (e : EncodedData) : Json :=
  obj [("map", ofFields e.fields), ("mask", ofMask e.mask), ("inc", ofIncrements e.increments)]

def ofSnapshot (s : Snapshot) : Json :=
  obj
    [("path", str s.key.text), ("data", orNull ofFields s.fields),
      ("times", .array ([s.createTime, s.updateTime, s.readTime].map (orNull ofTime)))]

def ofSnapshots (documents : List Snapshot) : Json := .array (documents.map ofSnapshot)

def ofModel (m : Model) : Json :=
  obj
    [("collection", str m.collection), ("key_name", str m.keyName), ("id", orNull str m.id),
      ("exists", .bool m.saved), ("attributes", ofFields m.attributes),
      ("original", ofFields m.stored), ("dirty", .bool m.isDirty),
      ("path", orNull str m.path?)]

/-! ## Reading -/

def toIncrement : Json → Reading Increment
  | .array [path, operand] => do return ⟨← toFieldPath path, ← toValue operand⟩
  | _ => malformed "bad increment"

/-- A write as a store takes it. -/
def toWrite (j : Json) : Reading Write := do
  match text? "create" j, text? "set" j, text? "delete" j with
  | some path, _, _ =>
    let key ← keyOf path
    return .create key (← fieldsOr "data" j) (← (listOr "inc" j).mapM toIncrement)
  | none, some path, _ =>
    let key ← keyOf path
    let data ← fieldsOr "data" j
    let mask ← (given? "mask" j).mapM fun mask => do (← asList "mask" mask).mapM toFieldPath
    return .set key data mask (← (listOr "inc" j).mapM toIncrement)
  | none, none, some path => return .delete (← keyOf path)
  | none, none, none => malformed "bad write"

/-- A batch with one more write; its data may hold markers. -/
def addWrite (b : WriteBatch) (j : Json) : Reading WriteBatch := do
  match text? "create" j, text? "set" j, text? "delete" j with
  | some path, _, _ =>
    let key ← keyOf path
    accept (b.create key (← fieldsOr "data" j))
  | none, some path, _ =>
    let key ← keyOf path
    accept (b.set key (← fieldsOr "data" j) (flag "merge" j))
  | none, none, some path => do accept (b.delete (← keyOf path))
  | none, none, none => malformed "bad write"

/-- A hook that sets the attribute at a path. -/
def toHook : Json → Reading Hook
  | .array [path, v] => do
    let path ← toFieldPath path
    let v ← toValue v
    return fun _ m => { m with attributes := Fields.set m.attributes path v }
  | _ => malformed "bad hook"

/-- How models are saved: how they are compared, and the hooks. -/
def toRepository (j : Json) : Reading Repository := do
  let start : Hooks := if flag "timestamps" j then Hooks.timestamps else {}
  let beforeCreate ← (listOr "before_create" j).mapM toHook
  let beforeUpdate ← (listOr "before_update" j).mapM toHook
  return {
    loose := flag "loose" j
    hooks :=
      { beforeCreate := start.beforeCreate ++ beforeCreate
        beforeUpdate := start.beforeUpdate ++ beforeUpdate } }

end DocStore.Tagged
