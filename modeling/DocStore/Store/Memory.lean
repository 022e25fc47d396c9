import DocStore.Clock
import DocStore.Query.Evaluate
import DocStore.Store.Datastore

/-!
# The store in memory

A table of documents, sorted by path.  A commit works on a copy of the table, write by
write, and puts the copy in place if no write fails; only the creation of a document
that is there already fails.  All writes of a commit carry its time.  A document keeps
its time of creation until it is deleted.
-/

namespace DocStore.Memory

/-- A document in the table. -/
structure Stored where
  fields : Fields
  createTime : Timestamp
  updateTime : Timestamp
  deriving Inhabited, Repr

/-- The documents, sorted by path. -/
abbrev Table := List (ResourcePath × Stored)

/-- A document as it is read at some time. -/
def Stored.snapshot (stored : Stored) (key : DocumentKey) (readTime : Timestamp) : Snapshot :=
  { key
    fields := some stored.fields
    createTime := some stored.createTime
    updateTime := some stored.updateTime
    readTime := some readTime }

/-! ## Writes -/

/-- The sum of two integers, widened to a double if it does not fit in 64 bits. -/
def addIntegers (a b : Int64) : Value :=
  match Number.int64? (a.toInt + b.toInt) with
  | some sum => .integer sum
  | none => .double ((Double.ofInt a.toInt).add (Double.ofInt b.toInt))

/-- A value incremented by an operand.  What is no number is replaced by the operand. -/
def increment (current : Option Value) (operand : Value) : Value :=
  match current, operand with
  | some (.integer a), .integer b => addIntegers a b
  | some a, b =>
    match a.asDouble? with
    | some x => .double (x.add (b.asDouble?.getD .zero))
    | none => b
  | none, b => b

/-- The fields with the increments applied in order. -/
def applyIncrements (fields : Fields) (increments : List Increment) : Fields :=
  increments.foldl
    (fun fields i =>
      Fields.set fields i.path (increment (Fields.get? fields i.path) i.operand))
    fields

/-- The fields with those at the paths of a mask taken from the data of a write: put in
place if the data has them, removed if not. -/
def applyMask (fields data : Fields) (mask : List FieldPath) : Fields :=
  mask.foldl
    (fun fields path =>
      match Fields.get? data path with
      | some v => Fields.set fields path v
      | none => Fields.remove fields path)
    fields

/-- The table after one write at a time. -/
def applyWrite (now : Timestamp) (table : Table) : Write → Outcome Table
  | .create key data increments =>
    if (Keyed.get? key.path table).isSome then
      throw (.alreadyExists ("Document already exists: " ++ key.path.text))
    else
      pure (Keyed.insert key.path ⟨applyIncrements data increments, now, now⟩ table)
  | .set key data mask increments =>
    let existing := Keyed.get? key.path table
    let createTime := (existing.map (·.createTime)).getD now
    let next :=
      match mask with
      | some mask => applyMask ((existing.map (·.fields)).getD []) data mask
      | none => data
    pure (Keyed.insert key.path ⟨applyIncrements next increments, createTime, now⟩ table)
  | .delete key => pure (Keyed.erase key.path table)

/-- The table after all writes of a commit. -/
def commitTable (now : Timestamp) (table : Table) (writes : List Write) : Outcome Table :=
  writes.foldlM (applyWrite now) table

/-! ## Reading -/

/-- The documents of the table that can be read, at some time. -/
def candidates (now : Timestamp) (source : Source) (table : Table) : List Snapshot :=
  table.filterMap fun (path, stored) =>
    if path.isDocument && source.contains ⟨path⟩ then some (stored.snapshot ⟨path⟩ now)
    else none

/-- The names directly below a document under which some document lies, in order. -/
def collectionsBelow (key : DocumentKey) (table : Table) : List String :=
  let names := table.filterMap fun (path, _) =>
    if key.path.isAncestorOf path then
      (path.segments[key.path.size]?).map fun name => (name, ())
    else none
  (Keyed.ofList names).map (·.1)

/-! ## The store -/

/-- The table and the clock of the store. -/
structure State where
  table : Table := []
  clock : Clock

/-- The reading of the clock for one request. -/
def readClock : Action State Timestamp := do
  let s ← Action.state
  Action.update fun s => { s with clock := s.clock.tick }
  return s.clock.now

/-- The store in memory. -/
def datastore : Datastore State where
  get key := do
    let now ← readClock
    let s ← Action.state
    match Keyed.get? key.path s.table with
    | some stored => return stored.snapshot key now
    | none => return { Snapshot.missing key with readTime := some now }
  query q := do
    let now ← readClock
    return q.run (candidates now q.source (← Action.state).table)
  collections key := do return collectionsBelow key (← Action.state).table
  commit writes := do
    let now ← readClock
    let s ← Action.state
    let table ← Action.ofOutcome (commitTable now s.table writes)
    Action.update fun s => { s with table }
  rounds s := s.table.length + 1

end DocStore.Memory
