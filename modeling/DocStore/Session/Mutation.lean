import DocStore.Session.Query
import DocStore.Value.JsonView

/-!
# Statements that write

All data of a statement is checked before the store is asked for anything.  Updates and
deletions first run the query for the document ids and then write to the documents that
it gave.
-/

namespace DocStore

/-- Records to insert, from a JSON object or an array of objects. -/
def recordsOfJson : Json → Outcome (List Fields)
  | .object fields => pure [Value.fieldsOfJson fields]
  | .array items => items.mapM fun j =>
    match j with
    | .object fields => pure (Value.fieldsOfJson fields)
    | _ => throw (.invalidArgument "Each inserted record must be a JSON object")
  | _ => throw (.invalidArgument "Insert values must be a JSON object or an array of objects")

namespace QueryState

/-- The collection into which a query inserts. -/
def insertTarget (q : QueryState) : Outcome ResourcePath := do
  if q.isGroup then
    throw (.invalidArgument "Collection group is not supported for insert queries.")
  match q.source with
  | none => throw (.invalidArgument "No collection selected, call from() first")
  | some source =>
    let path ← ResourcePath.ofText source
    if path.isCollection then return path
    else throw (.invalidArgument ("'" ++ source ++ "' is not a collection path"))

/-- The query for the ids of the documents that a mutation is about. -/
def identityQuery (q : QueryState) : Outcome StoreQuery :=
  ({ q with columns := [FieldPath.documentIdName] }).toStoreQuery

end QueryState

/-- A number to increment or decrement by. -/
def Value.checkAmount (amount : Value) (method : String) : Outcome Value :=
  if amount.isNumeric then pure amount
  else
    throw (.invalidIncrementAmount ("Non-numeric value passed to " ++ method ++ " method."))

/-- The opposite number.  The smallest integer has none among the integers. -/
def Value.opposite : Value → Value
  | .integer n =>
    match Number.int64? (-n.toInt) with
    | some opposite => .integer opposite
    | none => .double (Double.ofInt n.toInt).neg
  | .double d => .double d.neg
  | v => v

namespace Connection

variable {σ : Type}

/-- Creates a document for each record. -/
def insert (c : Connection σ) (q : QueryState) (records : List Fields) :
    Action (Session σ) Bool := do
  if records.isEmpty then return true
  let collection ← Action.ofOutcome q.insertTarget
  let _ ← Session.run (insertStatement collection.text records) []
    (Client.mutate (Batcher.insert c.store collection records))
  Action.update (Session.noteModified true)
  return true

/-- Creates a document and gives its key.  The document id is also stored in the field
`sequence`, if one is given. -/
def insertGetId (c : Connection σ) (q : QueryState) (record : Fields)
    (sequence : Option String) : Action (Session σ) DocumentKey := do
  let collection ← Action.ofOutcome q.insertTarget
  let (data, id?) := stripDocumentId record
  let id ←
    match id? with
    | some v => Action.ofOutcome (documentIdOf v)
    | none => Session.onClient Client.nextId
  let data ←
    match sequence with
    | some field =>
      let path ← Action.ofOutcome (FieldPath.ofText field)
      pure (Fields.set data path (.string id))
    | none => pure data
  let key ← Action.ofOutcome (DocumentKey.ofPath (collection.child [id]))
  let data := Fields.set data .documentId (.string id)
  let _ ← Session.run (insertStatement collection.text [data]) []
    (Client.mutate (Batcher.insert c.store collection [data]))
  Action.update (Session.noteModified true)
  return key

/-- The keys of the documents of a query. -/
def matchingKeys (c : Connection σ) (q : StoreQuery) : Action (Client σ) (List DocumentKey) := do
  return (← Client.onStore (c.store.query q)).map (·.key)

/-- Merges data into every document of a query.  Gives the number of documents. -/
def update (c : Connection σ) (q : QueryState) (data : Fields) : Action (Session σ) Nat := do
  let statement ← Action.ofOutcome (q.updateStatement data)
  let target ← Action.ofOutcome q.identityQuery
  let encoded ← Action.ofOutcome (encodeUpdate data)
  let count ← Session.run statement 0 do
    match encoded with
    | none => return 0
    | some encoded =>
      let keys ← c.matchingKeys target
      Client.mutate (Batcher.updateEncoded c.store keys encoded)
  Action.update (Session.noteModified (0 < count))
  return count

/-- Data that increments a field, together with other data. -/
def incrementData (field : String) (amount : Value) (extra : Fields) : Outcome Fields := do
  return Fields.set extra (← FieldPath.ofText field) (.increment amount)

/-- Increments a field of every document of a query, and merges other data into it. -/
def increment (c : Connection σ) (q : QueryState) (field : String) (amount : Value)
    (extra : Fields) : Action (Session σ) Nat := do
  let amount ← Action.ofOutcome (amount.checkAmount "increment")
  c.update q (← Action.ofOutcome (incrementData field amount extra))

/-- Decrements a field of every document of a query, and merges other data into it. -/
def decrement (c : Connection σ) (q : QueryState) (field : String) (amount : Value)
    (extra : Fields) : Action (Session σ) Nat := do
  let amount ← Action.ofOutcome (amount.checkAmount "decrement")
  c.update q (← Action.ofOutcome (incrementData field amount.opposite extra))

/-- Deletes every document of a query and all that lies below it.  Gives the number of
documents of the query. -/
def delete (c : Connection σ) (q : QueryState) : Action (Session σ) Nat := do
  let statement ← Action.ofOutcome q.deleteStatement
  let target ← Action.ofOutcome q.identityQuery
  let count ← Session.run statement 0 do
    let keys ← c.matchingKeys target
    Client.mutate (Batcher.delete c.store c.pageSize keys)
  Action.update (Session.noteModified (0 < count))
  return count

/-- Deletes the documents whose field `id` has a value. -/
def deleteById (c : Connection σ) (q : QueryState) (id : Value) : Action (Session σ) Nat :=
  c.delete (q.addWhere "id" "=" id)

end Connection

end DocStore
