import DocStore.Document.Diff
import DocStore.Document.Reference
import DocStore.Session.Mutation

/-!
# Models

A model is a document with its attributes at hand, and the attributes as they were when
it was last known to agree with the store.  Saving creates the document the first time
and later writes only what has changed; hooks may change the model right before that.
-/

namespace DocStore

/-- A document of a collection with its attributes. -/
structure Model where
  collection : String
  /-- The field that holds the document id. -/
  keyName : String := "id"
  id : Option String := none
  /-- The document is in the store, as far as is known. -/
  saved : Bool := false
  attributes : Fields := []
  /-- The attributes that are in the store, as far as is known. -/
  stored : Fields := []
  deriving Inhabited, Repr

namespace Model

/-- The name of the collection without slashes at its ends. -/
def collectionPath (m : Model) : String := Text.strip (· == '/') m.collection

/-- The path of the document, if it has an id. -/
def path? (m : Model) : Option String := m.id.map fun id => m.collectionPath ++ "/" ++ id

/-- The model as a scope. -/
def scope (m : Model) : Scope := .model m.path?

/-- The model of a snapshot. -/
def ofSnapshot (collection : String) (s : Snapshot) : Model :=
  match s.fields with
  | some fields =>
    { collection, id := some s.id, saved := true, attributes := fields, stored := fields }
  | none => { collection, id := some s.id }

/-- The attribute at a path given by its text. -/
def get? (m : Model) (field : String) : Option Value :=
  match FieldPath.ofText field with
  | .ok path => Fields.get? m.attributes path
  | .error _ => none

/-- The model with an attribute set. -/
def set (m : Model) (field : String) (value : Value) : Outcome Model := do
  return { m with attributes := Fields.set m.attributes (← FieldPath.ofText field) value }

/-- The model without an attribute, and whether it had it. -/
def remove (m : Model) (field : String) : Outcome (Bool × Model) := do
  match Fields.remove? m.attributes (← FieldPath.ofText field) with
  | some attributes => return (true, { m with attributes })
  | none => return (false, m)

/-- The attributes differ from those in the store. -/
def isDirty (m : Model) : Bool := Diff.isDirty false m.stored m.attributes

/-- The model after its attributes were written to the document of an id. -/
def persisted (m : Model) (id : String) : Model :=
  { m with id := some id, saved := true, stored := m.attributes }

/-- The model after its document was deleted. -/
def deleted (m : Model) : Model := { m with saved := false }

/-- The id of a model that has one. -/
def persistedId (m : Model) : Outcome String :=
  match m.id with
  | some id => pure id
  | none => throw (.invalidArgument "The model has not been saved yet")

end Model

/-- A change of a model right before it is written, at a reading of the clock. -/
abbrev Hook := Timestamp → Model → Model

/-- The hooks of a repository. -/
structure Hooks where
  beforeCreate : List Hook := []
  beforeUpdate : List Hook := []

namespace Hooks

/-- The hook that sets attributes to the time. -/
def stamp (fields : List String) : Hook := fun now m =>
  fields.foldl
    (fun m field => { m with attributes := Fields.set m.attributes ⟨[field]⟩ (.timestamp now) })
    m

/-- Hooks that keep the times of creation and of the last update. -/
def timestamps : Hooks :=
  { beforeCreate := [stamp ["created_at", "updated_at"]]
    beforeUpdate := [stamp ["updated_at"]] }

/-- The hooks as they are shown to a programmer. -/
def debugText (h : Hooks) : String :=
  "LifecycleHooks \x7b before_create: " ++ toString h.beforeCreate.length
    ++ ", before_update: " ++ toString h.beforeUpdate.length ++ " \x7d"

/-- The model after some hooks, each with a reading of the clock. -/
def run {σ : Type} : List Hook → Model → Action (Client σ) Model
  | [], m => pure m
  | h :: rest, m => do
    let now ← Client.now
    run rest (h now m)

end Hooks

/-- How models are saved. -/
structure Repository where
  hooks : Hooks := {}
  /-- Numbers and texts that look alike are the same. -/
  loose : Bool := false

/-- A step on a model in a session.  The model after a failure is kept. -/
structure ModelSession (σ : Type) where
  session : Session σ
  model : Model

namespace ModelSession

variable {σ α : Type}

/-- A step of the session. -/
def onSession (a : Action (Session σ) α) : Action (ModelSession σ) α :=
  Action.onPart (·.session) (fun session s => { s with session }) a

/-- The model. -/
def current : Action (ModelSession σ) Model := do return (← Action.state).model

/-- Puts a model in place. -/
def put (model : Model) : Action (ModelSession σ) Unit :=
  Action.update fun s => { s with model }

/-- Runs hooks on the model. -/
def runHooks (hooks : List Hook) : Action (ModelSession σ) Unit := do
  put (← onSession (Session.onClient (Hooks.run hooks (← current))))

end ModelSession

namespace Connection

variable {σ : Type}

/-- The query for the collection of a model. -/
def modelQuery (m : Model) : QueryState := ({} : QueryState).table m.collection

/-- The query for a collection directly below the document of a model. -/
def subCollection (m : Model) (name : String) : Outcome QueryState := do
  let name := Text.strip (· == '/') name
  if name.isEmpty || Text.hasChar '/' name then
    throw (.invalidCollectionPath
      ("Subcollection name '" ++ name ++ "' must be a single path segment"))
  return ({} : QueryState).table ((← m.scope.resolve) ++ "/" ++ name)

/-- Creates the document of a model. -/
def createModel (c : Connection σ) (r : Repository) : Action (ModelSession σ) Bool := do
  ModelSession.runHooks r.hooks.beforeCreate
  let m ← ModelSession.current
  let record :=
    match m.id with
    | some id => Fields.set m.attributes .documentId (.string id)
    | none => m.attributes
  let key ← ModelSession.onSession
    (c.insertGetId (modelQuery m) record (some m.keyName))
  let path ← Action.ofOutcome (FieldPath.ofText m.keyName)
  let attributes := Fields.set m.attributes path (.string key.id)
  ModelSession.put ({ m with attributes }.persisted key.id)
  return true

/-- Writes what has changed in a model. -/
def updateModel (c : Connection σ) (r : Repository) : Action (ModelSession σ) Bool := do
  let m ← ModelSession.current
  if !Diff.isDirty r.loose m.stored m.attributes then return false
  ModelSession.runHooks r.hooks.beforeUpdate
  let m ← ModelSession.current
  let change := Diff.between r.loose m.stored m.attributes
  let id ← Action.ofOutcome m.persistedId
  let count ← ModelSession.onSession (c.update ((modelQuery m).whereKey id) change)
  ModelSession.put (m.persisted id)
  return 0 < count

/-- Saves a model: creates its document, or writes what has changed.  Tells whether
anything was written. -/
def saveModel (c : Connection σ) (r : Repository) : Action (ModelSession σ) Bool := do
  if (← ModelSession.current).saved then c.updateModel r else c.createModel r

/-- Deletes the document of a model and all that lies below it. -/
def deleteModel (c : Connection σ) : Action (ModelSession σ) Bool := do
  let m ← ModelSession.current
  if !m.saved then return false
  let id ← Action.ofOutcome m.persistedId
  let count ← ModelSession.onSession (c.delete ((modelQuery m).whereKey id))
  ModelSession.put m.deleted
  return 0 < count

/-- Reads the attributes of a model from the store.  Tells whether its document is there. -/
def refreshModel (c : Connection σ) : Action (ModelSession σ) Bool := do
  let m ← ModelSession.current
  let id ← Action.ofOutcome m.persistedId
  let key ← Action.ofOutcome (DocumentKey.ofText (m.collectionPath ++ "/" ++ id))
  let s ← ModelSession.onSession (Session.onClient (Client.onStore (c.store.get key)))
  match s.fields with
  | some attributes =>
    ModelSession.put ({ m with attributes }.persisted id)
    return true
  | none =>
    ModelSession.put m.deleted
    return false

end Connection

end DocStore
