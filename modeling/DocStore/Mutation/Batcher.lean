import DocStore.Document.Encode
import DocStore.Mutation.RecursiveDelete

/-!
# Mutations in chunks

Many documents are written in chunks, one commit for each, one after the other.  All
data is checked before the first commit.  When a chunk fails, the chunks before it stay
applied, those after it are never sent, and the failure tells the position of the chunk.
The phase of a mutation says where it is, or where it failed.
-/

namespace DocStore

/-- Where a mutation is. -/
inductive Phase
  | building
  | compiling
  | chunking
  | committing (chunk total : Nat)
  | done
  deriving DecidableEq, Repr, Inhabited

/-- The phase in words. -/
def Phase.text : Phase → String
  | building => "building"
  | compiling => "compiling"
  | chunking => "chunking"
  | committing chunk total => "committing chunk " ++ toString chunk ++ "/" ++ toString total
  | done => "done"

/-- The consecutive pieces of a list, of `size` items each but the last. -/
def chunksOf {α : Type} (size : Nat) (xs : List α) : List (List α) :=
  (List.range ((xs.length + size - 1) / size)).map fun i => (xs.drop (i * size)).take size

/-- A client and the phase of its mutation. -/
structure Batcher (σ : Type) where
  client : Client σ
  phase : Phase := .building

namespace Batcher

variable {σ α : Type}

/-- Documents created by one commit. -/
def insertChunk : Nat := 100

/-- Documents updated by one commit. -/
def updateChunk : Nat := 100

/-- Documents deleted by one commit. -/
def deleteChunk : Nat := 500

/-- The logger of mutations. -/
def logger : String := "firestore-connection/mutation"

/-- A step of the client. -/
def onClient (a : Action (Client σ) α) : Action (Batcher σ) α :=
  Action.onPart (·.client) (fun client b => { b with client }) a

/-- Goes to a phase. -/
def enter (phase : Phase) : Action (Batcher σ) Unit := do
  Action.update fun b => { b with phase }
  onClient (Client.log .debug logger ("mutation " ++ phase.text))

/-- A step that belongs to a chunk: its failure tells the position of the chunk. -/
def inChunk (position total : Nat) (a : Action (Client σ) α) : Action (Batcher σ) α := do
  match ← onClient a.attempt with
  | .ok x => return x
  | .error e =>
    onClient (Client.log .warn logger
      ("chunk " ++ toString position ++ "/" ++ toString total ++ " failed, "
        ++ toString (position - 1) ++ " earlier chunk(s) stay applied: " ++ e.describe))
    throw (e.withChunk position total)

/-- The chunks from a position on, each by its own step. -/
def eachChunk (total : Nat) (step : Nat → List α → Action (Batcher σ) Unit) :
    Nat → List (List α) → Action (Batcher σ) Unit
  | _, [] => pure ()
  | position, chunk :: rest => do
    enter (.committing position total)
    step position chunk
    eachChunk total step (position + 1) rest

/-- Commits writes chunk by chunk. -/
def commitChunks (ds : Datastore σ) (size : Nat) (writes : List Write) :
    Action (Batcher σ) Unit := do
  enter .chunking
  let chunks := chunksOf size writes
  eachChunk chunks.length
    (fun position chunk =>
      inChunk position chunks.length (Client.onStore (ds.commit chunk)))
    1 chunks
  enter .done

/-- The write that creates a record in a collection: its document id is the one it names,
or a new one. -/
def createWrite (collection : ResourcePath) (record : Fields) : Action (Batcher σ) Write := do
  let (data, id?) := stripDocumentId record
  let id ←
    match id? with
    | some v => Action.ofOutcome (documentIdOf v)
    | none => onClient Client.nextId
  let key ← Action.ofOutcome (DocumentKey.ofPath (collection.child [id]))
  let encoded ← Action.ofOutcome (encodeCreate data)
  return .create key encoded.fields encoded.increments

/-- Creates a document for each record.  Gives their keys. -/
def insert (ds : Datastore σ) (collection : ResourcePath) (records : List Fields) :
    Action (Batcher σ) (List DocumentKey) := do
  enter .building
  if !collection.isCollection then
    throw (.invalidArgument
      ("Insert target '" ++ collection.text ++ "' is not a collection path"))
  if records.isEmpty then
    enter .done
    return []
  enter .compiling
  let writes ← records.mapM (createWrite collection)
  commitChunks ds insertChunk writes
  return writes.map (·.key)

/-- Merges encoded data into each document.  Gives the number of documents. -/
def updateEncoded (ds : Datastore σ) (keys : List DocumentKey) (data : EncodedData) :
    Action (Batcher σ) Nat := do
  enter .building
  if keys.isEmpty then
    enter .done
    return 0
  commitChunks ds updateChunk
    (keys.map fun key => .set key data.fields data.mask data.increments)
  return keys.length

/-- Merges data into each document.  Data without fields writes nothing. -/
def update (ds : Datastore σ) (keys : List DocumentKey) (data : Fields) :
    Action (Batcher σ) Nat := do
  enter .building
  if keys.isEmpty then
    enter .done
    return 0
  enter .compiling
  match ← Action.ofOutcome (encodeUpdate data) with
  | some encoded => updateEncoded ds keys encoded
  | none =>
    enter .done
    return 0

/-- Deletes each document and all that lies below it.  What lies below the documents of a
chunk is deleted before the chunk is committed. -/
def delete (ds : Datastore σ) (pageSize : Nat) (keys : List DocumentKey) :
    Action (Batcher σ) Nat := do
  enter .building
  if keys.isEmpty then
    enter .done
    return 0
  enter .compiling
  enter .chunking
  let chunks := chunksOf deleteChunk keys
  eachChunk chunks.length
    (fun position chunk =>
      inChunk position chunks.length do
        let _ ← chunk.mapM (RecursiveDelete.descendants ds pageSize)
        Client.onStore (ds.commit (chunk.map .delete)))
    1 chunks
  enter .done
  return keys.length

end Batcher

namespace Client

variable {σ α : Type}

/-- A mutation of its own, from its start. -/
def mutate (a : Action (Batcher σ) α) : Action (Client σ) α :=
  Action.onPart (fun client => { client }) (fun b _ => b.client) a

end Client

end DocStore
