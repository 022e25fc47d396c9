import DocStore.Document.Encode
import DocStore.Store.Datastore

/-!
# Write batches

Writes that are gathered and committed together.  A batch holds at most 500 writes; data
is checked when a write is added.
-/

namespace DocStore

/-- The writes gathered so far. -/
structure WriteBatch where
  writes : List Write := []
  deriving Inhabited, Repr

namespace WriteBatch

/-- There is room for one more write. -/
def checkRoom (b : WriteBatch) : Outcome Unit :=
  if maxBatchWrites ≤ b.writes.length then
    throw
      { code := .resourceExhausted
        message := "A write batch holds at most " ++ toString maxBatchWrites ++ " operations" }
  else pure ()

def add (b : WriteBatch) (w : Write) : WriteBatch := ⟨b.writes ++ [w]⟩

/-- Creates a document that must not exist. -/
def create (b : WriteBatch) (key : DocumentKey) (data : Fields) : Outcome WriteBatch := do
  b.checkRoom
  let encoded ← encodeCreate data
  return b.add (.create key encoded.fields encoded.increments)

/-- Replaces a document, or merges fields into it. -/
def set (b : WriteBatch) (key : DocumentKey) (data : Fields) (merge : Bool) :
    Outcome WriteBatch := do
  b.checkRoom
  let encoded ← encodeSet merge data
  return b.add (.set key encoded.fields encoded.mask encoded.increments)

/-- Deletes a document. -/
def delete (b : WriteBatch) (key : DocumentKey) : Outcome WriteBatch := do
  b.checkRoom
  return b.add (.delete key)

/-- Commits the writes.  Without writes the store is not asked. -/
def commit {σ : Type} (b : WriteBatch) (ds : Datastore σ) : Action σ Unit :=
  if b.writes.isEmpty then pure () else ds.commit b.writes

end WriteBatch

end DocStore
