import DocStore.Client

/-!
# Deleting a document with all that lies below it

The collections below a document are emptied one after the other, page by page; each
document of a page is deleted after everything below it.  Every deletion is a commit of
its own, so what was deleted before a failure stays deleted.

The walk takes as many rounds as the store allows for (`Datastore.rounds`): a store in
memory is empty by then, and a server has stopped answering.
-/

namespace DocStore.RecursiveDelete

variable {σ : Type}

/-- The number of documents on a page unless another is asked for. -/
def defaultPageSize : Nat := 1000

/-- A page size that was asked for; zero asks for the default. -/
def pageSizeOf (n : Nat) : Nat := if n = 0 then defaultPageSize else n

/-- The logger of deletions. -/
def logger : String := "firestore-connection/recursive-delete"

/-- The query for a page of the documents of a collection, by their ids alone. -/
def page (size : Nat) (collection : ResourcePath) : Outcome StoreQuery := do
  return ((← StoreQuery.ofCollection collection).select [.documentId]).limitTo size

/-- The sum of the numbers that an action gives for each of some items, in order. -/
def sumOver {α : Type} (f : α → Action (Client σ) Nat) : List α → Action (Client σ) Nat
  | [] => pure 0
  | a :: rest => do
    let here ← f a
    return here + (← sumOver f rest)

/-- Deletes the documents of a collection by the given way of deleting one, until a page
is empty. -/
def emptyCollection (ds : Datastore σ) (size : Nat)
    (deleteTree : DocumentKey → Action (Client σ) Nat) :
    Nat → ResourcePath → Action (Client σ) Nat
  | 0, _ => pure 0
  | rounds + 1, collection => do
    let q ← Action.ofOutcome (page size collection)
    let documents ← Client.onStore (ds.query q)
    if documents.isEmpty then return 0
    let here ← sumOver (fun s => deleteTree s.key) documents
    return here + (← emptyCollection ds size deleteTree rounds collection)

/-- Deletes a document after what lies below it, which the first argument deletes.  Gives
the number of documents deleted. -/
def deleteAfter (ds : Datastore σ) (descendants : DocumentKey → Action (Client σ) Nat)
    (key : DocumentKey) : Action (Client σ) Nat := do
  let removed ← descendants key
  if 0 < removed then
    Client.log .debug logger
      ("removed " ++ toString removed ++ " descendant document(s) of " ++ key.text)
  Client.onStore (ds.commit [.delete key])
  return removed + 1

/-- Deletes all documents below a document, in a number of rounds. -/
def descendantsIn (ds : Datastore σ) (size : Nat) : Nat → DocumentKey → Action (Client σ) Nat
  | 0, _ => pure 0
  | rounds + 1, key => do
    let names ← Client.onStore (ds.collections key)
    sumOver
      (fun name =>
        emptyCollection ds size (deleteAfter ds (descendantsIn ds size rounds)) (rounds + 1)
          (key.childCollection name))
      names

/-- Deletes all documents below a document and leaves the document alone.  Gives the
number of documents deleted. -/
def descendants (ds : Datastore σ) (size : Nat) (key : DocumentKey) :
    Action (Client σ) Nat := do
  descendantsIn ds size (ds.rounds (← Action.state).store) key

/-- Deletes a document and all documents below it. -/
def document (ds : Datastore σ) (size : Nat) (key : DocumentKey) : Action (Client σ) Nat :=
  deleteAfter ds (descendants ds size) key

end DocStore.RecursiveDelete
