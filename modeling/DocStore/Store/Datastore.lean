import DocStore.Document.Snapshot
import DocStore.Document.Write
import DocStore.Query.StoreQuery

/-!
# Datastores

What the rest of the library asks of a store: to read a document, to run a query, to
list the collections below a document and to commit writes.  A store has a state `σ`;
a request answers or fails, and leaves a state in both cases.
-/

namespace DocStore

/-- A step on a state that can fail; the state after a failure is kept. -/
abbrev Action (σ α : Type) := ExceptT Error (StateM σ) α

namespace Action

variable {σ τ α : Type}

/-- The step from a function on states. -/
def ofFn (f : σ → Outcome α × σ) : Action σ α := ExceptT.mk fun s => f s

/-- The outcome of a step, and the state after it. -/
def runOn (a : Action σ α) (s : σ) : Outcome α × σ := a.run s

/-- An outcome as a step that leaves the state alone. -/
def ofOutcome (r : Outcome α) : Action σ α := ofFn fun s => (r, s)

/-- The state. -/
def state : Action σ σ := ofFn fun s => (.ok s, s)

/-- A change of the state. -/
def update (f : σ → σ) : Action σ Unit := ofFn fun s => (.ok (), f s)

/-- A step on a part of the state. -/
def onPart (get : σ → τ) (put : τ → σ → σ) (a : Action τ α) : Action σ α :=
  ofFn fun s =>
    let (r, t) := a.runOn (get s)
    (r, put t s)

/-- The outcome of a step as a value, so that a failure does not end what follows. -/
def attempt (a : Action σ α) : Action σ (Outcome α) :=
  ofFn fun s =>
    let (r, t) := a.runOn s
    (.ok r, t)

end Action

/-- A store with states in `σ`. -/
structure Datastore (σ : Type) where
  /-- The document at a key, existing or missing. -/
  get : DocumentKey → Action σ Snapshot
  /-- The documents of a query, in order. -/
  query : StoreQuery → Action σ (List Snapshot)
  /-- The names of the collections directly below a document. -/
  collections : DocumentKey → Action σ (List String)
  /-- Applies all writes, or none. -/
  commit : List Write → Action σ Unit
  /-- A number of rounds within which reading and deleting what is there comes to an end. -/
  rounds : σ → Nat

/-- A store whose state is a part of another one. -/
def Datastore.onPart {σ τ : Type} (get : σ → τ) (put : τ → σ → σ) (ds : Datastore τ) :
    Datastore σ where
  get key := Action.onPart get put (ds.get key)
  query q := Action.onPart get put (ds.query q)
  collections key := Action.onPart get put (ds.collections key)
  commit writes := Action.onPart get put (ds.commit writes)
  rounds s := ds.rounds (get s)

end DocStore
