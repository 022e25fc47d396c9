import DocStore.DatabaseId
import DocStore.Mutation.Batcher

/-!
# Connections

A connection runs statements on a store.  It logs them, if logging is on, and wraps the
failures of the store with the text of the statement.  While it pretends, a statement is
logged but not run.  A block in which a connection pretends ends by putting its flags and
its log back (`Session.enterPretend`, `Session.leavePretend`).
-/

namespace DocStore

/-- A statement that was run, or that was logged without being run. -/
structure LogEntry where
  statement : String
  pretended : Bool
  deriving DecidableEq, Repr, Inhabited

/-- What a connection is made of. -/
structure Connection (σ : Type) where
  database : DatabaseId
  store : Datastore σ
  /-- The number of documents on a page when what lies below a document is deleted. -/
  pageSize : Nat := RecursiveDelete.defaultPageSize

/-- What a connection remembers. -/
structure Session (σ : Type) where
  client : Client σ
  logging : Bool := false
  pretending : Bool := false
  /-- A statement has changed the store. -/
  modified : Bool := false
  log : List LogEntry := []

/-- What a block of pretending puts back. -/
structure SavedFlags where
  logging : Bool
  pretending : Bool
  log : List LogEntry
  deriving DecidableEq, Repr

namespace Session

variable {σ α : Type}

/-- A step of the client. -/
def onClient (a : Action (Client σ) α) : Action (Session σ) α :=
  Action.onPart (·.client) (fun client s => { s with client }) a

/-- Logs a statement if logging is on. -/
def note (statement : String) (pretended : Bool) (s : Session σ) : Session σ :=
  if s.logging then { s with log := s.log ++ [⟨statement, pretended⟩] } else s

/-- Remembers that a statement has changed the store. -/
def noteModified (modified : Bool) (s : Session σ) : Session σ :=
  if modified then { s with modified := true } else s

/-- Starts a block of pretending. -/
def enterPretend (s : Session σ) : SavedFlags × Session σ :=
  (⟨s.logging, s.pretending, s.log⟩, { s with logging := true, pretending := true, log := [] })

/-- Ends a block of pretending, and gives the statements logged in it. -/
def leavePretend (saved : SavedFlags) (s : Session σ) : List LogEntry × Session σ :=
  (s.log,
    { s with logging := saved.logging, pretending := saved.pretending, log := saved.log })

/-- Runs a block while pretending.  Gives the statements logged in it. -/
def pretend (block : Action (Session σ) Unit) : Action (Session σ) (List LogEntry) := do
  let saved ← Action.ofFn fun s =>
    let (saved, s) := s.enterPretend
    (.ok saved, s)
  let result ← block.attempt
  let entries ← Action.ofFn fun s =>
    let (entries, s) := s.leavePretend saved
    (.ok entries, s)
  let _ ← Action.ofOutcome result
  return entries

/-- Runs a statement: it is logged, and its failure carries its text.  While the connection
pretends, the statement is logged and gives `pretended`. -/
def run (statement : String) (pretended : α) (operation : Action (Client σ) α) :
    Action (Session σ) α := do
  if (← Action.state).pretending then
    Action.update (note statement true)
    return pretended
  let result ← (onClient operation).attempt
  Action.update (note statement false)
  match result with
  | .ok x => return x
  | .error e => throw (e.toTransportFailure.withQuery statement)

end Session

end DocStore
