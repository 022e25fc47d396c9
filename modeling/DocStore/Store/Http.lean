import DocStore.Json.Reader
import DocStore.Sorting
import DocStore.Store.Datastore
import DocStore.Wire.Failure
import DocStore.Wire.Names
import DocStore.Wire.Query
import DocStore.Wire.Write

/-!
# The store of a server

The documents are held by a server that answers requests.  Each request asks a provider
for a token first; a token that the server rejects is given back to the provider, so that
the next request gets a new one.  A request is sent once: its failure is the failure of
the operation.

What lies between the store and the server is a `Server`: a state, a function from
requests to replies, and the provider.
-/

namespace DocStore.Http

/-! ## Requests and replies -/

/-- What a request does. -/
inductive Method
  | get
  | post
  deriving DecidableEq, Repr, Inhabited

def Method.text : Method → String
  | get => "GET"
  | post => "POST"

/-- A request. -/
structure Request where
  method : Method
  /-- The path below the base URL of the database. -/
  path : String
  token : Option String := none
  body : Option Json := none

/-- The type of every request, with or without a body. -/
def contentType : String := "application/json"

/-- The header that carries the token. -/
def Request.authorization? (r : Request) : Option String := r.token.map ("Bearer " ++ ·)

/-- A character can stand in a header. -/
def isHeaderChar (c : Char) : Bool := c == '\t' || (' ' ≤ c && c != '\x7f')

/-- An answer of the server. -/
structure Answer where
  status : Nat
  body : String
  deriving DecidableEq, Repr, Inhabited

/-- What comes back for a request. -/
inductive Reply
  | answered (answer : Answer)
  /-- The server cannot be reached. -/
  | refused
  /-- The server has not answered in time. -/
  | timedOut
  /-- The connection has ended within the answer. -/
  | broken
  deriving DecidableEq, Repr, Inhabited

/-- The answer of a reply. -/
def Reply.answer : Reply → Outcome Answer
  | answered a => pure a
  | refused => throw (.unavailable "the server cannot be reached")
  | timedOut => throw (.deadlineExceeded "the server has not answered in time")
  | broken => throw (.internal "the answer of the server has broken off")

namespace Answer

/-- The request was carried out. -/
def isSuccess (a : Answer) : Bool := 200 ≤ a.status && a.status < 300

/-- The JSON value of a body; an empty body is null. -/
def json (a : Answer) : Outcome Json :=
  if a.body.isEmpty then pure .null
  else
    match Json.parse? a.body with
    | some j => pure j
    | none => throw (.internal "the answer of the server is not JSON")

/-- The content of an answer; without success, the failure that it tells. -/
def content (a : Answer) : Outcome Json :=
  if a.isSuccess then a.json else throw (Wire.failure a.status a.body)

/-- The content of an answer about something that may be missing. -/
def contentIfFound (a : Answer) : Outcome (Option Json) :=
  if !a.isSuccess && a.status = 404 then pure none else do return some (← a.content)

end Answer

/-! ## The server -/

/-- A server and a provider of tokens, with states in `σ`. -/
structure Server (σ : Type) where
  send : Request → σ → Reply × σ
  /-- The token for the next request. -/
  token : Action σ (Option String)
  /-- Tells the provider that its token was rejected. -/
  dropToken : σ → σ
  /-- A number of answers after which the server has nothing new to tell. -/
  rounds : σ → Nat

namespace Server

variable {σ α : Type}

/-- Sends a request, whose token must be fit for a header. -/
def exchange (server : Server σ) (request : Request) : Action σ Answer := do
  if !((request.token.getD "").toList.all isHeaderChar) then
    throw (.internal "builder error: failed to parse header value")
  let reply ← Action.ofFn fun s =>
    let (reply, s) := server.send request s
    (.ok reply, s)
  Action.ofOutcome reply.answer

/-- Tells the provider if its token was rejected. -/
def observe (server : Server σ) (a : Action σ α) : Action σ α := do
  match ← a.attempt with
  | .ok x => return x
  | .error e =>
    if e.code = .unauthenticated then Action.update server.dropToken
    throw e

/-- Reads a resource that may be missing. -/
def fetch (server : Server σ) (path : String) : Action σ (Option Json) := do
  let token ← server.token
  server.observe do
    let answer ← server.exchange { method := .get, path, token }
    Action.ofOutcome answer.contentIfFound

/-- Calls a method of a resource. -/
def call (server : Server σ) (path : String) (body : Json) : Action σ Json := do
  let token ← server.token
  server.observe do
    let answer ← server.exchange { method := .post, path, token, body := some body }
    Action.ofOutcome answer.content

end Server

/-! ## Documents of the server -/

/-- A time of a document or an entry, if there is one. -/
def time? (name : String) (j : Json) : Outcome (Option Timestamp) :=
  ((j.field? name).bind Json.asString?).mapM Timestamp.ofText

/-- The snapshot of a document. -/
def snapshot (db : DatabaseId) (key : DocumentKey) (document : Json) : Outcome Snapshot := do
  return {
    key
    fields := some (← Wire.documentFields db document)
    createTime := ← time? "createTime" document
    updateTime := ← time? "updateTime" document }

/-- The snapshot of an entry in the answer to a query, if it has a document. -/
def entrySnapshot (db : DatabaseId) (entry : Json) : Outcome (Option Snapshot) :=
  match entry.field? "document" with
  | none => pure none
  | some document =>
    match (document.field? "name").bind Json.asString? with
    | none => throw (.internal "Firestore runQuery document missing 'name' field")
    | some name => do
      let found ← snapshot db (← db.keyOfName name) document
      return some { found with readTime := ← time? "readTime" entry }

/-- The snapshots in the answer to a query. -/
def querySnapshots (db : DatabaseId) : Json → Outcome (List Snapshot)
  | .array entries => do return (← entries.mapM (entrySnapshot db)).filterMap id
  | _ => throw (.internal "Firestore runQuery response must be an array")

/-- The names on a page of collections. -/
def pageNames (page : Json) : List String :=
  (((page.field? "collectionIds").bind Json.asArray?).getD []).filterMap Json.asString?

/-- The token of the page after a page, if there is one. -/
def nextPage? (page : Json) : Option String :=
  ((page.field? "nextPageToken").bind Json.asString?).filter (!·.isEmpty)

/-- The names on the pages from a token on, in a number of rounds. -/
def collectionNames {σ : Type} (server : Server σ) (path : String) :
    Nat → Option String → Action σ (List String)
  | 0, _ => pure []
  | rounds + 1, pageToken => do
    let body :=
      match pageToken with
      | some token => Wire.single "pageToken" (.string token)
      | none => .object []
    let page ← server.call path body
    match nextPage? page with
    | some token => return pageNames page ++ (← collectionNames server path rounds (some token))
    | none => return pageNames page

/-! ## The store -/

/-- The store of a server.  A query for the last documents is sent as one for the first,
and its result turned round. -/
def datastore {σ : Type} (db : DatabaseId) (server : Server σ) : Datastore σ where
  get key := do
    match ← server.fetch key.path.urlPath with
    | some document => Action.ofOutcome (snapshot db key document)
    | none => return Snapshot.missing key
  query q := do
    let request := q.toFirst
    let answer ← server.call (request.source.parent.urlPath ++ ":runQuery")
      (Wire.single "structuredQuery" (Wire.ofQuery db request))
    let found ← Action.ofOutcome (querySnapshots db answer)
    return if q.keepsLast then found.reverse else found
  collections key := do
    let rounds := server.rounds (← Action.state)
    let names ← collectionNames server (key.path.urlPath ++ ":listCollectionIds") rounds none
    return Sorting.sorted (fun a b => compare a b == .lt) names
  commit writes := do
    if writes.isEmpty then return
    let _ ← server.call "documents:commit"
      (Wire.single "writes" (.array (writes.map (Wire.ofWrite db))))
  rounds := server.rounds

end DocStore.Http
