import DocStore.Store.Datastore

/-!
# A store that keeps a record

The requests to a store are kept, the last one first.  A plan may let a request fail: it
is kept, but the store does not see it.
-/

namespace DocStore

/-- A request to a store. -/
inductive Request
  | get (key : DocumentKey)
  | query (q : StoreQuery)
  | collections (key : DocumentKey)
  | commit (writes : List Write)
  deriving Inhabited, Repr

namespace Request

/-- The name of a kind of request. -/
def name : Request → String
  | get _ => "get"
  | query _ => "query"
  | collections _ => "list"
  | commit _ => "commit"

end Request

/-- A store and the requests to it, the last one first. -/
structure Recording (σ : Type) where
  store : σ
  requests : List Request := []

namespace Recording

variable {σ α : Type}

/-- Which requests fail, and how: told by all requests so far, the last one first. -/
abbrev Plan := List Request → Option Error

/-- The plan in which some requests of a kind fail, each counted from one. -/
def Plan.ofFailures (failures : List (String × Nat × Error)) : Plan
  | [] => none
  | last :: before => failures.findSome? fun (kind, number, e) =>
    if kind == last.name && number == before.countP (·.name == kind) + 1 then some e else none

/-- A request that is kept and then goes to the store, unless the plan lets it fail. -/
def keep (plan : Plan) (request : Request) (a : Action σ α) : Action (Recording σ) α := do
  Action.update fun r => { r with requests := request :: r.requests }
  match plan (← Action.state).requests with
  | some e => throw e
  | none => Action.onPart (·.store) (fun store r => { r with store }) a

end Recording

/-- The store that keeps the requests to another one. -/
def Datastore.recording {σ : Type} (plan : Recording.Plan) (ds : Datastore σ) :
    Datastore (Recording σ) where
  get key := Recording.keep plan (.get key) (ds.get key)
  query q := Recording.keep plan (.query q) (ds.query q)
  collections key := Recording.keep plan (.collections key) (ds.collections key)
  commit writes := Recording.keep plan (.commit writes) (ds.commit writes)
  rounds r := ds.rounds r.store

end DocStore
