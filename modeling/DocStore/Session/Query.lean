import DocStore.Document.Aggregate
import DocStore.Query.Builder
import DocStore.Query.Statement
import DocStore.Session.Connection

/-!
# Statements that read

A query is compiled before anything is asked of the store.  Counting and the aggregates
run the query for the document ids or for one field, and reduce what it gives.
-/

namespace DocStore.Connection

variable {σ : Type}

/-- Runs a query of the store as a statement. -/
def fetch (c : Connection σ) (statement : String) (q : StoreQuery) :
    Action (Session σ) (List Snapshot) :=
  Session.run statement [] (Client.onStore (c.store.query q))

/-- The documents of a query. -/
def get (c : Connection σ) (q : QueryState) : Action (Session σ) (List Snapshot) := do
  let statement ← Action.ofOutcome q.statement
  c.fetch statement (← Action.ofOutcome q.toStoreQuery)

/-- The first document of a query. -/
def first (c : Connection σ) (q : QueryState) : Action (Session σ) (Option Snapshot) := do
  return (← c.get { q with limit := some 1 }).head?

/-- The query gives a document. -/
def exists? (c : Connection σ) (q : QueryState) : Action (Session σ) Bool := do
  return !(← c.get { q.select [] with limit := some 1 }).isEmpty

/-- The documents of a query, reduced to some columns, fetched for a reduction. -/
def fetchFor (c : Connection σ) (q : QueryState) (aggregate : Aggregate) (field : String)
    (columns : List String) : Action (Session σ) (List Snapshot) := do
  let statement ← Action.ofOutcome (q.reductionStatement aggregate.name field)
  c.fetch statement (← Action.ofOutcome (q.select columns).toStoreQuery)

/-- The number of documents of a query. -/
def count (c : Connection σ) (q : QueryState) : Action (Session σ) Nat := do
  return (← c.fetchFor q .count "*" []).length

/-- The values of a field in the documents of a query, without missing and null ones. -/
def columnValues (c : Connection σ) (q : QueryState) (aggregate : Aggregate) (field : String) :
    Action (Session σ) (List Value) := do
  let path ← Action.ofOutcome (FieldPath.ofText field)
  return Aggregate.fieldValues (← c.fetchFor q aggregate field [field]) path

/-- The smallest value of a field. -/
def min (c : Connection σ) (q : QueryState) (field : String) :
    Action (Session σ) (Option Value) := do
  return Value.smallest? (← c.columnValues q .min field)

/-- The largest value of a field. -/
def max (c : Connection σ) (q : QueryState) (field : String) :
    Action (Session σ) (Option Value) := do
  return Value.largest? (← c.columnValues q .max field)

/-- The sum of the numbers of a field. -/
def sum (c : Connection σ) (q : QueryState) (field : String) : Action (Session σ) Value := do
  return Aggregate.total (← c.columnValues q .sum field)

/-- The mean of the numbers of a field. -/
def mean (c : Connection σ) (q : QueryState) (field : String) :
    Action (Session σ) (Option Double) := do
  return Aggregate.mean? (← c.columnValues q .avg field)

end DocStore.Connection
