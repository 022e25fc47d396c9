import DocStore.Path.Field
import DocStore.Path.DocumentKey
import DocStore.Query.Operator
import DocStore.Value.Basic

/-!
# Queries that a store executes

A checked query: a source of documents, filters, orderings, cursors, an offset, a
limit that keeps the first or the last documents, and a choice of fields.  The
orderings that count (`effectiveOrders`) end with the name of the document, so that
they leave no ties.
-/

namespace DocStore

/-- A comparison of a field with an operand. -/
structure Filter where
  field : FieldPath
  operator : Operator
  operand : Value
  deriving Inhabited, Repr

/-- An ordering by a field. -/
structure FieldOrder where
  field : FieldPath
  direction : Direction
  deriving DecidableEq, Repr, Inhabited

def FieldOrder.reversed (o : FieldOrder) : FieldOrder :=
  { o with direction := o.direction.reversed }

/-- A cursor: values of the first orderings, and whether documents at it are kept. -/
structure Cursor where
  values : List Value
  inclusive : Bool
  deriving Inhabited, Repr

/-- Where the documents of a query come from. -/
inductive Source
  | collection (path : ResourcePath)
  /-- All collections of a name, or those below a document. -/
  | group (collectionId : String) (below : Option ResourcePath)
  deriving DecidableEq, Repr, Inhabited

namespace Source

/-- The resource that a request for the source is sent to. -/
def parent : Source → ResourcePath
  | collection path => path.parent
  | group _ below => below.getD .root

def collectionId : Source → String
  | collection path => path.last?.getD ""
  | group collectionId _ => collectionId

def isGroup : Source → Bool
  | collection _ => false
  | group _ _ => true

/-- A document belongs to the source. -/
def contains : Source → DocumentKey → Bool
  | collection path, key => key.collection == path
  | group collectionId below, key =>
    key.collectionId == collectionId
      && (match below with
          | some document => document.isAncestorOf key.path
          | none => true)

end Source

/-- A query that a store executes. -/
structure StoreQuery where
  source : Source
  /-- The fields asked for, if not all. -/
  projection : Option (List FieldPath) := none
  filters : List Filter := []
  /-- The orderings that were asked for. -/
  orders : List FieldOrder := []
  start : Option Cursor := none
  stop : Option Cursor := none
  offset : Option Nat := none
  limit : Option Nat := none
  /-- The limit keeps the last documents. -/
  keepsLast : Bool := false
  deriving Inhabited, Repr

namespace StoreQuery

/-- The query for all documents of a collection. -/
def ofCollection (path : ResourcePath) : Outcome StoreQuery :=
  if path.isCollection then pure { source := .collection path }
  else
    throw (.invalidArgument
      ("Collection paths must have an odd number of segments, got '" ++ path.text ++ "'"))

/-- The query for all documents of a collection group. -/
def ofGroup (collectionId : String) (below : Option ResourcePath) : Outcome StoreQuery :=
  if collectionId.isEmpty then throw (.invalidArgument "Collection ID must not be empty.")
  else if Text.hasChar '/' collectionId then
    throw (.invalidArgument "Collection ID may not contain a slash.")
  else
    match below with
    | some document =>
      if document.isDocument then pure { source := .group collectionId below }
      else
        throw (.invalidArgument
          ("Collection group scope must be a document path, got '" ++ document.text ++ "'"))
    | none => pure { source := .group collectionId below }

/-- The query for all documents of a source. -/
def ofSource : Source → Outcome StoreQuery
  | .collection path => ofCollection path
  | .group collectionId below => ofGroup collectionId below

def select (q : StoreQuery) (fields : List FieldPath) : StoreQuery :=
  { q with projection := some fields }

/-- The query with one more filter.  A list operator takes an array, and no operator
takes a write-only marker. -/
def filter (q : StoreQuery) (field : FieldPath) (operator : Operator) (operand : Value) :
    Outcome StoreQuery :=
  if operator.takesList && operand.asArray?.isNone then
    throw (.invalidArgument ("Operator '" ++ operator.text ++ "' requires an array operand"))
  else if operand.isMarker then
    throw (.invalidArgument "Sentinel values cannot be used in filters")
  else pure { q with filters := q.filters ++ [⟨field, operator, operand⟩] }

def orderBy (q : StoreQuery) (field : FieldPath) (direction : Direction) : StoreQuery :=
  { q with orders := q.orders ++ [⟨field, direction⟩] }

/-- Keeps the first `n` documents. -/
def limitTo (q : StoreQuery) (n : Nat) : StoreQuery :=
  { q with limit := some n, keepsLast := false }

/-- Keeps the last `n` documents. -/
def limitToLast (q : StoreQuery) (n : Nat) : StoreQuery :=
  { q with limit := some n, keepsLast := true }

def skip (q : StoreQuery) (n : Nat) : StoreQuery := { q with offset := some n }

def startAt (q : StoreQuery) (values : List Value) : StoreQuery :=
  { q with start := some ⟨values, true⟩ }

def startAfter (q : StoreQuery) (values : List Value) : StoreQuery :=
  { q with start := some ⟨values, false⟩ }

def endAt (q : StoreQuery) (values : List Value) : StoreQuery :=
  { q with stop := some ⟨values, true⟩ }

def endBefore (q : StoreQuery) (values : List Value) : StoreQuery :=
  { q with stop := some ⟨values, false⟩ }

/-- The orderings of the query: those asked for, or the field of the first inequality;
then, unless it is among them, the name of the document, in the last direction. -/
def effectiveOrders (q : StoreQuery) : List FieldOrder :=
  let orders :=
    if q.orders.isEmpty then
      match q.filters.find? (·.operator.isInequality) with
      | some f => [⟨f.field, .ascending⟩]
      | none => []
    else q.orders
  if orders.any (·.field.isDocumentId) then orders
  else
    let direction := (orders.getLast?.map (·.direction)).getD .ascending
    orders ++ [⟨.documentId, direction⟩]

/-- A query for the last documents as one for the first: orderings reversed and cursors
swapped.  Its result is in reverse. -/
def toFirst (q : StoreQuery) : StoreQuery :=
  if q.keepsLast then
    { q with
      orders := q.effectiveOrders.map (·.reversed)
      start := q.stop
      stop := q.start
      keepsLast := false }
  else q

end StoreQuery

end DocStore
