import DocStore.Document.Snapshot
import DocStore.Query.StoreQuery
import DocStore.Value.Order
import DocStore.Sorting

/-!
# Evaluating a query

The documents of a query are chosen by source and filters, sorted by the effective
orderings, cut at the cursors, at the offset and at the limit, and then reduced to the
fields asked for.  A field that is missing is null for the orderings; no filter holds of
it.  A document id may be written as a string; it is compared as a reference.
-/

namespace DocStore

/-- A value that stands for documents, as references: a string without a slash is an id,
in the collection of the query if it has one, and any other string is a path. -/
def Value.asDocument (source : Source) : Value → Value
  | .string s =>
    if Text.hasChar '/' s then .reference (Text.strip (· == '/') s)
    else
      match source with
      | .collection path => .reference (path.child [s]).text
      | .group _ _ => .reference s
  | .array items => .array (itemsAsDocuments source items)
  | v => v
where
  itemsAsDocuments (source : Source) : List Value → List Value
    | [] => []
    | v :: rest => asDocument source v :: itemsAsDocuments source rest

namespace Filter

/-- The filter with its operand as it is compared. -/
def normal (source : Source) (f : Filter) : Filter :=
  if f.field.isDocumentId then { f with operand := f.operand.asDocument source } else f

/-- Two values that a range can compare: of one kind, or both numbers. -/
def comparable (a b : Value) : Bool := a.rank == b.rank

/-- The operator holds of a value and an operand. -/
def relates (operator : Operator) (v operand : Value) : Bool :=
  match operator with
  | .equal => v.storeEquals operand
  | .notEqual => !v.isNull && !v.storeEquals operand
  | .lessThan => comparable v operand && v.compare operand == .lt
  | .lessThanOrEqual => comparable v operand && v.compare operand != .gt
  | .greaterThan => comparable v operand && v.compare operand == .gt
  | .greaterThanOrEqual => comparable v operand && v.compare operand != .lt
  | .arrayContains =>
    match v with
    | .array items => operand.containedIn items
    | _ => false
  | .arrayContainsAny =>
    match v, operand with
    | .array items, .array needles => Value.anyContainedIn needles items
    | _, _ => false
  | .isIn =>
    match operand with
    | .array candidates => v.containedIn candidates
    | _ => false
  | .notIn =>
    !v.isNull
      && (match operand with
          | .array candidates => !v.containedIn candidates
          | _ => false)

/-- The filter holds of a document. -/
def holds (f : Filter) (s : Snapshot) : Bool :=
  match s.field? f.field with
  | some v => relates f.operator v f.operand
  | none => false

end Filter

namespace FieldOrder

/-- The value of a document for an ordering; null if it has none. -/
def valueOf (path : FieldPath) (s : Snapshot) : Value := (s.field? path).getD .null

/-- The order of documents, ordering by ordering. -/
def compareBy (orders : List FieldOrder) (a b : Snapshot) : Ordering :=
  match orders with
  | [] => .eq
  | o :: rest =>
    (o.direction.apply ((valueOf o.field a).compare (valueOf o.field b))).then
      (compareBy rest a b)

/-- A document against the values of a cursor, as far as there are any. -/
def compareTo (orders : List FieldOrder) (values : List Value) (s : Snapshot) : Ordering :=
  match orders, values with
  | o :: rest, v :: vs =>
    (o.direction.apply ((valueOf o.field s).compare v)).then (compareTo rest vs s)
  | _, _ => .eq

end FieldOrder

namespace Cursor

/-- The cursor with its values as they are compared. -/
def normal (source : Source) (orders : List FieldOrder) (c : Cursor) : Cursor :=
  { c with values := align orders c.values }
where
  align : List FieldOrder → List Value → List Value
    | o :: rest, v :: vs =>
      (if o.field.isDocumentId then v.asDocument source else v) :: align rest vs
    | [], vs => vs
    | _, [] => []

/-- The document is not before the cursor, taken as a start. -/
def admitsFrom (c : Cursor) (orders : List FieldOrder) (s : Snapshot) : Bool :=
  let place := FieldOrder.compareTo orders c.values s
  if c.inclusive then place != .lt else place == .gt

/-- The document is not after the cursor, taken as an end. -/
def admitsUpTo (c : Cursor) (orders : List FieldOrder) (s : Snapshot) : Bool :=
  let place := FieldOrder.compareTo orders c.values s
  if c.inclusive then place != .gt else place == .lt

end Cursor

namespace StoreQuery

/-- A document exists, belongs to the source and satisfies all filters. -/
def selects (q : StoreQuery) (s : Snapshot) : Bool :=
  s.exists? && q.source.contains s.key
    && q.filters.all fun f => (f.normal q.source).holds s

/-- The documents of the query in order, before they are cut. -/
def ordered (q : StoreQuery) (documents : List Snapshot) : List Snapshot :=
  let orders := q.effectiveOrders
  Sorting.sorted (fun a b => FieldOrder.compareBy orders a b == .lt) (documents.filter q.selects)

/-- The documents between the cursors. -/
def betweenCursors (q : StoreQuery) (documents : List Snapshot) : List Snapshot :=
  let orders := q.effectiveOrders
  let fromStart :=
    match q.start with
    | some c => documents.filter ((c.normal q.source orders).admitsFrom orders)
    | none => documents
  match q.stop with
  | some c => fromStart.filter ((c.normal q.source orders).admitsUpTo orders)
  | none => fromStart

/-- The documents that offset and limit leave.  Where the limit keeps the last documents,
the offset is taken from the end. -/
def window (q : StoreQuery) (documents : List Snapshot) : List Snapshot :=
  let offset := q.offset.getD 0
  match q.limit, q.keepsLast with
  | some n, true =>
    let kept := documents.take (documents.length - offset)
    kept.drop (kept.length - n)
  | some n, false => (documents.drop offset).take n
  | none, _ => documents.drop offset

/-- The document with the fields that the query asks for. -/
def project (q : StoreQuery) (s : Snapshot) : Snapshot :=
  match q.projection with
  | some paths =>
    { s with
      fields := some
        (Snapshot.selectPaths (s.fields.getD []) (paths.filter (!·.isDocumentId))) }
  | none => s

/-- The result of a query over some documents. -/
def run (q : StoreQuery) (documents : List Snapshot) : List Snapshot :=
  (q.window (q.betweenCursors (q.ordered documents))).map q.project

end StoreQuery

end DocStore
