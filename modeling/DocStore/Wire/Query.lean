import DocStore.Json.Basic
import DocStore.Query.Evaluate
import DocStore.Wire.FieldPath
import DocStore.Wire.Value

/-!
# Queries on the wire

The structured form of a query for the first documents.  With a cursor, all effective
orderings are sent, so that every value of the cursor has one.  A cursor says whether it
lies before the documents at it.
-/

namespace DocStore.Wire

/-- A field on the wire. -/
def ofField (path : FieldPath) : Json := single "fieldPath" (.string path.wireText)

/-- The operator of a filter that takes no operand. -/
def unaryName? (f : Filter) : Option String :=
  match f.operator, f.operand with
  | .equal, .null => some "IS_NULL"
  | .notEqual, .null => some "IS_NOT_NULL"
  | .equal, .double d => if d.isNaN then some "IS_NAN" else none
  | .notEqual, .double d => if d.isNaN then some "IS_NOT_NAN" else none
  | _, _ => none

/-- A filter on the wire. -/
def ofFilter (db : DatabaseId) (source : Source) (f : Filter) : Json :=
  match unaryName? f with
  | some name =>
    single "unaryFilter" (.object [("field", ofField f.field), ("op", .string name)])
  | none =>
    single "fieldFilter"
      (.object
        [("field", ofField f.field), ("op", .string f.operator.wireName),
          ("value", ofValue db (f.normal source).operand)])

/-- All filters: one alone, or several joined. -/
def ofFilters (db : DatabaseId) (source : Source) : List Filter → Json
  | [f] => ofFilter db source f
  | fs =>
    single "compositeFilter"
      (.object [("filters", .array (fs.map (ofFilter db source))), ("op", .string "AND")])

/-- An ordering on the wire. -/
def ofOrder (o : FieldOrder) : Json :=
  .object [("direction", .string o.direction.wireName), ("field", ofField o.field)]

/-- The orderings that are sent. -/
def sentOrders (q : StoreQuery) : List FieldOrder :=
  if q.start.isSome || q.stop.isSome then q.effectiveOrders else q.orders

/-- A cursor on the wire. -/
def ofCursor (db : DatabaseId) (q : StoreQuery) (c : Cursor) (before : Bool) : Json :=
  .object
    [("before", .bool before),
      ("values", .array (ofItems db (c.normal q.source (sentOrders q)).values))]

/-- A field of an object, if there is a value for it. -/
def optional (key : String) (j : Option Json) : List (String × Json) :=
  match j with
  | some j => [(key, j)]
  | none => []

/-- A query for the first documents on the wire. -/
def ofQuery (db : DatabaseId) (q : StoreQuery) : Json :=
  let orders := sentOrders q
  .object
    (optional "endAt" (q.stop.map fun c => ofCursor db q c (!c.inclusive))
      ++ [("from", .array [.object
            [("allDescendants", .bool q.source.isGroup),
              ("collectionId", .string q.source.collectionId)]])]
      ++ optional "limit" (q.limit.map fun n => .integer n)
      ++ optional "offset" (q.offset.map fun n => .integer n)
      ++ (if orders.isEmpty then [] else [("orderBy", .array (orders.map ofOrder))])
      ++ optional "select" (q.projection.map fun paths =>
          single "fields" (.array (paths.map ofField)))
      ++ optional "startAt" (q.start.map fun c => ofCursor db q c c.inclusive)
      ++ (if q.filters.isEmpty then [] else [("where", ofFilters db q.source q.filters)]))

end DocStore.Wire
