import DocStore.Query.StoreQuery

/-!
# Calls

A query is compiled to calls, one for each part of it.  The calls that name a source
choose the query to start with; each other call adds its part.
-/

namespace DocStore

/-- One part of a query, checked. -/
inductive Call
  | select (fields : List FieldPath)
  | collection (path : ResourcePath)
  | group (collectionId : String) (below : Option ResourcePath)
  | filter (field : FieldPath) (operator : Operator) (operand : Value)
  | orderBy (field : FieldPath) (direction : Direction)
  | startAt (values : List Value)
  | endAt (values : List Value)
  | startAfter (values : List Value)
  | endBefore (values : List Value)
  | offset (n : Nat)
  | limit (n : Nat)
  | limitToLast (n : Nat)
  deriving Inhabited, Repr

namespace Call

/-- The name of a call. -/
def method : Call → String
  | select _ => "select"
  | collection _ => "collection"
  | group _ _ => "collectionGroup"
  | filter _ _ _ => "where"
  | orderBy _ _ => "orderBy"
  | startAt _ => "startAt"
  | endAt _ => "endAt"
  | startAfter _ => "startAfter"
  | endBefore _ => "endBefore"
  | offset _ => "offset"
  | limit _ => "limit"
  | limitToLast _ => "limitToLast"

/-- The call adds nothing: no fields, no values or zero. -/
def isIdle : Call → Bool
  | select fields => fields.isEmpty
  | startAt values | endAt values | startAfter values | endBefore values => values.isEmpty
  | offset n | limit n | limitToLast n => n == 0
  | _ => false

/-- The source that a call names. -/
def source? : Call → Option Source
  | collection path => some (.collection path)
  | group collectionId below => some (.group collectionId below)
  | _ => none

/-- The query with the part of a call. -/
def apply (q : StoreQuery) : Call → Outcome StoreQuery
  | select fields => pure (q.select fields)
  | collection _ | group _ _ => pure q
  | filter field operator operand => q.filter field operator operand
  | orderBy field direction => pure (q.orderBy field direction)
  | startAt values => pure (q.startAt values)
  | endAt values => pure (q.endAt values)
  | startAfter values => pure (q.startAfter values)
  | endBefore values => pure (q.endBefore values)
  | offset n => pure (q.skip n)
  | limit n => pure (q.limitTo n)
  | limitToLast n => pure (q.limitToLast n)

end Call

/-- A compiled query: its source and the calls that add the other parts. -/
structure CompiledQuery where
  source : Source
  calls : List Call
  deriving Inhabited, Repr

namespace CompiledQuery

def methods (q : CompiledQuery) : List String := q.calls.map (·.method)

/-- The query that the calls make, in their order. -/
def toStoreQuery (q : CompiledQuery) : Outcome StoreQuery := do
  q.calls.foldlM Call.apply (← StoreQuery.ofSource q.source)

end CompiledQuery

end DocStore
