import DocStore.Query.Predicate

/-!
# Compiling a query

The parts of a query are compiled in a fixed order.  A part that adds nothing gives no
call; the source is always there.
-/

namespace DocStore

/-- The parts of a query. -/
inductive Component
  | columns
  | source
  | predicates
  | orders
  | startAt
  | endAt
  | startAfter
  | endBefore
  | offset
  | limit
  | limitToLast
  deriving DecidableEq, Repr, Inhabited

/-- The parts in the order in which they are compiled. -/
def Component.all : List Component :=
  [columns, source, predicates, orders, startAt, endAt, startAfter, endBefore, offset, limit,
    limitToLast]

namespace QueryState

/-- The call that names the source. -/
def compileSource (q : QueryState) : Outcome Call :=
  match q.source.filter (!Text.isAllBlank ·) with
  | none => throw (.invalidArgument "No collection selected, call from() first")
  | some source =>
    if !q.isGroup then do return .collection (← ResourcePath.ofText source)
    else if Text.hasChar '/' source then
      throw (.invalidCollectionPath
        ("Collection group '" ++ source ++ "' must be a collection id, not a path"))
    else do return .group source (← q.scope.mapM ResourcePath.ofText)

/-- The calls of one part, idle ones included. -/
def compilePart (q : QueryState) : Component → Outcome (List Call)
  | .columns =>
    if q.asksForAll then pure []
    else do return [.select (← q.columns.mapM FieldPath.ofText)]
  | .source => do return [← q.compileSource]
  | .predicates => Predicate.compileAll q.isScopedGroup q.predicates
  | .orders => q.orders.mapM fun o => do
      return .orderBy (← FieldPath.ofText o.field) o.direction
  | .startAt => pure [.startAt q.startAt]
  | .endAt => pure [.endAt q.endAt]
  | .startAfter => pure [.startAfter q.startAfter]
  | .endBefore => pure [.endBefore q.endBefore]
  | .offset => pure (q.offset.map Call.offset).toList
  | .limit => pure (q.limit.map Call.limit).toList
  | .limitToLast => pure (q.limitToLast.map Call.limitToLast).toList

/-- The calls of one part. -/
def compileComponent (q : QueryState) (component : Component) : Outcome (List Call) := do
  return (← q.compilePart component).filter (!·.isIdle)

/-- The calls of all parts in order. -/
def compileCalls (q : QueryState) : Outcome (List Call) := do
  return (← Component.all.mapM q.compileComponent).flatten

/-- The compiled query. -/
def compile (q : QueryState) : Outcome CompiledQuery := do
  let calls ← q.compileCalls
  match (calls.filterMap Call.source?).getLast? with
  | some source => return ⟨source, calls.filter (·.source?.isNone)⟩
  | none => throw (.invalidArgument "Query has no source collection")

/-- The query that a store executes. -/
def toStoreQuery (q : QueryState) : Outcome StoreQuery := do (← q.compile).toStoreQuery

end QueryState

end DocStore
