import DocStore.Query.Compile
import DocStore.Tagged.Path
import DocStore.Tagged.Value

/-!
# Tagged queries

The parts of a query, the calls it is compiled to, and the query that a store executes.
A predicate is a list of its joiner, whether it is negated, and its condition.
-/

namespace DocStore.Tagged

/-! ## Writing -/

def ofSource : Source → Json
  | .collection path => .array [str "collection", str path.text]
  | .group id below => .array [str "group", str id, orNull (fun p => str p.text) below]

def ofPaths (paths : List FieldPath) : Json := strs (paths.map (·.text))

def ofFilter (f : Filter) : Json :=
  .array [str f.field.text, str f.operator.text, ofValue f.operand]

def ofOrders (orders : List FieldOrder) : Json :=
  .array (orders.map fun o => strs [o.field.text, o.direction.text])

def ofCursor (c : Cursor) : Json := .array [ofValues c.values, .bool c.inclusive]

/-- A query of a store, with the orderings that count. -/
def ofStoreQuery (q : StoreQuery) : Json :=
  obj
    [("source", ofSource q.source), ("select", orNull ofPaths q.projection),
      ("filters", .array (q.filters.map ofFilter)), ("orders", ofOrders q.orders),
      ("normalized", ofOrders q.effectiveOrders), ("start", orNull ofCursor q.start),
      ("end", orNull ofCursor q.stop), ("offset", orNull num q.offset),
      ("limit", orNull num q.limit), ("last", .bool q.keepsLast)]

/-- The arguments of a call. -/
def ofArguments : Call → List Json
  | .select fields => [ofPaths fields]
  | .collection path => [str path.text]
  | .group id below => [str id, orNull (fun p => str p.text) below]
  | .filter field operator operand => [str field.text, str operator.text, ofValue operand]
  | .orderBy field direction => [str field.text, str direction.text]
  | .startAt values | .endAt values | .startAfter values | .endBefore values =>
    [ofValues values]
  | .offset n | .limit n | .limitToLast n => [num n]

def ofCall (c : Call) : Json := .array (str c.method :: ofArguments c)

def ofCalls (calls : List Call) : Json := .array (calls.map ofCall)

def ofCompiled (c : CompiledQuery) : Json :=
  obj
    [("source", ofSource c.source), ("parent", str c.source.parent.text),
      ("collection_id", str c.source.collectionId), ("group", .bool c.source.isGroup),
      ("calls", ofCalls c.calls), ("methods", strs c.methods)]

def ofCondition : Condition → Json
  | .basic field operator v => .array [str "basic", str field, str operator, ofValue v]
  | .isIn field v => .array [str "in", str field, ofValue v]
  | .notIn field v => .array [str "not_in", str field, ofValue v]
  | .isNull field => strs ["null", field]
  | .notNull field => strs ["not_null", field]

mutual

def ofPredicate : Predicate → Json
  | .leaf link condition =>
    .array [str link.joiner.text, .bool link.negate, ofCondition condition]
  | .nested link children =>
    .array [str link.joiner.text, .bool link.negate,
      .array [str "nested", .array (ofPredicates children)]]

def ofPredicates : List Predicate → List Json
  | [] => []
  | p :: rest => ofPredicate p :: ofPredicates rest

end

/-- The parts of a query. -/
def ofState (q : QueryState) : Json :=
  obj
    [("from", orNull str q.source), ("group", .bool q.isGroup), ("parent", orNull str q.scope),
      ("columns", strs q.columns), ("wheres", .array (ofPredicates q.predicates)),
      ("orders", .array (q.orders.map fun o => strs [o.field, o.direction.text])),
      ("start_at", ofValues q.startAt), ("end_at", ofValues q.endAt),
      ("start_after", ofValues q.startAfter), ("end_before", ofValues q.endBefore),
      ("offset", orNull num q.offset), ("limit", orNull num q.limit),
      ("limit_to_last", orNull num q.limitToLast)]

/-! ## Reading -/

/-- A direction; ascending if none is given. -/
def toDirection : Option Json → Direction
  | some (.string "desc") => .descending
  | _ => .ascending

def joinerOf (s : String) : Joiner := if s == "or" then .or else .and

def toCondition (kind : String) (args : List Json) : Reading Condition :=
  match kind with
  | "basic" => do return .basic (← argText args 0) (← argText args 1) (← argValue args 2)
  | "in" => do return .isIn (← argText args 0) (← argValue args 1)
  | "not_in" => do return .notIn (← argText args 0) (← argValue args 1)
  | "null" => do return .isNull (← argText args 0)
  | "not_null" => do return .notNull (← argText args 0)
  | kind => malformed ("unknown predicate " ++ kind)

mutual

def toPredicate : Json → Reading Predicate
  | .array [.string joiner, .bool negate, .array [.string kind, .array children]] =>
    if kind == "nested" then do
      return .nested ⟨joinerOf joiner, negate⟩ (← toPredicates children)
    else do return .leaf ⟨joinerOf joiner, negate⟩ (← toCondition kind [.array children])
  | .array [.string joiner, .bool negate, .array (.string kind :: args)] => do
    return .leaf ⟨joinerOf joiner, negate⟩ (← toCondition kind args)
  | _ => malformed "bad predicate"

def toPredicates : List Json → Reading (List Predicate)
  | [] => pure []
  | j :: rest => do
    let p ← toPredicate j
    return p :: (← toPredicates rest)

end

def toOrder : Json → Reading Order
  | .array (.string field :: rest) => pure ⟨field, toDirection rest.head?⟩
  | _ => malformed "bad order"

/-- The parts of a query; each of them may be missing. -/
def toState (j : Json) : Reading QueryState := do
  return {
    source := text? "from" j
    isGroup := flag "group" j
    scope := text? "parent" j
    columns := ← asTexts "columns" (listOr "columns" j)
    predicates := ← toPredicates (listOr "wheres" j)
    orders := ← (listOr "orders" j).mapM toOrder
    startAt := ← toItems (listOr "start_at" j)
    endAt := ← toItems (listOr "end_at" j)
    startAfter := ← toItems (listOr "start_after" j)
    endBefore := ← toItems (listOr "end_before" j)
    offset := nat? "offset" j
    limit := nat? "limit" j
    limitToLast := nat? "limit_to_last" j }

/-- The query for all documents of a source. -/
def toSourceQuery (j : Json) : Reading StoreQuery :=
  match text? "collection" j, text? "group" j with
  | some path, _ => do
    accept (StoreQuery.ofCollection (← accept (ResourcePath.ofText path)))
  | none, some id => do
    let below ← (text? "parent" j).mapM fun path => accept (ResourcePath.ofText path)
    accept (StoreQuery.ofGroup id below)
  | none, none => missing "source"

/-- The query after one call on it. -/
def addCall (q : StoreQuery) (name : String) (args : List Json) : Reading StoreQuery :=
  match name with
  | "select" => do return q.select (← (← argList args 0).mapM toFieldPath)
  | "where" => do
    let field ← toFieldPath (← arg args 0)
    let operator ← accept (Operator.ofText (← argText args 1))
    accept (q.filter field operator (← argValue args 2))
  | "order_by" => do return q.orderBy (← toFieldPath (← arg args 0)) (toDirection args[1]?)
  | "limit" => do return q.limitTo (← argNat args 0)
  | "limit_to_last" => do return q.limitToLast (← argNat args 0)
  | "offset" => do return q.skip (← argNat args 0)
  | "start_at" => do return q.startAt (← argValues args 0)
  | "start_after" => do return q.startAfter (← argValues args 0)
  | "end_at" => do return q.endAt (← argValues args 0)
  | "end_before" => do return q.endBefore (← argValues args 0)
  | name => malformed ("unknown call " ++ name)

/-- A query of a store: its source and the calls on it. -/
def toStoreQuery (j : Json) : Reading StoreQuery := do
  (listOr "calls" j).foldlM
    (fun q call =>
      match call with
      | .array (.string name :: args) => addCall q name args
      | _ => malformed "bad call")
    (← toSourceQuery (← need "source" j))

end DocStore.Tagged
