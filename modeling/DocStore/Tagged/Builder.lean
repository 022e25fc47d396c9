import DocStore.Query.Builder
import DocStore.Tagged.Query

/-!
# Queries as lists of builder calls

A query is given by the calls that build it, one after the other.  The first call that
fails ends the reading.
-/

namespace DocStore.Tagged

/-- Something that names a document: a path, or the reference, the snapshot or the model
of one. -/
def toScope : Json → Reading Scope
  | .string path => pure (.path path)
  | .object [("ref", .string path)] => do return .reference (← keyOf path)
  | .object [("snap", .string path)] => do return .snapshot (← keyOf path)
  | .object [("model", .string path)] => pure (.model (some path))
  | .object [("model", .null)] => pure (.model none)
  | _ => malformed "bad scope"

/-- Whether an argument is there and says yes. -/
def isTrue : Option Json → Bool
  | some (.bool b) => b
  | _ => false

/-- The query after a call that adds a condition. -/
def addCondition? (q : QueryState) (name : String) (args : List Json) :
    Option (Reading QueryState) :=
  match name with
  | "where" => some do
    return q.addWhere (← argText args 0) (← argText args 1) (← argValue args 2)
  | "or_where" => some do
    return q.orWhere (← argText args 0) (← argText args 1) (← argValue args 2)
  | "where_not" => some do
    return q.whereNot (← argText args 0) (← argText args 1) (← argValue args 2)
  | "where_with" => some do
    let field ← argText args 0
    let operator ← argText args 1
    let v ← argValue args 2
    let joiner := joinerOf (← argText args 3)
    return q.whereWith { joiner, negate := isTrue args[4]? } field operator v
  | "where_key" => some do return q.whereKey (← argText args 0)
  | "where_in" => some do
    return q.whereCondition (.isIn (← argText args 0) (← argValue args 1))
  | "where_not_in" => some do
    return q.whereCondition (.notIn (← argText args 0) (← argValue args 1))
  | "where_array_contains" => some do
    return q.addWhere (← argText args 0) Operator.arrayContains.text (← argValue args 1)
  | "where_array_contains_any" => some do
    return q.addWhere (← argText args 0) Operator.arrayContainsAny.text (← argValue args 1)
  | "where_null" => some do return q.whereCondition (.isNull (← argText args 0))
  | "where_not_null" => some do return q.whereCondition (.notNull (← argText args 0))
  | _ => none

/-- The query after a call that chooses where it looks. -/
def addSource? (q : QueryState) (name : String) (args : List Json) :
    Option (Reading QueryState) :=
  match name with
  | "table" | "collection" => some do
    return ({} : QueryState).table (← argText args 0)
  | "collection_group" => some do
    accept (({} : QueryState).table (← argText args 0)).inCollectionGroup
  | "from" => some do return q.table (← argText args 0)
  | "from_scoped" => some do
    let source ← argText args 0
    accept ((q.table source).inDocument (← toScope (← arg args 1)))
  | "in_collection_group" => some (accept q.inCollectionGroup)
  | "in_document" => some do accept (q.inDocument (← toScope (← arg args 0)))
  | "of" => some do accept (q.ofScope (← toScope (← arg args 0)))
  | _ => none

/-- The query after a call that orders, cuts or reduces its result. -/
def addShape? (q : QueryState) (name : String) (args : List Json) :
    Option (Reading QueryState) :=
  match name with
  | "select" => some do return q.select (← asTexts "argument" (← argList args 0))
  | "select_all" => some (pure q.selectAll)
  | "order_by" => some do return q.orderBy (← argText args 0) (toDirection args[1]?)
  | "order_by_desc" => some do return q.orderBy (← argText args 0) .descending
  | "start_at" => some do return { q with startAt := ← argValues args 0 }
  | "start_after" => some do return { q with startAfter := ← argValues args 0 }
  | "end_at" => some do return { q with endAt := ← argValues args 0 }
  | "end_before" => some do return { q with endBefore := ← argValues args 0 }
  | "offset" => some do return { q with offset := some (← argNat args 0) }
  | "limit" => some do return { q with limit := some (← argNat args 0) }
  | "limit_to_last" => some do return { q with limitToLast := some (← argNat args 0) }
  | _ => none

/-- The query after a call that holds no other calls. -/
def addPart (q : QueryState) (name : String) (args : List Json) : Reading QueryState :=
  (((addSource? q name args).orElse fun _ => addCondition? q name args).orElse fun _ =>
    addShape? q name args).getD (malformed ("unknown call " ++ name))

mutual

/-- The query after one call. -/
def buildCall (q : QueryState) : Json → Reading QueryState
  | .array [.string name, .array inner] =>
    if name == "where_nested" then do return q.whereNested (← build {} inner)
    else addPart q name [.array inner]
  | .array (.string name :: args) => addPart q name args
  | _ => malformed "bad call"

/-- The query after some calls. -/
def build (q : QueryState) : List Json → Reading QueryState
  | [] => pure q
  | call :: rest => do build (← buildCall q call) rest

end

/-- The query of the calls in the field `q`; without it, the query without parts. -/
def toQuery (j : Json) : Reading QueryState := build {} (listOr "q" j)

end DocStore.Tagged
