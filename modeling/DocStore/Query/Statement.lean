import DocStore.Query.Compile
import DocStore.Value.Literal

/-!
# Statements

The text of a query and of the mutations that use one, as it stands in a log and in the
report of a failure.  The calls of the query are taken up one by one.  Conditions wait
until a call of another kind follows, then they become one clause; orderings do the same;
every other call has a clause of its own, but for the fields and the source, which have
their places at the head of the statement.
-/

namespace DocStore

/-- A condition in a statement. -/
def Filter.text (f : Filter) : String :=
  let field := f.field.text
  match f.operator, f.operand with
  | .equal, .null => field ++ " is null"
  | .notEqual, .null => field ++ " is not null"
  | .isIn, operand => field ++ " in " ++ listText operand
  | .notIn, operand => field ++ " not in " ++ listText operand
  | operator, operand => field ++ " " ++ operator.text ++ " " ++ operand.literal
where
  /-- The candidates of a list operator. -/
  listText (operand : Value) : String :=
    match operand with
    | .array items => "(" ++ String.intercalate ", " (Value.itemLiterals items) ++ ")"
    | v => v.literal

namespace Source

/-- The source in a statement. -/
def text : Source → String
  | collection path => path.text
  | group collectionId none => "all " ++ collectionId
  | group collectionId (some document) =>
    "all " ++ collectionId ++ " in (" ++ document.text ++ ")"

end Source

/-- An ordering in a statement. -/
def FieldOrder.text (o : FieldOrder) : String := o.field.text ++ " " ++ o.direction.text

namespace Call

/-- Values between parentheses. -/
def tuple (values : List Value) : String :=
  "(" ++ String.intercalate ", " (Value.itemLiterals values) ++ ")"

/-- The clause of a call that has one of its own. -/
def clause : Call → String
  | startAt values => "start at " ++ tuple values
  | endAt values => "end at " ++ tuple values
  | startAfter values => "start after " ++ tuple values
  | endBefore values => "end before " ++ tuple values
  | offset n => "offset " ++ toString n
  | limit n => "limit " ++ toString n
  | limitToLast n => "limit to last " ++ toString n
  | call => call.method

end Call

/-- The clauses of a statement, while they are put together. -/
structure Clauses where
  /-- The choice of fields, if one was made. -/
  selection : Option String := none
  source : String := ""
  /-- The clauses after the source. -/
  rest : List String := []
  /-- The conditions that are in no clause yet. -/
  conditions : List String := []
  /-- The orderings that are in no clause yet. -/
  orderings : List String := []
  deriving Inhabited, Repr

namespace Clauses

/-- Puts the conditions that wait into a clause. -/
def closeConditions (c : Clauses) : Clauses :=
  if c.conditions.isEmpty then c
  else { c with
    rest := c.rest ++ ["where " ++ String.intercalate " and " c.conditions]
    conditions := [] }

/-- Puts the orderings that wait into a clause. -/
def closeOrderings (c : Clauses) : Clauses :=
  if c.orderings.isEmpty then c
  else { c with
    rest := c.rest ++ ["order by " ++ String.intercalate ", " c.orderings]
    orderings := [] }

/-- Puts all that waits into clauses. -/
def close (c : Clauses) : Clauses := c.closeConditions.closeOrderings

/-- Takes up a call. -/
def add (c : Clauses) : Call → Clauses
  | .select fields =>
    { c with selection := some ("select " ++ String.intercalate ", " (fields.map (·.text))) }
  | .collection path => { c with source := (Source.collection path).text }
  | .group collectionId below => { c with source := (Source.group collectionId below).text }
  | .filter field operator operand =>
    { c with conditions := c.conditions ++ [Filter.text ⟨field, operator, operand⟩] }
  | .orderBy field direction =>
    let c := c.closeConditions
    { c with orderings := c.orderings ++ [FieldOrder.text ⟨field, direction⟩] }
  | call =>
    let c := c.close
    { c with rest := c.rest ++ [call.clause] }

/-- The clauses of some calls. -/
def ofCalls (calls : List Call) : Clauses := (calls.foldl add {}).close

/-- The clauses from the source on. -/
def body (c : Clauses) : List String := ("from " ++ c.source) :: c.rest

end Clauses

namespace QueryState

/-- The text of a query. -/
def statement (q : QueryState) : Outcome String := do
  let clauses := Clauses.ofCalls (← q.compileCalls)
  return String.intercalate " " (clauses.selection.getD "select *" :: clauses.body)

/-- The text of a query for a reduction of a field. -/
def reductionStatement (q : QueryState) (reduction field : String) : Outcome String := do
  let clauses := Clauses.ofCalls (← q.withoutColumns.compileCalls)
  return String.intercalate " " (("select " ++ reduction ++ "(" ++ field ++ ")") :: clauses.body)

/-- The text of a mutation of the documents of a query: its head, with the source put
between two texts, and the clauses of the query. -/
def mutationStatement (q : QueryState) (head : String → List String) : Outcome String := do
  let clauses := Clauses.ofCalls (← q.withoutColumns.compileCalls)
  return String.intercalate " " (head clauses.source ++ clauses.rest)

/-- The text of an update. -/
def updateStatement (q : QueryState) (data : Fields) : Outcome String :=
  q.mutationStatement fun source =>
    ["update " ++ source,
      "set " ++ String.intercalate ", "
        (data.map fun (name, value) => name ++ " = " ++ value.literal)]

/-- The text of a deletion. -/
def deleteStatement (q : QueryState) : Outcome String :=
  q.mutationStatement fun source => ["delete from " ++ source]

end QueryState

/-- The text of an insertion: the columns of all records in order, and a row for each
record, with null where it has no value. -/
def insertStatement (collection : String) (records : List Fields) : String :=
  let columns := (Keyed.ofList (records.flatten.map fun (name, _) => (name, ()))).map (·.1)
  let row (record : Fields) : String :=
    "(" ++ String.intercalate ", "
      (columns.map fun c => ((Keyed.get? c record).map Value.literal).getD "null") ++ ")"
  "insert into " ++ collection ++ " (" ++ String.intercalate ", " columns ++ ") values "
    ++ String.intercalate ", " (records.map row)

end DocStore
