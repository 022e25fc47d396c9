import DocStore.Document.Scope
import DocStore.Query.Compile

/-!
# Building a query

The steps by which a query is put together.  Conditions are taken as they are written
and checked when the query is compiled; a step that narrows the source fails at once if
it cannot.
-/

namespace DocStore.QueryState

/-- The last character of the range of names that `of` looks at: above it lie only names
with characters of the end of Unicode. -/
def rangeEnd : Char := '\uf8ff'

/-- Looks at a collection.  Blanks and then slashes around its path do not count. -/
def table (q : QueryState) (collection : String) : QueryState :=
  { q with
    source := some (Text.strip (· == '/') (Text.trim collection))
    isGroup := false
    scope := none }

/-- The source, which has to be the name of a collection. -/
def checkCollectionId (q : QueryState) : Outcome Unit :=
  match q.source with
  | none => throw (.invalidArgument "No collection selected, call from() first")
  | some source =>
    if Text.hasChar '/' source then
      throw (.invalidCollectionPath
        ("The collection [" ++ source ++ "] is not compatible with collection group."))
    else pure ()

/-- Looks at all collections of the name. -/
def inCollectionGroup (q : QueryState) : Outcome QueryState := do
  q.checkCollectionId
  return { q with isGroup := true }

/-- Looks at the collections of the name below a document.  Such a query takes no
conditions. -/
def inDocument (q : QueryState) (scope : Scope) : Outcome QueryState := do
  q.checkCollectionId
  return { q with isGroup := true, scope := some (← scope.resolve) }

/-- Looks at the collections of the name below a document by a range of document names,
so that conditions can be given. -/
def ofScope (q : QueryState) (scope : Scope) : Outcome QueryState := do
  let path ← scope.resolve
  let q ← q.inCollectionGroup
  return { q with
    orders := q.orders ++ [⟨FieldPath.documentIdName, .ascending⟩]
    startAt := [.reference path]
    endAt := [.reference (path.push rangeEnd)] }

/-- Asks for some fields; for the document id alone if none are given. -/
def select (q : QueryState) (columns : List String) : QueryState :=
  { q with columns := if columns.isEmpty then [FieldPath.documentIdName] else columns }

/-- Asks for all fields. -/
def selectAll (q : QueryState) : QueryState := { q with columns := ["*"] }

def addPredicate (q : QueryState) (p : Predicate) : QueryState :=
  { q with predicates := q.predicates ++ [p] }

/-- Adds a condition with a link of its own. -/
def whereWith (q : QueryState) (link : Link) (field operator : String) (value : Value) :
    QueryState :=
  q.addPredicate (.leaf link (.basic field operator value))

/-- Adds a condition. -/
def addWhere (q : QueryState) (field operator : String) (value : Value) : QueryState :=
  q.whereWith {} field operator value

/-- Adds a condition joined by OR, which is refused when the query is compiled. -/
def orWhere (q : QueryState) (field operator : String) (value : Value) : QueryState :=
  q.whereWith { joiner := .or } field operator value

/-- Adds the negation of a condition. -/
def whereNot (q : QueryState) (field operator : String) (value : Value) : QueryState :=
  q.whereWith { negate := true } field operator value

/-- Asks for the document with an id or a path. -/
def whereKey (q : QueryState) (id : String) : QueryState :=
  q.addWhere FieldPath.documentIdName "=" (.string id)

/-- Adds a condition that is not negated. -/
def whereCondition (q : QueryState) (condition : Condition) : QueryState :=
  q.addPredicate (.leaf {} condition)

/-- Adds the predicates of another query as one group, if it has any. -/
def whereNested (q nested : QueryState) : QueryState :=
  if nested.predicates.isEmpty then q else q.addPredicate (.nested {} nested.predicates)

/-- Adds an ordering. -/
def orderBy (q : QueryState) (field : String) (direction : Direction) : QueryState :=
  { q with orders := q.orders ++ [⟨field, direction⟩] }

end DocStore.QueryState
