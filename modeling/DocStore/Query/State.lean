import DocStore.Query.Operator
import DocStore.Value.Basic

/-!
# What a query asks for

The parts of a query as they were written: names and operators are texts that have not
been checked.  A predicate is a condition on one field or a group of predicates; it
says how it is joined to the predicates before it, and whether it is negated.
-/

namespace DocStore

/-- How a predicate is joined to the ones before it. -/
inductive Joiner
  | and
  | or
  deriving DecidableEq, Repr, Inhabited

def Joiner.text : Joiner → String
  | and => "and"
  | or => "or"

/-- How a predicate stands among its neighbours. -/
structure Link where
  joiner : Joiner := .and
  negate : Bool := false
  deriving DecidableEq, Repr, Inhabited

/-- A condition on one field. -/
inductive Condition
  | basic (field operator : String) (value : Value)
  | isIn (field : String) (values : Value)
  | notIn (field : String) (values : Value)
  | isNull (field : String)
  | notNull (field : String)
  deriving Inhabited, Repr

/-- A condition or a group, with its link. -/
inductive Predicate
  | leaf (link : Link) (condition : Condition)
  | nested (link : Link) (children : List Predicate)
  deriving Inhabited, Repr

/-- An ordering by a field. -/
structure Order where
  field : String
  direction : Direction
  deriving DecidableEq, Repr, Inhabited

/-- The parts of a query. -/
structure QueryState where
  /-- The path of a collection; the name of collections, for a collection group. -/
  source : Option String := none
  isGroup : Bool := false
  /-- The document below which the collections of a group lie. -/
  scope : Option String := none
  /-- The fields asked for; none or `*` asks for all. -/
  columns : List String := []
  predicates : List Predicate := []
  orders : List Order := []
  startAt : List Value := []
  endAt : List Value := []
  startAfter : List Value := []
  endBefore : List Value := []
  offset : Option Nat := none
  limit : Option Nat := none
  limitToLast : Option Nat := none
  deriving Inhabited, Repr

namespace QueryState

/-- A query over a collection. -/
def ofSource (source : String) : QueryState := { source := some source }

/-- The query asks for a collection group below a document. -/
def isScopedGroup (q : QueryState) : Bool := q.isGroup && q.scope.isSome

/-- The query asks for all fields. -/
def asksForAll (q : QueryState) : Bool := q.columns.isEmpty || q.columns.contains "*"

/-- The query for all fields. -/
def withoutColumns (q : QueryState) : QueryState := { q with columns := [] }

end QueryState

end DocStore
