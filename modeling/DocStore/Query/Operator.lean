import DocStore.Error
import DocStore.Text.Blank

/-!
# Operators and directions

The operators that compare a field with an operand, their spellings in a condition, in
a statement and on the wire, and the two directions of an ordering.
-/

namespace DocStore

/-- How a field is compared with an operand. -/
inductive Operator
  | lessThan
  | lessThanOrEqual
  | greaterThan
  | greaterThanOrEqual
  | equal
  | notEqual
  | arrayContains
  | arrayContainsAny
  | isIn
  | notIn
  deriving DecidableEq, Repr, Inhabited

namespace Operator

/-- The operator in a statement. -/
def text : Operator → String
  | lessThan => "<"
  | lessThanOrEqual => "<="
  | greaterThan => ">"
  | greaterThanOrEqual => ">="
  | equal => "="
  | notEqual => "!="
  | arrayContains => "array-contains"
  | arrayContainsAny => "array-contains-any"
  | isIn => "in"
  | notIn => "not-in"

/-- The operator in a request to the server. -/
def wireName : Operator → String
  | lessThan => "LESS_THAN"
  | lessThanOrEqual => "LESS_THAN_OR_EQUAL"
  | greaterThan => "GREATER_THAN"
  | greaterThanOrEqual => "GREATER_THAN_OR_EQUAL"
  | equal => "EQUAL"
  | notEqual => "NOT_EQUAL"
  | arrayContains => "ARRAY_CONTAINS"
  | arrayContainsAny => "ARRAY_CONTAINS_ANY"
  | isIn => "IN"
  | notIn => "NOT_IN"

/-- The operator orders the result by its field when nothing else does. -/
def isInequality : Operator → Bool
  | lessThan | lessThanOrEqual | greaterThan | greaterThanOrEqual | notEqual | notIn => true
  | _ => false

/-- The operand is a list of candidates. -/
def takesList : Operator → Bool
  | isIn | notIn | arrayContainsAny => true
  | _ => false

/-- The spellings of an operator in a condition, in lower case. -/
def spellings : List (String × Operator) :=
  [("=", equal), ("==", equal), ("===", equal),
    ("!=", notEqual), ("<>", notEqual), ("!==", notEqual),
    ("<", lessThan), ("<=", lessThanOrEqual), (">", greaterThan), (">=", greaterThanOrEqual),
    ("array-contains", arrayContains), ("array-contains-any", arrayContainsAny),
    ("in", isIn), ("not-in", notIn), ("not in", notIn)]

/-- The operator of a spelling, in any case and with blanks around it. -/
def ofText (spelling : String) : Outcome Operator :=
  let word := String.ofList ((Text.trim spelling).toList.map Char.toLower)
  match spellings.lookup word with
  | some operator => pure operator
  | none => throw (.invalidArgument ("Unsupported where operator '" ++ word ++ "'"))

/-- The operator that holds where this one does not, for a field that can be compared. -/
def negated : Operator → Outcome Operator
  | equal => pure notEqual
  | notEqual => pure equal
  | lessThan => pure greaterThanOrEqual
  | lessThanOrEqual => pure greaterThan
  | greaterThan => pure lessThanOrEqual
  | greaterThanOrEqual => pure lessThan
  | isIn => pure notIn
  | notIn => pure isIn
  | operator =>
    throw (.invalidArgument ("Operator '" ++ operator.text ++ "' cannot be negated"))

end Operator

/-- The direction of an ordering. -/
inductive Direction
  | ascending
  | descending
  deriving DecidableEq, Repr, Inhabited

namespace Direction

def text : Direction → String
  | ascending => "asc"
  | descending => "desc"

def wireName : Direction → String
  | ascending => "ASCENDING"
  | descending => "DESCENDING"

def reversed : Direction → Direction
  | ascending => descending
  | descending => ascending

/-- A comparison in this direction. -/
def apply : Direction → Ordering → Ordering
  | ascending, o => o
  | descending, o => o.swap

end Direction

end DocStore
