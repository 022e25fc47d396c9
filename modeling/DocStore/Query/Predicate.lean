import DocStore.Query.Call
import DocStore.Query.State

/-!
# Compiling predicates

Predicates become filters, one for each condition, from left to right.  A negation is
pushed down to the conditions, where it turns an operator into its complement; two
negations cancel.  The store joins filters by AND alone, so a predicate joined by OR is
refused, and so is the negation of a group of several predicates.
-/

namespace DocStore

/-- The most values that a list operator takes. -/
def maxListOperand : Nat := 10

/-- The operand of a list operator: an array of one to ten values. -/
def Value.checkList (v : Value) : Outcome Value :=
  match v with
  | .map _ => throw (.invalidArrayableClause "Values must not be an associative array.")
  | .array items =>
    if items.isEmpty then
      throw (.invalidArrayableClause "Values must not be an empty array.")
    else if maxListOperand < items.length then
      throw (.invalidArrayableClause
        ("Values must not be greater than " ++ toString maxListOperand ++ " items."))
    else pure v
  | _ => throw (.invalidArrayableClause "Values must be an array.")

namespace Condition

/-- The filter call on a field given by its text. -/
def filterOn (field : String) (operator : Operator) (operand : Value) : Outcome Call := do
  return .filter (← FieldPath.ofText field) operator operand

/-- The filter of a condition, or of its negation. -/
def compile (negate : Bool) : Condition → Outcome Call
  | basic field operator value => do
    let operator ← Operator.ofText operator
    let operator ← if negate then operator.negated else pure operator
    let value ← if operator.takesList then value.checkList else pure value
    filterOn field operator value
  | isIn field values => do
    filterOn field (if negate then .notIn else .isIn) (← values.checkList)
  | notIn field values => do
    filterOn field (if negate then .isIn else .notIn) (← values.checkList)
  | isNull field => filterOn field (if negate then .notEqual else .equal) .null
  | notNull field => filterOn field (if negate then .equal else .notEqual) .null

end Condition

namespace Predicate

def link : Predicate → Link
  | leaf link _ => link
  | nested link _ => link

mutual

/-- The filters of a predicate inside a context that is negated or not. -/
def compile (negated : Bool) : Predicate → Outcome (List Call)
  | leaf link condition =>
    if link.joiner = .or then throw .unsupportedDisjunction
    else do return [← condition.compile (link.negate ^^ negated)]
  | nested link children =>
    if link.joiner = .or then throw .unsupportedDisjunction
    else if (link.negate ^^ negated) && 1 < children.length then
      throw .unsupportedDisjunction
    else compileEach (link.negate ^^ negated) children

/-- The filters of some predicates, in order. -/
def compileEach (negated : Bool) : List Predicate → Outcome (List Call)
  | [] => pure []
  | p :: rest => do
    let calls ← p.compile negated
    return calls ++ (← compileEach negated rest)

end

/-- The filters of all predicates of a query.  A collection group below a document takes
none. -/
def compileAll (scopedGroup : Bool) (predicates : List Predicate) : Outcome (List Call) :=
  if predicates.isEmpty then pure []
  else if scopedGroup then throw .unsupportedFilteredGroupScope
  else compileEach false predicates

end Predicate

end DocStore
