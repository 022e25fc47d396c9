import DocStore.Document.Snapshot
import DocStore.Value.Order

/-!
# Aggregates

Reductions of the values that some documents have at a field.  Missing and null values
do not count.  A sum stays an integer as long as all numbers are integers and every
partial sum fits in 64 bits.
-/

namespace DocStore

/-- A reduction of the documents of a query. -/
inductive Aggregate
  | count
  | min
  | max
  | sum
  | avg
  deriving DecidableEq, Repr

/-- The name of a reduction in a statement. -/
def Aggregate.name : Aggregate → String
  | count => "count"
  | min => "min"
  | max => "max"
  | sum => "sum"
  | avg => "avg"

namespace Aggregate

/-- The values at a field that are there and not null. -/
def fieldValues (documents : List Snapshot) (path : FieldPath) : List Value :=
  (documents.filterMap (·.field? path)).filter (!·.isNull)

/-- The exact total, as long as there is one, and the total in doubles. -/
structure Totals where
  exact : Option Int64 := some 0
  rounded : Double := .zero

/-- The totals with one more value. -/
def Totals.add (t : Totals) : Value → Totals
  | .integer n =>
    { exact := t.exact.bind fun total => Number.int64? (total.toInt + n.toInt)
      rounded := t.rounded.add (Double.ofInt n.toInt) }
  | .double d => { exact := none, rounded := t.rounded.add d }
  | _ => t

/-- The sum of the numbers. -/
def total (values : List Value) : Value :=
  let totals := values.foldl Totals.add {}
  match totals.exact with
  | some n => .integer n
  | none => .double totals.rounded

/-- The mean of the numbers, if there are any.  The sum starts from negative zero, so that
it keeps the sign of zeros. -/
def mean? (values : List Value) : Option Double :=
  let numbers := values.filterMap (·.asDouble?)
  if numbers.isEmpty then none
  else some ((numbers.foldl Double.add (Double.ofMagnitude true 0)).div
    (Double.ofInt numbers.length))

end Aggregate

end DocStore
