import DocStore.Value.Basic
import DocStore.Text.Segments

/-!
# The order of values

Values of different kinds are ordered by kind: null, booleans, numbers, timestamps,
strings, bytes, references, arrays, maps, markers.  Within a kind:

* two integers compare exactly, an integer and a double as doubles, by all bits;
* strings compare by code point, bytes by byte, references name by name;
* arrays and maps compare item by item, and a beginning comes before what extends it.
-/

namespace DocStore.Value

/-- The place of a kind among the kinds. -/
def rank : Value → Nat
  | null => 0
  | boolean _ => 1
  | integer _ | double _ => 2
  | timestamp _ => 3
  | string _ => 4
  | bytes _ => 5
  | reference _ => 6
  | array _ => 7
  | map _ => 8
  | increment _ | deleteField => 9

/-- The order of bytes. -/
def compareBytes (a b : List UInt8) : Ordering :=
  compare (a.map UInt8.toNat) (b.map UInt8.toNat)

mutual

/-- The order of values. -/
def compare : Value → Value → Ordering
  | boolean a, boolean b => Ord.compare a.toNat b.toNat
  | integer a, integer b => Ord.compare a.toInt b.toInt
  | integer a, double b => (Double.ofInt a.toInt).compareBits b
  | double a, integer b => a.compareBits (Double.ofInt b.toInt)
  | double a, double b => a.compareBits b
  | timestamp a, timestamp b => Ord.compare a b
  | string a, string b => Ord.compare a b
  | bytes a, bytes b => compareBytes a b
  | reference a, reference b => Ord.compare (Text.split '/' a) (Text.split '/' b)
  | array a, array b => compareItems a b
  | map a, map b => compareFields a b
  | a, b => Ord.compare a.rank b.rank

/-- Item by item; what runs out first comes first. -/
def compareItems : List Value → List Value → Ordering
  | [], [] => .eq
  | [], _ :: _ => .lt
  | _ :: _, [] => .gt
  | a :: as, b :: bs => (a.compare b).then (compareItems as bs)

/-- Field by field, the name before the value; what runs out first comes first. -/
def compareFields : Fields → Fields → Ordering
  | [], [] => .eq
  | [], _ :: _ => .lt
  | _ :: _, [] => .gt
  | (k, a) :: as, (l, b) :: bs =>
    ((Ord.compare k l).then (a.compare b)).then (compareFields as bs)

end

/-- Equality as queries see it: the same place in the order of values. -/
def storeEquals (a b : Value) : Bool := a.rank == b.rank && a.compare b == .eq

/-- Some item equals the value. -/
def containedIn (needle : Value) (items : List Value) : Bool := items.any (·.storeEquals needle)

/-- Some value equals some item. -/
def anyContainedIn (needles items : List Value) : Bool := needles.any (·.containedIn items)

/-- The first of the smallest values. -/
def smallest? : List Value → Option Value
  | [] => none
  | v :: rest => some (rest.foldl (fun best w => if w.compare best == .lt then w else best) v)

/-- The last of the largest values. -/
def largest? : List Value → Option Value
  | [] => none
  | v :: rest => some (rest.foldl (fun best w => if w.compare best == .lt then best else w) v)

end DocStore.Value
