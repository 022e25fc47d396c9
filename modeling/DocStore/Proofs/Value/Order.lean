import DocStore.Value.Order

/-!
# Turning a comparison of values round

Two values compare the other way round in the opposite order (`Value.compare_swap`), so no value
comes before itself.  The order is not transitive on all numbers; where a sort or a cursor relies
on that, it is assumed of the values at hand.
-/

namespace DocStore

open Std

/-- The comparison the other way round. -/
theorem swap_compare {α : Type} [Ord α] [OrientedOrd α] (a b : α) :
    (compare a b).swap = compare b a :=
  OrientedCmp.eq_swap.symm

theorem Double.compareBits_swap (a b : Double) : (a.compareBits b).swap = b.compareBits a :=
  swap_compare a.orderKey b.orderKey

instance : OrientedOrd Timestamp where
  eq_swap := by
    intro a b
    show (compare a.seconds.toInt b.seconds.toInt).then (compare a.nanos.toInt b.nanos.toInt)
      = ((compare b.seconds.toInt a.seconds.toInt).then
          (compare b.nanos.toInt a.nanos.toInt)).swap
    rw [Ordering.swap_then, swap_compare, swap_compare]

namespace Value

mutual

/-- Values compare the other way round in the opposite order. -/
theorem compare_swap (a b : Value) : (a.compare b).swap = b.compare a := by
  cases a with
  | array as =>
      cases b with
      | array bs => exact compareItems_swap as bs
      | _ => rfl
  | map as =>
      cases b with
      | map bs => exact compareFields_swap as bs
      | _ => rfl
  | boolean a =>
      cases b with
      | boolean b => exact swap_compare a.toNat b.toNat
      | _ => rfl
  | integer a =>
      cases b with
      | integer b => exact swap_compare a.toInt b.toInt
      | double b => exact Double.compareBits_swap _ _
      | _ => rfl
  | double a =>
      cases b with
      | integer b => exact Double.compareBits_swap _ _
      | double b => exact Double.compareBits_swap _ _
      | _ => rfl
  | timestamp a =>
      cases b with
      | timestamp b => exact swap_compare a b
      | _ => rfl
  | string a =>
      cases b with
      | string b => exact swap_compare a b
      | _ => rfl
  | bytes a =>
      cases b with
      | bytes b => exact swap_compare (a.map UInt8.toNat) (b.map UInt8.toNat)
      | _ => rfl
  | reference a =>
      cases b with
      | reference b => exact swap_compare (Text.split '/' a) (Text.split '/' b)
      | _ => rfl
  | null | increment _ | deleteField => cases b <;> rfl

theorem compareItems_swap (as bs : List Value) :
    (compareItems as bs).swap = compareItems bs as := by
  match as, bs with
  | [], [] => rfl
  | [], _ :: _ => rfl
  | _ :: _, [] => rfl
  | a :: as, b :: bs =>
      rw [compareItems, compareItems, Ordering.swap_then, compare_swap a b,
        compareItems_swap as bs]

theorem compareFields_swap (as bs : Fields) :
    (compareFields as bs).swap = compareFields bs as := by
  match as, bs with
  | [], [] => rfl
  | [], _ :: _ => rfl
  | _ :: _, [] => rfl
  | (k, a) :: as, (l, b) :: bs =>
      rw [compareFields, compareFields, Ordering.swap_then, Ordering.swap_then, swap_compare k l,
        compare_swap a b, compareFields_swap as bs]

end

end Value

end DocStore
