import DocStore.Proofs.Number.Integer
import DocStore.Value.JsonView

/-!
# The plain JSON view and back

JSON that holds integers of 64 bits and finite doubles is shown again as it was read, and a value
made of the kinds that JSON has is read again as it was shown, at any depth and with integers and
doubles told apart.  Nothing else comes back (`json_view_exact`): an integer that is too large
becomes a double, and the other kinds of values become strings or null.
-/

namespace DocStore

mutual

/-- Every integer fits in 64 bits with its sign, and every double is finite. -/
def Json.isStorable : Json → Bool
  | .integer n => Number.fitsInt64 n
  | .double d => d.isFinite
  | .array items => itemsStorable items
  | .object fields => fieldsStorable fields
  | _ => true

def Json.itemsStorable : List Json → Bool
  | [] => true
  | j :: rest => j.isStorable && itemsStorable rest

def Json.fieldsStorable : List (String × Json) → Bool
  | [] => true
  | (_, j) :: rest => j.isStorable && fieldsStorable rest

end

namespace Value

mutual

/-- The value is made of null, booleans, integers, finite doubles, strings, arrays and maps. -/
def isJsonLike : Value → Bool
  | null | boolean _ | integer _ | string _ => true
  | double d => d.isFinite
  | array items => itemsJsonLike items
  | map fields => fieldsJsonLike fields
  | timestamp _ | bytes _ | reference _ | increment _ | deleteField => false

def itemsJsonLike : List Value → Bool
  | [] => true
  | v :: rest => v.isJsonLike && itemsJsonLike rest

def fieldsJsonLike : Fields → Bool
  | [] => true
  | (_, v) :: rest => v.isJsonLike && fieldsJsonLike rest

end

/-! ## Numbers -/

theorem ofInt_of_fits {n : Int} (h : Number.fitsInt64 n = true) :
    ofInt n = integer (Int64.ofInt n) := by
  rw [ofInt, Number.int64?, if_pos h]

theorem ofInt_of_not_fits {n : Int} (h : Number.fitsInt64 n = false) :
    ofInt n = double (Double.ofInt n) := by
  rw [ofInt, Number.int64?, h]
  rfl

/-- A double is shown as it is exactly if it is finite. -/
theorem toJson_double_eq_iff {d : Double} :
    (double d).toJson = .double d ↔ d.isFinite = true := by
  rw [toJson]
  split
  next hfinite => exact iff_of_true rfl hfinite
  next hinfinite => exact iff_of_false (fun h => nomatch h) hinfinite

/-- No double is shown as an integer. -/
theorem toJson_double_ne_integer (d : Double) (n : Int) : (double d).toJson ≠ .integer n := by
  rw [toJson]
  split <;> exact fun h => nomatch h

/-- An integer is shown again as it was read exactly if it fits in 64 bits. -/
theorem toJson_ofInt_eq_iff {n : Int} :
    (ofInt n).toJson = .integer n ↔ Number.fitsInt64 n = true := by
  cases hfits : Number.fitsInt64 n with
  | true =>
      obtain ⟨hlow, hhigh⟩ := Number.fitsInt64_iff.1 hfits
      rw [ofInt_of_fits hfits, toJson, Int64.toInt_ofInt_of_le hlow hhigh]
      exact iff_of_true rfl rfl
  | false =>
      rw [ofInt_of_not_fits hfits]
      exact iff_of_false (toJson_double_ne_integer _ n) Bool.false_ne_true

/-! ## JSON shown again -/

mutual

theorem toJson_ofJson_iff (j : Json) : (ofJson j).toJson = j ↔ j.isStorable = true := by
  match j with
  | .null | .bool _ | .string _ => exact iff_of_true rfl rfl
  | .integer n => exact toJson_ofInt_eq_iff
  | .double d => exact toJson_double_eq_iff
  | .array items =>
      rw [ofJson, toJson, Json.array.injEq]
      exact itemsToJson_itemsOfJson_iff items
  | .object fields =>
      rw [ofJson, toJson, Json.object.injEq]
      exact fieldsToJson_fieldsOfJson_iff fields

theorem itemsToJson_itemsOfJson_iff (items : List Json) :
    itemsToJson (itemsOfJson items) = items ↔ Json.itemsStorable items = true := by
  match items with
  | [] => exact iff_of_true rfl rfl
  | j :: rest =>
      rw [itemsOfJson, itemsToJson, List.cons.injEq, toJson_ofJson_iff j,
        itemsToJson_itemsOfJson_iff rest, Json.itemsStorable, Bool.and_eq_true]

theorem fieldsToJson_fieldsOfJson_iff (fields : List (String × Json)) :
    fieldsToJson (fieldsOfJson fields) = fields ↔ Json.fieldsStorable fields = true := by
  match fields with
  | [] => exact iff_of_true rfl rfl
  | (name, j) :: rest =>
      rw [fieldsOfJson, fieldsToJson, List.cons.injEq, Prod.mk.injEq, toJson_ofJson_iff j,
        fieldsToJson_fieldsOfJson_iff rest, Json.fieldsStorable, Bool.and_eq_true]
      exact and_congr_left' (and_iff_right rfl)

end

/-! ## Values read again -/

mutual

theorem ofJson_toJson_iff (v : Value) : ofJson v.toJson = v ↔ v.isJsonLike = true := by
  match v with
  | null | boolean _ | string _ => exact iff_of_true rfl rfl
  | integer n =>
      rw [toJson, ofJson, ofInt_of_fits (Number.fitsInt64_toInt n), Int64.ofInt_toInt]
      exact iff_of_true rfl rfl
  | double d =>
      rw [toJson, isJsonLike]
      split
      next hfinite => exact iff_of_true rfl hfinite
      next hinfinite => exact iff_of_false (fun h => nomatch h) hinfinite
  | array items =>
      rw [toJson, ofJson, array.injEq]
      exact itemsOfJson_itemsToJson_iff items
  | map fields =>
      rw [toJson, ofJson, map.injEq]
      exact fieldsOfJson_fieldsToJson_iff fields
  | timestamp _ | bytes _ | reference _ | increment _ | deleteField =>
      exact iff_of_false (fun h => nomatch h) Bool.false_ne_true

theorem itemsOfJson_itemsToJson_iff (items : List Value) :
    itemsOfJson (itemsToJson items) = items ↔ itemsJsonLike items = true := by
  match items with
  | [] => exact iff_of_true rfl rfl
  | v :: rest =>
      rw [itemsToJson, itemsOfJson, List.cons.injEq, ofJson_toJson_iff v,
        itemsOfJson_itemsToJson_iff rest, itemsJsonLike, Bool.and_eq_true]

theorem fieldsOfJson_fieldsToJson_iff (fields : Fields) :
    fieldsOfJson (fieldsToJson fields) = fields ↔ fieldsJsonLike fields = true := by
  match fields with
  | [] => exact iff_of_true rfl rfl
  | (name, v) :: rest =>
      rw [fieldsToJson, fieldsOfJson, List.cons.injEq, Prod.mk.injEq, ofJson_toJson_iff v,
        fieldsOfJson_fieldsToJson_iff rest, fieldsJsonLike, Bool.and_eq_true]
      exact and_congr_left' (and_iff_right rfl)

end

/-- **The plain JSON view.**  JSON is shown again as it was read exactly if its integers fit in 64
bits and its doubles are finite, and a value is read again as it was shown exactly if it is made of
the kinds of JSON, its doubles being finite. -/
theorem json_view_exact :
    (∀ j : Json, (ofJson j).toJson = j ↔ j.isStorable = true) ∧
      ∀ v : Value, ofJson v.toJson = v ↔ v.isJsonLike = true :=
  ⟨toJson_ofJson_iff, ofJson_toJson_iff⟩

/-- An integer that is one too large becomes a double; a negative zero stays one. -/
example :
    (ofJson (.array [.integer 0x8000000000000000, .double ⟨0x8000000000000000⟩])).toJson
      = .array [.double ⟨0x43e0000000000000⟩, .double ⟨0x8000000000000000⟩] := rfl

end Value

end DocStore
