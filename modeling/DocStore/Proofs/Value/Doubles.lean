import DocStore.Proofs.Double.Text
import DocStore.Proofs.Value.Assign
import DocStore.Proofs.Value.Basic

/-!
# The doubles of a value

Equality of values compares doubles as numbers.  That is all that keeps it from being identity: a
value equals itself exactly if no double in it is a NaN (`equals_self_iff`), so that without a NaN
values that are alike are equal (`equals_of_alike`), and equal values whose doubles come from a set
without one of the two zeros are identical (`eq_of_equals`).

A double that is enclosed, in an array or as the operand of an increment, is compared only as a part
of what encloses it.  `EnclosedIn` says so of the doubles that are met on the way down through maps.

`withOneNaN` puts one NaN in place of all: values are identical up to the bits of their NaN if they
are the same afterwards.
-/

namespace DocStore

namespace Double

/-- There are two zeros. -/
theorem eq_zero_of_isZero {d : Double} (h : d.isZero = true) :
    d = zero ∨ d = ofMagnitude true 0 := by
  have hmagnitude : d.magnitude = 0 := beq_iff_eq.1 h
  cases hsign : d.isNegative with
  | false => exact .inl (eq_of_sign_of_magnitude hsign hmagnitude)
  | true => exact .inr (eq_of_sign_of_magnitude hsign hmagnitude)

/-- A double equals itself if it is a number. -/
theorem equals_self (d : Double) : d.equals d = !d.isNaN := by simp [equals]

/-- The double, or one fixed NaN in place of any. -/
def withOneNaN (d : Double) : Double := if d.isNaN then nan else d

end Double

namespace Value

/-! ## Doubles of a set -/

mutual

/-- The doubles in a value, at any depth, belong to the set. -/
def DoublesIn (D : Double → Prop) : Value → Prop
  | double d => D d
  | array items => DoublesInItems D items
  | map fields => DoublesInFields D fields
  | increment operand => operand.DoublesIn D
  | _ => True

/-- The same of the items of an array. -/
def DoublesInItems (D : Double → Prop) : List Value → Prop
  | [] => True
  | v :: rest => v.DoublesIn D ∧ DoublesInItems D rest

/-- The same of the fields of a map. -/
def DoublesInFields (D : Double → Prop) : Fields → Prop
  | [] => True
  | (_, v) :: rest => v.DoublesIn D ∧ DoublesInFields D rest

end

mutual

/-- The doubles that arrays and increments enclose belong to the set. -/
def EnclosedIn (D : Double → Prop) : Value → Prop
  | array items => DoublesInItems D items
  | increment operand => operand.DoublesIn D
  | map fields => EnclosedInFields D fields
  | _ => True

/-- The same of the fields of a map. -/
def EnclosedInFields (D : Double → Prop) : Fields → Prop
  | [] => True
  | (_, v) :: rest => v.EnclosedIn D ∧ EnclosedInFields D rest

end

variable {D : Double → Prop}

theorem enclosedInFields_iff {fields : Fields} :
    EnclosedInFields D fields ↔ ∀ e ∈ fields, e.2.EnclosedIn D := by
  induction fields with
  | nil => simp [EnclosedInFields]
  | cons first rest ih => rw [EnclosedInFields, ih, List.forall_mem_cons]

/-- In a value that is no double and no map, all doubles are enclosed. -/
theorem enclosedIn_iff {v : Value} (hdouble : ∀ d, v ≠ double d) (hmap : v.asMap? = none) :
    v.EnclosedIn D ↔ v.DoublesIn D := by
  cases v with
  | double d => exact absurd rfl (hdouble d)
  | map fields => cases hmap
  | _ => exact Iff.rfl

/-- What is found at some names encloses no more than the fields do. -/
theorem enclosedIn_of_getIn {fields : Fields} {names : List String} {v : Value}
    (h : EnclosedInFields D fields) (hget : Fields.getIn fields names = some v) :
    v.EnclosedIn D := by
  induction names generalizing fields with
  | nil => cases hget
  | cons name rest ih =>
      rw [Merge.getIn_cons] at hget
      cases hheld : Keyed.get? name fields with
      | none =>
          rw [hheld, Merge.getFrom_none] at hget
          cases hget
      | some held =>
          have hinside := enclosedInFields_iff.1 h _ (Keyed.mem_of_get?_eq_some hheld)
          rw [hheld] at hget
          cases rest with
          | nil =>
              cases hget
              exact hinside
          | cons next later =>
              have hinner : EnclosedInFields D (Merge.innerOf (some held)) := by
                cases held with
                | map inner => exact hinside
                | _ => trivial
              exact ih hinner hget

/-! ## Equality and identity -/

mutual

/-- **Equality with itself.**  A value equals itself exactly if it holds no NaN. -/
theorem equals_self_iff (v : Value) : v.equals v = true ↔ v.DoublesIn (·.isNaN = false) := by
  match v with
  | null | deleteField => exact iff_of_true rfl trivial
  | boolean _ | integer _ | timestamp _ | string _ | bytes _ | reference _ =>
      exact iff_of_true (beq_self_eq_true _) trivial
  | double d => rw [equals, DoublesIn, Double.equals_self, Bool.not_eq_true']
  | array items => exact equalItems_self_iff items
  | map fields => exact equalFields_self_iff fields
  | increment operand => exact equals_self_iff operand

theorem equalItems_self_iff (items : List Value) :
    equalItems items items = true ↔ DoublesInItems (·.isNaN = false) items := by
  match items with
  | [] => exact iff_of_true rfl trivial
  | v :: rest =>
      rw [equalItems, DoublesInItems, Bool.and_eq_true, equals_self_iff v, equalItems_self_iff rest]

theorem equalFields_self_iff (fields : Fields) :
    equalFields fields fields = true ↔ DoublesInFields (·.isNaN = false) fields := by
  match fields with
  | [] => exact iff_of_true rfl trivial
  | (name, v) :: rest =>
      rw [equalFields, DoublesInFields, Bool.and_eq_true, Bool.and_eq_true, equals_self_iff v,
        equalFields_self_iff rest]
      exact and_congr_left' (and_iff_right (beq_self_eq_true name))

end

mutual

/-- Values that are alike are equal, if the first holds no NaN. -/
theorem equals_of_alike {a b : Value} (ha : a.DoublesIn (·.isNaN = false))
    (h : a.alike b = true) : a.equals b = true := by
  cases a with
  | double d =>
      cases b with
      | double e =>
          have hd : d.isNaN = false := ha
          rw [alike, hd, Bool.false_and, Bool.or_false] at h
          exact h
      | _ => cases h
  | array as =>
      cases b with
      | array bs => exact equalItems_of_alikeItems ha h
      | _ => cases h
  | map as =>
      cases b with
      | map bs => exact equalFields_of_alikeFields ha h
      | _ => cases h
  | increment a =>
      cases b with
      | increment b => exact equals_of_alike (a := a) ha h
      | _ => cases h
  | null | boolean _ | integer _ | timestamp _ | string _ | bytes _ | reference _
  | deleteField => cases b <;> simp_all [equals, alike]

theorem equalItems_of_alikeItems {as bs : List Value}
    (ha : DoublesInItems (·.isNaN = false) as) (h : alikeItems as bs = true) :
    equalItems as bs = true := by
  match as, bs with
  | [], [] => rfl
  | [], _ :: _ => cases h
  | _ :: _, [] => cases h
  | a :: as, b :: bs =>
      rw [alikeItems, Bool.and_eq_true] at h
      rw [equalItems, equals_of_alike ha.1 h.1, equalItems_of_alikeItems ha.2 h.2, Bool.and_self]

theorem equalFields_of_alikeFields {as bs : Fields}
    (ha : DoublesInFields (·.isNaN = false) as) (h : alikeFields as bs = true) :
    equalFields as bs = true := by
  match as, bs with
  | [], [] => rfl
  | [], _ :: _ => cases h
  | _ :: _, [] => cases h
  | (k, a) :: as, (l, b) :: bs =>
      rw [alikeFields, Bool.and_eq_true, Bool.and_eq_true] at h
      rw [equalFields, h.1.1, equals_of_alike ha.1 h.1.2, equalFields_of_alikeFields ha.2 h.2,
        Bool.and_self, Bool.and_self]

end

/-- Equal doubles of a set without both zeros are identical. -/
theorem eq_of_double_equals (hD : ¬ (D .zero ∧ D (.ofMagnitude true 0))) {a b : Double}
    (ha : D a) (hb : D b) (h : a.equals b = true) : a = b := by
  simp only [Double.equals, Bool.and_eq_true, Bool.or_eq_true, beq_iff_eq] at h
  rcases h.2 with heq | ⟨hza, hzb⟩
  · exact heq
  · rcases Double.eq_zero_of_isZero hza with rfl | rfl
    · rcases Double.eq_zero_of_isZero hzb with rfl | rfl
      · rfl
      · exact absurd ⟨ha, hb⟩ hD
    · rcases Double.eq_zero_of_isZero hzb with rfl | rfl
      · exact absurd ⟨hb, ha⟩ hD
      · rfl

mutual

/-- **Equality and identity.**  Equal values over doubles of a set without both zeros are
identical. -/
theorem eq_of_equals (hD : ¬ (D .zero ∧ D (.ofMagnitude true 0))) {a b : Value}
    (ha : a.DoublesIn D) (hb : b.DoublesIn D) (h : a.equals b = true) : a = b := by
  cases a with
  | double d =>
      cases b with
      | double e => exact congrArg double (eq_of_double_equals hD ha hb h)
      | _ => cases h
  | array as =>
      cases b with
      | array bs => exact congrArg array (eq_of_equalItems hD ha hb h)
      | _ => cases h
  | map as =>
      cases b with
      | map bs => exact congrArg map (eq_of_equalFields hD ha hb h)
      | _ => cases h
  | increment a =>
      cases b with
      | increment b => exact congrArg increment (eq_of_equals (a := a) hD ha hb h)
      | _ => cases h
  | null | boolean _ | integer _ | timestamp _ | string _ | bytes _ | reference _
  | deleteField => cases b <;> simp_all [equals]

theorem eq_of_equalItems (hD : ¬ (D .zero ∧ D (.ofMagnitude true 0))) {as bs : List Value}
    (ha : DoublesInItems D as) (hb : DoublesInItems D bs) (h : equalItems as bs = true) :
    as = bs := by
  match as, bs with
  | [], [] => rfl
  | [], _ :: _ => cases h
  | _ :: _, [] => cases h
  | a :: as, b :: bs =>
      rw [equalItems, Bool.and_eq_true] at h
      rw [eq_of_equals hD ha.1 hb.1 h.1, eq_of_equalItems hD ha.2 hb.2 h.2]

theorem eq_of_equalFields (hD : ¬ (D .zero ∧ D (.ofMagnitude true 0))) {as bs : Fields}
    (ha : DoublesInFields D as) (hb : DoublesInFields D bs) (h : equalFields as bs = true) :
    as = bs := by
  match as, bs with
  | [], [] => rfl
  | [], _ :: _ => cases h
  | _ :: _, [] => cases h
  | (k, a) :: as, (l, b) :: bs =>
      rw [equalFields, Bool.and_eq_true, Bool.and_eq_true, beq_iff_eq] at h
      rw [h.1.1, eq_of_equals hD ha.1 hb.1 h.1.2, eq_of_equalFields hD ha.2 hb.2 h.2]

end

/-! ## Identity up to the bits of a NaN -/

mutual

/-- The value with one NaN in place of all. -/
def withOneNaN : Value → Value
  | double d => double d.withOneNaN
  | array items => array (withOneNaNItems items)
  | map fields => map (withOneNaNFields fields)
  | increment operand => increment operand.withOneNaN
  | v => v

/-- The items of an array with one NaN in place of all. -/
def withOneNaNItems : List Value → List Value
  | [] => []
  | v :: rest => v.withOneNaN :: withOneNaNItems rest

/-- The fields of a map with one NaN in place of all. -/
def withOneNaNFields : Fields → Fields
  | [] => []
  | (name, v) :: rest => (name, v.withOneNaN) :: withOneNaNFields rest

end

theorem withOneNaNFields_eq_filterMap (fields : Fields) :
    withOneNaNFields fields = Keyed.filterMap (fun _ v => some v.withOneNaN) fields := by
  induction fields with
  | nil => rfl
  | cons first rest ih => rw [withOneNaNFields, ih, Keyed.filterMap]

variable {fields : Fields} (h : orderedFields fields = true)
include h

theorem sorted_withOneNaNFields : Keyed.Sorted (withOneNaNFields fields) := by
  rw [withOneNaNFields_eq_filterMap]
  exact (sorted_of_orderedFields h).filterMap _

theorem get?_withOneNaNFields (name : String) :
    Keyed.get? name (withOneNaNFields fields) = (Keyed.get? name fields).map withOneNaN := by
  rw [withOneNaNFields_eq_filterMap, Keyed.get?_filterMap (sorted_of_orderedFields h)]
  cases Keyed.get? name fields <;> rfl

/-- What is found at some names keeps its place. -/
theorem getIn_withOneNaNFields (names : List String) :
    Fields.getIn (withOneNaNFields fields) names
      = (Fields.getIn fields names).map withOneNaN := by
  induction names generalizing fields with
  | nil => rfl
  | cons name rest ih =>
      rw [Merge.getIn_cons, Merge.getIn_cons, get?_withOneNaNFields h]
      cases hget : Keyed.get? name fields with
      | none => rw [Option.map_none, Merge.getFrom_none, Option.map_none]
      | some v =>
          cases rest with
          | nil => rfl
          | cons next later =>
              have hv := isOrdered_of_get? h hget
              have hinner : Merge.innerOf (some v.withOneNaN)
                  = withOneNaNFields (Merge.innerOf (some v)) := by
                cases v <;> rfl
              rw [Option.map_some, Merge.getFrom, Merge.getFrom, hinner]
              exact ih (orderedFields_innerOf fun w hw => Option.some.inj hw ▸ hv)

end Value

end DocStore
