import DocStore.Proofs.Json.Render
import DocStore.Proofs.Outcome
import DocStore.Proofs.Text.Base64
import DocStore.Proofs.Text.Blank
import DocStore.Proofs.Time.Timestamp
import DocStore.Proofs.Value.Basic
import DocStore.Wire.Value

/-!
# Values read back from the wire

Apart from its doubles, a value may be sent if it is without markers, with normal timestamps of the
years 1 to 9999 and with references that have no slash at their ends (`Value.IsSendable`).  Such a
value is read back from its form exactly if all doubles in it are finite (`read_back_iff`): a double
that is infinite or no number is written as null, at any depth, and no double is read from that.

A value that may be sent and has finite doubles has a form on the wire (`Value.IsRepresentable`).
Values with the same form are the same (`ofValue_injective`).  Every form is one with finite
doubles (`isFinite_ofValue`), and so known from its text.
-/

namespace DocStore

/-! ## Values with a form -/

namespace Value

/-- The text has no slash at its ends. -/
def IsStripped (path : String) : Prop := Text.strip (· == '/') path = path

instance (path : String) : Decidable (IsStripped path) :=
  inferInstanceAs (Decidable (_ = _))

mutual

/-- The value has a form on the wire: no markers, only finite doubles, normal timestamps of the
years 1 to 9999, and references without slashes at their ends. -/
def IsRepresentable : Value → Prop
  | double d => d.isFinite = true
  | timestamp t => t.IsNormal ∧ 1 ≤ t.year ∧ t.year ≤ 9999
  | reference path => IsStripped path
  | array items => ItemsRepresentable items
  | map fields => FieldsRepresentable fields
  | increment _ | deleteField => False
  | _ => True

def ItemsRepresentable : List Value → Prop
  | [] => True
  | v :: rest => v.IsRepresentable ∧ ItemsRepresentable rest

def FieldsRepresentable : Fields → Prop
  | [] => True
  | (_, v) :: rest => v.IsRepresentable ∧ FieldsRepresentable rest

end

mutual

/-- The value may be sent, whatever its doubles: no markers, normal timestamps of the years 1 to
9999, and references without slashes at their ends. -/
def IsSendable : Value → Prop
  | timestamp t => t.IsNormal ∧ 1 ≤ t.year ∧ t.year ≤ 9999
  | reference path => IsStripped path
  | array items => ItemsSendable items
  | map fields => FieldsSendable fields
  | increment _ | deleteField => False
  | _ => True

def ItemsSendable : List Value → Prop
  | [] => True
  | v :: rest => v.IsSendable ∧ ItemsSendable rest

def FieldsSendable : Fields → Prop
  | [] => True
  | (_, v) :: rest => v.IsSendable ∧ FieldsSendable rest

end

mutual

/-- Every double in the value is finite. -/
def hasFiniteDoubles : Value → Bool
  | double d => d.isFinite
  | array items => itemsHaveFiniteDoubles items
  | map fields => fieldsHaveFiniteDoubles fields
  | _ => true

def itemsHaveFiniteDoubles : List Value → Bool
  | [] => true
  | v :: rest => v.hasFiniteDoubles && itemsHaveFiniteDoubles rest

def fieldsHaveFiniteDoubles : Fields → Bool
  | [] => true
  | (_, v) :: rest => v.hasFiniteDoubles && fieldsHaveFiniteDoubles rest

end

mutual

/-- A value with a form may be sent, and its doubles are finite. -/
theorem isSendable_of_isRepresentable (v : Value) (h : v.IsRepresentable) :
    v.IsSendable ∧ v.hasFiniteDoubles = true := by
  match v, h with
  | null, _ | boolean _, _ | integer _, _ | string _, _ | bytes _, _ => exact ⟨trivial, rfl⟩
  | timestamp _, h => exact ⟨h, rfl⟩
  | reference _, h => exact ⟨h, rfl⟩
  | double _, h => exact ⟨trivial, h⟩
  | array items, h => exact itemsSendable_of_itemsRepresentable items h
  | map fields, h => exact fieldsSendable_of_fieldsRepresentable fields h
  | increment _, h | deleteField, h => exact h.elim

theorem itemsSendable_of_itemsRepresentable (items : List Value) (h : ItemsRepresentable items) :
    ItemsSendable items ∧ itemsHaveFiniteDoubles items = true := by
  match items, h with
  | [], _ => exact ⟨trivial, rfl⟩
  | v :: rest, h =>
      have hv := isSendable_of_isRepresentable v h.1
      have hrest := itemsSendable_of_itemsRepresentable rest h.2
      exact ⟨⟨hv.1, hrest.1⟩, Bool.and_eq_true_iff.2 ⟨hv.2, hrest.2⟩⟩

theorem fieldsSendable_of_fieldsRepresentable (fields : Fields) (h : FieldsRepresentable fields) :
    FieldsSendable fields ∧ fieldsHaveFiniteDoubles fields = true := by
  match fields, h with
  | [], _ => exact ⟨trivial, rfl⟩
  | (_, v) :: rest, h =>
      have hv := isSendable_of_isRepresentable v h.1
      have hrest := fieldsSendable_of_fieldsRepresentable rest h.2
      exact ⟨⟨hv.1, hrest.1⟩, Bool.and_eq_true_iff.2 ⟨hv.2, hrest.2⟩⟩

end

/-- No marker may be sent. -/
theorem isMarker_of_isSendable {v : Value} (h : v.IsSendable) : v.isMarker = false := by
  cases v with
  | increment _ | deleteField => exact h.elim
  | _ => rfl

end Value

/-! ## Names of documents -/

namespace DatabaseId

/-- The path of a document is read off its name. -/
theorem relativePath_referenceName (db : DatabaseId) {path : String} (h : Value.IsStripped path) :
    db.relativePath (db.referenceName path) = .ok path := by
  have hname : (db.referenceName path).toList
      = db.documentsRoot.toList ++ '/' :: path.toList := by
    rw [referenceName, h, String.toList_append, String.toList_append, List.append_assoc]
    rfl
  have hafter : afterBeginning? db.documentsRoot.toList (db.referenceName path).toList
      = some ('/' :: path.toList) := by
    rw [hname, afterBeginning?, if_pos (List.isPrefixOf_iff_prefix.2 (List.prefix_append _ _)),
      List.drop_left]
  have hstart : ('/' :: path.toList).dropWhile (· == '/') = path.toList :=
    Text.dropWhile_eq_self_iff.2 (Text.strip_eq_self_iff.1 h).1
  rw [relativePath, hafter]
  dsimp only
  rw [hstart, String.ofList_toList]
  rfl

end DatabaseId

namespace Wire

variable (db : DatabaseId)

/-! ## Reading back -/

/-- A value that is written as a text is read by its kind. -/
theorem toValue_text (s : String) :
    toValue db (single "integerValue" (.string s))
        = (do return .integer (← readInteger (.string s))) ∧
      toValue db (single "timestampValue" (.string s))
        = (do return .timestamp (← Timestamp.ofText s)) ∧
      toValue db (single "bytesValue" (.string s)) = readBytes s ∧
      toValue db (single "referenceValue" (.string s))
        = (do return .reference (← db.relativePath s)) :=
  ⟨rfl, rfl, rfl, rfl⟩

theorem readInteger_intText (n : Int64) :
    readInteger (.string (Number.intText n.toInt)) = .ok n := by
  rw [readInteger, Number.int64OfText_intText]
  rfl

theorem readTimestamp_text {t : Timestamp} (h : t.IsNormal) (hyear : 0 ≤ t.year ∧ t.year ≤ 9999) :
    Timestamp.ofText t.text = .ok t := by
  rw [Timestamp.ofText, Timestamp.read?_text h hyear]
  rfl

/-- The complaint about a double that is no number and no text. -/
def noDouble : Error := .invalidArgument "doubleValue must be a number or string"

/-- The outcome of reading something back: it is there if its doubles are finite, and else one of
them cannot be read. -/
def readBack {α : Type} (finite : Bool) (a : α) : Outcome α :=
  if finite then .ok a else .error noDouble

/-- Two things are read back one after the other. -/
theorem readBack_bind {α β γ : Type} (p q : Bool) (a : α) (b : β) (f : α → β → γ) :
    (do
      let x ← readBack p a
      return f x (← readBack q b)) = readBack (p && q) (f a b) := by
  cases p
  · rfl
  · cases q <;> rfl

mutual

/-- **Values on the wire.**  A value is read back from its form if its doubles are finite, and else
one of them cannot be read. -/
theorem toValue_ofValue (v : Value) (h : v.IsSendable) :
    toValue db (ofValue db v) = readBack v.hasFiniteDoubles v := by
  match v, h with
  | .null, _ | .boolean _, _ | .string _, _ => rfl
  | .integer n, _ =>
      rw [ofValue, (toValue_text db _).1, readInteger_intText]
      rfl
  | .double d, _ =>
      rw [ofValue, Value.hasFiniteDoubles]
      cases d.isFinite <;> rfl
  | .timestamp t, h =>
      obtain ⟨hnormal, hlow, hhigh⟩ := h
      rw [ofValue, (toValue_text db _).2.1, readTimestamp_text hnormal ⟨by omega, hhigh⟩]
      rfl
  | .bytes b, _ =>
      rw [ofValue, (toValue_text db _).2.2.1, readBytes, Text.Base64.decode?_encode]
      rfl
  | .reference path, h =>
      rw [ofValue, (toValue_text db _).2.2.2, db.relativePath_referenceName h]
      rfl
  | .array items, h =>
      show (do return Value.array (← toItems db (ofItems db items))) = _
      rw [toItems_ofItems items h, Value.hasFiniteDoubles]
      cases Value.itemsHaveFiniteDoubles items <;> rfl
  | .map fields, h =>
      show (do return Value.map (← toFields db (ofFields db fields))) = _
      rw [toFields_ofFields fields h, Value.hasFiniteDoubles]
      cases Value.fieldsHaveFiniteDoubles fields <;> rfl
  | .increment _, h | .deleteField, h => exact h.elim

theorem toItems_ofItems (items : List Value) (h : Value.ItemsSendable items) :
    toItems db (ofItems db items) = readBack (Value.itemsHaveFiniteDoubles items) items := by
  match items, h with
  | [], _ => rfl
  | v :: rest, h =>
      rw [ofItems, toItems, toValue_ofValue v h.1, toItems_ofItems rest h.2]
      exact readBack_bind _ _ v rest List.cons

theorem toFields_ofFields (fields : Fields) (h : Value.FieldsSendable fields) :
    toFields db (ofFields db fields) = readBack (Value.fieldsHaveFiniteDoubles fields) fields := by
  match fields, h with
  | [], _ => rfl
  | (name, v) :: rest, h =>
      rw [ofFields, Value.isMarker_of_isSendable h.1, if_neg Bool.false_ne_true, toFields,
        toValue_ofValue v h.1, toFields_ofFields rest h.2]
      exact readBack_bind _ _ v rest fun v rest => (name, v) :: rest

end

/-- **Round trip.**  A value that may be sent is read back from its form, up to the bits of a NaN,
exactly if all its doubles are finite.  Then it is read back as it is, and else reading ends with
the complaint about a double. -/
theorem read_back_iff (v : Value) (h : v.IsSendable) :
    ((∃ w, toValue db (ofValue db v) = .ok w ∧ w.alike v = true) ↔ v.hasFiniteDoubles = true) ∧
      (v.hasFiniteDoubles = true → toValue db (ofValue db v) = .ok v) ∧
      (v.hasFiniteDoubles = false → toValue db (ofValue db v) = .error noDouble) := by
  rw [toValue_ofValue db v h]
  cases v.hasFiniteDoubles with
  | true => exact ⟨iff_of_true ⟨v, rfl, Value.alike_refl v⟩ rfl, fun _ => rfl, (nomatch ·)⟩
  | false =>
      refine ⟨iff_of_false ?_ Bool.false_ne_true, (nomatch ·), fun _ => rfl⟩
      intro hread
      obtain ⟨w, hread, -⟩ := hread
      cases hread

/-- A map with a time and a list of rates is read back, unless one of the rates is no number. -/
theorem read_back_iff_rates :
    (Value.map [("at", .timestamp ⟨0, 5⟩), ("rates", .array [.double .zero])]).IsSendable ∧
      toValue ⟨"demo", "(default)"⟩ (ofValue ⟨"demo", "(default)"⟩
          (.map [("at", .timestamp ⟨0, 5⟩), ("rates", .array [.double .zero])]))
        = .ok (.map [("at", .timestamp ⟨0, 5⟩), ("rates", .array [.double .zero])]) ∧
      toValue ⟨"demo", "(default)"⟩ (ofValue ⟨"demo", "(default)"⟩
          (.map [("at", .timestamp ⟨0, 5⟩), ("rates", .array [.double .zero, .double .nan])]))
        = .error noDouble := by
  have htime : (Value.timestamp ⟨0, 5⟩).IsSendable :=
    ⟨⟨by decide, by decide⟩, by decide, by decide⟩
  have hone : (Value.map [("at", .timestamp ⟨0, 5⟩),
      ("rates", .array [.double .zero])]).IsSendable :=
    ⟨htime, ⟨trivial, trivial⟩, trivial⟩
  have htwo : (Value.map [("at", .timestamp ⟨0, 5⟩),
      ("rates", .array [.double .zero, .double .nan])]).IsSendable :=
    ⟨htime, ⟨trivial, trivial, trivial⟩, trivial⟩
  exact ⟨hone, (read_back_iff _ _ hone).2.1 (by decide), (read_back_iff _ _ htwo).2.2 (by decide)⟩

/-- An infinity and a NaN are not read back. -/
theorem not_read_back_infinity :
    (¬ ∃ w, toValue ⟨"demo", "(default)"⟩ (ofValue ⟨"demo", "(default)"⟩
        (.double (.infinity false))) = .ok w ∧ w.alike (.double (.infinity false)) = true) ∧
      ¬ ∃ w, toValue ⟨"demo", "(default)"⟩ (ofValue ⟨"demo", "(default)"⟩ (.double .nan)) = .ok w ∧
        w.alike (.double .nan) = true := by
  constructor
  · intro h
    obtain ⟨w, hread, -⟩ := h
    cases hread
  · intro h
    obtain ⟨w, hread, -⟩ := h
    cases hread

/-- A value with a form is read back. -/
theorem toValue_ofValue_of_isRepresentable {v : Value} (h : v.IsRepresentable) :
    toValue db (ofValue db v) = .ok v := by
  obtain ⟨hsendable, hfinite⟩ := Value.isSendable_of_isRepresentable v h
  rw [toValue_ofValue db v hsendable, hfinite]
  rfl

/-- Values with the same form are the same. -/
theorem ofValue_injective {v w : Value} (hv : v.IsRepresentable) (hw : w.IsRepresentable)
    (h : ofValue db v = ofValue db w) : v = w := by
  have hread := congrArg (toValue db) h
  rw [toValue_ofValue_of_isRepresentable db hv, toValue_ofValue_of_isRepresentable db hw] at hread
  exact Except.ok.inj hread

theorem ofItems_injective {vs ws : List Value} (hv : Value.ItemsRepresentable vs)
    (hw : Value.ItemsRepresentable ws) (h : ofItems db vs = ofItems db ws) : vs = ws := by
  have harray : ofValue db (.array vs) = ofValue db (.array ws) := by
    rw [ofValue, ofValue, h]
  exact Value.array.inj (ofValue_injective db (v := .array vs) (w := .array ws) hv hw harray)

/-! ## Finite doubles -/

mutual

/-- A double that is no number is not written as one. -/
theorem isFinite_ofValue (v : Value) : (ofValue db v).IsFinite := by
  match v with
  | .double d =>
      rw [ofValue]
      split
      next hfinite => exact ⟨hfinite, trivial⟩
      next => exact ⟨trivial, trivial⟩
  | .array items => exact ⟨⟨isFinite_ofItems items, trivial⟩, trivial⟩
  | .map fields => exact ⟨⟨isFinite_ofFields fields, trivial⟩, trivial⟩
  | .null | .boolean _ | .integer _ | .timestamp _ | .string _ | .bytes _ | .reference _
  | .increment _ | .deleteField => exact ⟨trivial, trivial⟩

theorem isFinite_ofItems (items : List Value) : Json.ItemsFinite (ofItems db items) := by
  match items with
  | [] => exact trivial
  | v :: rest => exact ⟨isFinite_ofValue v, isFinite_ofItems rest⟩

theorem isFinite_ofFields (fields : Fields) : Json.FieldsFinite (ofFields db fields) := by
  match fields with
  | [] => exact trivial
  | (name, v) :: rest =>
      rw [ofFields]
      split
      · exact isFinite_ofFields rest
      · exact ⟨isFinite_ofValue v, isFinite_ofFields rest⟩

end

end Wire

end DocStore
