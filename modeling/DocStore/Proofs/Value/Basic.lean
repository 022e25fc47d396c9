import DocStore.Proofs.Keyed
import DocStore.Proofs.Path.Field
import DocStore.Value.Fields

/-!
# Records and their equality

A record is a map without markers in order of its names, all of them of some kind.  `isRecord` says
so of a value, with or without fields that are marked as gone; in a tidy value (`isTidy`) no name is
empty or has a dot.

Two values are alike (`alike`) if they are equal, or would be if a NaN were equal to itself.
Records are compared by their lookups (`alikeFields_of_get?`), and proofs about values go by
`map_induction`: through the maps below a value, everything else being a leaf.
-/

namespace DocStore.Value

section Induction

variable {motive : Value → Prop}

mutual

/-- Induction on the maps in a value. -/
theorem map_induction (map : ∀ fields : Fields, (∀ e ∈ fields, motive e.2) → motive (.map fields))
    (leaf : ∀ v : Value, v.asMap? = none → motive v) (v : Value) : motive v := by
  match v with
  | .map fields => exact map fields (map_induction_fields map leaf fields)
  | .null | .boolean _ | .integer _ | .double _ | .timestamp _ | .string _ | .bytes _
  | .reference _ | .array _ | .increment _ | .deleteField => exact leaf _ rfl

theorem map_induction_fields
    (map : ∀ fields : Fields, (∀ e ∈ fields, motive e.2) → motive (.map fields))
    (leaf : ∀ v : Value, v.asMap? = none → motive v) (fields : Fields) :
    ∀ e ∈ fields, motive e.2 := by
  match fields with
  | [] => exact fun e he => absurd he List.not_mem_nil
  | (_, v) :: rest =>
      intro e he
      rcases List.mem_cons.1 he with rfl | hlater
      · exact map_induction map leaf v
      · exact map_induction_fields map leaf rest e hlater

end

end Induction

/-! ## Equality with NaN equal to itself -/

mutual

/-- The same kind and the same content, a NaN being the same as any other. -/
def alike : Value → Value → Bool
  | null, null => true
  | boolean a, boolean b => a == b
  | integer a, integer b => a == b
  | double a, double b => a.equals b || (a.isNaN && b.isNaN)
  | timestamp a, timestamp b => a == b
  | string a, string b => a == b
  | bytes a, bytes b => a == b
  | reference a, reference b => a == b
  | array a, array b => alikeItems a b
  | map a, map b => alikeFields a b
  | increment a, increment b => a.alike b
  | deleteField, deleteField => true
  | _, _ => false

def alikeItems : List Value → List Value → Bool
  | [], [] => true
  | a :: as, b :: bs => a.alike b && alikeItems as bs
  | _, _ => false

def alikeFields : Fields → Fields → Bool
  | [], [] => true
  | (k, a) :: as, (l, b) :: bs => k == l && a.alike b && alikeFields as bs
  | _, _ => false

end

theorem alike_double_self (d : Double) : (d.equals d || (d.isNaN && d.isNaN)) = true := by
  cases hnan : d.isNaN <;> simp [Double.equals, hnan]

mutual

theorem alike_refl (v : Value) : v.alike v = true := by
  match v with
  | null | deleteField => rfl
  | boolean _ | integer _ | timestamp _ | string _ | bytes _ | reference _ =>
      exact beq_self_eq_true _
  | double d => exact alike_double_self d
  | array items => exact alikeItems_refl items
  | map fields => exact alikeFields_refl fields
  | increment operand => exact alike_refl operand

theorem alikeItems_refl (items : List Value) : alikeItems items items = true := by
  match items with
  | [] => rfl
  | v :: rest =>
      rw [alikeItems, alike_refl v, alikeItems_refl rest]
      rfl

theorem alikeFields_refl (fields : Fields) : alikeFields fields fields = true := by
  match fields with
  | [] => rfl
  | (name, v) :: rest =>
      rw [alikeFields, alike_refl v, alikeFields_refl rest, beq_self_eq_true]
      rfl

end

mutual

/-- Equal values are alike. -/
theorem alike_of_equals {a b : Value} (h : a.equals b = true) : a.alike b = true := by
  cases a with
  | array as =>
      cases b with
      | array bs => exact alikeItems_of_equalItems h
      | _ => simp [equals] at h
  | map as =>
      cases b with
      | map bs => exact alikeFields_of_equalFields h
      | _ => simp [equals] at h
  | increment a =>
      cases b with
      | increment b => exact alike_of_equals (a := a) h
      | _ => simp [equals] at h
  | double a =>
      cases b with
      | double b =>
          rw [equals] at h
          rw [alike, h, Bool.true_or]
      | _ => simp [equals] at h
  | null | boolean _ | integer _ | timestamp _ | string _ | bytes _ | reference _
  | deleteField => cases b <;> simp_all [equals, alike]

theorem alikeItems_of_equalItems {as bs : List Value} (h : equalItems as bs = true) :
    alikeItems as bs = true := by
  match as, bs with
  | [], [] => rfl
  | [], _ :: _ => cases h
  | _ :: _, [] => cases h
  | a :: as, b :: bs =>
      rw [equalItems, Bool.and_eq_true] at h
      rw [alikeItems, alike_of_equals h.1, alikeItems_of_equalItems h.2]
      rfl

theorem alikeFields_of_equalFields {as bs : Fields} (h : equalFields as bs = true) :
    alikeFields as bs = true := by
  match as, bs with
  | [], [] => rfl
  | [], _ :: _ => cases h
  | _ :: _, [] => cases h
  | (k, a) :: as, (l, b) :: bs =>
      rw [equalFields, Bool.and_eq_true, Bool.and_eq_true] at h
      rw [alikeFields, h.1.1, alike_of_equals h.1.2, alikeFields_of_equalFields h.2]
      rfl

end

/-- Two lookups find values that are alike, or nothing. -/
abbrev AlikeAt : Option Value → Option Value → Prop := Option.Rel fun a b => a.alike b = true

theorem alikeAt_refl (held : Option Value) : AlikeAt held held := by
  cases held with
  | none => exact .none
  | some v => exact .some (alike_refl v)

theorem eq_none_iff_of_alikeAt {a b : Option Value} (h : AlikeAt a b) : a = none ↔ b = none := by
  cases h <;> simp

/-- Records with lookups that are alike are alike. -/
theorem alikeFields_of_get? {as bs : Fields} (has : Keyed.Sorted as) (hbs : Keyed.Sorted bs)
    (hget : ∀ name, AlikeAt (Keyed.get? name as) (Keyed.get? name bs)) :
    alikeFields as bs = true := by
  have hentries := Keyed.forall₂_of_get?_rel has hbs hget
  clear has hbs hget
  induction hentries with
  | nil => rfl
  | cons hentry _ ih =>
      rw [alikeFields, hentry.1, hentry.2, ih, beq_self_eq_true]
      rfl

/-! ## Records -/

mutual

/-- The names in a value are in order and all of some kind, and there are no markers in it, unless
fields may be marked as gone. -/
def isRecord (ok : String → Bool) (deletes : Bool) : Value → Bool
  | deleteField => deletes
  | increment _ => false
  | map fields => recordFields ok deletes fields
  | v => v.isPlain

def recordFields (ok : String → Bool) (deletes : Bool) : Fields → Bool
  | [] => true
  | (name, v) :: rest =>
    ok name && rest.all (fun e => Ord.compare name e.1 == .lt) && v.isRecord ok deletes
      && recordFields ok deletes rest

end

mutual

/-- The names in a value are in order, not empty and without dots, and there are no markers in
it, unless fields may be marked as gone. -/
def isTidy (deletes : Bool) : Value → Bool
  | deleteField => deletes
  | increment _ => false
  | map fields => tidyFields deletes fields
  | v => v.isPlain

def tidyFields (deletes : Bool) : Fields → Bool
  | [] => true
  | (name, v) :: rest =>
    FieldPath.isName name && rest.all (fun e => Ord.compare name e.1 == .lt) && v.isTidy deletes
      && tidyFields deletes rest

end

mutual

/-- A tidy value is a record whose names are names of fields. -/
theorem isTidy_eq (deletes : Bool) (v : Value) :
    v.isTidy deletes = v.isRecord FieldPath.isName deletes := by
  match v with
  | map fields => exact tidyFields_eq deletes fields
  | null | boolean _ | integer _ | double _ | timestamp _ | string _ | bytes _ | reference _
  | array _ | increment _ | deleteField => rfl

theorem tidyFields_eq (deletes : Bool) (fields : Fields) :
    tidyFields deletes fields = recordFields FieldPath.isName deletes fields := by
  match fields with
  | [] => rfl
  | (name, v) :: rest =>
      rw [tidyFields, recordFields, isTidy_eq deletes v, tidyFields_eq deletes rest]

end

variable {ok : String → Bool} {deletes : Bool}

/-- A record is sorted, and its names and values are as they should be. -/
theorem recordFields_iff {fields : Fields} :
    recordFields ok deletes fields = true ↔
      Keyed.Sorted fields ∧
        ∀ e ∈ fields, ok e.1 = true ∧ e.2.isRecord ok deletes = true := by
  induction fields with
  | nil => simp [recordFields, Keyed.Sorted.nil]
  | cons first rest ih =>
      obtain ⟨name, v⟩ := first
      simp only [recordFields, Bool.and_eq_true, List.all_eq_true, beq_iff_eq, ih,
        List.forall_mem_cons]
      constructor
      · intro h
        obtain ⟨⟨⟨hname, hlt⟩, hv⟩, hsorted, hrest⟩ := h
        exact ⟨hsorted.cons hlt, ⟨hname, hv⟩, hrest⟩
      · intro h
        obtain ⟨hsorted, ⟨hname, hv⟩, hrest⟩ := h
        exact ⟨⟨⟨hname, fun e he => hsorted.head_lt he⟩, hv⟩, hsorted.tail, hrest⟩

theorem sorted_of_recordFields {fields : Fields} (h : recordFields ok deletes fields = true) :
    Keyed.Sorted fields :=
  (recordFields_iff.1 h).1

theorem isRecord_of_mem {fields : Fields} (h : recordFields ok deletes fields = true)
    {e : String × Value} (he : e ∈ fields) : e.2.isRecord ok deletes = true :=
  ((recordFields_iff.1 h).2 e he).2

theorem ok_of_mem {fields : Fields} (h : recordFields ok deletes fields = true)
    {e : String × Value} (he : e ∈ fields) : ok e.1 = true :=
  ((recordFields_iff.1 h).2 e he).1

theorem isRecord_of_get? {fields : Fields} {name : String} {v : Value}
    (h : recordFields ok deletes fields = true) (hget : Keyed.get? name fields = some v) :
    v.isRecord ok deletes = true :=
  isRecord_of_mem h (Keyed.mem_of_get?_eq_some hget)

theorem ok_of_get? {fields : Fields} {name : String} {v : Value}
    (h : recordFields ok deletes fields = true) (hget : Keyed.get? name fields = some v) :
    ok name = true :=
  ok_of_mem h (Keyed.mem_of_get?_eq_some hget)

/-- A value without markers is one in which no field has to be marked as gone. -/
theorem isRecord_of_isRecord_false {v : Value} (h : v.isRecord ok false = true) :
    v.isRecord ok true = true := by
  induction v using map_induction with
  | map fields ih =>
      rw [isRecord, recordFields_iff] at h ⊢
      exact ⟨h.1, fun e he => ⟨(h.2 e he).1, ih e he (h.2 e he).2⟩⟩
  | leaf v hv => cases v <;> simp_all [isRecord, asMap?]

end DocStore.Value
