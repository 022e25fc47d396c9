import DocStore.Proofs.Number.Integer
import DocStore.Proofs.Value.Assign
import DocStore.Store.Memory

/-!
# Merges edit by edit

A merge goes through the paths of its mask and then through its increments; each of these edits
changes the field at its path (`Edit`).  Edits of paths apart from one another commute, and so do
two additions of integers to a field that holds no double, as long as no sum overflows
(`Independent.apply_comm`).  If the edits of two merges are independent of one another, one by one,
then it does not matter which merge comes first (`Compatible.applyAll_comm`).
-/

namespace DocStore.Memory

open Number

/-! ## Sums of 64 bits -/

/-- The integer that is held; anything else counts as nothing. -/
def heldInteger : Option Value → Int
  | some (.integer n) => n.toInt
  | _ => 0

/-- What is held is no double. -/
def HoldsNoDouble (held : Option Value) : Prop := ∀ d, held ≠ some (.double d)

theorem toInt_ofInt {n : Int} (h : fitsInt64 n = true) : (Int64.ofInt n).toInt = n := by
  rw [fitsInt64_iff] at h
  exact Int64.toInt_ofInt_of_le (by omega) (by omega)

theorem heldInteger_ofInt {n : Int} (h : fitsInt64 n = true) :
    heldInteger (some (.integer (Int64.ofInt n))) = n := toInt_ofInt h

/-- An integer is added to what is held, unless the sum overflows. -/
theorem increment_integer {held : Option Value} {a : Int64} (hheld : HoldsNoDouble held)
    (h : fitsInt64 (heldInteger held + a.toInt) = true) :
    increment held (.integer a) = .integer (Int64.ofInt (heldInteger held + a.toInt)) := by
  have hreplaced (hzero : heldInteger held = 0) :
      Value.integer a = .integer (Int64.ofInt (heldInteger held + a.toInt)) := by
    rw [hzero, Int.zero_add, Int64.ofInt_toInt]
  cases held with
  | none => exact hreplaced rfl
  | some v =>
      cases v with
      | integer n =>
          show addIntegers n a = _
          rw [heldInteger] at h
          rw [addIntegers, int64?, if_pos h]
          rfl
      | double d => exact absurd rfl (hheld d)
      | _ => exact hreplaced rfl

/-- Two integers are added one after the other. -/
theorem increment_increment {held : Option Value} {a b : Int64} (hheld : HoldsNoDouble held)
    (hfirst : fitsInt64 (heldInteger held + a.toInt) = true)
    (hboth : fitsInt64 (heldInteger held + a.toInt + b.toInt) = true) :
    increment (some (increment held (.integer a))) (.integer b)
      = .integer (Int64.ofInt (heldInteger held + a.toInt + b.toInt)) := by
  have hsum := heldInteger_ofInt hfirst
  have hinteger : HoldsNoDouble (some (.integer (Int64.ofInt (heldInteger held + a.toInt)))) :=
    fun d hd => by cases hd
  rw [increment_integer hheld hfirst, increment_integer hinteger (by rwa [hsum]), hsum]

/-! ## Edits -/

/-- One change that a merge makes: at a path of its mask it puts what its data has there, if
anything, and at the path of an increment it adds the operand. -/
inductive Edit
  | put (path : FieldPath) (value? : Option Value)
  | add (path : FieldPath) (operand : Value)

namespace Edit

def path : Edit → FieldPath
  | put path _ => path
  | add path _ => path

/-- What the edit leaves at its path, if anything. -/
def value? (fields : Fields) : Edit → Option Value
  | put _ value? => value?
  | add path operand => some (increment (Fields.get? fields path) operand)

/-- The fields after an edit. -/
def apply (fields : Fields) (e : Edit) : Fields :=
  Fields.assign fields e.path.segments (e.value? fields)

/-- The maps that the edit brings in are in order. -/
def IsOrdered : Edit → Prop
  | put _ value? => ∀ v ∈ value?, v.isOrdered = true
  | add _ operand => operand.isOrdered = true

end Edit

/-- The edits of a merge, in their order. -/
def edits (data : Fields) (mask : List FieldPath) (increments : List Increment) : List Edit :=
  mask.map (fun path => .put path (Fields.get? data path))
    ++ increments.map fun i => .add i.path i.operand

/-- The fields after some edits. -/
def applyAll (fields : Fields) (es : List Edit) : Fields := es.foldl Edit.apply fields

/-- A merge makes its edits one after the other. -/
theorem merge_eq (fields data : Fields) (mask : List FieldPath) (increments : List Increment) :
    applyIncrements (applyMask fields data mask) increments
      = applyAll fields (edits data mask increments) := by
  have hmask : applyMask fields data mask
      = applyAll fields (mask.map fun path => .put path (Fields.get? data path)) := by
    rw [applyMask, applyAll, List.foldl_map]
    refine congrArg (fun step => mask.foldl step fields) ?_
    funext fields path
    show _ = Fields.assign fields path.segments (Fields.get? data path)
    cases Fields.get? data path <;> rfl
  rw [applyAll, edits, List.foldl_append, hmask, List.foldl_map, applyIncrements]
  rfl

theorem isOrdered_of_mem_edits {data : Fields} {mask : List FieldPath}
    {increments : List Increment} (hdata : Value.orderedFields data = true)
    (hoperands : ∀ i ∈ increments, i.operand.isOrdered = true) :
    ∀ e ∈ edits data mask increments, e.IsOrdered := by
  intro e he
  rcases List.mem_append.1 he with hput | hadd
  · obtain ⟨path, -, rfl⟩ := List.mem_map.1 hput
    exact fun v hv => Fields.isOrdered_of_getIn hdata hv
  · obtain ⟨i, hi, rfl⟩ := List.mem_map.1 hadd
    exact hoperands i hi

section Commute

variable {fields : Fields} {e e' d : Edit} {es es' : List Edit}

theorem isOrdered_increment {held : Option Value} {operand : Value}
    (h : operand.isOrdered = true) : (increment held operand).isOrdered = true := by
  unfold increment
  split
  · unfold addIntegers
    split <;> rfl
  · split
    · rfl
    · exact h
  · exact h

/-- Fields in order stay so. -/
theorem orderedFields_apply (h : Value.orderedFields fields = true) (he : e.IsOrdered) :
    Value.orderedFields (e.apply fields) = true := by
  refine Fields.orderedFields_assign h ?_
  cases e with
  | put path value? => exact he
  | add path operand =>
      intro v hv
      cases hv
      exact isOrdered_increment he

/-- An edit leaves alone what is found apart from it. -/
theorem get?_apply_of_apart {path : FieldPath} (h : FieldPath.Apart e.path path) :
    Fields.get? (e.apply fields) path = Fields.get? fields path :=
  Fields.getIn_assign_of_apart h

/-- What an edit leaves at its path does not depend on edits apart from it. -/
theorem value?_apply_of_apart (h : FieldPath.Apart e.path e'.path) :
    e'.value? (e.apply fields) = e'.value? fields := by
  cases e' with
  | put path value? => rfl
  | add path operand =>
      have hget : Fields.get? (e.apply fields) path = Fields.get? fields path :=
        get?_apply_of_apart h
      rw [Edit.value?, Edit.value?, hget]

/-- An edit leaves at its path what it puts there. -/
theorem get?_apply_self (h : Value.orderedFields fields = true) (hne : e.path.segments ≠ []) :
    Fields.get? (e.apply fields) e.path = e.value? fields :=
  Fields.getIn_assign_self h hne

/-- Fields in order stay so along some edits. -/
theorem orderedFields_applyAll (h : Value.orderedFields fields = true)
    (hes : ∀ e ∈ es, e.IsOrdered) : Value.orderedFields (applyAll fields es) = true := by
  induction es generalizing fields with
  | nil => exact h
  | cons e rest ih =>
      rw [List.forall_mem_cons] at hes
      exact ih (orderedFields_apply h hes.1) hes.2

/-- Some edits leave alone what is found apart from them all. -/
theorem get?_applyAll_of_apart {path : FieldPath} (h : ∀ e ∈ es, FieldPath.Apart e.path path) :
    Fields.get? (applyAll fields es) path = Fields.get? fields path := by
  induction es generalizing fields with
  | nil => rfl
  | cons e rest ih =>
      rw [List.forall_mem_cons] at h
      calc Fields.get? (applyAll fields (e :: rest)) path
          = Fields.get? (e.apply fields) path := ih h.2
        _ = Fields.get? fields path := get?_apply_of_apart h.1

/-- Of edits apart from one another each leaves at its path what it would alone. -/
theorem get?_applyAll_of_mem (h : Value.orderedFields fields = true)
    (hes : ∀ e ∈ es, e.IsOrdered)
    (hapart : es.Pairwise fun e d => FieldPath.Apart e.path d.path) (he : e ∈ es)
    (hne : e.path.segments ≠ []) :
    Fields.get? (applyAll fields es) e.path = e.value? fields := by
  induction es generalizing fields with
  | nil => cases he
  | cons d rest ih =>
      rw [List.forall_mem_cons] at hes
      rw [List.pairwise_cons] at hapart
      rcases List.mem_cons.1 he with rfl | hlater
      · calc Fields.get? (applyAll fields (e :: rest)) e.path
            = Fields.get? (e.apply fields) e.path :=
              get?_applyAll_of_apart fun d hd => (hapart.1 d hd).symm
          _ = e.value? fields := get?_apply_self h hne
      · calc Fields.get? (applyAll fields (d :: rest)) e.path
            = e.value? (d.apply fields) :=
              ih (orderedFields_apply h hes.1) hes.2 hapart.2 hlater
          _ = e.value? fields := value?_apply_of_apart (hapart.1 e hlater)

/-- Two edits add integers to the same field, which holds no double, and no sum overflows. -/
def SharedAdd (fields : Fields) (e e' : Edit) : Prop :=
  ∃ path a b, e = .add path (.integer a) ∧ e' = .add path (.integer b) ∧
    HoldsNoDouble (Fields.get? fields path) ∧
    fitsInt64 (heldInteger (Fields.get? fields path) + a.toInt) = true ∧
    fitsInt64 (heldInteger (Fields.get? fields path) + b.toInt) = true ∧
    fitsInt64 (heldInteger (Fields.get? fields path) + a.toInt + b.toInt) = true

/-- Two edits have paths apart from one another, or add integers to the same field. -/
def Independent (fields : Fields) (e e' : Edit) : Prop :=
  FieldPath.Apart e.path e'.path ∨ SharedAdd fields e e'

/-- A second addition to a field finds the first. -/
theorem apply_add_add {path : FieldPath} {a b : Int64}
    (hheld : HoldsNoDouble (Fields.get? fields path))
    (hfirst : fitsInt64 (heldInteger (Fields.get? fields path) + a.toInt) = true)
    (hboth : fitsInt64 (heldInteger (Fields.get? fields path) + a.toInt + b.toInt) = true) :
    (Edit.add path (.integer b)).apply ((Edit.add path (.integer a)).apply fields)
      = Fields.setIn fields
          (.integer (Int64.ofInt (heldInteger (Fields.get? fields path) + a.toInt + b.toInt)))
          path.segments := by
  by_cases hnil : path.segments = []
  · simp [Edit.apply, Edit.path, hnil, Fields.assign_nil, Fields.setIn]
  · have hfound : Fields.get? ((Edit.add path (.integer a)).apply fields) path
        = some (increment (Fields.get? fields path) (.integer a)) :=
      Fields.getIn_setIn_self hnil
    show Fields.setIn (Fields.setIn fields _ path.segments)
      (increment (Fields.get? ((Edit.add path (.integer a)).apply fields) path) (.integer b))
      path.segments = _
    rw [hfound, increment_increment hheld hfirst hboth, Fields.setIn_setIn_self]

/-- Independent edits commute. -/
theorem Independent.apply_comm (hfields : Value.orderedFields fields = true)
    (h : Independent fields e e') : e'.apply (e.apply fields) = e.apply (e'.apply fields) := by
  rcases h with hapart | ⟨path, a, b, rfl, rfl, hheld, hfirst, hsecond, hboth⟩
  · have hvalue' : e'.value? (e.apply fields) = e'.value? fields := value?_apply_of_apart hapart
    have hvalue : e.value? (e'.apply fields) = e.value? fields := value?_apply_of_apart hapart.symm
    show Fields.assign (e.apply fields) e'.path.segments (e'.value? (e.apply fields))
      = Fields.assign (e'.apply fields) e.path.segments (e.value? (e'.apply fields))
    rw [hvalue', hvalue]
    exact Fields.assign_comm hfields hapart
  · rw [apply_add_add hheld hfirst hboth,
      apply_add_add hheld hsecond (by rwa [Int.add_right_comm]), Int.add_right_comm]

/-- Edits stay independent after one that is apart from the second of them. -/
theorem Independent.after (h : Independent fields e e') (hd : FieldPath.Apart d.path e'.path) :
    Independent (d.apply fields) e e' := by
  rcases h with hapart | ⟨path, a, b, rfl, rfl, hsums⟩
  · exact .inl hapart
  · have hget : Fields.get? (d.apply fields) path = Fields.get? fields path :=
      get?_apply_of_apart hd
    exact .inr ⟨path, a, b, rfl, rfl, by rwa [hget]⟩

/-- Where two edits of one field are independent, they are additions at the same path. -/
theorem Independent.apart_of (h : Independent fields e e') (hd : FieldPath.Apart d.path e.path) :
    FieldPath.Apart e.path e'.path ∨ FieldPath.Apart d.path e'.path := by
  rcases h with hapart | ⟨path, a, b, rfl, rfl, -⟩
  · exact .inl hapart
  · exact .inr hd

/-- The edits of one merge are apart from one another, those of the other merge too, and each edit
of the one is independent of each of the other. -/
structure Compatible (fields : Fields) (es es' : List Edit) : Prop where
  apart : es.Pairwise fun e d => FieldPath.Apart e.path d.path
  apart' : es'.Pairwise fun e d => FieldPath.Apart e.path d.path
  across : ∀ e ∈ es, ∀ e' ∈ es', Independent fields e e'

/-- One edit commutes with the edits of a merge. -/
theorem applyAll_apply (hfields : Value.orderedFields fields = true)
    (hes : ∀ d ∈ es, d.IsOrdered) (h : Compatible fields [e] es) :
    applyAll (e.apply fields) es = e.apply (applyAll fields es) := by
  induction es generalizing fields with
  | nil => rfl
  | cons d rest ih =>
      rw [List.forall_mem_cons] at hes
      obtain ⟨hone, hapart, hacross⟩ := h
      rw [List.pairwise_cons] at hapart
      have hall := List.forall_mem_singleton.1 hacross
      rw [List.forall_mem_cons] at hall
      have hrest : Compatible (d.apply fields) [e] rest :=
        ⟨hone, hapart.2, List.forall_mem_singleton.2 fun d' hd' =>
          (hall.2 d' hd').after (hapart.1 d' hd')⟩
      calc applyAll (e.apply fields) (d :: rest)
          = applyAll (e.apply (d.apply fields)) rest := by
            rw [applyAll, List.foldl_cons, hall.1.apply_comm hfields, applyAll]
        _ = e.apply (applyAll fields (d :: rest)) :=
            ih (orderedFields_apply hfields hes.1) hes.2 hrest

/-- **Merges apart.**  The edits of compatible merges lead to the same fields, whichever merge comes
first. -/
theorem Compatible.applyAll_comm (hfields : Value.orderedFields fields = true)
    (hes : ∀ e ∈ es, e.IsOrdered) (hes' : ∀ e ∈ es', e.IsOrdered)
    (h : Compatible fields es es') :
    applyAll (applyAll fields es) es' = applyAll (applyAll fields es') es := by
  induction es generalizing fields with
  | nil => rfl
  | cons e rest ih =>
      rw [List.forall_mem_cons] at hes
      obtain ⟨hapart, hapart', hacross⟩ := h
      rw [List.pairwise_cons] at hapart
      rw [List.forall_mem_cons] at hacross
      have hone : Compatible fields [e] es' :=
        ⟨List.pairwise_singleton _ _, hapart', List.forall_mem_singleton.2 hacross.1⟩
      have hrest : Compatible (e.apply fields) rest es' :=
        ⟨hapart.2, hapart', fun d hd e' he' => by
          rcases (hacross.2 d hd e' he').apart_of (hapart.1 d hd) with hfree | hsame
          · exact .inl hfree
          · exact (hacross.2 d hd e' he').after hsame⟩
      calc applyAll (applyAll fields (e :: rest)) es'
          = applyAll (applyAll (e.apply fields) es') rest :=
            ih (orderedFields_apply hfields hes.1) hes.2 hrest
        _ = applyAll (applyAll fields es') (e :: rest) := by
            rw [applyAll_apply hfields hes' hone]
            rfl

end Commute

end DocStore.Memory
