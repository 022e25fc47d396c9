import DocStore.Proofs.Document.Encode
import DocStore.Proofs.Value.Ends

/-!
# Encoding data for a merge

The mask of a merge holds the paths of the leaves of its data, the first of those with one text.
The leaves are the ends that are no increments (`leaves_eq`), so none stands twice (`nodup_leaves`).
Where different leaves have different texts too, nothing is left out of the mask, and it is the list
of the leaves (`encodeSet_merge_of_nodup`).  That is so of tidy data, which is always encoded
(`encodeSet_merge`).
-/

namespace DocStore

open SplitData

/-! ## Leaves -/

namespace SplitData

variable {ok : String → Bool} {deletes : Bool}

/-- A leaf is a leaf of some field. -/
theorem mem_leaves {fields : Fields} {p : List String} :
    p ∈ leaves fields ↔ ∃ e ∈ fields, ∃ q ∈ leavesOf e.2, e.1 :: q = p := by
  induction fields with
  | nil => simp [leaves]
  | cons first rest ih =>
      obtain ⟨name, v⟩ := first
      rw [leaves, List.mem_append, List.mem_map, ih, List.exists_mem_cons_iff]

theorem ne_nil_of_mem_leaves {fields : Fields} {p : List String} (h : p ∈ leaves fields) :
    p ≠ [] := by
  obtain ⟨e, -, q, -, rfl⟩ := mem_leaves.1 h
  exact List.cons_ne_nil _ _

theorem leavesOf_map_nil : leavesOf (.map []) = [[]] := rfl

/-- A value that is no map and no increment is a leaf. -/
theorem leavesOf_of_record {v : Value} (h : v.isRecord ok deletes = true)
    (hmap : v.asMap? = none) : leavesOf v = [[]] := by
  cases v <;> simp_all [Value.isRecord, Value.asMap?, leavesOf]

/-- All names on the way to a leaf are of the kind of the names of a record. -/
theorem ok_of_mem_leavesOf {v : Value} (h : v.isRecord ok deletes = true) :
    ∀ p ∈ leavesOf v, ∀ name ∈ p, ok name = true := by
  induction v using Value.map_induction with
  | map fields ih =>
      intro p hp name hname
      rw [Value.isRecord] at h
      cases fields with
      | nil =>
          rw [leavesOf_map_nil, List.mem_singleton] at hp
          rw [hp] at hname
          cases hname
      | cons first rest =>
          obtain ⟨e, he, q, hq, rfl⟩ := mem_leaves.1 hp
          rcases List.mem_cons.1 hname with rfl | hname
          · exact Value.ok_of_mem h he
          · exact ih e he (Value.isRecord_of_mem h he) q hq name hname
  | leaf v hv =>
      intro p hp name hname
      rw [leavesOf_of_record h hv, List.mem_singleton] at hp
      rw [hp] at hname
      cases hname

/-- The leaves of a record are those of the map it makes, if it is not empty. -/
theorem leavesOf_map {fields : Fields} (h : fields ≠ []) :
    leavesOf (.map fields) = leaves fields := by
  cases fields with
  | nil => exact absurd rfl h
  | cons first rest => rfl

/-- The names on the way to an end, unless it is an increment. -/
def maskedNames? : List String × Value → Option (List String)
  | (_, .increment _) => none
  | (names, _) => some names

theorem maskedNames?_eq_some {e : List String × Value} {names : List String} :
    maskedNames? e = some names ↔ names = e.1 ∧ ∀ operand, e.2 ≠ .increment operand := by
  obtain ⟨p, v⟩ := e
  cases v <;> simp [maskedNames?, eq_comm]

mutual

theorem leavesOf_eq (v : Value) : leavesOf v = (Value.endsOf v).filterMap maskedNames? := by
  match v with
  | .map (first :: rest) => exact leaves_eq (first :: rest)
  | .map [] | .null | .boolean _ | .integer _ | .double _ | .timestamp _ | .string _ | .bytes _
  | .reference _ | .array _ | .increment _ | .deleteField => rfl

/-- The leaves are the ends that are no increments. -/
theorem leaves_eq (fields : Fields) :
    leaves fields = (Value.ends fields).filterMap maskedNames? := by
  match fields with
  | [] => rfl
  | (name, v) :: rest =>
      rw [leaves, Value.ends, List.filterMap_append, leavesOf_eq v, leaves_eq rest,
        Value.filterMap_below (name :: ·) fun e => by
          obtain ⟨names, w⟩ := e
          cases w <;> rfl]

end

/-- No leaf of fields in order stands twice. -/
theorem nodup_leaves {fields : Fields} (h : Value.orderedFields fields = true) :
    (leaves fields).Nodup := by
  have hnodup : (((Value.ends fields).filterMap maskedNames?).map id).Nodup :=
    Value.nodup_chosen (fun e names hnames => (maskedNames?_eq_some.1 hnames).1) h
  rwa [List.map_id, ← leaves_eq] at hnodup

/-- Every value has a leaf. -/
theorem leavesOf_ne_nil {v : Value} (h : v.isRecord ok deletes = true) :
    leavesOf v ≠ [] := by
  induction v using Value.map_induction with
  | map fields ih =>
      rw [Value.isRecord] at h
      cases fields with
      | nil => exact List.cons_ne_nil _ _
      | cons first rest =>
          have hfirst := ih first List.mem_cons_self (Value.isRecord_of_mem h List.mem_cons_self)
          rw [leavesOf_map (List.cons_ne_nil _ _), leaves]
          simp [hfirst]
  | leaf v hv =>
      rw [leavesOf_of_record h hv]
      exact List.cons_ne_nil _ _

/-! ## Encoding a merge -/

/-- There is nothing to increment in a record. -/
theorem raisedOf_of_record {v : Value} (h : v.isRecord ok deletes = true) : raisedOf v = [] := by
  induction v using Value.map_induction with
  | map fields ih =>
      rw [Value.isRecord] at h
      have hvalues : ∀ e ∈ fields, raisedOf e.2 = [] :=
        fun e he => ih e he (Value.isRecord_of_mem h he)
      have hraised : raised fields = [] := by
        clear h ih
        induction fields with
        | nil => rfl
        | cons first rest ihrest =>
            obtain ⟨name, v⟩ := first
            rw [List.forall_mem_cons] at hvalues
            simp [raised, hvalues.1, ihrest hvalues.2]
      cases fields with
      | nil => rfl
      | cons first rest => exact hraised
  | leaf v hv => cases v <;> simp_all [Value.isRecord, Value.asMap?, raisedOf]

theorem raised_of_record {fields : Fields} (h : Value.recordFields ok deletes fields = true) :
    raised fields = [] := by
  cases fields with
  | nil => rfl
  | cons first rest => exact raisedOf_of_record (v := .map (first :: rest)) h

/-- A write takes a record without empty names, a merge if fields are marked as gone. -/
theorem accepted_of_record (hok : ∀ name, ok name = true → name.isEmpty = false) {v : Value}
    (h : v.isRecord ok deletes = true) : v.accepted deletes = true := by
  induction v using Value.map_induction with
  | map fields ih =>
      rw [Value.isRecord, Value.recordFields_iff] at h
      have hvalues : ∀ e ∈ fields, e.1.isEmpty = false ∧ e.2.accepted deletes = true :=
        fun e he => ⟨hok _ (h.2 e he).1, ih e he (h.2 e he).2⟩
      clear h ih
      rw [Value.accepted]
      induction fields with
      | nil => rfl
      | cons first rest ihrest =>
          obtain ⟨name, v⟩ := first
          rw [List.forall_mem_cons] at hvalues
          simp [Value.acceptedFields, hvalues.1.1, hvalues.1.2, ihrest hvalues.2]
  | leaf v hv => cases v <;> simp_all [Value.isRecord, Value.asMap?, Value.accepted]

end SplitData

/-- A list without a key twice is kept. -/
theorem keepFirst_eq_self {α κ : Type} [BEq κ] [LawfulBEq κ] (key : α → κ) {l : List α}
    {seen : List κ} (hnodup : (l.map key).Nodup) (hseen : ∀ a ∈ l, key a ∉ seen) :
    keepFirst key l seen = l := by
  induction l generalizing seen with
  | nil => rfl
  | cons a rest ih =>
      rw [List.map_cons, List.nodup_cons] at hnodup
      rw [List.forall_mem_cons] at hseen
      have hnew : ¬ seen.contains (key a) = true := by
        rw [List.contains_iff_mem]
        exact hseen.1
      rw [keepFirst, if_neg hnew, ih hnodup.2]
      intro b hb hmem
      rcases List.mem_cons.1 hmem with heq | hmem
      · exact hnodup.1 (heq ▸ List.mem_map_of_mem hb)
      · exact hseen.2 b hb hmem

variable {ok : String → Bool} {deletes : Bool}

/-- The paths of the leaves of some data. -/
def leafPaths (data : Fields) : List FieldPath := (leaves data).map FieldPath.mk

/-- The leaves of a record whose names have no dots have different texts. -/
theorem nodup_text_leafPaths (hok : ∀ name, ok name = true → FieldPath.isName name = true)
    {data : Fields} (h : Value.recordFields ok deletes data = true) :
    ((leafPaths data).map FieldPath.text).Nodup := by
  have hnames : ∀ p ∈ leaves data, ∀ name ∈ p, FieldPath.isName name = true := by
    intro p hp name hname
    by_cases hempty : data = []
    · rw [hempty] at hp
      cases hp
    · rw [← leavesOf_map hempty] at hp
      exact hok name (ok_of_mem_leavesOf (v := .map data) h p hp name hname)
  have hnodup := nodup_leaves (Value.isOrdered_of_isRecord (v := .map data) h)
  rw [leafPaths, List.map_map]
  refine hnodup.map_on fun p hp q hq heq => ?_
  have hpath : FieldPath.mk p = FieldPath.mk q :=
    FieldPath.text_inj (ne_nil_of_mem_leaves hp) (ne_nil_of_mem_leaves hq) (hnames p hp)
      (hnames q hq) heq
  exact congrArg FieldPath.segments hpath

theorem isEmpty_keepFirst {α κ : Type} [BEq κ] (key : α → κ) (l : List α) :
    (keepFirst key l []).isEmpty = l.isEmpty := by
  cases l <;> rfl

/-- Accepted data with a leaf or an increment is encoded by its parts, the mask holding the first
of the leaves with one text, and no other data is encoded for a merge. -/
theorem encodeSet_merge_eq_ok {data : Fields} {encoded : EncodedData} :
    encodeSet true data = .ok encoded ↔
      Value.acceptedFields true data = true ∧
        ((leafPaths data).isEmpty && (raised data).isEmpty) = false ∧
        ⟨keptFields data, some (keepFirst FieldPath.text (leafPaths data) []),
          (raised data).map fun i => ⟨⟨i.1⟩, i.2⟩⟩ = encoded := by
  have hnames : ∀ s ∈ ([] : List String), s.isEmpty = false := by simp
  have hmask : (parts [] data).mask = leafPaths data := by simp [parts, leafPaths]
  have hincrements : (parts [] data).increments = (raised data).map fun i => ⟨⟨i.1⟩, i.2⟩ := by
    simp [parts]
  have hfields : (parts [] data).fields = keptFields data := rfl
  have hempty : ((leafPaths data).isEmpty && ((parts [] data).increments).isEmpty)
      = ((leafPaths data).isEmpty && (raised data).isEmpty) := by
    rw [hincrements, List.isEmpty_map]
  simp only [encodeSet, Outcome.bind_eq_ok, ofFields_eq_ok true hnames data, if_true]
  constructor
  · rintro ⟨_, ⟨hacc, rfl⟩, hencoded⟩
    rw [hmask, isEmpty_keepFirst, hempty, hfields, hincrements] at hencoded
    cases hnone : (leafPaths data).isEmpty && (raised data).isEmpty with
    | true =>
        rw [hnone] at hencoded
        cases hencoded
    | false => exact ⟨hacc, rfl, by simpa [hnone] using hencoded⟩
  · rintro ⟨hacc, hsome, rfl⟩
    refine ⟨_, ⟨hacc, rfl⟩, ?_⟩
    rw [hmask, isEmpty_keepFirst, hempty, hfields, hincrements, hsome]
    rfl

/-- A record whose leaves have different texts is encoded by what stays of it, and the mask holds
the paths of all its leaves. -/
theorem encodeSet_merge_of_nodup {data : Fields} (h : Value.recordFields ok true data = true)
    (hdata : data ≠ []) (htexts : ((leafPaths data).map FieldPath.text).Nodup)
    {encoded : EncodedData} :
    encodeSet true data = .ok encoded ↔
      Value.acceptedFields true data = true ∧
        ⟨keptFields data, some (leafPaths data), []⟩ = encoded := by
  have hleaves : (leafPaths data).isEmpty = false := by
    have hne := leavesOf_ne_nil (v := .map data) h
    rw [leavesOf_map hdata] at hne
    simpa [leafPaths] using hne
  rw [encodeSet_merge_eq_ok, keepFirst_eq_self _ htexts (by simp), raised_of_record h, hleaves]
  simp

/-- **Encoding a merge.**  Tidy data is encoded by its plain leaves, and its mask holds the paths
of all its leaves. -/
theorem encodeSet_merge {data : Fields}
    (h : Value.recordFields FieldPath.isName true data = true) (hdata : data ≠ []) :
    encodeSet true data = .ok ⟨keptFields data, some (leafPaths data), []⟩ := by
  have haccepted : Value.acceptedFields true data = true :=
    accepted_of_record (v := .map data) (fun _ hname => (FieldPath.isName_iff.1 hname).1) h
  exact (encodeSet_merge_of_nodup h hdata (nodup_text_leafPaths (fun _ => id) h)).2
    ⟨haccepted, rfl⟩

end DocStore
