import DocStore.Proofs.Document.Merge
import DocStore.Proofs.Value.Assign
import DocStore.Store.Memory

/-!
# What a merge leaves

The store goes through the paths of a mask, one at a time: it puts in place what the data has at
the path, and removes the field if the data has nothing there (`put`).  Each path changes the
field with its first name and nothing else, so the result is known name by name (`get?_merged`):
below a name where the data holds a map, it is again a merge.
-/

namespace DocStore

open SplitData

namespace Merge

/-! ## One path of a mask -/

/-- The field at one path taken from some data: put in place if the data has it, removed if
not. -/
def put (data base : Fields) (names : List String) : Fields :=
  match Fields.getIn data names with
  | some v => Fields.setIn base v names
  | none => (Fields.removeIn? base names).getD base

variable {ok : String → Bool} {data base child : Fields} {name other : String}
  {names : List String}

theorem put_eq (data base : Fields) (names : List String) :
    put data base names = Fields.assign base names (Fields.getIn data names) := by
  unfold put
  cases Fields.getIn data names <;> rfl

theorem put_cons (data base : Fields) (hnames : names ≠ []) :
    Keyed.get? name (put data base (name :: names))
      = Fields.placed (Keyed.get? name base) (Fields.getIn (Fields.childMap data name) names)
        names := by
  rw [put_eq, Fields.get?_assign_below hnames, getIn_childMap data name hnames]

theorem sorted_put (h : Keyed.Sorted base) : Keyed.Sorted (put data base names) := by
  rw [put_eq]
  exact Fields.sorted_assign h

/-- A path touches the field with its first name alone. -/
theorem get?_put_of_ne (hne : other ≠ name) :
    Keyed.get? other (put data base (name :: names)) = Keyed.get? other base := by
  rw [put_eq]
  exact Fields.get?_assign_of_ne hne

/-- At a path of one name stands what the data has there. -/
theorem get?_put_leaf (h : Keyed.Sorted base) :
    Keyed.get? name (put data base [name]) = Keyed.get? name data := by
  rw [put_eq, Fields.get?_assign_self h]
  rfl

/-- A longer path touches the map at its first name, as the rest of it does. -/
theorem get?_put_map (hnames : names ≠ []) (hmap : Keyed.get? name base = some (.map child)) :
    Keyed.get? name (put data base (name :: names))
      = some (.map (put (Fields.childMap data name) child names)) := by
  rw [put_cons data base hnames, hmap, Fields.placed_eq_map hnames (.inl rfl), put_eq]
  rfl

/-- A longer path to what the data has makes a map. -/
theorem get?_put_new (hnames : names ≠ [])
    (hdata : (Fields.getIn (Fields.childMap data name) names).isSome = true) :
    Keyed.get? name (put data base (name :: names))
      = some (.map (put (Fields.childMap data name) (Fields.childMap base name) names)) := by
  rw [put_cons data base hnames, Fields.placed_eq_map hnames (.inr hdata), put_eq,
    childMap_eq base]

/-! ## All paths of a mask -/

/-- The fields at some paths taken from some data, one after the other. -/
def putAll (data base : Fields) (paths : List (List String)) : Fields := paths.foldl (put data) base

variable {paths : List (List String)}

theorem putAll_append (data base : Fields) (paths later : List (List String)) :
    putAll data base (paths ++ later) = putAll data (putAll data base paths) later :=
  List.foldl_append

theorem sorted_putAll (h : Keyed.Sorted base) : Keyed.Sorted (putAll data base paths) := by
  induction paths generalizing base with
  | nil => exact h
  | cons p rest ih => exact ih (sorted_put h)

theorem get?_putAll_of_ne (hne : other ≠ name) :
    Keyed.get? other (putAll data base (paths.map (name :: ·))) = Keyed.get? other base := by
  induction paths generalizing base with
  | nil => rfl
  | cons p rest ih => exact ih.trans (get?_put_of_ne hne)

/-- Paths below a name act on the map that is there. -/
theorem get?_putAll_map (hpaths : ∀ p ∈ paths, p ≠ [])
    (hmap : Keyed.get? name base = some (.map child)) :
    Keyed.get? name (putAll data base (paths.map (name :: ·)))
      = some (.map (putAll (Fields.childMap data name) child paths)) := by
  induction paths generalizing base child with
  | nil => exact hmap
  | cons p rest ih =>
      rw [List.forall_mem_cons] at hpaths
      exact ih hpaths.2 (get?_put_map hpaths.1 hmap)

/-- Paths below a name to what the data has make a map there. -/
theorem get?_putAll_new (hne : paths ≠ []) (hpaths : ∀ p ∈ paths, p ≠ [])
    (hdata : ∀ p ∈ paths, (Fields.getIn (Fields.childMap data name) p).isSome = true) :
    Keyed.get? name (putAll data base (paths.map (name :: ·)))
      = some (.map (putAll (Fields.childMap data name) (Fields.childMap base name) paths)) := by
  cases paths with
  | nil => exact absurd rfl hne
  | cons p rest =>
      rw [List.forall_mem_cons] at hpaths hdata
      change Keyed.get? name (putAll data (put data base (name :: p)) (rest.map (name :: ·))) = _
      exact get?_putAll_map hpaths.2 (get?_put_new hpaths.1 hdata.1)

/-- Paths below a name where nothing is make a map there, unless they find nothing in the data. -/
theorem get?_putAll_absent (hpaths : ∀ p ∈ paths, p ≠ []) (hnone : Keyed.get? name base = none) :
    Keyed.get? name (putAll data base (paths.map (name :: ·)))
        = some (.map (putAll (Fields.childMap data name) [] paths)) ∨
      (Keyed.get? name (putAll data base (paths.map (name :: ·))) = none ∧
        putAll (Fields.childMap data name) [] paths = []) := by
  induction paths with
  | nil => exact .inr ⟨hnone, rfl⟩
  | cons p rest ih =>
      rw [List.forall_mem_cons] at hpaths
      have hchild : Fields.childMap base name = [] := by
        rw [childMap_eq, hnone]
        rfl
      change Keyed.get? name (putAll data (put data base (name :: p)) (rest.map (name :: ·))) = _ ∨
        Keyed.get? name (putAll data (put data base (name :: p)) (rest.map (name :: ·))) = none ∧ _
      cases hdata : Fields.getIn (Fields.childMap data name) p with
      | some v =>
          have hnew := @get?_put_new data base name p hpaths.1 (by rw [hdata]; rfl)
          rw [hchild] at hnew
          exact .inl (get?_putAll_map hpaths.2 hnew)
      | none =>
          have hbase : put data base (name :: p) = base := by
            obtain ⟨next, later, rfl⟩ := List.exists_cons_of_ne_nil hpaths.1
            rw [put, getIn_childMap data name hpaths.1, hdata]
            simp only [Fields.removeIn?, hnone, Option.getD_none]
          have hnil : put (Fields.childMap data name) [] p = [] := by
            obtain ⟨next, later, rfl⟩ := List.exists_cons_of_ne_nil hpaths.1
            rw [put, hdata]
            cases later <;> rfl
          have hsame : putAll (Fields.childMap data name) [] (p :: rest)
              = putAll (Fields.childMap data name) [] rest := by
            rw [putAll, List.foldl_cons, hnil, putAll]
          rw [hbase, hsame]
          exact ih hpaths.2

/-- The store takes the fields at the paths of a mask from the data. -/
theorem applyMask_eq (base data : Fields) (paths : List (List String)) :
    Memory.applyMask base data (paths.map FieldPath.mk) = putAll data base paths := by
  rw [Memory.applyMask, List.foldl_map]
  rfl

/-! ## Merged fields -/

/-- The fields after a merge of some data. -/
def merged (base data : Fields) : Fields := putAll (keptFields data) base (leaves data)

/-- What a merge makes of one field, by what the data says about it. -/
def applied (held : Option Value) : Option Value → Option Value
  | none => held
  | some .deleteField => none
  | some (.map (first :: rest)) => some (.map (merged (innerOf held) (first :: rest)))
  | some v => some v

/-- The maps of the data lie on maps, or have no fields that are marked as gone. -/
def Fits (ok : String → Bool) (base data : Fields) : Prop :=
  ∀ e ∈ data, ∀ fields, e.2 = .map fields →
    (∃ child, Keyed.get? e.1 base = some (.map child)) ∨ e.2.isRecord ok false = true

theorem kept_of_record {v : Value} (h : v.isRecord ok false = true) : kept v = some v := by
  induction v using Value.map_induction with
  | map fields ih =>
      rw [Value.isRecord] at h
      have hvalues : ∀ e ∈ fields, kept e.2 = some e.2 :=
        fun e he => ih e he (Value.isRecord_of_mem h he)
      have hfields : keptFields fields = fields := by
        clear h ih
        induction fields with
        | nil => rfl
        | cons first rest ihrest =>
            obtain ⟨name, v⟩ := first
            rw [List.forall_mem_cons] at hvalues
            simp only [keptFields, hvalues.1, ihrest hvalues.2]
      cases fields with
      | nil => rfl
      | cons first rest => rw [kept, hfields]
  | leaf v hv => cases v <;> simp_all [Value.isRecord, Value.asMap?, kept]

/-- What stays of a map is what stays of its fields. -/
theorem innerOf_kept (fields : Fields) : innerOf (kept (.map fields)) = keptFields fields := by
  cases fields with
  | nil => rfl
  | cons first rest =>
      rw [kept]
      cases keptFields (first :: rest) <;> rfl

theorem keptFields_eq_filterMap (fields : Fields) :
    keptFields fields = Keyed.filterMap (fun _ v => kept v) fields := by
  induction fields with
  | nil => rfl
  | cons first rest ih =>
      obtain ⟨name, v⟩ := first
      rw [keptFields, Keyed.filterMap, ih]
      cases kept v <;> rfl

theorem get?_keptFields {fields : Fields} (h : Keyed.Sorted fields) (name : String) :
    Keyed.get? name (keptFields fields) = (Keyed.get? name fields).bind kept := by
  rw [keptFields_eq_filterMap, Keyed.get?_filterMap h]

/-- A record without markers has a value at each of its leaves. -/
theorem isSome_getFrom_of_mem_leavesOf {v : Value} (h : v.isRecord ok false = true) :
    ∀ p ∈ leavesOf v, (getFrom (some v) p).isSome = true := by
  induction v using Value.map_induction with
  | map fields ih =>
      rw [Value.isRecord] at h
      intro p hp
      by_cases hempty : fields = []
      · rw [hempty, leavesOf_map_nil, List.mem_singleton] at hp
        rw [hp]
        rfl
      · rw [leavesOf_map hempty] at hp
        obtain ⟨e, he, q, hq, rfl⟩ := mem_leaves.1 hp
        have hget := (Keyed.get?_eq_some (Value.sorted_of_recordFields h)).2 he
        change (Fields.getIn fields (e.1 :: q)).isSome = true
        rw [getIn_cons, hget]
        exact ih e he (Value.isRecord_of_mem h he) q hq
  | leaf v hv =>
      intro p hp
      rw [leavesOf_of_record h hv, List.mem_singleton] at hp
      rw [hp]
      rfl

theorem applied_of_leaf {held : Option Value} {v : Value} (hmap : v.asMap? = none)
    (hplain : v.isDeleteField = false) : applied held (some v) = some v := by
  cases v <;> simp_all [applied, Value.asMap?, Value.isDeleteField]

/-- The paths of one field of the data make of that field what the data says. -/
theorem get?_putAll_leavesOf {data base : Fields} {name : String} {v : Value}
    (hv : v.isRecord ok true = true) (hdata : Keyed.get? name data = kept v)
    (hbase : Keyed.Sorted base)
    (hfits : ∀ fields, v = .map fields →
      (∃ child, Keyed.get? name base = some (.map child)) ∨ v.isRecord ok false = true) :
    Keyed.get? name (putAll data base ((leavesOf v).map (name :: ·)))
      = applied (Keyed.get? name base) (some v) := by
  have hleaf (hleaves : leavesOf v = [[]]) :
      Keyed.get? name (putAll data base ((leavesOf v).map (name :: ·))) = kept v := by
    rw [hleaves, ← hdata]
    exact get?_put_leaf hbase
  by_cases hmap : v.asMap? = none
  · rw [hleaf (leavesOf_of_record hv hmap)]
    by_cases hdelete : v.isDeleteField = true
    · cases v with
      | deleteField => rfl
      | _ => cases hdelete
    · rw [Bool.not_eq_true] at hdelete
      have hrecord : v.isRecord ok false = true := by
        cases v <;> simp_all [Value.isRecord, Value.asMap?, Value.isDeleteField]
      rw [applied_of_leaf hmap hdelete, kept_of_record hrecord]
  · cases v with
    | map fields =>
        cases fields with
        | nil =>
            rw [hleaf leavesOf_map_nil]
            rfl
        | cons first rest =>
            have hne : leavesOf (.map (first :: rest)) ≠ [] := leavesOf_ne_nil hv
            have hpaths : ∀ p ∈ leaves (first :: rest), p ≠ [] := fun p => ne_nil_of_mem_leaves
            have hchild : Fields.childMap data name = keptFields (first :: rest) := by
              rw [childMap_eq, hdata, innerOf_kept]
            rw [applied, merged, ← hchild]
            rcases hfits _ rfl with hbase | hrecord
            · obtain ⟨child, hchild⟩ := hbase
              rw [hchild]
              exact get?_putAll_map hpaths hchild
            · rw [← childMap_eq]
              refine get?_putAll_new hne hpaths fun p hp => ?_
              have hkept := kept_of_record hrecord
              rw [childMap_eq, hdata, hkept]
              have hsome := isSome_getFrom_of_mem_leavesOf hrecord p hp
              cases p with
              | nil => exact absurd rfl (hpaths [] hp)
              | cons next later => exact hsome
    | _ => exact absurd rfl hmap

/-- Of the paths of all fields, those of one field act on it, and nothing else does. -/
theorem get?_putAll_leaves_cases {data base fields : Fields} (hfields : Keyed.Sorted fields)
    (hbase : Keyed.Sorted base) (name : String) :
    (Keyed.get? name fields = none ∧
      Keyed.get? name (putAll data base (leaves fields)) = Keyed.get? name base) ∨
    ∃ v near, Keyed.get? name fields = some v ∧ Keyed.Sorted near ∧
      Keyed.get? name near = Keyed.get? name base ∧
      Keyed.get? name (putAll data base (leaves fields))
        = Keyed.get? name (putAll data near ((leavesOf v).map (name :: ·))) := by
  induction fields generalizing base with
  | nil => exact .inl ⟨rfl, rfl⟩
  | cons first rest ih =>
      obtain ⟨other, v⟩ := first
      rw [leaves, putAll_append]
      by_cases hname : name = other
      · subst hname
        refine .inr ⟨v, base, Keyed.get?_cons_self, hbase, rfl, ?_⟩
        rcases ih hfields.tail (sorted_putAll hbase) with ⟨-, hrest⟩ | ⟨w, -, hw, -⟩
        · exact hrest
        · rw [hfields.get?_tail] at hw
          cases hw
      · have hother : Keyed.get? name (putAll data base ((leavesOf v).map (other :: ·)))
            = Keyed.get? name base := get?_putAll_of_ne hname
        rw [Keyed.get?_cons_of_ne hname]
        rcases ih hfields.tail (sorted_putAll hbase) with
          ⟨hnone, hrest⟩ | ⟨w, near, hw, hsorted, hnear, hrest⟩
        · exact .inl ⟨hnone, hrest.trans hother⟩
        · exact .inr ⟨w, near, hw, hsorted, hnear.trans hother, hrest⟩

/-- **Merging.**  A merge makes of each field what the data says about it. -/
theorem get?_merged {base data : Fields} {name : String} (hbase : Keyed.Sorted base)
    (hdata : Value.recordFields ok true data = true) (hfits : Fits ok base data) :
    Keyed.get? name (merged base data)
      = applied (Keyed.get? name base) (Keyed.get? name data) := by
  have hsorted := Value.sorted_of_recordFields hdata
  rcases get?_putAll_leaves_cases hsorted hbase name with
    ⟨hnone, hget⟩ | ⟨v, near, hv, hnear, hheld, hget⟩
  · rw [merged, hget, hnone]
    rfl
  · have hkept : Keyed.get? name (keptFields data) = kept v := by
      rw [get?_keptFields hsorted, hv, Option.bind_some]
    rw [merged, hget, hv, ← hheld]
    refine get?_putAll_leavesOf (Value.isRecord_of_get? hdata hv) hkept hnear fun fields hmap => ?_
    rw [hheld]
    exact hfits (name, v) (Keyed.mem_of_get?_eq_some hv) fields hmap

theorem sorted_merged {base data : Fields} (h : Keyed.Sorted base) :
    Keyed.Sorted (merged base data) :=
  sorted_putAll h

/-- A merge into nothing leaves a record as it is, if it leaves its values so. -/
theorem merged_nil_of {fields : Fields} (h : Value.recordFields ok false fields = true)
    (hvalues : ∀ e ∈ fields, applied none (some e.2) = some e.2) : merged [] fields = fields := by
  have hrecord := Value.isRecord_of_isRecord_false (v := .map fields) h
  have hfits : Fits ok [] fields := fun e he _ _ => .inr (Value.isRecord_of_mem h he)
  refine Keyed.eq_of_get?_eq (sorted_merged .nil) (Value.sorted_of_recordFields h) fun name => ?_
  rw [get?_merged .nil hrecord hfits]
  cases hget : Keyed.get? name fields with
  | none => rfl
  | some v => exact hvalues (name, v) (Keyed.mem_of_get?_eq_some hget)

/-- A value without markers is put where nothing is as it is. -/
theorem applied_none_of_record {v : Value} (h : v.isRecord ok false = true) :
    applied none (some v) = some v := by
  induction v using Value.map_induction with
  | map fields ih =>
      rw [Value.isRecord] at h
      cases fields with
      | nil => rfl
      | cons first rest =>
          have hmerged := merged_nil_of h fun e he => ih e he (Value.isRecord_of_mem h he)
          rw [applied]
          change some (Value.map (merged [] (first :: rest))) = _
          rw [hmerged]
  | leaf v hv =>
      have hplain : v.isDeleteField = false := by
        cases v <;> simp_all [Value.isRecord, Value.isDeleteField]
      exact applied_of_leaf hv hplain

/-- A value without markers is put in place as it is where no fields are, or if it has none. -/
theorem applied_of_record {held : Option Value} {v : Value} (h : v.isRecord ok false = true)
    (hapart : innerOf held = [] ∨ v.asMap? = none) : applied held (some v) = some v := by
  have hnone := applied_none_of_record h
  cases v with
  | map fields =>
      cases fields with
      | nil => rfl
      | cons first rest =>
          rcases hapart with hinner | hmap
          · rw [applied, hinner]
            exact hnone
          · cases hmap
  | _ => exact hnone

end Merge

end DocStore
