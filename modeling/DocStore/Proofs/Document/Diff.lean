import DocStore.Document.Diff
import DocStore.Proofs.Double.Text
import DocStore.Proofs.Store.Mask
import DocStore.Proofs.Value.Alike
import Mathlib.Data.List.Perm.Subperm

/-!
# What the merge of a difference leaves

The difference of two records, merged into the first, gives the second one but for maps that lose
all their fields below the top level: a map that was not empty and is empty afterwards is gone.
`settledFields` is the second record without these maps.

The main statement, `alike_merged_onto`, is about a merge into any record that is alike the first
one, so that it can be used again after the merge.  It rests on one step, `alike_applied_changeOf`:
the change of a value, merged into the old value, gives what is settled of the new one.
-/

namespace DocStore.Diff

open SplitData Merge

/-! ## What is settled of a record -/

mutual

/-- What is left of a new value after a merge into the old one: nothing of a map below the top
level that loses all its fields. -/
def settledValue (below : Bool) (before : Value) : Value → Option Value
  | .map after =>
    match before with
    | .map (first :: rest) =>
      let inner := settledFields true (first :: rest) after
      if below && inner.isEmpty then none else some (.map inner)
    | _ => some (.map after)
  | after => some after

/-- What is left of the fields of a new record after a merge into the old one. -/
def settledFields (below : Bool) (before : Fields) : Fields → Fields
  | [] => []
  | (name, v) :: rest =>
    let settled :=
      match Keyed.get? name before with
      | none => some v
      | some old => settledValue below old v
    match settled with
    | some w => (name, w) :: settledFields below before rest
    | none => settledFields below before rest

end

/-- `settledValue` for a field that may be new. -/
def settledAt (below : Bool) (before? : Option Value) (v : Value) : Option Value :=
  match before? with
  | none => some v
  | some old => settledValue below old v

theorem settledFields_eq_filterMap (below : Bool) (before after : Fields) :
    settledFields below before after
      = Keyed.filterMap (fun name v => settledAt below (Keyed.get? name before) v) after := by
  induction after with
  | nil => rfl
  | cons first rest ih =>
      obtain ⟨name, v⟩ := first
      rw [settledFields, Keyed.filterMap, ih]
      cases Keyed.get? name before with
      | none => rfl
      | some old =>
          simp only [settledAt]
          cases settledValue below old v <;> rfl

theorem get?_settledFields {below : Bool} {before after : Fields} (h : Keyed.Sorted after)
    (name : String) :
    Keyed.get? name (settledFields below before after)
      = (Keyed.get? name after).bind (settledAt below (Keyed.get? name before)) := by
  rw [settledFields_eq_filterMap, Keyed.get?_filterMap h]

theorem sorted_settledFields {below : Bool} {before after : Fields} (h : Keyed.Sorted after) :
    Keyed.Sorted (settledFields below before after) := by
  rw [settledFields_eq_filterMap]
  exact h.filterMap _

/-! ## The difference, name by name -/

/-- `changeOf` for a field that may be new. -/
def changeAt (below : Bool) (before? : Option Value) (v : Value) : Option Value :=
  match before? with
  | none => some v
  | some old => changeOf false below old v

/-- The strict difference of two maps, below the top level or at it. -/
def difference (below : Bool) (before after : Fields) : Fields :=
  withRemovals before after (changes false below before after)

theorem changes_eq_filterMap (below : Bool) (before after : Fields) :
    changes false below before after
      = Keyed.filterMap (fun name v => changeAt below (Keyed.get? name before) v) after := by
  induction after with
  | nil => rfl
  | cons first rest ih =>
      obtain ⟨name, v⟩ := first
      rw [changes, Keyed.filterMap, ih]
      cases Keyed.get? name before with
      | none => rfl
      | some old =>
          simp only [changeAt]
          cases changeOf false below old v <;> rfl

/-- The fields that are gone are those of the old record that the new one does not have. -/
theorem mem_keys_removals {before after : Fields} {name : String} :
    name ∈ (removals before after).map (·.1) ↔
      name ∈ before.map (·.1) ∧ Keyed.get? name after = none := by
  simp [removals, and_comm]

variable {ok : String → Bool} {below : Bool} {before after : Fields} {name : String}

theorem sorted_difference (h : Keyed.Sorted after) :
    Keyed.Sorted (difference below before after) := by
  refine Keyed.sorted_foldl_insert _ ?_
  rw [changes_eq_filterMap]
  exact h.filterMap _

/-- A field that is still there has its change, and one that is gone is marked. -/
theorem get?_difference (h : Keyed.Sorted after) :
    Keyed.get? name (difference below before after) =
      match Keyed.get? name after with
      | some v => changeAt below (Keyed.get? name before) v
      | none => (Keyed.get? name before).map fun _ => .deleteField := by
  have hmarkers : ∀ e ∈ removals before after, e.2 = .deleteField := by
    intro e he
    obtain ⟨f, -, rfl⟩ := List.mem_map.1 he
    rfl
  have hchanges : Keyed.get? name (changes false below before after)
      = (Keyed.get? name after).bind (changeAt below (Keyed.get? name before)) := by
    rw [changes_eq_filterMap, Keyed.get?_filterMap h]
  change Keyed.get? name ((removals before after).foldl (fun m e => Keyed.insert e.1 e.2 m)
    (changes false below before after)) = _
  by_cases hgone : name ∈ (removals before after).map (·.1)
  · rw [Keyed.get?_foldl_insert_of_mem hmarkers hgone]
    obtain ⟨hbefore, hafter⟩ := mem_keys_removals.1 hgone
    obtain ⟨old, hold⟩ := Option.isSome_iff_exists.1 (Keyed.get?_isSome.2 hbefore)
    rw [hafter, hold]
    rfl
  · rw [Keyed.get?_foldl_insert_of_not_mem hgone, hchanges]
    cases hafter : Keyed.get? name after with
    | some v => rfl
    | none =>
        have hbefore : Keyed.get? name before = none :=
          Keyed.get?_eq_none.2 fun hkey => hgone (mem_keys_removals.2 ⟨hkey, hafter⟩)
        rw [hbefore]
        rfl

/-- What an entry of a difference comes from. -/
inductive Entry (below : Bool) (before after : Fields) (name : String) (c : Value) : Prop
  /-- The field is gone. -/
  | gone (old : Value) (hafter : Keyed.get? name after = none)
      (hbefore : Keyed.get? name before = some old) (hmark : c = .deleteField)
  /-- The field is new. -/
  | new (hafter : Keyed.get? name after = some c) (hbefore : Keyed.get? name before = none)
  /-- The field has another value. -/
  | changed (old v : Value) (hafter : Keyed.get? name after = some v)
      (hbefore : Keyed.get? name before = some old)
      (hchange : changeOf false below old v = some c)

theorem entry_of_get? {c : Value} (h : Keyed.Sorted after)
    (hget : Keyed.get? name (difference below before after) = some c) :
    Entry below before after name c := by
  rw [get?_difference h] at hget
  cases hafter : Keyed.get? name after with
  | none =>
      rw [hafter] at hget
      obtain ⟨old, hbefore, hmark⟩ := Option.map_eq_some_iff.1 hget
      exact .gone old hafter hbefore hmark.symm
  | some v =>
      rw [hafter] at hget
      cases hbefore : Keyed.get? name before with
      | none =>
          rw [hbefore] at hget
          exact .new (hafter.trans hget) hbefore
      | some old =>
          rw [hbefore] at hget
          exact .changed old v hafter hbefore hget

theorem entry_of_mem {e : String × Value} (h : Keyed.Sorted after)
    (he : e ∈ difference below before after) : Entry below before after e.1 e.2 :=
  entry_of_get? h ((Keyed.get?_eq_some (sorted_difference h)).2 he)

/-! ## The change of a value -/

/-- The change between two maps, the old one with fields. -/
theorem changeOf_map {before : Fields} (hbefore : before ≠ []) :
    changeOf false below (.map before) (.map after) =
      if (difference true before after).isEmpty then none
      else if below && allGone before (difference true before after) then some .deleteField
      else some (.map (difference true before after)) := by
  cases before with
  | nil => exact absurd rfl hbefore
  | cons first rest => rfl

theorem settledValue_map {before : Fields} (hbefore : before ≠ []) :
    settledValue below (.map before) (.map after) =
      if below && (settledFields true before after).isEmpty then none
      else some (.map (settledFields true before after)) := by
  cases before with
  | nil => exact absurd rfl hbefore
  | cons first rest => rfl

/-- The values are not two maps, the old one with fields: they are compared as they are. -/
structure Compared (old v : Value) : Prop where
  apart : innerOf (some old) = [] ∨ v.asMap? = none
  change : ∀ below, changeOf false below old v = if sameValue false old v then none else some v
  settled : ∀ below, settledValue below old v = some v

theorem compared_or_maps (old v : Value) :
    Compared old v ∨ ∃ before after : Fields, before ≠ [] ∧ old = .map before ∧ v = .map after := by
  cases v with
  | map after =>
      cases old with
      | map before =>
          cases before with
          | nil => exact .inl ⟨.inl rfl, fun _ => rfl, fun _ => rfl⟩
          | cons first rest => exact .inr ⟨first :: rest, after, List.cons_ne_nil _ _, rfl, rfl⟩
      | _ => exact .inl ⟨.inl rfl, fun _ => rfl, fun _ => rfl⟩
  | _ => exact .inl ⟨.inr rfl, fun _ => rfl, fun _ => rfl⟩

/-- Induction along the comparison of two values. -/
theorem change_induction {motive : Value → Value → Prop}
    (maps : ∀ before after : Fields, before ≠ [] → (∀ e ∈ after, ∀ old, motive old e.2) →
      motive (.map before) (.map after))
    (compared : ∀ old v, Compared old v → motive old v) (old v : Value) : motive old v := by
  induction v using Value.map_induction generalizing old with
  | map after ih =>
      rcases compared_or_maps old (.map after) with h | ⟨before, after', hne, rfl, heq⟩
      · exact compared _ _ h
      · exact maps before after hne fun e he old => ih e he old
  | leaf v hv =>
      rcases compared_or_maps old v with h | ⟨before, after, -, -, rfl⟩
      · exact compared _ _ h
      · cases hv

/-- A change of compared values is the new value. -/
theorem Compared.eq_of_changeOf {old v c : Value} (h : Compared old v)
    (hc : changeOf false below old v = some c) : sameValue false old v = false ∧ c = v := by
  rw [h.change] at hc
  split at hc
  next => cases hc
  next hdiffer =>
    rw [Bool.not_eq_true] at hdiffer
    exact ⟨hdiffer, (Option.some.inj hc).symm⟩

/-! ## A difference is data for a merge -/

/-- The difference is tidy if the changes of all values are. -/
theorem record_difference_of (hbefore : Value.recordFields ok false before = true)
    (hafter : Value.recordFields ok false after = true)
    (hvalues : ∀ e ∈ after, ∀ old c, old.isRecord ok false = true →
      changeOf false below old e.2 = some c → c.isRecord ok true = true) :
    Value.recordFields ok true (difference below before after) = true := by
  have hsorted := Value.sorted_of_recordFields hafter
  refine Value.recordFields_iff.2 ⟨sorted_difference hsorted, fun e he => ?_⟩
  cases entry_of_mem hsorted he with
  | gone old _ hold hmark =>
      rw [hmark]
      exact ⟨Value.ok_of_get? hbefore hold, rfl⟩
  | new hv _ =>
      exact ⟨Value.ok_of_get? hafter hv,
        Value.isRecord_of_isRecord_false (Value.isRecord_of_get? hafter hv)⟩
  | changed old v hv hold hchange =>
      exact ⟨Value.ok_of_get? hafter hv, hvalues _ (Keyed.mem_of_get?_eq_some hv) old e.2
        (Value.isRecord_of_get? hbefore hold) hchange⟩

/-- A change between values without markers is tidy. -/
theorem record_changeOf {old v c : Value} (hold : old.isRecord ok false = true)
    (hv : v.isRecord ok false = true) (hc : changeOf false below old v = some c) :
    c.isRecord ok true = true := by
  induction old, v using change_induction generalizing below c with
  | maps before after hne ih =>
      rw [changeOf_map hne] at hc
      split at hc
      · cases hc
      · split at hc
        · cases hc
          rfl
        · cases hc
          exact record_difference_of hold hv fun e he old c hrecord hchange =>
            ih e he old hrecord (Value.isRecord_of_mem hv he) hchange
  | compared old v h =>
      rw [(h.eq_of_changeOf hc).2]
      exact Value.isRecord_of_isRecord_false hv

/-- The difference of two records is tidy. -/
theorem record_difference (hbefore : Value.recordFields ok false before = true)
    (hafter : Value.recordFields ok false after = true) :
    Value.recordFields ok true (difference below before after) = true :=
  record_difference_of hbefore hafter fun _ he _ _ hold hc =>
    record_changeOf hold (Value.isRecord_of_mem hafter he) hc

/-- A map in the difference lies on a map, or is new. -/
theorem fits_difference (hafter : Value.recordFields ok false after = true) :
    Fits ok before (difference below before after) := by
  intro e he fields hmap
  cases entry_of_mem (Value.sorted_of_recordFields hafter) he with
  | gone old _ _ hmark =>
      rw [hmap] at hmark
      cases hmark
  | new hv _ => exact .inr (Value.isRecord_of_get? hafter hv)
  | changed old v hv hold hchange =>
      rcases compared_or_maps old v with h | ⟨child, after', -, rfl, -⟩
      · rw [(h.eq_of_changeOf hchange).2]
        exact .inr (Value.isRecord_of_get? hafter hv)
      · exact .inl ⟨child, hold⟩

/-! ## Maps that lose all their fields -/

/-- Every field of the old record is gone, or a map that loses all its fields. -/
def AllMarked (before after : Fields) : Prop :=
  ∀ name v, Keyed.get? name after = some v →
    ∃ old, Keyed.get? name before = some old ∧ changeOf false true old v = some .deleteField

/-- A difference that marks all fields as gone has the keys of the old record. -/
theorem isSome_get?_difference (h : Keyed.Sorted after) (hmarked : AllMarked before after) :
    (Keyed.get? name (difference true before after)).isSome
      = (Keyed.get? name before).isSome := by
  rw [get?_difference h]
  cases hv : Keyed.get? name after with
  | none => exact Option.isSome_map
  | some v =>
      obtain ⟨old, hold, hchange⟩ := hmarked name v hv
      simp only [hold, changeAt, hchange, Option.isSome_some]

/-- A difference that has the size of the old record and markers alone marks all its fields. -/
theorem allMarked_of_allGone (hafter : Value.recordFields ok false after = true)
    (h : allGone before (difference true before after) = true) : AllMarked before after := by
  have hsorted := Value.sorted_of_recordFields hafter
  rw [allGone, Bool.and_eq_true, beq_iff_eq, List.all_eq_true] at h
  have hmark {name : String} {c : Value}
      (hget : Keyed.get? name (difference true before after) = some c) : c = .deleteField := by
    have hc : c.isDeleteField = true := h.2 _ (Keyed.mem_of_get?_eq_some hget)
    cases c with
    | deleteField => rfl
    | _ => cases hc
  -- What is new is not marked, so all keys of the difference are keys of the old record.
  have hold {name : String} (hname : name ∈ (difference true before after).map (·.1)) :
      name ∈ before.map (·.1) := by
    rw [← Keyed.get?_isSome] at hname ⊢
    obtain ⟨c, hc⟩ := Option.isSome_iff_exists.1 hname
    cases entry_of_get? hsorted hc with
    | gone old _ hbefore _ => rw [hbefore, Option.isSome_some]
    | new hv _ =>
        have hrecord := Value.isRecord_of_get? hafter hv
        rw [hmark hc] at hrecord
        cases hrecord
    | changed old v _ hbefore _ => rw [hbefore, Option.isSome_some]
  have hnodup : ((difference true before after).map (·.1)).Nodup :=
    (sorted_difference hsorted).nodup_keys
  have hlength : (before.map (·.1)).length ≤ ((difference true before after).map (·.1)).length := by
    rw [List.length_map, List.length_map, h.1]
  have hperm := (hnodup.subperm fun _ => hold).perm_of_length_le hlength
  intro name v hv
  cases hbefore : Keyed.get? name before with
  | none =>
      have hget : Keyed.get? name (difference true before after) = some v := by
        rw [get?_difference hsorted, hv, hbefore]
        rfl
      have hrecord := Value.isRecord_of_get? hafter hv
      rw [hmark hget] at hrecord
      cases hrecord
  | some old =>
      have hkey : name ∈ before.map (·.1) := by
        rw [← Keyed.get?_isSome, hbefore, Option.isSome_some]
      obtain ⟨c, hc⟩ := Option.isSome_iff_exists.1 (Keyed.get?_isSome.2 (hperm.mem_iff.2 hkey))
      have hchange : changeOf false true old v = some c := by
        rw [get?_difference hsorted, hv, hbefore] at hc
        exact hc
      rw [hmark hc] at hchange
      exact ⟨old, rfl, hchange⟩

/-- A difference is collapsed exactly if it marks each field of the old record as gone, and has
no others. -/
theorem allGone_iff (hbefore : Value.recordFields ok false before = true)
    (hafter : Value.recordFields ok false after = true) :
    allGone before (difference true before after) = true ↔ AllMarked before after := by
  have hsorted := Value.sorted_of_recordFields hafter
  refine ⟨allMarked_of_allGone hafter, fun hmarked => ?_⟩
  have hnodup : ((difference true before after).map (·.1)).Nodup :=
    (sorted_difference hsorted).nodup_keys
  have hnodup' := (Value.sorted_of_recordFields hbefore).nodup_keys
  have hperm : ((difference true before after).map (·.1)).Perm (before.map (·.1)) := by
    refine (List.perm_ext_iff_of_nodup hnodup hnodup').2 fun name => ?_
    rw [← Keyed.get?_isSome, ← Keyed.get?_isSome, isSome_get?_difference hsorted hmarked]
  have hlength := hperm.length_eq
  rw [List.length_map, List.length_map] at hlength
  rw [allGone, Bool.and_eq_true, beq_iff_eq, List.all_eq_true]
  refine ⟨hlength, fun e he => ?_⟩
  change e.2.isDeleteField = true
  cases entry_of_mem hsorted he with
  | gone old _ _ hmark =>
      rw [hmark]
      rfl
  | new hv hold =>
      obtain ⟨old, hold', -⟩ := hmarked e.1 e.2 hv
      rw [hold] at hold'
      cases hold'
  | changed old v hv hold hchange =>
      obtain ⟨old', hold', hmark⟩ := hmarked e.1 v hv
      rw [hold] at hold'
      cases hold'
      rw [hchange] at hmark
      rw [Option.some.inj hmark]
      rfl

/-- Nothing is settled of a record exactly if all is marked, provided that this is so of each of
its values. -/
theorem settledFields_eq_nil_iff (h : Keyed.Sorted after)
    (hvalues : ∀ name old v, Keyed.get? name before = some old → Keyed.get? name after = some v →
      (settledValue true old v = none ↔ changeOf false true old v = some .deleteField)) :
    settledFields true before after = [] ↔ AllMarked before after := by
  constructor
  · intro hnil name v hv
    have hget : Keyed.get? name (settledFields true before after) = none := by
      rw [hnil]
      rfl
    rw [get?_settledFields h, hv, Option.bind_some] at hget
    cases hbefore : Keyed.get? name before with
    | none =>
        rw [hbefore] at hget
        cases hget
    | some old =>
        rw [hbefore] at hget
        exact ⟨old, rfl, (hvalues name old v hbefore hv).1 hget⟩
  · intro hmarked
    cases hsettled : settledFields true before after with
    | nil => rfl
    | cons first rest =>
        have hget : Keyed.get? first.1 (settledFields true before after) = some first.2 := by
          rw [hsettled]
          exact Keyed.get?_cons_self
        rw [get?_settledFields h] at hget
        obtain ⟨v, hv, hvalue⟩ := Option.bind_eq_some_iff.1 hget
        obtain ⟨old, hbefore, hchange⟩ := hmarked first.1 v hv
        rw [hbefore, settledAt, (hvalues _ old v hbefore hv).2 hchange] at hvalue
        cases hvalue

/-! ## Merging a difference -/

theorem sameValue_double (a b : Double) :
    sameValue false (.double a) (.double b) = (a.text == b.text) := rfl

/-- Values that are not both doubles are the same if they are equal. -/
theorem sameValue_of_not_double {a b : Value} (h : (isDouble a && isDouble b) = false) :
    sameValue false a b = a.equals b := by
  simp [sameValue, h]

theorem double_or_not (a b : Value) :
    (∃ x y, a = .double x ∧ b = .double y) ∨ (isDouble a && isDouble b) = false := by
  cases a with
  | double x =>
      cases b with
      | double y => exact .inl ⟨x, y, rfl, rfl⟩
      | _ => exact .inr rfl
  | _ => exact .inr rfl

/-- Values that are the same are alike. -/
theorem alike_of_sameValue {a b : Value} (h : sameValue false a b = true) :
    a.alike b = true := by
  rcases double_or_not a b with ⟨x, y, rfl, rfl⟩ | hnot
  · rw [sameValue_double, beq_iff_eq] at h
    rcases Double.eq_of_text_eq h with rfl | ⟨hx, hy⟩
    · exact Value.alike_refl _
    · simp [Value.alike, hx, hy]
  · rw [sameValue_of_not_double hnot] at h
    exact Value.alike_of_equals h

/-- A value is removed by nothing but a marker. -/
theorem applied_eq_none {old : Value} {change : Option Value} :
    applied (some old) change = none ↔ change = some .deleteField := by
  cases change with
  | none => simp [applied]
  | some c =>
      cases c with
      | map fields => cases fields <;> simp [applied]
      | _ => simp [applied]

/-- A value that is alike takes the place of the old one in a comparison. -/
theorem Compared.of_alike {held old v : Value} (h : Compared old v)
    (halike : held.alike old = true) : Compared held v := by
  rcases compared_or_maps held v with hheld | ⟨base, after, hne, rfl, rfl⟩
  · exact hheld
  · cases old with
    | map before =>
        rcases h.apart with hinner | hmap
        · cases before with
          | nil =>
              cases base with
              | nil => exact absurd rfl hne
              | cons => cases halike
          | cons => cases hinner
        · cases hmap
    | _ => cases halike

/-- The difference merged into a record that is alike the old one gives what is settled, if the
change of each value does. -/
theorem alike_merged_of (below : Bool) {base : Fields}
    (hbase : Value.alikeFields base before = true)
    (hbefore : Value.recordFields ok false before = true)
    (hafter : Value.recordFields ok false after = true)
    (hvalues : ∀ e ∈ after, ∀ held old, held.alike old = true → old.isRecord ok false = true →
      Value.AlikeAt (applied (some held) (changeOf false below old e.2))
        (settledValue below old e.2)) :
    Value.alikeFields (merged base (difference below before after))
      (settledFields below before after) = true := by
  have hsorted := Value.sorted_of_alikeFields hbase (Value.sorted_of_recordFields hbefore)
  have hsorted' := Value.sorted_of_recordFields hafter
  have hfits : Fits ok base (difference below before after) := by
    intro e he fields hmap
    rcases fits_difference hafter e he fields hmap with ⟨child, hchild⟩ | hrecord
    · obtain ⟨held, hheld, halike⟩ :=
        Value.exists_of_alikeAt_some (hchild ▸ Value.alikeAt_of_alikeFields hbase e.1)
      cases held with
      | map child' => exact .inl ⟨child', hheld⟩
      | _ => cases halike
    · exact .inr hrecord
  refine Value.alikeFields_of_get? (sorted_merged hsorted) (sorted_settledFields hsorted')
    fun name => ?_
  have hheld := Value.alikeAt_of_alikeFields hbase name
  rw [get?_merged hsorted (record_difference hbefore hafter) hfits, get?_settledFields hsorted',
    get?_difference hsorted']
  cases hv : Keyed.get? name after with
  | none =>
      cases hold : Keyed.get? name before with
      | none =>
          rw [hold] at hheld
          exact hheld
      | some old => exact .none
  | some v =>
      cases hold : Keyed.get? name before with
      | none =>
          have happlied := applied_none_of_record (Value.isRecord_of_get? hafter hv)
          rw [hold] at hheld
          rw [(Value.eq_none_iff_of_alikeAt hheld).2 rfl]
          simp only [changeAt, happlied, Option.bind_some, settledAt]
          exact Value.alikeAt_refl _
      | some old =>
          rw [hold] at hheld
          obtain ⟨held, hget, halike⟩ := Value.exists_of_alikeAt_some hheld
          rw [hget]
          exact hvalues (name, v) (Keyed.mem_of_get?_eq_some hv) held old halike
            (Value.isRecord_of_get? hbefore hold)

/-- **Changes.**  The change of a value, merged into a value that is alike the old one, gives what
is settled of the new one. -/
theorem alike_applied_changeOf {held old v : Value} (halike : held.alike old = true)
    (hold : old.isRecord ok false = true) (hv : v.isRecord ok false = true) :
    Value.AlikeAt (applied (some held) (changeOf false below old v))
      (settledValue below old v) := by
  induction old, v using change_induction generalizing below held with
  | compared old v h =>
      rw [h.change, h.settled]
      split
      next hsame => exact .some (Value.alike_trans halike (alike_of_sameValue hsame))
      next =>
        rw [applied_of_record hv (h.of_alike halike).apart]
        exact Value.alikeAt_refl _
  | maps before after hne ih =>
      obtain ⟨base, rfl⟩ : ∃ base, held = .map base := by
        cases held with
        | map base => exact ⟨base, rfl⟩
        | _ => cases halike
      have hbase : Value.alikeFields base before = true := halike
      have hbefore : Value.recordFields ok false before = true := hold
      have hafter : Value.recordFields ok false after = true := hv
      have hsteps : ∀ e ∈ after, ∀ held old, held.alike old = true →
          old.isRecord ok false = true →
          Value.AlikeAt (applied (some held) (changeOf false true old e.2))
            (settledValue true old e.2) :=
        fun e he held old halike hrecord =>
          ih e he old halike hrecord (Value.isRecord_of_mem hafter he)
      have hfields := alike_merged_of true hbase hbefore hafter hsteps
      have hnil := settledFields_eq_nil_iff (Value.sorted_of_recordFields hafter)
        fun name old v hold hv => by
          have hstep := hsteps _ (Keyed.mem_of_get?_eq_some hv) old old (Value.alike_refl old)
            (Value.isRecord_of_get? hbefore hold)
          rw [← Value.eq_none_iff_of_alikeAt hstep, applied_eq_none]
      rw [← allGone_iff hbefore hafter] at hnil
      rw [changeOf_map hne, settledValue_map hne]
      by_cases hsame : difference true before after = []
      · -- Nothing is new, changed or gone, so the old map is settled.
        rw [hsame] at hfields ⊢
        have hsettled : settledFields true before after ≠ [] := by
          intro hempty
          rw [hempty] at hfields
          cases base with
          | nil =>
              cases before with
              | nil => exact hne rfl
              | cons => cases hbase
          | cons first rest => cases hfields
        simp only [List.isEmpty_nil, if_true, List.isEmpty_eq_false_iff.2 hsettled, Bool.and_false]
        exact .some hfields
      · rw [if_neg (by simpa using hsame)]
        by_cases hcollapse : (below && allGone before (difference true before after)) = true
        · rw [if_pos hcollapse, if_pos]
          · exact .none
          · rw [Bool.and_eq_true, hnil.symm] at hcollapse
            simp [hcollapse.1, hcollapse.2]
        · rw [if_neg hcollapse, if_neg]
          · cases hchange : difference true before after with
            | nil => exact absurd hchange hsame
            | cons first rest =>
                rw [hchange] at hfields
                exact .some hfields
          · intro hempty
            rw [Bool.and_eq_true, List.isEmpty_iff, hnil] at hempty
            exact hcollapse (Bool.and_eq_true_iff.2 hempty)

/-- **Merging a difference.**  Merged into a record that is alike the first one, the difference of
two records gives the second one, but for the maps below the top level that lose all their
fields. -/
theorem alike_merged_onto {base : Fields} (hbase : Value.alikeFields base before = true)
    (hbefore : Value.recordFields ok false before = true)
    (hafter : Value.recordFields ok false after = true) :
    Value.alikeFields (merged base (difference below before after))
      (settledFields below before after) = true :=
  alike_merged_of below hbase hbefore hafter fun _ he _ _ halike hold =>
    alike_applied_changeOf halike hold (Value.isRecord_of_mem hafter he)

end DocStore.Diff
