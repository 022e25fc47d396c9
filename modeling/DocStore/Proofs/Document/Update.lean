import DocStore.Proofs.Document.Diff
import DocStore.Proofs.Outcome
import DocStore.Proofs.Path.Resource
import DocStore.Proofs.Value.Doubles

/-!
# Bringing a stored document up to date

A document whose fields are one record is brought to another record by one write, the merge of
their difference, or by none if nothing has changed (`updateWrites`).

The main statement, `merge_of_difference`, follows the difference through its encoding and through
the store.  Afterwards the document holds the second record without the maps that have lost all
their fields, and each path in the mask of the write is one where the two records differ
(`DiffersAt`).  A double that stands by itself is compared by its text, which has a sign: a mask may
hold a path where the records are equal as numbers, being the two zeros
(`not_masksOnlyUnlike_zeros`).  Nothing is said of a path where the first record holds an array that
encloses a NaN (`NumbersAt`).
-/

namespace DocStore.Diff

open SplitData Merge

variable {ok : String → Bool} {below : Bool} {before after : Fields}

/-! ## Where two records differ -/

/-- The value has changed: two doubles if their bits differ and one is a number, other values if
they are not alike. -/
def hasChanged : Value → Value → Bool
  | .double a, .double b => a != b && !(a.isNaN && b.isNaN)
  | a, b => !a.alike b

/-- Two lookups find values that differ, or a value and nothing. -/
def DiffersAt : Option Value → Option Value → Prop
  | none, none => False
  | some a, some b => hasChanged a b = true
  | _, _ => True

/-- An array that a lookup finds encloses numbers alone, no NaN. -/
def NumbersAt (held : Option Value) : Prop :=
  ∀ items, held = some (.array items) → Value.DoublesInItems (·.isNaN = false) items

/-- In a record that encloses no NaN it is so at all paths. -/
theorem numbersAt_of_enclosedInFields {fields : Fields}
    (h : Value.EnclosedInFields (·.isNaN = false) fields) (path : FieldPath) :
    NumbersAt (Fields.get? fields path) :=
  fun _ hget => Value.enclosedIn_of_getIn h hget

theorem hasChanged_of_not_double {a b : Value} (h : (isDouble a && isDouble b) = false) :
    hasChanged a b = !a.alike b := by
  cases a with
  | double x =>
      cases b with
      | double y => cases h
      | _ => rfl
  | _ => rfl

/-- Doubles with different texts have changed. -/
theorem hasChanged_of_text_ne {x y : Double} (h : x.text ≠ y.text) :
    hasChanged (.double x) (.double y) = true := by
  have hbits : x ≠ y := fun heq => h (heq ▸ rfl)
  have hnan : (x.isNaN && y.isNaN) = false := by
    rw [Bool.eq_false_iff]
    intro hboth
    rw [Bool.and_eq_true] at hboth
    exact h (by simp [Double.text, hboth.1, hboth.2])
  simp [hasChanged, hbits, hnan]

/-- Where values are alike and compared as they are, and are not two doubles, only an array can hold
a NaN. -/
theorem Compared.doublesIn {old v : Value} (h : Compared old v) (hv : v.isRecord ok false = true)
    (hnot : (isDouble old && isDouble v) = false) (hnumbers : NumbersAt (some old))
    (halike : old.alike v = true) : old.DoublesIn (·.isNaN = false) := by
  cases old with
  | double x =>
      cases v with
      | double y => cases hnot
      | _ => cases halike
  | array items => exact hnumbers items rfl
  | map before =>
      cases v with
      | map after =>
          rcases h.apart with hinner | hmap
          · obtain rfl : before = [] := hinner
            trivial
          · cases hmap
      | _ => cases halike
  | increment operand =>
      cases v with
      | increment operand' => cases hv
      | _ => cases halike
  | null | boolean _ | integer _ | timestamp _ | string _ | bytes _ | reference _
  | deleteField => trivial

/-- Values that are compared as they are and not the same have changed, unless the first is an
array that encloses a NaN. -/
theorem Compared.hasChanged {old v : Value} (h : Compared old v)
    (hv : v.isRecord ok false = true) (hnumbers : NumbersAt (some old))
    (hdiffer : sameValue false old v = false) : hasChanged old v = true := by
  rcases double_or_not old v with ⟨x, y, rfl, rfl⟩ | hnot
  · rw [sameValue_double, beq_eq_false_iff_ne] at hdiffer
    exact hasChanged_of_text_ne hdiffer
  · rw [sameValue_of_not_double hnot] at hdiffer
    rw [hasChanged_of_not_double hnot, Bool.not_eq_true', Bool.eq_false_iff]
    intro halike
    have hequal := Value.equals_of_alike (h.doublesIn hv hnot hnumbers halike) halike
    rw [hdiffer] at hequal
    cases hequal

theorem differsAt_of_isSome_right {held : Option Value} (h : held.isSome = true) :
    DiffersAt none held := by
  cases held with
  | none => cases h
  | some v => trivial

/-- A map that loses all its fields is not alike what it was. -/
theorem alike_eq_false_of_marked {old v : Value} (hv : v.isRecord ok false = true)
    (hc : changeOf false below old v = some .deleteField) : old.alike v = false := by
  induction old, v using change_induction generalizing below with
  | compared old v h =>
      rw [← (h.eq_of_changeOf hc).2] at hv
      cases hv
  | maps before after hne ih =>
      have hafter : Value.recordFields ok false after = true := hv
      have hgone : allGone before (difference true before after) = true := by
        rw [changeOf_map hne] at hc
        split at hc
        · cases hc
        · split at hc
          next hcollapse => exact (Bool.and_eq_true_iff.1 hcollapse).2
          next => cases hc
      have hmarked := allMarked_of_allGone hafter hgone
      rw [Bool.eq_false_iff]
      intro halike
      rw [Value.alike] at halike
      cases before with
      | nil => exact hne rfl
      | cons first rest =>
          cases after with
          | nil => cases halike
          | cons first' rest' =>
              obtain ⟨name, x⟩ := first
              obtain ⟨name', y⟩ := first'
              rw [Value.alikeFields, Bool.and_eq_true, Bool.and_eq_true, beq_iff_eq] at halike
              obtain ⟨⟨rfl, hfirst⟩, -⟩ := halike
              obtain ⟨old, hold, hchange⟩ := hmarked name y Keyed.get?_cons_self
              rw [Keyed.get?_cons_self, Option.some.injEq] at hold
              subst hold
              have hnot := ih _ List.mem_cons_self x
                (Value.isRecord_of_mem hafter List.mem_cons_self) hchange
              rw [hnot] at hfirst
              cases hfirst

/-- The records differ at each leaf of their difference, if they do at the leaves of each
change. -/
theorem differsAt_of_mem_leaves_of (hafter : Value.recordFields ok false after = true)
    (hvalues : ∀ e ∈ after, ∀ old c, changeOf false below old e.2 = some c →
      ∀ p ∈ leavesOf c, NumbersAt (getFrom (some old) p) →
        DiffersAt (getFrom (some old) p) (getFrom (some e.2) p)) :
    ∀ p ∈ leaves (difference below before after), NumbersAt (Fields.getIn before p) →
      DiffersAt (Fields.getIn before p) (Fields.getIn after p) := by
  intro p hp
  obtain ⟨e, he, q, hq, rfl⟩ := mem_leaves.1 hp
  rw [getIn_cons, getIn_cons]
  intro hnumbers
  cases entry_of_mem (Value.sorted_of_recordFields hafter) he with
  | gone old hnew hold hmark =>
      rw [hmark] at hq
      obtain rfl := List.mem_singleton.1 hq
      rw [hnew, hold]
      trivial
  | new hnew hold =>
      rw [hnew, hold, getFrom_none]
      exact differsAt_of_isSome_right
        (isSome_getFrom_of_mem_leavesOf (Value.isRecord_of_get? hafter hnew) q hq)
  | changed old v hnew hold hchange =>
      rw [hold] at hnumbers
      rw [hnew, hold]
      exact hvalues _ (Keyed.mem_of_get?_eq_some hnew) old e.2 hchange q hq hnumbers

/-- **Leaves of a change.**  Two values differ at each leaf of the change from one to the
other. -/
theorem differsAt_of_mem_leavesOf {old v c : Value} (hv : v.isRecord ok false = true)
    (hc : changeOf false below old v = some c) :
    ∀ p ∈ leavesOf c, NumbersAt (getFrom (some old) p) →
      DiffersAt (getFrom (some old) p) (getFrom (some v) p) := by
  induction old, v using change_induction generalizing below c with
  | compared old v h =>
      obtain ⟨hdiffer, rfl⟩ := h.eq_of_changeOf hc
      intro p hp hnumbers
      cases p with
      | nil => exact h.hasChanged hv hnumbers hdiffer
      | cons name rest =>
          rcases h.apart with hinner | hmap
          · have hsome := isSome_getFrom_of_mem_leavesOf hv _ hp
            rw [getFrom, hinner, getIn_nil]
            exact differsAt_of_isSome_right hsome
          · rw [leavesOf_of_record hv hmap] at hp
            cases List.mem_singleton.1 hp
  | maps before after hne ih =>
      have hafter : Value.recordFields ok false after = true := hv
      have hchange := hc
      rw [changeOf_map hne] at hc
      split at hc
      · cases hc
      next hsome =>
        split at hc
        next =>
          cases hc
          intro p hp _
          obtain rfl := List.mem_singleton.1 hp
          have halike := alike_eq_false_of_marked hv hchange
          simp [getFrom, DiffersAt, hasChanged, halike]
        next =>
          cases hc
          rw [leavesOf_map (by simpa using hsome)]
          intro p hp
          have hfields := differsAt_of_mem_leaves_of hafter
            (fun e he old c hc => ih e he old (Value.isRecord_of_mem hafter he) hc) p hp
          cases p with
          | nil => exact absurd rfl (ne_nil_of_mem_leaves hp)
          | cons name rest => exact hfields

/-! ## Tidy records -/

/-- Two records differ at each leaf of their difference. -/
theorem differsAt_of_mem_leaves (hafter : Value.tidyFields false after = true) :
    ∀ p ∈ leaves (difference below before after), NumbersAt (Fields.getIn before p) →
      DiffersAt (Fields.getIn before p) (Fields.getIn after p) := by
  rw [Value.tidyFields_eq] at hafter
  exact differsAt_of_mem_leaves_of hafter fun _ he _ _ hc =>
    differsAt_of_mem_leavesOf (Value.isRecord_of_mem hafter he) hc

/-- The difference of two records, merged into the first, gives what is settled of the second. -/
theorem alike_merged_difference (hbefore : Value.tidyFields false before = true)
    (hafter : Value.tidyFields false after = true) :
    Value.alikeFields (merged before (difference below before after))
      (settledFields below before after) = true := by
  rw [Value.tidyFields_eq] at hbefore hafter
  exact alike_merged_onto (Value.alikeFields_refl _) hbefore hafter

/-! ## The write of a difference -/

/-- The writes that bring a document from one record to another: the merge of their difference,
or none if there is no difference. -/
def updateWrites (key : DocumentKey) (before after : Fields) : Outcome (List Write) := do
  let encoded ← encodeUpdate (between false before after)
  return (encoded.map fun data => .set key data.fields data.mask data.increments).toList

/-- Two records without an id of their own are always brought from one to the other, and the mask
holds the leaves of their difference. -/
theorem updateWrites_eq (key : DocumentKey) (hbefore : Value.tidyFields false before = true)
    (hafter : Value.tidyFields false after = true)
    (hid : Keyed.get? FieldPath.documentIdName before = none)
    (hid' : Keyed.get? FieldPath.documentIdName after = none) :
    updateWrites key before after = .ok
      (if between false before after = [] then []
        else [.set key (keptFields (between false before after))
          (some (leafPaths (between false before after))) []]) := by
  rw [Value.tidyFields_eq] at hbefore hafter
  have hrecord : Value.recordFields FieldPath.isName true (between false before after) = true :=
    record_difference hbefore hafter
  have hnone : Keyed.get? FieldPath.documentIdName (between false before after) = none := by
    have hget : Keyed.get? FieldPath.documentIdName (difference false before after) = none := by
      rw [get?_difference (Value.sorted_of_recordFields hafter), hid, hid']
      rfl
    exact hget
  rw [updateWrites, encodeUpdate, stripDocumentId, hnone]
  by_cases hsame : between false before after = []
  · rw [hsame]
    rfl
  · simp only [List.isEmpty_eq_false_iff.2 hsame, Bool.false_eq_true, if_false,
      encodeSet_merge hrecord hsame, if_neg hsame]
    rfl

/-- **Updates.**  A stored document whose fields are one record is brought to another one by the
merge of their difference, or by no write if there is none.  It then holds the second record, but
for the maps below the top level that have lost all their fields, and the records differ at each
path in the mask, unless the first one holds an array with a NaN there. -/
theorem merge_of_difference {key : DocumentKey} {now : Timestamp} {table : Memory.Table}
    {stored : Memory.Stored} (hstored : Keyed.get? key.path table = some stored)
    (hbefore : Value.tidyFields false stored.fields = true)
    (hafter : Value.tidyFields false after = true)
    (hid : Keyed.get? FieldPath.documentIdName stored.fields = none)
    (hid' : Keyed.get? FieldPath.documentIdName after = none) :
    ∃ writes table' stored', updateWrites key stored.fields after = .ok writes ∧
      Memory.commitTable now table writes = .ok table' ∧
      Keyed.get? key.path table' = some stored' ∧
      Value.alikeFields stored'.fields (settledFields false stored.fields after) = true ∧
      ∀ write ∈ writes, ∃ data mask, write = .set key data (some mask) [] ∧
        ∀ path ∈ mask, NumbersAt (Fields.get? stored.fields path) →
          DiffersAt (Fields.get? stored.fields path) (Fields.get? after path) := by
  have hwrites := updateWrites_eq key hbefore hafter hid hid'
  have hmerged : Value.alikeFields (merged stored.fields (between false stored.fields after))
      (settledFields false stored.fields after) = true :=
    alike_merged_difference hbefore hafter
  have hdiffers : ∀ p ∈ leaves (between false stored.fields after),
      NumbersAt (Fields.getIn stored.fields p) →
        DiffersAt (Fields.getIn stored.fields p) (Fields.getIn after p) :=
    differsAt_of_mem_leaves hafter
  by_cases hsame : between false stored.fields after = []
  · rw [if_pos hsame] at hwrites
    rw [hsame] at hmerged
    exact ⟨[], table, stored, hwrites, rfl, hstored, hmerged, by simp⟩
  · rw [if_neg hsame] at hwrites
    refine ⟨_, _, _, hwrites, rfl, Keyed.get?_insert_self, ?_, ?_⟩
    · simp only [hstored, Option.map_some, Option.getD_some]
      change Value.alikeFields (Memory.applyMask _ _ _) _ = true
      rw [leafPaths, applyMask_eq]
      exact hmerged
    · intro write hwrite
      refine ⟨_, _, List.mem_singleton.1 hwrite, fun path hpath => ?_⟩
      obtain ⟨p, hp, rfl⟩ := List.mem_map.1 hpath
      exact hdiffers p hp

/-- A map loses its last field and is gone, and the map above it stays, being at the top level. -/
theorem merge_of_difference_nested :
    let before : Fields := [("a", .map [("b", .integer 1), ("c", .map [("d", .null)])])]
    let after : Fields := [("a", .map [("c", .map [])]), ("e", .boolean true)]
    ∃ writes table' stored', updateWrites ⟨⟨["users", "ada"]⟩⟩ before after = .ok writes ∧
      Memory.commitTable default [(⟨["users", "ada"]⟩, ⟨before, default, default⟩)] writes
        = .ok table' ∧
      Keyed.get? ⟨["users", "ada"]⟩ table' = some stored' ∧
      Value.alikeFields stored'.fields [("a", .map []), ("e", .boolean true)] = true ∧
      ∀ write ∈ writes, ∃ data mask, write = .set ⟨⟨["users", "ada"]⟩⟩ data (some mask) [] ∧
        ∀ path ∈ mask, DiffersAt (Fields.get? before path) (Fields.get? after path) := by
  intro before after
  have hnumbers : Value.EnclosedInFields (·.isNaN = false) before :=
    ⟨⟨trivial, ⟨trivial, trivial⟩, trivial⟩, trivial⟩
  have hmerge := @merge_of_difference after ⟨⟨["users", "ada"]⟩⟩ default
    [(⟨["users", "ada"]⟩, _)] ⟨before, default, default⟩
    Keyed.get?_cons_self (by decide) (by decide) (by decide) (by decide)
  obtain ⟨writes, table', stored', hwrites, hcommit, hget, hfields, hmask⟩ := hmerge
  refine ⟨writes, table', stored', hwrites, hcommit, hget, hfields, fun write hwrite => ?_⟩
  obtain ⟨data, mask, heq, hdiffers⟩ := hmask write hwrite
  exact ⟨data, mask, heq,
    fun path hpath => hdiffers path hpath (numbersAt_of_enclosedInFields hnumbers path)⟩

/-- The paths in the mask of an update are paths where the records are not alike. -/
def MasksOnlyUnlike (before after : Fields) : Prop :=
  ∀ key writes, updateWrites key before after = .ok writes →
    ∀ data mask, .set key data (some mask) [] ∈ writes →
      ∀ path ∈ mask, ¬ Value.AlikeAt (Fields.get? before path) (Fields.get? after path)

/-- A mask may hold a path where the records are alike: the zeros have different texts. -/
theorem not_masksOnlyUnlike_zeros :
    ¬ MasksOnlyUnlike [("a", .double .zero)] [("a", .double (.ofMagnitude true 0))] := by
  intro h
  have hunlike := h ⟨⟨["users", "ada"]⟩⟩ _ rfl _ _ (List.mem_singleton_self _) ⟨["a"]⟩
    (List.mem_singleton_self _)
  exact hunlike (.some (by decide))

end DocStore.Diff
