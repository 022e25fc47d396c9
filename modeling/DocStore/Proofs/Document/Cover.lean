import DocStore.Proofs.Store.Mask
import DocStore.Proofs.Value.Ends

/-!
# What a merge says of its data

An end of the data of a merge is a plain one, a field to delete, or an increment.  The mask of the
encoding is to hold the paths of the plain ends and of the fields to delete, its increments are the
increments of the data, and its fields hold the plain ends and no others.  All this is said by
lookups of paths in the data (`IsMasked`, `RaisesEach`, `HoldsPlain`).

The main statement is `mask_covers_iff`.  Increments and fields are always as they should be.  The
mask holds no path twice and no path that is out of place, but of the paths with one text it holds
the first alone: it covers the data exactly if different paths to be masked have different texts.
The field `a.b` and the field `b` of the map `a` have one text (`not_masksEach_dotted`).
-/

namespace DocStore

open SplitData Merge

/-! ## The ends that are listed -/

namespace SplitData

/-- The operand of an increment, with the names on the way to it. -/
def raisedNames? : List String × Value → Option (List String × Value)
  | (names, .increment operand) => some (names, operand)
  | _ => none

variable {names : List String} {v w : Value}

theorem raisedNames?_eq_some {e i : List String × Value} :
    raisedNames? e = some i ↔ e = (i.1, .increment i.2) := by
  obtain ⟨p, v⟩ := e
  cases v <;> simp [raisedNames?, Prod.ext_iff]

mutual

theorem raisedOf_eq (v : Value) : raisedOf v = (Value.endsOf v).filterMap raisedNames? := by
  match v with
  | .map (first :: rest) => exact raised_eq (first :: rest)
  | .map [] | .null | .boolean _ | .integer _ | .double _ | .timestamp _ | .string _ | .bytes _
  | .reference _ | .array _ | .increment _ | .deleteField => rfl

/-- What is raised are the ends that are increments. -/
theorem raised_eq (fields : Fields) :
    raised fields = (Value.ends fields).filterMap raisedNames? := by
  match fields with
  | [] => rfl
  | (name, v) :: rest =>
      rw [raised, Value.ends, List.filterMap_append, raisedOf_eq v, raised_eq rest,
        Value.filterMap_below (fun i => (name :: i.1, i.2)) fun e => by
          obtain ⟨names, w⟩ := e
          cases w <;> rfl]

end

section Ordered

variable {data : Fields} (h : Value.orderedFields data = true)

include h

theorem mem_leaves_iff :
    names ∈ leaves data ↔
      ∃ v, Fields.getIn data names = some v ∧ v.isBranch = false ∧
        ∀ operand, v ≠ .increment operand := by
  rw [leaves_eq, List.mem_filterMap]
  constructor
  · rintro ⟨⟨p, v⟩, he, hnames⟩
    obtain ⟨rfl, hplain⟩ := maskedNames?_eq_some.1 hnames
    obtain ⟨hget, hend⟩ := (Value.mem_ends_iff h).1 he
    exact ⟨v, hget, hend, hplain⟩
  · rintro ⟨v, hget, hend, hplain⟩
    exact ⟨(names, v), (Value.mem_ends_iff h).2 ⟨hget, hend⟩,
      maskedNames?_eq_some.2 ⟨rfl, hplain⟩⟩

theorem mem_raised_iff :
    (names, v) ∈ raised data ↔ Fields.getIn data names = some (.increment v) := by
  rw [raised_eq, List.mem_filterMap]
  constructor
  · rintro ⟨e, he, hi⟩
    rw [raisedNames?_eq_some.1 hi] at he
    exact ((Value.mem_ends_iff h).1 he).1
  · intro hget
    exact ⟨(names, .increment v), (Value.mem_ends_iff h).2 ⟨hget, rfl⟩, rfl⟩

/-- No increment is listed twice. -/
theorem nodup_raised : ((raised data).map (·.1)).Nodup := by
  rw [raised_eq]
  exact Value.nodup_chosen (fun e i hi => (congrArg Prod.fst (raisedNames?_eq_some.1 hi)).symm) h

end Ordered

end SplitData

/-! ## The first of each key -/

section First

variable {α κ : Type} [BEq κ] [LawfulBEq κ] {key : α → κ} {l : List α} {seen : List κ}

omit [LawfulBEq κ] in
theorem keepFirst_sublist : (keepFirst key l seen).Sublist l := by
  induction l generalizing seen with
  | nil => exact .slnil
  | cons a rest ih =>
      rw [keepFirst]
      split
      · exact ih.cons _
      · exact ih.cons_cons _

theorem not_seen_of_mem_keepFirst {a : α} (h : a ∈ keepFirst key l seen) : key a ∉ seen := by
  induction l generalizing seen with
  | nil => cases h
  | cons b rest ih =>
      rw [keepFirst] at h
      split at h
      · exact ih h
      next hnew =>
        rcases List.mem_cons.1 h with rfl | hlater
        · rwa [List.contains_iff_mem] at hnew
        · exact fun hseen => ih hlater (List.mem_cons_of_mem _ hseen)

/-- No key is kept twice. -/
theorem nodup_keys_keepFirst : ((keepFirst key l seen).map key).Nodup := by
  induction l generalizing seen with
  | nil => exact List.nodup_nil
  | cons a rest ih =>
      rw [keepFirst]
      split
      · exact ih
      · rw [List.map_cons, List.nodup_cons]
        refine ⟨fun hlater => ?_, ih⟩
        obtain ⟨b, hb, heq⟩ := List.mem_map.1 hlater
        exact not_seen_of_mem_keepFirst hb (heq ▸ List.mem_cons_self)

/-- Every key that was not seen is kept. -/
theorem exists_mem_keepFirst {a : α} (ha : a ∈ l) (hnew : key a ∉ seen) :
    ∃ b ∈ keepFirst key l seen, key b = key a := by
  induction l generalizing seen with
  | nil => cases ha
  | cons b rest ih =>
      rw [keepFirst]
      split
      next hseen =>
        rw [List.contains_iff_mem] at hseen
        rcases List.mem_cons.1 ha with rfl | hlater
        · exact absurd hseen hnew
        · exact ih hlater hnew
      · by_cases hkey : key a = key b
        · exact ⟨b, List.mem_cons_self, hkey.symm⟩
        · have hlater : a ∈ rest := (List.mem_cons.1 ha).resolve_left fun heq => hkey (heq ▸ rfl)
          obtain ⟨c, hc, heq⟩ := @ih (key b :: seen) hlater (by simp [hkey, hnew])
          exact ⟨c, List.mem_cons_of_mem _ hc, heq⟩

end First

/-! ## The fields of the encoding -/

namespace SplitData

variable {data : Fields} {names : List String} {v w : Value}

theorem kept_eq_some_of_end (h : w.isBranch = false) :
    kept v = some w ↔ v = w ∧ w.isMarker = false := by
  cases v with
  | map fields =>
      cases fields with
      | nil => cases w <;> simp [kept, Value.isMarker]
      | cons first rest =>
          rw [kept]
          constructor
          · intro hkept
            split at hkept
            · cases hkept
            next hne =>
              cases hkept
              obtain ⟨e, later, hinner⟩ := List.exists_cons_of_ne_nil hne
              rw [hinner] at h
              cases h
          · rintro ⟨rfl, -⟩
            cases h
  | increment operand => cases w <;> simp [kept, Value.isMarker]
  | deleteField => cases w <;> simp [kept, Value.isMarker]
  | _ => cases w <;> simp [kept, Value.isMarker]

theorem innerOf_bind_kept (held : Option Value) :
    innerOf (held.bind kept) = keptFields (innerOf held) := by
  cases held with
  | none => rfl
  | some v =>
      cases v with
      | map fields => exact innerOf_kept fields
      | _ => rfl

/-- At each path stands what stays of what the data has there. -/
theorem getIn_keptFields (h : Value.orderedFields data = true) (names : List String) :
    Fields.getIn (keptFields data) names = (Fields.getIn data names).bind kept := by
  induction names generalizing data with
  | nil => rfl
  | cons name rest ih =>
      rw [getIn_cons, getIn_cons, get?_keptFields (Value.sorted_of_orderedFields h)]
      cases rest with
      | nil => rfl
      | cons next later =>
          rw [getFrom, getFrom, innerOf_bind_kept]
          exact ih (Value.orderedFields_innerOf fun v hv => Value.isOrdered_of_get? h hv)

theorem orderedFields_keptFields_of (h : Keyed.Sorted data)
    (hvalues : ∀ f ∈ data, ∀ w, kept f.2 = some w → w.isOrdered = true) :
    Value.orderedFields (keptFields data) = true := by
  have hsorted : Keyed.Sorted (keptFields data) := by
    rw [keptFields_eq_filterMap]
    exact h.filterMap _
  refine Value.orderedFields_iff.2 ⟨hsorted, fun e he => ?_⟩
  have hget := (Keyed.get?_eq_some hsorted).2 he
  rw [get?_keptFields h] at hget
  obtain ⟨v, hv, hkept⟩ := Option.bind_eq_some_iff.1 hget
  exact hvalues _ (Keyed.mem_of_get?_eq_some hv) _ hkept

theorem isOrdered_of_kept (h : v.isOrdered = true) (hkept : kept v = some w) :
    w.isOrdered = true := by
  induction v using Value.map_induction generalizing w with
  | leaf v hmap =>
      cases v with
      | map fields => cases hmap
      | increment operand => cases hkept
      | deleteField => cases hkept
      | _ => cases hkept; rfl
  | map fields ih =>
      cases fields with
      | nil =>
          cases hkept
          rfl
      | cons first rest =>
          rw [Value.isOrdered, Value.orderedFields_iff] at h
          rw [kept] at hkept
          split at hkept
          · cases hkept
          · cases hkept
            exact orderedFields_keptFields_of h.1 fun f hf _ hw => ih f hf (h.2 f hf) hw

/-- What stays of fields in order is in order. -/
theorem orderedFields_keptFields (h : Value.orderedFields data = true) :
    Value.orderedFields (keptFields data) = true := by
  rw [Value.orderedFields_iff] at h
  exact orderedFields_keptFields_of h.1 fun f hf _ hw => isOrdered_of_kept (h.2 f hf) hw

end SplitData

/-! ## What an encoding has to say -/

/-- The value ends a path and is no marker. -/
def Value.isPlainEnd (v : Value) : Bool := !v.isMarker && !v.isBranch

/-- A merge masks the path: the data has a plain end there, or a field to delete. -/
def IsMasked (data : Fields) (path : FieldPath) : Prop :=
  ∃ v, Fields.get? data path = some v ∧ (v.isPlainEnd = true ∨ v = .deleteField)

/-- The mask lists the paths of the plain ends and of the fields to delete, each once. -/
structure MasksEach (data : Fields) (mask : List FieldPath) : Prop where
  nodup : mask.Nodup
  mem_iff : ∀ path, path ∈ mask ↔ IsMasked data path

/-- The increments are those of the data, each once. -/
structure RaisesEach (data : Fields) (increments : List Increment) : Prop where
  nodup : (increments.map (·.path)).Nodup
  mem_iff : ∀ path operand,
    ⟨path, operand⟩ ∈ increments ↔ Fields.get? data path = some (.increment operand)

/-- The fields hold the plain ends of the data at their paths, and end nowhere else. -/
structure HoldsPlain (data fields : Fields) : Prop where
  ordered : Value.orderedFields fields = true
  get?_iff : ∀ path v, v.isBranch = false →
    (Fields.get? fields path = some v ↔ Fields.get? data path = some v ∧ v.isMarker = false)

/-- Different paths that a merge masks have different texts. -/
def TellsApart (data : Fields) : Prop :=
  ∀ path other, IsMasked data path → IsMasked data other → path.text = other.text → path = other

section Encoding

variable {data : Fields} (h : Value.orderedFields data = true)

include h

theorem mem_leafPaths_iff {path : FieldPath} : path ∈ leafPaths data ↔ IsMasked data path := by
  have hends (v : Value) : v.isBranch = false ∧ (∀ operand, v ≠ .increment operand) ↔
      v.isPlainEnd = true ∨ v = .deleteField := by
    cases v <;> simp [Value.isPlainEnd, Value.isMarker, Value.isBranch]
  have hmem : path ∈ leafPaths data ↔ path.segments ∈ leaves data := by
    rw [leafPaths, List.mem_map]
    constructor
    · rintro ⟨names, hp, rfl⟩
      exact hp
    · exact fun hp => ⟨_, hp, rfl⟩
  rw [hmem, mem_leaves_iff h]
  simp only [hends]
  rfl

theorem nodup_leafPaths : (leafPaths data).Nodup :=
  (nodup_leaves h).map fun _ _ => congrArg FieldPath.segments

/-- The paths to be masked have different texts if no text is listed twice. -/
theorem tellsApart_iff : TellsApart data ↔ ((leafPaths data).map FieldPath.text).Nodup := by
  rw [List.nodup_map_iff_inj_on (nodup_leafPaths h)]
  simp only [mem_leafPaths_iff h]
  exact ⟨fun hapart p hp q hq => hapart p q hp hq, fun hapart p q hp hq => hapart p hp q hq⟩

theorem raisesEach : RaisesEach data ((raised data).map fun i => ⟨⟨i.1⟩, i.2⟩) where
  nodup := by
    have hpaths : ((raised data).map fun i => (⟨⟨i.1⟩, i.2⟩ : Increment)).map (·.path)
        = ((raised data).map (·.1)).map FieldPath.mk := by simp
    rw [hpaths]
    exact (nodup_raised h).map fun _ _ => congrArg FieldPath.segments
  mem_iff path operand := by
    rw [List.mem_map, Fields.get?, ← mem_raised_iff h]
    constructor
    · rintro ⟨i, hi, heq⟩
      cases heq
      exact hi
    · exact fun hi => ⟨_, hi, rfl⟩

theorem holdsPlain : HoldsPlain data (keptFields data) where
  ordered := orderedFields_keptFields h
  get?_iff path v hend := by
    rw [Fields.get?, getIn_keptFields h, Option.bind_eq_some_iff]
    simp only [kept_eq_some_of_end hend]
    constructor
    · rintro ⟨_, hget, rfl, hplain⟩
      exact ⟨hget, hplain⟩
    · rintro ⟨hget, hplain⟩
      exact ⟨v, hget, rfl, hplain⟩

/-- **What a merge says.**  Data that is encoded for a merge has its increments in the encoding,
each once, and its plain ends in the fields, and nothing else.  The mask holds no path twice, none
that is not to be masked, and the text of every path that is; it lists each path to be masked
exactly if these have different texts. -/
theorem mask_covers_iff {encoded : EncodedData} (hencoded : encodeSet true data = .ok encoded) :
    RaisesEach data encoded.increments ∧ HoldsPlain data encoded.fields ∧
      ∃ mask, encoded.mask = some mask ∧ mask.Nodup ∧ (∀ path ∈ mask, IsMasked data path) ∧
        (∀ path, IsMasked data path → ∃ p ∈ mask, p.text = path.text) ∧
        (MasksEach data mask ↔ TellsApart data) := by
  obtain ⟨-, -, rfl⟩ := encodeSet_merge_eq_ok.1 hencoded
  have hsub : (keepFirst FieldPath.text (leafPaths data) []).Sublist (leafPaths data) :=
    keepFirst_sublist
  have htexts : ((keepFirst FieldPath.text (leafPaths data) []).map FieldPath.text).Nodup :=
    nodup_keys_keepFirst
  have hnodup := List.Nodup.of_map FieldPath.text htexts
  refine ⟨raisesEach h, holdsPlain h, _, rfl, hnodup, ?_, ?_, ?_⟩
  · exact fun path hpath => (mem_leafPaths_iff h).1 (hsub.subset hpath)
  · exact fun path hpath => exists_mem_keepFirst ((mem_leafPaths_iff h).2 hpath) List.not_mem_nil
  · constructor
    · intro hmasks path other hpath hother htext
      exact List.inj_on_of_nodup_map htexts ((hmasks.mem_iff path).2 hpath)
        ((hmasks.mem_iff other).2 hother) htext
    · intro hapart
      rw [keepFirst_eq_self _ ((tellsApart_iff h).1 hapart) (by simp)]
      exact ⟨nodup_leafPaths h, fun path => mem_leafPaths_iff h⟩

end Encoding

/-- The field `b` of the map `a`, and the field `a.b`. -/
def dottedData : Fields := [("a", .map [("b", .integer 1)]), ("a.b", .integer 2)]

/-- Of two fields with one text the mask holds the first alone. -/
theorem not_masksEach_dotted :
    Value.orderedFields dottedData = true ∧
      encodeSet true dottedData = .ok ⟨dottedData, some [⟨["a", "b"]⟩], []⟩ ∧
      IsMasked dottedData ⟨["a.b"]⟩ ∧ ¬ MasksEach dottedData [⟨["a", "b"]⟩] := by
  have hmasked : IsMasked dottedData ⟨["a.b"]⟩ := ⟨.integer 2, rfl, .inl rfl⟩
  refine ⟨by decide, rfl, hmasked, fun hmasks => ?_⟩
  have hlisted := (hmasks.mem_iff _).2 hmasked
  exact absurd hlisted (by decide)

/-- A user who moves, loses a postal code and is seen twice more. -/
def movingData : Fields :=
  [("address", .map [("city", .string "Oslo"), ("tags", .map []), ("zip", .deleteField)]),
    ("visits", .map [("all", .increment (.integer 2))])]

/-- The mask of a user who moves lists the three ends that are no increment. -/
theorem mask_covers_iff_moving :
    let mask : List FieldPath :=
      [⟨["address", "city"]⟩, ⟨["address", "tags"]⟩, ⟨["address", "zip"]⟩]
    let fields : Fields := [("address", .map [("city", .string "Oslo"), ("tags", .map [])])]
    let increments : List Increment := [⟨⟨["visits", "all"]⟩, .integer 2⟩]
    Value.orderedFields movingData = true ∧
      encodeSet true movingData = .ok ⟨fields, some mask, increments⟩ ∧
      RaisesEach movingData increments ∧ HoldsPlain movingData fields ∧
      TellsApart movingData ∧ MasksEach movingData mask := by
  intro mask fields increments
  have hordered : Value.orderedFields movingData = true := by decide
  have hencoded : encodeSet true movingData = .ok ⟨fields, some mask, increments⟩ := rfl
  have hapart : TellsApart movingData := (tellsApart_iff hordered).2 (by decide)
  obtain ⟨hraises, hholds, _, hmask, -, -, -, hcovers⟩ := mask_covers_iff hordered hencoded
  cases hmask
  exact ⟨hordered, hencoded, hraises, hholds, hapart, hcovers.2 hapart⟩

end DocStore
