import DocStore.Proofs.Value.Assign
import DocStore.Proofs.Value.Basic
import Mathlib.Data.List.Nodup

/-!
# The ends of values

A path goes on below a map with fields in it, and ends at anything else: at a value that is no map,
at a marker, or at an empty map.  The ends of some fields are listed with the names on the way to
them (`Value.ends`): in fields in order these are the places where a lookup finds an end
(`mem_ends_iff`), each once (`nodup_ends`).

No end lies below another (`Fields.apart_of_ends`), and fields in order that have the same ends are
the same (`Value.eq_of_ends`).
-/

namespace DocStore

open Merge

namespace Value

/-- The value is a map with fields in it. -/
def isBranch : Value → Bool
  | map (_ :: _) => true
  | _ => false

theorem isBranch_of_asMap? {v : Value} (h : v.asMap? = none) : v.isBranch = false := by
  cases v with
  | map fields => cases h
  | _ => rfl

mutual

/-- The ends of a value, each with the names on the way to it. -/
def endsOf : Value → List (List String × Value)
  | map (first :: rest) => ends (first :: rest)
  | v => [([], v)]

/-- The ends of some fields, each with the names on the way to it. -/
def ends : Fields → List (List String × Value)
  | [] => []
  | (name, v) :: rest => (endsOf v).map (fun e => (name :: e.1, e.2)) ++ ends rest

end

theorem endsOf_of_not_isBranch {v : Value} (h : v.isBranch = false) : endsOf v = [([], v)] := by
  cases v with
  | map fields =>
      cases fields with
      | nil => rfl
      | cons first rest => cases h
  | _ => rfl

/-- An end is an end of some field. -/
theorem mem_ends {fields : Fields} {e : List String × Value} :
    e ∈ ends fields ↔ ∃ f ∈ fields, ∃ d ∈ endsOf f.2, (f.1 :: d.1, d.2) = e := by
  induction fields with
  | nil => simp [ends]
  | cons first rest ih =>
      obtain ⟨name, v⟩ := first
      rw [ends, List.mem_append, List.mem_map, ih, List.exists_mem_cons_iff]

end Value

/-! ## Looking further down -/

namespace Fields

open Value

variable {fields : Fields} {v w : Value} {names rest : List String}

theorem getFrom_append (held : Option Value) (names rest : List String) :
    getFrom held (names ++ rest) = getFrom (getFrom held names) rest := by
  induction names generalizing held with
  | nil => rfl
  | cons name later ih =>
      show getIn (innerOf held) (name :: (later ++ rest))
        = getFrom (getIn (innerOf held) (name :: later)) rest
      rw [getIn_cons, getIn_cons, ih]

/-- What is found further down is found below what is found on the way. -/
theorem getIn_append (hne : names ≠ []) :
    getIn fields (names ++ rest) = getFrom (getIn fields names) rest := by
  obtain ⟨name, later, rfl⟩ := List.exists_cons_of_ne_nil hne
  exact getFrom_append (some (.map fields)) (name :: later) rest

theorem ne_nil_of_getIn (h : getIn fields names = some v) : names ≠ [] := by
  rintro rfl
  cases h

/-- Nothing lies below an end. -/
theorem getFrom_of_not_isBranch (h : v.isBranch = false) (hne : names ≠ []) :
    getFrom (some v) names = none := by
  obtain ⟨name, rest, rfl⟩ := List.exists_cons_of_ne_nil hne
  have hinner : innerOf (some v) = [] := by
    cases v with
    | map fields =>
        cases fields with
        | nil => rfl
        | cons first later => cases h
    | _ => rfl
  rw [getFrom, hinner, getIn_nil]

theorem getFrom_eq_some_of_not_isBranch (h : v.isBranch = false) :
    getFrom (some v) names = some w ↔ names = [] ∧ v = w := by
  cases names with
  | nil => simp [getFrom]
  | cons name rest => simp [getFrom_of_not_isBranch h]

/-- What is found below a map is the map, or it is found below one of its fields. -/
theorem getFrom_map_eq_some :
    getFrom (some (.map fields)) names = some w ↔
      names = [] ∧ .map fields = w ∨
        ∃ name rest u, names = name :: rest ∧ Keyed.get? name fields = some u ∧
          getFrom (some u) rest = some w := by
  cases names with
  | nil => simp [getFrom]
  | cons name rest =>
      have hbelow : getFrom (some (.map fields)) (name :: rest)
          = getFrom (Keyed.get? name fields) rest := getIn_cons fields name rest
      rw [hbelow]
      cases hheld : Keyed.get? name fields with
      | none => simp [getFrom_none, hheld]
      | some u => simp [hheld]

theorem not_isBeginningOf_of_end {names' : List String} (hv : getIn fields names = some v)
    (hend : v.isBranch = false) (hw : getIn fields names' = some w) (hne : names ≠ names') :
    (⟨names⟩ : FieldPath).isBeginningOf ⟨names'⟩ = false := by
  rw [FieldPath.isBeginningOf, Bool.eq_false_iff]
  intro hbeginning
  obtain ⟨rest, rfl⟩ := List.isPrefixOf_iff_prefix.1 hbeginning
  have hrest : rest ≠ [] := by
    rintro rfl
    exact hne (List.append_nil _).symm
  rw [getIn_append (ne_nil_of_getIn hv), hv, getFrom_of_not_isBranch hend hrest] at hw
  cases hw

/-- No end lies below another. -/
theorem apart_of_ends {names' : List String} (hv : getIn fields names = some v)
    (hvend : v.isBranch = false) (hw : getIn fields names' = some w) (hwend : w.isBranch = false)
    (hne : names ≠ names') : FieldPath.Apart ⟨names⟩ ⟨names'⟩ :=
  ⟨not_isBeginningOf_of_end hv hvend hw hne, not_isBeginningOf_of_end hw hwend hv hne.symm⟩

end Fields

/-! ## Ends as lookups -/

namespace Value

open Fields

/-- The maps of a record are in order. -/
theorem isOrdered_of_isRecord {ok : String → Bool} {deletes : Bool} {v : Value}
    (h : v.isRecord ok deletes = true) : v.isOrdered = true := by
  induction v using map_induction with
  | leaf v hv =>
      cases v with
      | map fields => cases hv
      | _ => rfl
  | map fields ih =>
      rw [isRecord] at h
      exact orderedFields_iff.2 ⟨sorted_of_recordFields h,
        fun e he => ih e he (isRecord_of_mem h he)⟩

theorem mem_endsOf_of_not_isBranch {v : Value} (h : v.isBranch = false)
    {e : List String × Value} :
    e ∈ endsOf v ↔ getFrom (some v) e.1 = some e.2 ∧ e.2.isBranch = false := by
  obtain ⟨names, w⟩ := e
  rw [endsOf_of_not_isBranch h, List.mem_singleton, Prod.mk.injEq,
    getFrom_eq_some_of_not_isBranch h]
  constructor
  · rintro ⟨rfl, rfl⟩
    exact ⟨⟨rfl, rfl⟩, h⟩
  · rintro ⟨⟨rfl, rfl⟩, -⟩
    exact ⟨rfl, rfl⟩

/-- The ends of a value in order are those that are found below it. -/
theorem mem_endsOf_iff {v : Value} (h : v.isOrdered = true) {e : List String × Value} :
    e ∈ endsOf v ↔ getFrom (some v) e.1 = some e.2 ∧ e.2.isBranch = false := by
  induction v using map_induction generalizing e with
  | leaf v hv => exact mem_endsOf_of_not_isBranch (isBranch_of_asMap? hv)
  | map fields ih =>
      cases fields with
      | nil => exact mem_endsOf_of_not_isBranch rfl
      | cons first rest =>
          rw [isOrdered, orderedFields_iff] at h
          rw [endsOf, mem_ends]
          constructor
          · rintro ⟨f, hf, d, hd, rfl⟩
            obtain ⟨hfound, hend⟩ := (ih f hf (h.2 f hf)).1 hd
            exact ⟨getFrom_map_eq_some.2 (.inr ⟨_, _, _, rfl, (Keyed.get?_eq_some h.1).2 hf,
              hfound⟩), hend⟩
          · rintro ⟨hfound, hend⟩
            rcases getFrom_map_eq_some.1 hfound with ⟨-, hmap⟩ | ⟨name, later, u, hnames, hu, hw⟩
            · rw [← hmap] at hend
              cases hend
            · have hmem := Keyed.mem_of_get?_eq_some hu
              exact ⟨(name, u), hmem, (later, e.2), (ih _ hmem (h.2 _ hmem)).2 ⟨hw, hend⟩,
                Prod.ext hnames.symm rfl⟩

/-- The ends of fields in order are those that are found in them. -/
theorem mem_ends_iff {fields : Fields} (h : orderedFields fields = true) {names : List String}
    {w : Value} :
    (names, w) ∈ ends fields ↔ getIn fields names = some w ∧ w.isBranch = false := by
  cases fields with
  | nil => simp [ends, getIn_nil]
  | cons first rest =>
      rw [← endsOf, mem_endsOf_iff (v := .map (first :: rest)) h]
      cases names with
      | nil =>
          constructor
          · rintro ⟨hfound, hend⟩
            cases hfound
            cases hend
          · rintro ⟨hfound, -⟩
            cases hfound
      | cons name later => rfl

theorem nodup_ends_of {fields : Fields} (hsorted : Keyed.Sorted fields)
    (hvalues : ∀ f ∈ fields, ((endsOf f.2).map (·.1)).Nodup) :
    ((ends fields).map (·.1)).Nodup := by
  induction fields with
  | nil => exact List.nodup_nil
  | cons first rest ih =>
      obtain ⟨name, v⟩ := first
      rw [List.forall_mem_cons] at hvalues
      have hfirst : ((endsOf v).map fun e => (name :: e.1, e.2)).map (·.1)
          = ((endsOf v).map (·.1)).map (name :: ·) := by simp
      rw [ends, List.map_append, hfirst, List.nodup_append']
      refine ⟨?_, ih hsorted.tail hvalues.2, ?_⟩
      · exact hvalues.1.map fun _ _ heq => List.tail_eq_of_cons_eq heq
      · intro p hp hlater
        obtain ⟨q, -, rfl⟩ := List.mem_map.1 hp
        obtain ⟨e, he, heq⟩ := List.mem_map.1 hlater
        obtain ⟨f, hf, d, -, rfl⟩ := mem_ends.1 he
        exact hsorted.head_ne hf (List.head_eq_of_cons_eq heq)

theorem nodup_endsOf {v : Value} (h : v.isOrdered = true) : ((endsOf v).map (·.1)).Nodup := by
  induction v using map_induction with
  | leaf v hv =>
      rw [endsOf_of_not_isBranch (isBranch_of_asMap? hv)]
      exact List.nodup_singleton _
  | map fields ih =>
      cases fields with
      | nil => exact List.nodup_singleton _
      | cons first rest =>
          rw [isOrdered, orderedFields_iff] at h
          exact nodup_ends_of h.1 fun f hf => ih f hf (h.2 f hf)

/-- No end is listed twice. -/
theorem nodup_ends {fields : Fields} (h : orderedFields fields = true) :
    ((ends fields).map (·.1)).Nodup := by
  rw [orderedFields_iff] at h
  exact nodup_ends_of h.1 fun f hf => nodup_endsOf (h.2 f hf)

/-! ## Chosen ends -/

section Chosen

variable {β : Type} {choose? : List String × Value → Option β}

/-- What is chosen of the ends below a name is chosen below it. -/
theorem filterMap_below {name : String} (put : β → β)
    (h : ∀ e, choose? (name :: e.1, e.2) = (choose? e).map put)
    (es : List (List String × Value)) :
    (es.map fun e => (name :: e.1, e.2)).filterMap choose? = (es.filterMap choose?).map put := by
  rw [List.filterMap_map, List.map_filterMap]
  exact List.filterMap_congr fun e _ => h e

/-- What is chosen of the ends, with the names on the way to them, is chosen once. -/
theorem nodup_chosen {key : β → List String} (hkey : ∀ e b, choose? e = some b → key b = e.1)
    {fields : Fields} (h : orderedFields fields = true) :
    (((ends fields).filterMap choose?).map key).Nodup := by
  rw [List.Nodup, List.pairwise_map, List.pairwise_filterMap]
  refine (List.pairwise_map.1 (nodup_ends h)).imp fun hne b hb b' hb' heq => hne ?_
  rw [← hkey _ b hb, ← hkey _ b' hb', heq]

end Chosen

/-! ## Fields are known from their ends -/

/-- Every value ends somewhere. -/
theorem exists_end (v : Value) :
    ∃ names w, getFrom (some v) names = some w ∧ w.isBranch = false := by
  induction v using map_induction with
  | leaf v hv => exact ⟨[], v, rfl, isBranch_of_asMap? hv⟩
  | map fields ih =>
      cases fields with
      | nil => exact ⟨[], .map [], rfl, rfl⟩
      | cons first rest =>
          obtain ⟨names, w, hfound, hend⟩ := ih first List.mem_cons_self
          exact ⟨first.1 :: names, w, getFrom_map_eq_some.2 (.inr ⟨_, _, _, rfl,
            Keyed.get?_cons_self, hfound⟩), hend⟩

/-- Fields have the same ends. -/
def SameEnds (fields fields' : Fields) : Prop :=
  ∀ names w, w.isBranch = false → (getIn fields names = some w ↔ getIn fields' names = some w)

theorem SameEnds.symm {fields fields' : Fields} (h : SameEnds fields fields') :
    SameEnds fields' fields :=
  fun names w hend => (h names w hend).symm

/-- Where fields have the same ends, a name that one of them has is a name of the other. -/
theorem SameEnds.exists_of_get? {fields fields' : Fields} (h : SameEnds fields fields')
    {name : String} {v : Value} (hv : Keyed.get? name fields = some v) :
    ∃ v', Keyed.get? name fields' = some v' := by
  obtain ⟨names, w, hfound, hend⟩ := exists_end v
  have hleft : getIn fields (name :: names) = some w := by rw [getIn_cons, hv, hfound]
  have hright := (h _ w hend).1 hleft
  rw [getIn_cons] at hright
  cases hheld : Keyed.get? name fields' with
  | none =>
      rw [hheld, getFrom_none] at hright
      cases hright
  | some v' => exact ⟨v', rfl⟩

/-- What is held below one name has the same ends. -/
theorem SameEnds.below {fields fields' inner inner' : Fields} (h : SameEnds fields fields')
    {name : String} (hv : Keyed.get? name fields = some (.map inner))
    (hv' : Keyed.get? name fields' = some (.map inner')) : SameEnds inner inner' := by
  intro names w hend
  cases names with
  | nil => rfl
  | cons next later =>
      have hbelow := h (name :: next :: later) w hend
      rw [getIn_cons, getIn_cons, hv, hv'] at hbelow
      exact hbelow

/-- Fields in order that have the same ends are the same. -/
theorem eq_of_ends {fields fields' : Fields} (h : orderedFields fields = true)
    (h' : orderedFields fields' = true) (hends : SameEnds fields fields') : fields = fields' := by
  obtain ⟨v, hfields⟩ : ∃ v, v = Value.map fields := ⟨_, rfl⟩
  induction v using map_induction generalizing fields fields' with
  | leaf v hmap =>
      rw [hfields] at hmap
      cases hmap
  | map own ih =>
      obtain rfl := Value.map.inj hfields
      refine Keyed.eq_of_get?_eq (sorted_of_orderedFields h) (sorted_of_orderedFields h')
        fun name => ?_
      -- A name of neither is the only one that is held by neither.
      cases hv : Keyed.get? name own with
      | none =>
          cases hv' : Keyed.get? name fields' with
          | none => rfl
          | some v' =>
              obtain ⟨v, hnone⟩ := hends.symm.exists_of_get? hv'
              rw [hv] at hnone
              cases hnone
      | some v =>
          obtain ⟨v', hv'⟩ := hends.exists_of_get? hv
          rw [hv']
          by_cases hend : v.isBranch = true
          · by_cases hend' : v'.isBranch = true
            · cases v with
              | map inner =>
                  cases v' with
                  | map inner' =>
                      have hinner := ih (name, .map inner) (Keyed.mem_of_get?_eq_some hv)
                        (isOrdered_of_get? h hv) (isOrdered_of_get? h' hv') (hends.below hv hv') rfl
                      rw [hinner]
                  | _ => cases hend'
              | _ => cases hend
            · rw [Bool.not_eq_true] at hend'
              have hleft := (hends [name] v' hend').2 hv'
              exact hv.symm.trans hleft
          · rw [Bool.not_eq_true] at hend
            have hright := (hends [name] v hend).1 hv
            exact hright.symm.trans hv'

end Value

end DocStore
