import DocStore.Proofs.Document.Diff

/-!
# When an update keeps the whole record

What is settled of a record (`settledFields`) lacks the maps below the top level that have lost all
their fields.  It is the whole record exactly if there is no such map: none that had fields before
and is empty afterwards (`settledFields_eq_self_iff`).  Otherwise it is not even alike
(`settledFields_eq_of_alike`).
-/

namespace DocStore.Diff

open Merge

/-- At the end of some names stood a map with fields, and stands an empty one. -/
def EmptiedAt (before after : Option Value) (names : List String) : Prop :=
  (∃ first rest, getFrom before names = some (.map (first :: rest))) ∧
    getFrom after names = some (.map [])

/-- A map below the top level had fields and has none left. -/
def EmptiesMap (before after : Fields) : Prop :=
  ∃ names : List String, 2 ≤ names.length ∧
    (∃ first rest, Fields.getIn before names = some (.map (first :: rest))) ∧
    Fields.getIn after names = some (.map [])

variable {ok : String → Bool} {below : Bool} {before after : Fields}

theorem emptiedAt_cons {name : String} {names : List String} :
    EmptiedAt (some (.map before)) (some (.map after)) (name :: names) ↔
      EmptiedAt (Keyed.get? name before) (Keyed.get? name after) names := by
  unfold EmptiedAt
  rw [← getIn_cons, ← getIn_cons]
  rfl

/-- Below a field that is not there nothing is found. -/
theorem EmptiedAt.isSome {before? after? : Option Value} {names : List String}
    (h : EmptiedAt before? after? names) : (∃ old, before? = some old) ∧ ∃ v, after? = some v := by
  obtain ⟨⟨first, rest, hbefore⟩, hafter⟩ := h
  constructor
  · cases before? with
    | none =>
        cases names with
        | nil => cases hbefore
        | cons name names => cases (getIn_nil _).symm.trans hbefore
    | some old => exact ⟨old, rfl⟩
  · cases after? with
    | none =>
        cases names with
        | nil => cases hafter
        | cons name names => cases (getIn_nil _).symm.trans hafter
    | some v => exact ⟨v, rfl⟩

/-- Values that are compared as they are have no map emptied. -/
theorem Compared.not_emptiedAt {old v : Value} (h : Compared old v) (names : List String) :
    ¬ EmptiedAt (some old) (some v) names := by
  intro hemptied
  obtain ⟨⟨first, rest, hbefore⟩, hafter⟩ := hemptied
  cases names with
  | nil =>
      obtain rfl := Option.some.inj hbefore
      obtain rfl := Option.some.inj hafter
      rcases h.apart with hinner | hmap
      · cases hinner
      · cases hmap
  | cons name names =>
      rcases h.apart with hinner | hmap
      · rw [getFrom, hinner, getIn_nil] at hbefore
        cases hbefore
      · have hinner : innerOf (some v) = [] := by rw [innerOf, Option.bind_some, hmap]; rfl
        rw [getFrom, hinner, getIn_nil] at hafter
        cases hafter

/-- Something of a record is dropped unless every field is settled as it is. -/
theorem settledFields_eq_self (hafter : Keyed.Sorted after) :
    settledFields below before after = after ↔
      ∀ e ∈ after, settledAt below (Keyed.get? e.1 before) e.2 = some e.2 := by
  constructor
  · intro hself e he
    have hget := (Keyed.get?_eq_some hafter).2 he
    have hsettled : Keyed.get? e.1 (settledFields below before after)
        = (Keyed.get? e.1 after).bind (settledAt below (Keyed.get? e.1 before)) :=
      get?_settledFields hafter e.1
    rw [hself, hget, Option.bind_some] at hsettled
    exact hsettled.symm
  · intro hall
    refine Keyed.eq_of_get?_eq (sorted_settledFields hafter) hafter fun name => ?_
    rw [get?_settledFields hafter]
    cases hget : Keyed.get? name after with
    | none => rfl
    | some v => exact hall (name, v) (Keyed.mem_of_get?_eq_some hget)

/-- A record is settled as it is if no map in its fields is emptied, provided that this is so of
each of its values. -/
theorem settledFields_eq_self_iff_of (hafter : Keyed.Sorted after)
    (hvalues : ∀ e ∈ after, ∀ old, settledValue below old e.2 = some e.2 ↔
      ∀ names, (below = true ∨ names ≠ []) → ¬ EmptiedAt (some old) (some e.2) names) :
    settledFields below before after = after ↔
      ∀ name names, (below = true ∨ names ≠ []) →
        ¬ EmptiedAt (Keyed.get? name before) (Keyed.get? name after) names := by
  rw [settledFields_eq_self hafter]
  constructor
  · intro hall name names hdeep hemptied
    obtain ⟨⟨old, hold⟩, v, hv⟩ := hemptied.isSome
    have he := Keyed.mem_of_get?_eq_some hv
    have hsettled := hall _ he
    rw [hold] at hsettled
    rw [hold, hv] at hemptied
    exact (hvalues _ he old).1 hsettled names hdeep hemptied
  · intro hnone e he
    have hget := (Keyed.get?_eq_some hafter).2 he
    cases hold : Keyed.get? e.1 before with
    | none => rfl
    | some old =>
        refine (hvalues e he old).2 fun names hdeep hemptied => ?_
        rw [← hold, ← hget] at hemptied
        exact hnone e.1 names hdeep hemptied

/-- A value is settled as it is if no map in it is emptied; at the top level it may be emptied
itself. -/
theorem settledValue_eq_self_iff {old v : Value} (hv : v.isRecord ok false = true) :
    settledValue below old v = some v ↔
      ∀ names, (below = true ∨ names ≠ []) → ¬ EmptiedAt (some old) (some v) names := by
  induction old, v using change_induction generalizing below with
  | compared old v h => exact iff_of_true (h.settled below) fun names _ => h.not_emptiedAt names
  | maps before after hne ih =>
      have hafter : Value.recordFields ok false after = true := hv
      have hfields : settledFields true before after = after ↔ ∀ name names,
          (true = true ∨ names ≠ []) →
            ¬ EmptiedAt (Keyed.get? name before) (Keyed.get? name after) names :=
        settledFields_eq_self_iff_of (Value.sorted_of_recordFields hafter)
          fun e he old => ih e he old (Value.isRecord_of_mem hafter he)
      rw [settledValue_map hne]
      constructor
      · intro hself names hdeep hemptied
        split at hself
        · cases hself
        next hkept =>
          have hsame : settledFields true before after = after :=
            Value.map.inj (Option.some.inj hself)
          cases names with
          | cons name names =>
              exact hfields.1 hsame name names (.inl rfl) (emptiedAt_cons.1 hemptied)
          | nil =>
              -- The map itself is emptied, so it is below the top level and nothing is settled.
              obtain rfl := Value.map.inj (Option.some.inj hemptied.2)
              rcases hdeep with rfl | hnil
              · exact hkept rfl
              · exact hnil rfl
      · intro hnone
        have hsame : settledFields true before after = after :=
          hfields.2 fun name names _ hemptied =>
            hnone (name :: names) (.inr (List.cons_ne_nil _ _)) (emptiedAt_cons.2 hemptied)
        rw [hsame, if_neg]
        intro hempty
        rw [Bool.and_eq_true, List.isEmpty_iff] at hempty
        obtain ⟨first, rest, rfl⟩ := List.exists_cons_of_ne_nil hne
        exact hnone [] (.inl hempty.1) ⟨⟨first, rest, rfl⟩, by rw [hempty.2]; rfl⟩

/-- A map below the top level is emptied if one is below some field. -/
theorem emptiesMap_iff :
    EmptiesMap before after ↔ ∃ name names, names ≠ [] ∧
      EmptiedAt (Keyed.get? name before) (Keyed.get? name after) names := by
  unfold EmptiesMap EmptiedAt
  constructor
  · intro hsome
    obtain ⟨names, hlength, hbefore, hafter⟩ := hsome
    cases names with
    | nil => simp at hlength
    | cons name names =>
        rw [getIn_cons] at hbefore hafter
        refine ⟨name, names, ?_, hbefore, hafter⟩
        rintro rfl
        simp at hlength
  · intro hsome
    obtain ⟨name, names, hnames, hbefore, hafter⟩ := hsome
    have hlength := List.length_pos_iff.2 hnames
    refine ⟨name :: names, ?_, ?_⟩
    · rw [List.length_cons]
      omega
    · rw [getIn_cons, getIn_cons]
      exact ⟨hbefore, hafter⟩

/-- **Settled records.**  A record is settled as it is exactly if no map below the top level is
emptied. -/
theorem settledFields_eq_self_iff (hafter : Value.recordFields ok false after = true) :
    settledFields false before after = after ↔ ¬ EmptiesMap before after := by
  rw [settledFields_eq_self_iff_of (Value.sorted_of_recordFields hafter) fun e he old =>
    settledValue_eq_self_iff (Value.isRecord_of_mem hafter he), emptiesMap_iff]
  simp

/-- What is settled of a record is the record if it is alike, provided that this is so of each of
its values. -/
theorem settledFields_eq_of_alike_of (hafter : Keyed.Sorted after)
    (hvalues : ∀ e ∈ after, ∀ old w, settledValue below old e.2 = some w → w.alike e.2 = true →
      w = e.2)
    (halike : Value.alikeFields (settledFields below before after) after = true) :
    settledFields below before after = after := by
  rw [settledFields_eq_self hafter]
  intro e he
  have hget := (Keyed.get?_eq_some hafter).2 he
  obtain ⟨w, hw, hlike⟩ :=
    Value.exists_of_alikeAt_some (hget ▸ Value.alikeAt_of_alikeFields halike e.1)
  rw [get?_settledFields hafter, hget, Option.bind_some] at hw
  rw [hw]
  cases hold : Keyed.get? e.1 before with
  | none =>
      rw [hold] at hw
      exact hw.symm
  | some old =>
      rw [hold] at hw
      rw [hvalues e he old w hw hlike]

theorem settledValue_eq_of_alike {old v w : Value} (hv : v.isRecord ok false = true)
    (hw : settledValue below old v = some w) (halike : w.alike v = true) : w = v := by
  induction old, v using change_induction generalizing below w with
  | compared old v h =>
      rw [h.settled] at hw
      exact (Option.some.inj hw).symm
  | maps before after hne ih =>
      have hafter : Value.recordFields ok false after = true := hv
      rw [settledValue_map hne] at hw
      split at hw
      · cases hw
      · obtain rfl := Option.some.inj hw
        rw [settledFields_eq_of_alike_of (Value.sorted_of_recordFields hafter)
          (fun e he old w hw hlike =>
            ih e he old (Value.isRecord_of_mem hafter he) hw hlike) halike]

/-- What is settled of a record is alike to it only if it is the record. -/
theorem settledFields_eq_of_alike (hafter : Value.recordFields ok false after = true)
    (halike : Value.alikeFields (settledFields below before after) after = true) :
    settledFields below before after = after :=
  settledFields_eq_of_alike_of (Value.sorted_of_recordFields hafter)
    (fun _ he _ _ hw hlike =>
      settledValue_eq_of_alike (Value.isRecord_of_mem hafter he) hw hlike) halike

end DocStore.Diff
