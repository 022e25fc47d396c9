import DocStore.Proofs.Value.Ends

/-!
# Reading after a change at a path

Of two paths one goes on from the other, or they are apart (`FieldPath.apart_or`), and a change at
one of them is read at the other accordingly.  Below a value that was set the value is read, below a
field that was removed nothing, and apart from the change what was there before.  Setting what is
there already changes nothing (`setIn_of_getIn`), nor does removing what is not there
(`assign_none_of_getIn`), and no removal brings anything in (`getIn_assign_none_of_none`).

The laws are put together for a single path in `lens_laws`.
-/

namespace DocStore

namespace FieldPath

/-- Two paths are apart, or one of them goes on from the other. -/
theorem apart_or (names names' : List String) :
    Apart ⟨names⟩ ⟨names'⟩ ∨ (∃ rest, names' = names ++ rest) ∨ ∃ rest, names = names' ++ rest := by
  unfold Apart isBeginningOf
  cases hleft : names.isPrefixOf names' with
  | true =>
      obtain ⟨rest, hrest⟩ := List.isPrefixOf_iff_prefix.1 hleft
      exact .inr (.inl ⟨rest, hrest.symm⟩)
  | false =>
      cases hright : names'.isPrefixOf names with
      | true =>
          obtain ⟨rest, hrest⟩ := List.isPrefixOf_iff_prefix.1 hright
          exact .inr (.inr ⟨rest, hrest.symm⟩)
      | false => exact .inl ⟨rfl, rfl⟩

end FieldPath

namespace Fields

open Merge Value

variable {fields : Fields} {v : Value} {names names' : List String} {path other : FieldPath}

/-! ## Setting -/

/-- Below a value that was set the value is read. -/
theorem getIn_setIn_append (hne : names ≠ []) (rest : List String) :
    getIn (setIn fields v names) (names ++ rest) = getFrom (some v) rest := by
  rw [getIn_append hne, getIn_setIn_self hne]

/-- What is found further down lies in the map on the way. -/
theorem exists_map_of_getIn {name : String} (hne : names ≠ [])
    (h : getIn fields (name :: names) = some v) :
    ∃ child, Keyed.get? name fields = some (.map child) ∧ getIn child names = some v := by
  obtain ⟨next, rest, rfl⟩ := List.exists_cons_of_ne_nil hne
  unfold getIn at h
  split at h
  next child hchild => exact ⟨child, hchild, h⟩
  next => cases h

/-- Setting what is there changes nothing. -/
theorem setIn_of_getIn (h : orderedFields fields = true) (hget : getIn fields names = some v) :
    setIn fields v names = fields := by
  induction names generalizing fields with
  | nil => cases hget
  | cons name rest ih =>
      cases rest with
      | nil => exact Keyed.insert_of_get? (sorted_of_orderedFields h) hget
      | cons next rest =>
          have hne := List.cons_ne_nil next rest
          obtain ⟨child, hchild, hbelow⟩ := exists_map_of_getIn hne hget
          have hsame := ih (isOrdered_of_get? h hchild) hbelow
          rw [setIn, childMap_eq, hchild]
          · exact (congrArg (fun child => Keyed.insert name (.map child) fields) hsame).trans
              (Keyed.insert_of_get? (sorted_of_orderedFields h) hchild)
          · exact hne

theorem orderedFields_set (hfields : orderedFields fields = true) (hv : v.isOrdered = true) :
    orderedFields (set fields path v) = true := by
  show orderedFields (assign fields path.segments (some v)) = true
  exact orderedFields_assign hfields fun w hw => Option.some.inj hw ▸ hv

/-- What is found apart from a value that is set stays. -/
theorem get?_set_of_apart (h : FieldPath.Apart path other) :
    get? (set fields path v) other = get? fields other := by
  show getIn (assign fields path.segments (some v)) other.segments = _
  exact getIn_assign_of_apart h

/-! ## Removing -/

/-- A field can be removed exactly if it is found. -/
theorem isSome_removeIn? : (removeIn? fields names).isSome = (getIn fields names).isSome := by
  induction names generalizing fields with
  | nil => rfl
  | cons name rest ih =>
      cases rest with
      | nil => exact Option.isSome_map
      | cons next rest =>
          unfold removeIn? getIn
          split
          next child hchild => exact Option.isSome_map.trans ih
          next => rfl

/-- Removing what is not there changes nothing. -/
theorem assign_none_of_getIn (h : getIn fields names = none) :
    assign fields names none = fields := by
  have hnothing : removeIn? fields names = none := by
    rw [← Option.not_isSome_iff_eq_none, isSome_removeIn?, h]
    exact Bool.false_ne_true
  rw [assign, hnothing]
  rfl

/-- A removal brings nothing in. -/
theorem getIn_assign_none_of_none (hfields : orderedFields fields = true)
    (h : getIn fields names' = none) : getIn (assign fields names none) names' = none := by
  by_cases hne : names = []
  · rwa [hne, assign_nil]
  · rcases FieldPath.apart_or names names' with hapart | ⟨rest, rfl⟩ | ⟨rest, rfl⟩
    · rwa [getIn_assign_of_apart hapart]
    · rw [getIn_append hne, getIn_assign_self hfields hne]
      exact getFrom_none rest
    · by_cases hne' : names' = []
      · rw [hne']
        rfl
      · rw [assign_none_of_getIn, h]
        rw [getIn_append hne', h]
        exact getFrom_none rest

theorem orderedFields_remove (hfields : orderedFields fields = true) :
    orderedFields (remove fields path) = true := by
  show orderedFields (assign fields path.segments none) = true
  exact orderedFields_assign hfields fun v hv => absurd hv (Option.not_mem_none v)

/-- A field that is removed is not found. -/
theorem get?_remove_self (hfields : orderedFields fields = true) :
    get? (remove fields path) path = none := by
  by_cases hpath : path.segments = []
  · rw [get?, hpath]
    rfl
  · show getIn (assign fields path.segments none) path.segments = none
    exact getIn_assign_self hfields hpath

/-- What is found apart from a field that is removed stays. -/
theorem get?_remove_of_apart (h : FieldPath.Apart path other) :
    get? (remove fields path) other = get? fields other := by
  show getIn (assign fields path.segments none) other.segments = _
  exact getIn_assign_of_apart h

/-- A removal leaves the fields as they are exactly if there is nothing to be removed. -/
theorem remove_eq_self_iff (hfields : orderedFields fields = true) :
    remove fields path = fields ↔ remove? fields path = none := by
  constructor
  · intro hsame
    have hgone : get? (remove fields path) path = none := get?_remove_self hfields
    rw [hsame, get?] at hgone
    rw [remove?, ← Option.not_isSome_iff_eq_none, isSome_removeIn?, hgone]
    exact Bool.false_ne_true
  · intro hnone
    rw [remove, hnone]
    rfl

/-! ## The laws -/

/-- **Changes at a path.**  After a value is set at a path, it is read there, what lies below it is
read further down, and apart from the path, whatever the way there led through, nothing changes.  A
field is removed exactly if it was found; it is not found afterwards, nothing changes apart from its
path, and nothing changes at all exactly if there was no field. -/
theorem lens_laws (hfields : orderedFields fields = true) (hpath : path.segments ≠ [])
    (v : Value) :
    (get? (set fields path v) path = some v ∧
      (∀ rest, get? (set fields path v) ⟨path.segments ++ rest⟩ = getFrom (some v) rest) ∧
      ∀ other, FieldPath.Apart path other →
        get? (set fields path v) other = get? fields other) ∧
    ((remove? fields path).isSome = (get? fields path).isSome ∧
      get? (remove fields path) path = none ∧
      (∀ other, FieldPath.Apart path other →
        get? (remove fields path) other = get? fields other) ∧
      (remove fields path = fields ↔ remove? fields path = none)) := by
  exact ⟨⟨getIn_setIn_self hpath, getIn_setIn_append hpath, fun _ => get?_set_of_apart⟩,
    isSome_removeIn?, get?_remove_self hfields, fun _ => get?_remove_of_apart,
    remove_eq_self_iff hfields⟩

/-- A code is set below a text, which becomes a map; before that there is no code to be removed. -/
theorem lens_laws_postcode :
    let bob : Fields := [("address", .map [("city", .string "Rome")]), ("age", .integer 41)]
    let path : FieldPath := ⟨["address", "city", "post"]⟩
    let post : Value := .map [("code", .string "00184")]
    (orderedFields bob = true ∧ path.segments ≠ []) ∧
      get? (set bob path post) ⟨["address", "city", "post", "code"]⟩ = some (.string "00184") ∧
      get? (set bob path post) ⟨["address", "street"]⟩ = none ∧
      get? (set bob path post) ⟨["age"]⟩ = some (.integer 41) ∧
      remove? bob path = none ∧ remove bob path = bob := by
  intro bob path post
  have hbob : orderedFields bob = true := by decide
  have hpath : path.segments ≠ [] := List.cons_ne_nil _ _
  obtain ⟨⟨-, hbelow, hset⟩, hsome, -, -, hsame⟩ := lens_laws hbob hpath post
  have hnone : remove? bob path = none := by
    rw [← Option.not_isSome_iff_eq_none, hsome]
    decide
  exact ⟨⟨hbob, hpath⟩, hbelow ["code"], hset ⟨["address", "street"]⟩ (by decide),
    hset ⟨["age"]⟩ (by decide), hnone, hsame.2 hnone⟩

end Fields

end DocStore
