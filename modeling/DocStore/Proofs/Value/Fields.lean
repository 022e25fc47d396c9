import DocStore.Proofs.Value.Basic

/-!
# Setting and removing fields of a record

A record stays one when a value is set at a path or the field at a path is removed, provided that
the value is a record and the names on the way are of its kind.  Only the field with the first name
of the path is touched.
-/

namespace DocStore

namespace Value

variable {ok : String → Bool} {deletes : Bool} {fields : Fields} {name : String} {v : Value}

theorem recordFields_insert (h : recordFields ok deletes fields = true) (hname : ok name = true)
    (hv : v.isRecord ok deletes = true) :
    recordFields ok deletes (Keyed.insert name v fields) = true := by
  have hsorted := sorted_of_recordFields h
  refine recordFields_iff.2 ⟨hsorted.insert, fun e he => ?_⟩
  rcases (Keyed.mem_insert hsorted).1 he with rfl | ⟨he, -⟩
  · exact ⟨hname, hv⟩
  · exact ⟨ok_of_mem h he, isRecord_of_mem h he⟩

theorem recordFields_erase (h : recordFields ok deletes fields = true) :
    recordFields ok deletes (Keyed.erase name fields) = true :=
  recordFields_iff.2 ⟨(sorted_of_recordFields h).erase, fun _ he =>
    (recordFields_iff.1 h).2 _ (Keyed.erase_sublist.subset he)⟩

end Value

namespace Fields

open Value

variable {ok : String → Bool} {deletes : Bool} {fields after : Fields} {name other : String}
  {v : Value} {names : List String}

theorem recordFields_childMap (h : recordFields ok deletes fields = true) (name : String) :
    recordFields ok deletes (childMap fields name) = true := by
  unfold childMap
  split
  next child hget => exact isRecord_of_get? (v := .map child) h hget
  next => rfl

theorem sorted_setIn (h : Keyed.Sorted fields) : Keyed.Sorted (setIn fields v names) := by
  cases names with
  | nil => exact h
  | cons name rest => cases rest <;> exact h.insert

/-- A record with a value set at some names is a record. -/
theorem recordFields_setIn (h : recordFields ok deletes fields = true)
    (hnames : ∀ name ∈ names, ok name = true) (hv : v.isRecord ok deletes = true) :
    recordFields ok deletes (setIn fields v names) = true := by
  induction names generalizing fields with
  | nil => exact h
  | cons name rest ih =>
      rw [List.forall_mem_cons] at hnames
      cases rest with
      | nil => exact recordFields_insert h hnames.1 hv
      | cons next rest =>
          exact recordFields_insert h hnames.1 (ih (recordFields_childMap h name) hnames.2)

/-- A record from which a field is removed is a record. -/
theorem recordFields_removeIn? (h : recordFields ok deletes fields = true)
    (hafter : removeIn? fields names = some after) :
    recordFields ok deletes after = true := by
  induction names generalizing fields after with
  | nil => cases hafter
  | cons name rest ih =>
      cases rest with
      | nil =>
          obtain ⟨_, -, rfl⟩ := Option.map_eq_some_iff.1 hafter
          exact recordFields_erase h
      | cons next rest =>
          unfold removeIn? at hafter
          split at hafter
          next child hget =>
            obtain ⟨child', hchild, rfl⟩ := Option.map_eq_some_iff.1 hafter
            exact recordFields_insert h (ok_of_get? h hget)
              (ih (isRecord_of_get? (v := .map child) h hget) hchild)
          next => cases hafter

/-- Setting a value touches the field with the first name alone. -/
theorem get?_setIn_of_ne (hne : names.head? ≠ some other) :
    Keyed.get? other (setIn fields v names) = Keyed.get? other fields := by
  cases names with
  | nil => rfl
  | cons name rest =>
      have hother : other ≠ name := fun heq => hne (congrArg some heq.symm)
      cases rest with
      | nil => exact Keyed.get?_insert_of_ne hother
      | cons next rest => exact Keyed.get?_insert_of_ne hother

/-- Removing a field brings in no other one. -/
theorem get?_removeIn?_of_none (hnone : Keyed.get? other fields = none)
    (hafter : removeIn? fields names = some after) : Keyed.get? other after = none := by
  cases names with
  | nil => cases hafter
  | cons name rest =>
      cases rest with
      | nil =>
          obtain ⟨_, -, rfl⟩ := Option.map_eq_some_iff.1 hafter
          rw [Keyed.get?_eq_none] at hnone ⊢
          exact fun hmem => hnone ((Keyed.erase_sublist.map _).subset hmem)
      | cons next rest =>
          unfold removeIn? at hafter
          split at hafter
          next child hget =>
            obtain ⟨child', -, rfl⟩ := Option.map_eq_some_iff.1 hafter
            have hother : other ≠ name := by
              rintro rfl
              rw [hnone] at hget
              cases hget
            rw [Keyed.get?_insert_of_ne hother, hnone]
          next => cases hafter

end Fields

end DocStore
