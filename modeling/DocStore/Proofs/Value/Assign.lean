import DocStore.Proofs.Keyed
import DocStore.Value.Fields

/-!
# Assigning fields by path

To assign a field is to put a value at its path, or to remove the field there (`assign`).  This
touches the field with the first name alone, and what is held there afterwards depends on nothing
else (`placed`): below the name, the rest of the path is assigned in the map that is there, and a
value makes a map of anything else.

Paths are apart if neither is a beginning of the other.  An assignment leaves alone what is found
at a path apart from its own (`getIn_assign_of_apart`), and assignments at paths apart from one
another commute (`assign_comm`), maps that they make or leave empty included.
-/

namespace DocStore

/-! ## Looking below a name -/

namespace Merge

/-- The fields of a value if it is a map, none if not. -/
def innerOf (held : Option Value) : Fields := (held.bind Value.asMap?).getD []

/-- What is found at some names below a value. -/
def getFrom (held : Option Value) : List String → Option Value
  | [] => held
  | name :: rest => Fields.getIn (innerOf held) (name :: rest)

theorem childMap_eq (fields : Fields) (name : String) :
    Fields.childMap fields name = innerOf (Keyed.get? name fields) := by
  unfold Fields.childMap innerOf
  cases Keyed.get? name fields with
  | none => rfl
  | some v => cases v <;> rfl

theorem getIn_nil (names : List String) : Fields.getIn [] names = none := by
  cases names with
  | nil => rfl
  | cons name rest => cases rest <;> rfl

theorem getFrom_none (names : List String) : getFrom none names = none := by
  cases names with
  | nil => rfl
  | cons name rest => exact getIn_nil _

/-- A field is looked up below the field with the first name. -/
theorem getIn_cons (fields : Fields) (name : String) (rest : List String) :
    Fields.getIn fields (name :: rest) = getFrom (Keyed.get? name fields) rest := by
  cases rest with
  | nil => rfl
  | cons next rest =>
      unfold Fields.getIn getFrom innerOf
      cases Keyed.get? name fields with
      | none => exact (getIn_nil _).symm
      | some v => cases v <;> first | rfl | exact (getIn_nil _).symm

theorem getIn_childMap (fields : Fields) (name : String) {names : List String}
    (hnames : names ≠ []) :
    Fields.getIn fields (name :: names) = Fields.getIn (Fields.childMap fields name) names := by
  cases names with
  | nil => exact absurd rfl hnames
  | cons next rest => rw [getIn_cons, getFrom, childMap_eq]

end Merge

/-! ## Paths apart from one another -/

namespace FieldPath

/-- Neither path is a beginning of the other. -/
def Apart (path other : FieldPath) : Prop :=
  path.isBeginningOf other = false ∧ other.isBeginningOf path = false

instance (path other : FieldPath) : Decidable (Apart path other) :=
  inferInstanceAs (Decidable (_ ∧ _))

variable {path other : FieldPath}

theorem Apart.symm (h : Apart path other) : Apart other path := ⟨h.2, h.1⟩

/-- Paths that are apart have first names, and where these are the same, the rests are apart. -/
theorem Apart.exists_cons {names names' : List String} (h : Apart ⟨names⟩ ⟨names'⟩) :
    ∃ name rest name' rest', names = name :: rest ∧ names' = name' :: rest' ∧
      (name ≠ name' ∨ name = name' ∧ Apart ⟨rest⟩ ⟨rest'⟩) := by
  obtain ⟨hleft, hright⟩ := h
  cases names with
  | nil => cases hleft
  | cons name rest =>
      cases names' with
      | nil => cases hright
      | cons name' rest' =>
          refine ⟨name, rest, name', rest', rfl, rfl, ?_⟩
          by_cases hname : name = name'
          · subst hname
            rw [isBeginningOf, List.isPrefixOf_cons_cons_self] at hleft hright
            exact .inr ⟨rfl, hleft, hright⟩
          · exact .inl hname

theorem Apart.ne_nil {names names' : List String} (h : Apart ⟨names⟩ ⟨names'⟩) :
    names ≠ [] ∧ names' ≠ [] := by
  obtain ⟨_, _, _, _, rfl, rfl, -⟩ := h.exists_cons
  exact ⟨List.cons_ne_nil _ _, List.cons_ne_nil _ _⟩

end FieldPath

/-! ## Maps in order -/

namespace Value

mutual

/-- The names of each map are in order, at every depth. -/
def isOrdered : Value → Bool
  | map fields => orderedFields fields
  | _ => true

def orderedFields : Fields → Bool
  | [] => true
  | (name, v) :: rest =>
    rest.all (fun e => Ord.compare name e.1 == .lt) && v.isOrdered && orderedFields rest

end

theorem orderedFields_iff {fields : Fields} :
    orderedFields fields = true ↔ Keyed.Sorted fields ∧ ∀ e ∈ fields, e.2.isOrdered = true := by
  induction fields with
  | nil => simp [orderedFields, Keyed.Sorted.nil]
  | cons first rest ih =>
      obtain ⟨name, v⟩ := first
      simp only [orderedFields, Bool.and_eq_true, List.all_eq_true, beq_iff_eq, ih,
        List.forall_mem_cons]
      constructor
      · intro h
        obtain ⟨⟨hlt, hv⟩, hsorted, hrest⟩ := h
        exact ⟨hsorted.cons hlt, hv, hrest⟩
      · intro h
        obtain ⟨hsorted, hv, hrest⟩ := h
        exact ⟨⟨fun e he => hsorted.head_lt he, hv⟩, hsorted.tail, hrest⟩

theorem sorted_of_orderedFields {fields : Fields} (h : orderedFields fields = true) :
    Keyed.Sorted fields :=
  (orderedFields_iff.1 h).1

theorem isOrdered_of_get? {fields : Fields} (h : orderedFields fields = true) {name : String}
    {v : Value} (hget : Keyed.get? name fields = some v) : v.isOrdered = true :=
  (orderedFields_iff.1 h).2 (name, v) (Keyed.mem_of_get?_eq_some hget)

theorem orderedFields_innerOf {held : Option Value} (h : ∀ v ∈ held, v.isOrdered = true) :
    orderedFields (Merge.innerOf held) = true := by
  cases held with
  | none => rfl
  | some v =>
      cases v with
      | map fields => exact h _ rfl
      | _ => rfl

end Value

namespace Fields

open Merge Value

variable {fields : Fields} {v? u? : Option Value} {v u : Value} {name other : String}
  {names names' : List String}

/-- What is found at some names is in order. -/
theorem isOrdered_of_getIn (h : orderedFields fields = true) (hget : getIn fields names = some v) :
    v.isOrdered = true := by
  induction names generalizing fields with
  | nil => cases hget
  | cons name rest ih =>
      rw [getIn_cons] at hget
      cases rest with
      | nil => exact isOrdered_of_get? h hget
      | cons next rest =>
          exact ih (orderedFields_innerOf fun v hv => isOrdered_of_get? h hv) hget

/-! ## One assignment -/

/-- The fields with a value at the end of the names, or without the field there. -/
def assign (fields : Fields) (names : List String) : Option Value → Fields
  | some v => setIn fields v names
  | none => (removeIn? fields names).getD fields

/-- What an assignment at some names below a value makes of it. -/
def placed (held v? : Option Value) : List String → Option Value
  | [] => v?
  | name :: rest =>
    if (held.bind asMap?).isSome || v?.isSome then
      some (.map (assign (innerOf held) (name :: rest) v?))
    else held

theorem assign_nil : assign fields [] v? = fields := by cases v? <;> rfl

theorem assign_single_none :
    assign fields [name] none
      = if (Keyed.get? name fields).isSome then Keyed.erase name fields else fields := by
  unfold assign removeIn?
  cases Keyed.get? name fields <;> rfl

/-- A field further down is removed from the map on the way, if there is one and it has it. -/
theorem assign_below_none (hnames : names ≠ []) :
    assign fields (name :: names) none
      = match (Keyed.get? name fields).bind asMap? with
        | some child =>
          match removeIn? child names with
          | some child' => Keyed.insert name (.map child') fields
          | none => fields
        | none => fields := by
  obtain ⟨next, rest, rfl⟩ := List.exists_cons_of_ne_nil hnames
  simp only [assign, removeIn?]
  cases Keyed.get? name fields with
  | none => rfl
  | some v =>
      cases v with
      | map child =>
          dsimp only [Option.bind_some, asMap?]
          cases removeIn? child (next :: rest) <;> rfl
      | _ => rfl

/-- A field further down is put into the map on the way, which is made if there is none. -/
theorem assign_below_some (hnames : names ≠ []) :
    assign fields (name :: names) (some v)
      = Keyed.insert name (.map (setIn (innerOf (Keyed.get? name fields)) v names)) fields := by
  obtain ⟨next, rest, rfl⟩ := List.exists_cons_of_ne_nil hnames
  rw [← childMap_eq]
  rfl

theorem sorted_assign (h : Keyed.Sorted fields) : Keyed.Sorted (assign fields names v?) := by
  cases names with
  | nil => rwa [assign_nil]
  | cons name rest =>
      cases v? with
      | some v => cases rest <;> exact h.insert
      | none =>
          cases rest with
          | nil =>
              rw [assign_single_none]
              split
              · exact h.erase
              · exact h
          | cons next rest =>
              rw [assign_below_none (List.cons_ne_nil _ _)]
              repeat' split
              · exact h.insert
              · exact h
              · exact h

/-- An assignment touches the field with the first name alone. -/
theorem get?_assign_of_ne (hne : other ≠ name) :
    Keyed.get? other (assign fields (name :: names) v?) = Keyed.get? other fields := by
  cases v? with
  | some v => cases names <;> exact Keyed.get?_insert_of_ne hne
  | none =>
      cases names with
      | nil =>
          rw [assign_single_none]
          split
          · exact Keyed.get?_erase_of_ne hne
          · rfl
      | cons next rest =>
          rw [assign_below_none (List.cons_ne_nil _ _)]
          repeat' split
          · exact Keyed.get?_insert_of_ne hne
          · rfl
          · rfl

/-- A longer path is assigned below its first name. -/
theorem get?_assign_below (hnames : names ≠ []) :
    Keyed.get? name (assign fields (name :: names) v?)
      = placed (Keyed.get? name fields) v? names := by
  obtain ⟨next, rest, rfl⟩ := List.exists_cons_of_ne_nil hnames
  cases v? with
  | some v =>
      rw [placed, Option.isSome_some, Bool.or_true, if_pos rfl, assign_below_some hnames]
      exact Keyed.get?_insert_self
  | none =>
      rw [assign_below_none hnames, placed, Option.isSome_none, Bool.or_false]
      cases hmap : (Keyed.get? name fields).bind asMap? with
      | none => rfl
      | some child =>
          have hinner : innerOf (Keyed.get? name fields) = child := by rw [innerOf, hmap]; rfl
          rw [Option.isSome_some, if_pos rfl, hinner, assign]
          dsimp only
          split
          next child' hremoved =>
            rw [hremoved, Keyed.get?_insert_self]
            rfl
          next hremoved =>
            obtain ⟨held, hheld, hchild⟩ := Option.bind_eq_some_iff.1 hmap
            rw [hremoved, Option.getD_none, hheld]
            cases held with
            | map fields' => cases hchild; rfl
            | _ => cases hchild

/-- What is held at the first name afterwards depends on what was held there. -/
theorem get?_assign_self (h : Keyed.Sorted fields) :
    Keyed.get? name (assign fields (name :: names) v?)
      = placed (Keyed.get? name fields) v? names := by
  cases names with
  | cons next rest => exact get?_assign_below (List.cons_ne_nil _ _)
  | nil =>
      cases v? with
      | some v => exact Keyed.get?_insert_self
      | none =>
          rw [assign_single_none]
          split
          · exact Keyed.get?_erase_self h
          next hnone => rwa [Option.not_isSome_iff_eq_none] at hnone

/-- Fields in order stay so when a value in order is assigned. -/
theorem orderedFields_assign (h : orderedFields fields = true)
    (hv : ∀ v ∈ v?, v.isOrdered = true) : orderedFields (assign fields names v?) = true := by
  induction names generalizing fields with
  | nil => rwa [assign_nil]
  | cons name rest ih =>
      have hsorted := sorted_of_orderedFields h
      refine orderedFields_iff.2 ⟨sorted_assign hsorted, fun e he => ?_⟩
      have hget := (Keyed.get?_eq_some (sorted_assign hsorted)).2 he
      by_cases hname : e.1 = name
      · rw [hname, get?_assign_self hsorted] at hget
        cases rest with
        | nil => exact hv _ hget
        | cons next rest =>
            rw [placed] at hget
            split at hget
            · rw [← Option.some.inj hget]
              exact ih (orderedFields_innerOf fun v hheld => isOrdered_of_get? h hheld)
            · exact isOrdered_of_get? h hget
      · rw [get?_assign_of_ne hname] at hget
        exact isOrdered_of_get? h hget

/-! ## Assignments apart from one another -/

/-- What is found apart from an assignment stays. -/
theorem getIn_assign_of_apart (h : FieldPath.Apart ⟨names⟩ ⟨names'⟩) :
    getIn (assign fields names v?) names' = getIn fields names' := by
  induction names generalizing fields names' with
  | nil => exact absurd rfl h.ne_nil.1
  | cons name rest ih =>
      obtain ⟨_, _, name', rest', ⟨rfl, rfl⟩, rfl, hname | ⟨rfl, hrest⟩⟩ := h.exists_cons
      · rw [getIn_cons, getIn_cons, get?_assign_of_ne hname.symm]
      · obtain ⟨hne, hne'⟩ := hrest.ne_nil
        obtain ⟨next, rest', rfl⟩ := List.exists_cons_of_ne_nil hne'
        obtain ⟨first, rest, rfl⟩ := List.exists_cons_of_ne_nil hne
        rw [getIn_cons, getIn_cons, get?_assign_below hne, placed]
        split
        · exact ih hrest
        · rfl

/-- What is put at some names is found there. -/
theorem getIn_setIn_self (hne : names ≠ []) : getIn (setIn fields v names) names = some v := by
  induction names generalizing fields with
  | nil => exact absurd rfl hne
  | cons name rest ih =>
      cases rest with
      | nil => exact Keyed.get?_insert_self
      | cons next rest =>
          rw [getIn_cons, setIn, Keyed.get?_insert_self]
          exact ih (List.cons_ne_nil _ _)
          exact List.cons_ne_nil _ _

/-- An assignment leaves at its names what it assigns there. -/
theorem getIn_assign_self (h : orderedFields fields = true) (hne : names ≠ []) :
    getIn (assign fields names v?) names = v? := by
  induction names generalizing fields with
  | nil => exact absurd rfl hne
  | cons name rest ih =>
      rw [getIn_cons, get?_assign_self (sorted_of_orderedFields h)]
      cases rest with
      | nil => rfl
      | cons next later =>
          rw [placed]
          split
          · exact ih (orderedFields_innerOf fun v hv => isOrdered_of_get? h hv)
              (List.cons_ne_nil _ _)
          next hnothing =>
            -- Nothing is put, and nothing lies below what is no map.
            rw [Bool.or_eq_true, not_or, Option.not_isSome_iff_eq_none,
              Option.not_isSome_iff_eq_none] at hnothing
            obtain ⟨hmap, rfl⟩ := hnothing
            rw [getFrom, innerOf, hmap]
            exact getIn_nil _

/-- Of two values that are put at the same names the second stays. -/
theorem setIn_setIn_self : setIn (setIn fields v names) u names = setIn fields u names := by
  induction names generalizing fields with
  | nil => rfl
  | cons name rest ih =>
      cases rest with
      | nil => exact Keyed.insert_insert_self
      | cons next rest =>
          have hchild (v : Value) : childMap (setIn fields v (name :: next :: rest)) name
              = setIn (childMap fields name) v (next :: rest) := by
            rw [childMap_eq, setIn, Keyed.get?_insert_self]
            · rfl
            · exact List.cons_ne_nil _ _
          show Keyed.insert name (Value.map (setIn (childMap _ name) u (next :: rest))) _ = _
          rw [hchild, ih]
          exact Keyed.insert_insert_self

theorem placed_eq_map {held : Option Value} (hnames : names ≠ [])
    (h : (held.bind asMap?).isSome = true ∨ v?.isSome = true) :
    placed held v? names = some (.map (assign (innerOf held) names v?)) := by
  obtain ⟨first, rest, rfl⟩ := List.exists_cons_of_ne_nil hnames
  rw [placed, if_pos (Bool.or_eq_true_iff.2 h)]

/-- Nothing is removed from what is no map. -/
theorem placed_none {held : Option Value} (hnames : names ≠ []) (h : held.bind asMap? = none) :
    placed held none names = held := by
  obtain ⟨first, rest, rfl⟩ := List.exists_cons_of_ne_nil hnames
  rw [placed, h, if_neg (by decide)]

theorem assign_empty_none (names : List String) : assign [] names none = [] := by
  cases names with
  | nil => rfl
  | cons name rest => cases rest <;> rfl

/-- A value that makes a map is put there whether or not something is to be removed apart from
it. -/
theorem placed_some_none_comm {held : Option Value} (h : held.bind asMap? = none)
    (hne : names ≠ []) (hne' : names' ≠ [])
    (hinner : assign (assign (innerOf held) names (some v)) names' none
      = assign (assign (innerOf held) names' none) names (some v)) :
    placed (placed held (some v) names) none names'
      = placed (placed held none names') (some v) names := by
  have hnil : innerOf held = [] := by rw [innerOf, h]; rfl
  rw [placed_none hne' h, placed_eq_map hne (.inr rfl), placed_eq_map hne' (.inl rfl)]
  rw [hnil, assign_empty_none] at hinner
  rw [hnil]
  exact congrArg (fun fields => some (Value.map fields)) hinner

/-- Below a name, assignments commute if they do so in the map that is there, or that is made. -/
theorem placed_comm (held : Option Value) (hne : names ≠ []) (hne' : names' ≠ [])
    (hinner : assign (assign (innerOf held) names v?) names' u?
      = assign (assign (innerOf held) names' u?) names v?) :
    placed (placed held v? names) u? names' = placed (placed held u? names') v? names := by
  have hboth (hv : (held.bind asMap?).isSome = true ∨ v?.isSome = true)
      (hu : (held.bind asMap?).isSome = true ∨ u?.isSome = true) :
      placed (placed held v? names) u? names' = placed (placed held u? names') v? names := by
    rw [placed_eq_map hne hv, placed_eq_map hne' hu, placed_eq_map hne (.inl rfl),
      placed_eq_map hne' (.inl rfl)]
    exact congrArg (fun fields => some (Value.map fields)) hinner
  cases hmap : held.bind asMap? with
  | some child => exact hboth (.inl (by rw [hmap]; rfl)) (.inl (by rw [hmap]; rfl))
  | none =>
      cases v? with
      | some v =>
          cases u? with
          | some u => exact hboth (.inr rfl) (.inr rfl)
          | none => exact placed_some_none_comm hmap hne hne' hinner
      | none =>
          cases u? with
          | some u => exact (placed_some_none_comm hmap hne' hne hinner.symm).symm
          | none =>
              rw [placed_none hne hmap, placed_none hne' hmap, placed_none hne hmap]

/-- **Paths apart.**  Assignments at paths apart from one another commute. -/
theorem assign_comm (hfields : orderedFields fields = true)
    (h : FieldPath.Apart ⟨names⟩ ⟨names'⟩) :
    assign (assign fields names v?) names' u? = assign (assign fields names' u?) names v? := by
  induction names generalizing fields names' with
  | nil => exact absurd rfl h.ne_nil.1
  | cons name rest ih =>
      have hsorted := sorted_of_orderedFields hfields
      obtain ⟨_, _, name', rest', ⟨rfl, rfl⟩, rfl, hname⟩ := h.exists_cons
      refine Keyed.eq_of_get?_eq (sorted_assign (sorted_assign hsorted))
        (sorted_assign (sorted_assign hsorted)) fun other => ?_
      rcases hname with hname | ⟨rfl, hrest⟩
      · by_cases hother : other = name
        · subst hother
          rw [get?_assign_of_ne hname, get?_assign_self hsorted,
            get?_assign_self (sorted_assign hsorted), get?_assign_of_ne hname]
        · rw [get?_assign_of_ne hother]
          by_cases hother' : other = name'
          · subst hother'
            rw [get?_assign_self (sorted_assign hsorted), get?_assign_of_ne hother,
              get?_assign_self hsorted]
          · rw [get?_assign_of_ne hother', get?_assign_of_ne hother', get?_assign_of_ne hother]
      · by_cases hother : other = name
        · subst hother
          rw [get?_assign_self (sorted_assign hsorted), get?_assign_self hsorted,
            get?_assign_self (sorted_assign hsorted), get?_assign_self hsorted]
          exact placed_comm _ hrest.ne_nil.1 hrest.ne_nil.2 (ih (orderedFields_innerOf
            fun v hheld => isOrdered_of_get? hfields hheld) hrest)
        · rw [get?_assign_of_ne hother, get?_assign_of_ne hother, get?_assign_of_ne hother,
            get?_assign_of_ne hother]

end Fields

end DocStore
