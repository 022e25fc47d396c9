import DocStore.Keyed
import Mathlib.Data.List.Forall2

/-!
# Lists sorted by key as finite maps

`Sorted` is kept by insertion and by every sublist, so by removal too.  The entries of a sorted
list are known from its lookups: `get?_eq_some` reads an entry off, `mem_insert` and `mem_erase`
say what a change leaves, `get?_filterMap` and `get?_foldl_insert_of_mem` do the same for many
entries at once, and `forall₂_of_get?_rel` compares two sorted lists, entry by entry, by their
lookups.
-/

namespace DocStore.Keyed

open Std

variable {κ α β : Type} [Ord κ] {k l : κ} {v w : α} {m : List (κ × α)}

/-! ## Sorted lists -/

namespace Sorted

theorem nil : Sorted ([] : List (κ × α)) := List.Pairwise.nil

theorem tail (h : Sorted ((l, w) :: m)) : Sorted m := List.Pairwise.tail h

/-- The first key is less than all others. -/
theorem head_lt (h : Sorted ((l, w) :: m)) {e : κ × α} (he : e ∈ m) : compare l e.1 = .lt :=
  (List.pairwise_cons.1 h).1 e he

theorem cons (hlt : ∀ e ∈ m, compare l e.1 = .lt) (h : Sorted m) : Sorted ((l, w) :: m) :=
  List.Pairwise.cons hlt h

theorem sublist {m' : List (κ × α)} (hsub : m'.Sublist m) (h : Sorted m) : Sorted m' :=
  List.Pairwise.sublist hsub h

end Sorted

theorem erase_sublist : (erase k m).Sublist m := by
  induction m with
  | nil => exact .slnil
  | cons first rest ih =>
      rw [erase]
      split
      · exact List.sublist_cons_self _ _
      · exact ih.cons_cons _

/-- Removal keeps a list sorted. -/
theorem Sorted.erase (h : Sorted m) : Sorted (erase k m) := h.sublist erase_sublist

/-- The map of the values that a function gives, where it gives one. -/
def filterMap (f : κ → α → Option β) : List (κ × α) → List (κ × β)
  | [] => []
  | (k, v) :: rest =>
    match f k v with
    | some w => (k, w) :: filterMap f rest
    | none => filterMap f rest

omit [Ord κ] in
theorem keys_filterMap_sublist (f : κ → α → Option β) :
    ((filterMap f m).map (·.1)).Sublist (m.map (·.1)) := by
  induction m with
  | nil => exact .slnil
  | cons first rest ih =>
      obtain ⟨k, v⟩ := first
      rw [filterMap]
      split
      · exact ih.cons_cons _
      · exact ih.cons _

/-- Selection keeps a list sorted. -/
theorem Sorted.filterMap (h : Sorted m) (f : κ → α → Option β) : Sorted (filterMap f m) := by
  have hkeys : (m.map (·.1)).Pairwise fun k l => compare k l = .lt := List.pairwise_map.2 h
  exact List.pairwise_map.1 (hkeys.sublist (keys_filterMap_sublist f))

section Lawful

variable [LawfulEqOrd κ]

theorem ne_of_compare_lt (h : compare k l = .lt) : k ≠ l := by
  intro hkl
  rw [hkl, ReflOrd.compare_self] at h
  cases h

namespace Sorted

theorem head_ne (h : Sorted ((l, w) :: m)) {e : κ × α} (he : e ∈ m) : e.1 ≠ l :=
  (ne_of_compare_lt (h.head_lt he)).symm

/-- No key stands twice. -/
theorem nodup_keys (h : Sorted m) : (m.map (·.1)).Nodup :=
  List.pairwise_map.2 (List.Pairwise.imp ne_of_compare_lt h)

/-- A key has one value. -/
theorem eq_of_mem (h : Sorted m) (hv : (k, v) ∈ m) (hw : (k, w) ∈ m) : v = w := by
  induction m with
  | nil => cases hv
  | cons first rest ih =>
      obtain ⟨l, x⟩ := first
      rcases List.mem_cons.1 hv with hhead | hlater
      · cases hhead
        rcases List.mem_cons.1 hw with hhead' | hlater'
        · cases hhead'
          rfl
        · exact absurd rfl (h.head_ne hlater')
      · rcases List.mem_cons.1 hw with hhead' | hlater'
        · cases hhead'
          exact absurd rfl (h.head_ne hlater)
        · exact ih h.tail hlater hlater'

end Sorted

/-! ## Lookups -/

@[simp] theorem get?_cons_self : get? k ((k, v) :: m) = some v := by
  simp [get?, ReflOrd.compare_self]

theorem get?_cons_of_ne (h : k ≠ l) : get? k ((l, w) :: m) = get? k m := by
  have hne : ¬ (compare k l == .eq) = true := by
    rwa [beq_iff_eq, LawfulEqCmp.compare_eq_iff_eq]
  rw [get?, if_neg hne]

theorem get?_append (k : κ) (m m' : List (κ × α)) :
    get? k (m ++ m') = (get? k m).or (get? k m') := by
  induction m with
  | nil => rfl
  | cons first rest ih =>
      obtain ⟨l, w⟩ := first
      by_cases hkl : k = l
      · subst hkl
        simp
      · rw [List.cons_append, get?_cons_of_ne hkl, get?_cons_of_ne hkl, ih]

/-- The value that is found stands in the list. -/
theorem mem_of_get?_eq_some (h : get? k m = some v) : (k, v) ∈ m := by
  induction m with
  | nil => cases h
  | cons first rest ih =>
      obtain ⟨l, w⟩ := first
      by_cases hkl : k = l
      · subst hkl
        rw [get?_cons_self, Option.some.injEq] at h
        subst h
        exact List.mem_cons_self
      · rw [get?_cons_of_ne hkl] at h
        exact List.mem_cons_of_mem _ (ih h)

/-- A key is found exactly if it stands in the list. -/
theorem get?_isSome : (get? k m).isSome = true ↔ k ∈ m.map (·.1) := by
  induction m with
  | nil => simp [get?]
  | cons first rest ih =>
      obtain ⟨l, w⟩ := first
      by_cases hkl : k = l
      · subst hkl
        simp
      · rw [get?_cons_of_ne hkl, ih]
        simp [hkl]

theorem get?_eq_none : get? k m = none ↔ k ∉ m.map (·.1) := by
  rw [← get?_isSome, Bool.not_eq_true, Option.isSome_eq_false_iff, Option.isNone_iff_eq_none]

/-- In a sorted list the entries are what is found. -/
theorem get?_eq_some (h : Sorted m) : get? k m = some v ↔ (k, v) ∈ m := by
  refine ⟨mem_of_get?_eq_some, fun hmem => ?_⟩
  have hkey : (get? k m).isSome = true := get?_isSome.2 (List.mem_map_of_mem hmem)
  obtain ⟨w, hw⟩ := Option.isSome_iff_exists.1 hkey
  rw [hw, h.eq_of_mem hmem (mem_of_get?_eq_some hw)]

theorem Sorted.get?_tail (h : Sorted ((k, v) :: m)) : get? k m = none := by
  rw [get?_eq_none]
  intro hkey
  obtain ⟨e, he, heq⟩ := List.mem_map.1 hkey
  exact h.head_ne he heq

/-! ## Removal -/

/-- A removal leaves the entries of the other keys. -/
theorem mem_erase (h : Sorted m) {e : κ × α} : e ∈ erase k m ↔ e ∈ m ∧ e.1 ≠ k := by
  induction m with
  | nil => simp [erase]
  | cons first rest ih =>
      obtain ⟨l, w⟩ := first
      rw [erase]
      split
      next heq =>
        have hkl : k = l := LawfulEqCmp.eq_of_compare (beq_iff_eq.1 heq)
        subst hkl
        constructor
        · intro he
          exact ⟨List.mem_cons_of_mem _ he, h.head_ne he⟩
        · intro hboth
          obtain ⟨he, hne⟩ := hboth
          rcases List.mem_cons.1 he with rfl | he
          · exact absurd rfl hne
          · exact he
      next hne =>
        have hlk : l ≠ k := by
          intro heq
          obtain rfl := heq
          exact hne (beq_iff_eq.2 ReflCmp.compare_self)
        rw [List.mem_cons, List.mem_cons, ih h.tail]
        constructor
        · intro heither
          rcases heither with rfl | ⟨he, hek⟩
          · exact ⟨.inl rfl, hlk⟩
          · exact ⟨.inr he, hek⟩
        · intro hboth
          obtain ⟨rfl | he, hek⟩ := hboth
          · exact .inl rfl
          · exact .inr ⟨he, hek⟩

theorem get?_erase_self (h : Sorted m) : get? k (erase k m) = none := by
  rw [get?_eq_none]
  intro hkey
  obtain ⟨e, he, rfl⟩ := List.mem_map.1 hkey
  exact ((mem_erase h).1 he).2 rfl

theorem get?_erase_of_ne (hne : l ≠ k) : get? l (erase k m) = get? l m := by
  induction m with
  | nil => rfl
  | cons first rest ih =>
      obtain ⟨j, w⟩ := first
      rw [erase]
      split
      next heq =>
        rw [LawfulEqCmp.eq_of_compare (beq_iff_eq.1 heq)] at hne
        rw [get?_cons_of_ne hne]
      · by_cases hj : l = j
        · subst hj
          rw [get?_cons_self, get?_cons_self]
        · rw [get?_cons_of_ne hj, get?_cons_of_ne hj, ih]

/-! ## Selection -/

theorem get?_filterMap (h : Sorted m) (f : κ → α → Option β) :
    get? k (filterMap f m) = (get? k m).bind (f k) := by
  induction m with
  | nil => rfl
  | cons first rest ih =>
      obtain ⟨l, w⟩ := first
      by_cases hkl : k = l
      · subst hkl
        rw [get?_cons_self, Option.bind_some, filterMap]
        split
        next x hx => rw [get?_cons_self, hx]
        next hnone => rw [ih h.tail, h.get?_tail, hnone, Option.bind_none]
      · rw [get?_cons_of_ne hkl, ← ih h.tail, filterMap]
        split
        · exact get?_cons_of_ne hkl
        · rfl

end Lawful

variable [TransOrd κ] [LawfulEqOrd κ]

/-! ## Sorted lists as maps -/

/-- Sorted lists with related lookups have the same keys and related values. -/
theorem forall₂_of_get?_rel {R : α → β → Prop} {m' : List (κ × β)} (h : Sorted m)
    (h' : Sorted m') (hget : ∀ k, Option.Rel R (get? k m) (get? k m')) :
    List.Forall₂ (fun e e' => e.1 = e'.1 ∧ R e.2 e'.2) m m' := by
  have hkeys (k : κ) : k ∈ m.map (·.1) ↔ k ∈ m'.map (·.1) := by
    have hk := hget k
    rw [← get?_isSome, ← get?_isSome]
    generalize get? k m = found at hk ⊢
    generalize get? k m' = found' at hk ⊢
    cases hk <;> simp
  induction m generalizing m' with
  | nil =>
      cases m' with
      | nil => exact .nil
      | cons first rest =>
          have hfirst := (hkeys first.1).2 List.mem_cons_self
          cases hfirst
  | cons first rest ih =>
      obtain ⟨k, v⟩ := first
      cases m' with
      | nil =>
          have hfirst := (hkeys k).1 List.mem_cons_self
          cases hfirst
      | cons first' rest' =>
          obtain ⟨l, w⟩ := first'
          -- Neither list can start with a key that the other has further on.
          have hkl : k = l := by
            rcases List.mem_cons.1 ((hkeys k).1 List.mem_cons_self) with heq | hlater
            · exact heq
            · rcases List.mem_cons.1 ((hkeys l).2 List.mem_cons_self) with heq | hlater'
              · exact heq.symm
              · obtain ⟨e, he, hek⟩ := List.mem_map.1 hlater
                obtain ⟨e', he', hel⟩ := List.mem_map.1 hlater'
                have hgt := h'.head_lt he
                have hlt := h.head_lt he'
                rw [hek, ← OrientedCmp.gt_iff_lt] at hgt
                rw [hel, hgt] at hlt
                cases hlt
          subst hkl
          have hvw : R v w := by
            have hfirst := hget k
            rw [get?_cons_self, get?_cons_self] at hfirst
            cases hfirst with
            | some hvw => exact hvw
          have hrest (j : κ) : Option.Rel R (get? j rest) (get? j rest') := by
            by_cases hj : j = k
            · subst hj
              rw [h.get?_tail, h'.get?_tail]
              exact .none
            · have hlater := hget j
              rwa [get?_cons_of_ne hj, get?_cons_of_ne hj] at hlater
          refine .cons ⟨rfl, hvw⟩ (ih h.tail h'.tail hrest fun j => ?_)
          have hj := hrest j
          rw [← get?_isSome, ← get?_isSome]
          generalize get? j rest = found at hj ⊢
          generalize get? j rest' = found' at hj ⊢
          cases hj <;> simp

/-- Sorted lists with the same lookups are the same. -/
theorem eq_of_get?_eq {m' : List (κ × α)} (h : Sorted m) (h' : Sorted m')
    (hget : ∀ k, get? k m = get? k m') : m = m' := by
  have hrel (k : κ) : Option.Rel Eq (get? k m) (get? k m') := by
    rw [hget]
    cases get? k m' with
    | none => exact .none
    | some w => exact .some rfl
  have hforall := (forall₂_of_get?_rel h h' hrel).imp fun _ _ he => Prod.ext he.1 he.2
  rwa [List.forall₂_eq_eq_eq] at hforall

/-! ## Insertion -/

/-- An insertion leaves the entries of the other keys. -/
theorem mem_insert (h : Sorted m) {e : κ × α} :
    e ∈ insert k v m ↔ e = (k, v) ∨ e ∈ m ∧ e.1 ≠ k := by
  induction m with
  | nil => simp [insert]
  | cons first rest ih =>
      obtain ⟨l, w⟩ := first
      rw [insert]
      split
      next hlt =>
        -- The new key is less than all others.
        have hne : ∀ e ∈ (l, w) :: rest, e.1 ≠ k := by
          intro e he
          rcases List.mem_cons.1 he with rfl | he
          · exact (ne_of_compare_lt hlt).symm
          · exact (ne_of_compare_lt (TransCmp.lt_trans hlt (h.head_lt he))).symm
        rw [List.mem_cons]
        exact or_congr_right ⟨fun he => ⟨he, hne e he⟩, And.left⟩
      next heq =>
        have hkl : k = l := LawfulEqCmp.eq_of_compare heq
        subst hkl
        simp only [List.mem_cons]
        constructor
        · intro heither
          rcases heither with rfl | he
          · exact .inl rfl
          · exact .inr ⟨.inr he, h.head_ne he⟩
        · intro heither
          rcases heither with rfl | ⟨rfl | he, hne⟩
          · exact .inl rfl
          · exact absurd rfl hne
          · exact .inr he
      next hgt =>
        have hlk : l ≠ k := ne_of_compare_lt (OrientedCmp.gt_iff_lt.1 hgt)
        simp only [List.mem_cons, ih h.tail]
        constructor
        · intro heither
          rcases heither with rfl | rfl | ⟨he, hne⟩
          · exact .inr ⟨.inl rfl, hlk⟩
          · exact .inl rfl
          · exact .inr ⟨.inr he, hne⟩
        · intro heither
          rcases heither with rfl | ⟨rfl | he, hne⟩
          · exact .inr (.inl rfl)
          · exact .inl rfl
          · exact .inr (.inr ⟨he, hne⟩)

/-- Insertion keeps a list sorted. -/
theorem Sorted.insert (h : Sorted m) : Sorted (insert k v m) := by
  induction m with
  | nil => exact .cons (by simp) .nil
  | cons first rest ih =>
      obtain ⟨l, w⟩ := first
      rw [Keyed.insert]
      split
      next hlt =>
        refine .cons (fun e he => ?_) h
        rcases List.mem_cons.1 he with rfl | he
        · exact hlt
        · exact TransCmp.lt_trans hlt (h.head_lt he)
      next heq =>
        have hkl : k = l := LawfulEqCmp.eq_of_compare heq
        subst hkl
        exact .cons (fun e he => h.head_lt he) h.tail
      next hgt =>
        refine .cons (fun e he => ?_) (ih h.tail)
        rcases (mem_insert h.tail).1 he with rfl | ⟨he, -⟩
        · exact OrientedCmp.gt_iff_lt.1 hgt
        · exact h.head_lt he

@[simp] theorem get?_insert_self : get? k (insert k v m) = some v := by
  induction m with
  | nil => simp [insert]
  | cons first rest ih =>
      obtain ⟨l, w⟩ := first
      rw [insert]
      split
      · exact get?_cons_self
      · exact get?_cons_self
      next hgt => rw [get?_cons_of_ne (ne_of_compare_lt (OrientedCmp.gt_iff_lt.1 hgt)).symm, ih]

omit [TransOrd κ] in
theorem get?_insert_of_ne (hne : l ≠ k) : get? l (insert k v m) = get? l m := by
  induction m with
  | nil => exact get?_cons_of_ne hne
  | cons first rest ih =>
      obtain ⟨j, w⟩ := first
      rw [insert]
      split
      · exact get?_cons_of_ne hne
      next heq =>
        rw [LawfulEqCmp.eq_of_compare heq] at hne
        rw [get?_cons_of_ne hne, LawfulEqCmp.eq_of_compare heq, get?_cons_of_ne hne]
      · by_cases hj : l = j
        · subst hj
          rw [get?_cons_self, get?_cons_self]
        · rw [get?_cons_of_ne hj, get?_cons_of_ne hj, ih]

omit [TransOrd κ] in
/-- Of two values that are put at a key the second stays. -/
theorem insert_insert_self : insert k v (insert k w m) = insert k v m := by
  induction m with
  | nil => simp [insert, ReflOrd.compare_self]
  | cons first rest ih =>
      obtain ⟨l, u⟩ := first
      cases hcompare : compare k l with
      | lt => simp [insert, hcompare, ReflOrd.compare_self]
      | eq => simp [insert, hcompare, ReflOrd.compare_self]
      | gt => simp [insert, hcompare, ih]

/-- A key with the value that it has is put in its place. -/
theorem insert_of_get? (h : Sorted m) (hget : get? k m = some v) : insert k v m = m := by
  refine eq_of_get?_eq h.insert h fun l => ?_
  by_cases hl : l = k
  · rw [hl, get?_insert_self, hget]
  · exact get?_insert_of_ne hl

/-! ## Lists of entries -/

theorem sorted_foldl_insert (entries : List (κ × α)) (h : Sorted m) :
    Sorted (entries.foldl (fun m e => insert e.1 e.2 m) m) := by
  induction entries generalizing m with
  | nil => exact h
  | cons e rest ih => exact ih h.insert

theorem sorted_ofList (entries : List (κ × α)) : Sorted (ofList entries) :=
  sorted_foldl_insert entries .nil

omit [TransOrd κ] in
/-- Keys that are not put in keep what they have. -/
theorem get?_foldl_insert_of_not_mem {entries : List (κ × α)} (hk : k ∉ entries.map (·.1)) :
    get? k (entries.foldl (fun m e => insert e.1 e.2 m) m) = get? k m := by
  induction entries generalizing m with
  | nil => rfl
  | cons e rest ih =>
      rw [List.map_cons, List.mem_cons, not_or] at hk
      rw [List.foldl_cons, ih hk.2, get?_insert_of_ne hk.1]

/-- Keys that are put in with one value have it. -/
theorem get?_foldl_insert_of_mem {entries : List (κ × α)} (hall : ∀ e ∈ entries, e.2 = w)
    (hk : k ∈ entries.map (·.1)) :
    get? k (entries.foldl (fun m e => insert e.1 e.2 m) m) = some w := by
  induction entries generalizing m with
  | nil => cases hk
  | cons e rest ih =>
      rw [List.foldl_cons]
      by_cases hlater : k ∈ rest.map (·.1)
      · exact ih (fun e he => hall e (List.mem_cons_of_mem _ he)) hlater
      · rcases List.mem_cons.1 hk with hhead | hmem
        · rw [get?_foldl_insert_of_not_mem hlater, hhead, get?_insert_self,
            hall e List.mem_cons_self]
        · exact absurd hmem hlater

theorem mem_keys_insert :
    l ∈ (insert k v m).map (·.1) ↔ l = k ∨ l ∈ m.map (·.1) := by
  by_cases hlk : l = k
  · subst hlk
    rw [← get?_isSome, get?_insert_self]
    simp
  · rw [← get?_isSome, get?_insert_of_ne hlk, get?_isSome]
    simp [hlk]

/-- The keys of a map are those of its entries. -/
theorem mem_keys_ofList (entries : List (κ × α)) :
    k ∈ (ofList entries).map (·.1) ↔ k ∈ entries.map (·.1) := by
  have hfold (m : List (κ × α)) :
      k ∈ (entries.foldl (fun m e => insert e.1 e.2 m) m).map (·.1) ↔
        k ∈ m.map (·.1) ∨ k ∈ entries.map (·.1) := by
    induction entries generalizing m with
    | nil => simp
    | cons e rest ih =>
        rw [List.foldl_cons, ih, mem_keys_insert, List.map_cons, List.mem_cons, or_assoc,
          or_left_comm]
  rw [ofList, hfold, List.map_nil]
  simp

end DocStore.Keyed
