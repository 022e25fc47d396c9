import DocStore.Sorting

/-!
# Sorted lists

Sorting by a comparison gives a permutation in order, if the comparison is transitive on the items
at hand (`TransitiveOn`).  Where no two items are level, that leaves one list: the strictly sorted
permutation is unique (`eq_of_strict`), and sorting by the opposite comparison gives it backwards
(`sorted_opposite`).
-/

namespace DocStore.Sorting

open Std

variable {α : Type}

/-! ## Sorting only permutes -/

section Permutation

variable (less : α → α → Bool)

theorem insertBack_perm (x : α) (xs : List α) : (insertBack less x xs).Perm (x :: xs) := by
  induction xs with
  | nil => exact .refl _
  | cons y rest ih =>
      rw [insertBack]
      split
      · exact (ih.cons y).trans (.swap x y rest)
      · exact .refl _

/-- Sorting gives a permutation. -/
theorem sorted_perm (xs : List α) : (sorted less xs).Perm xs := by
  have hfold (done : List α) :
      (xs.foldl (fun done x => insertBack less x done) done).Perm (xs ++ done) := by
    induction xs generalizing done with
    | nil => exact .refl _
    | cons x rest ih =>
        have hstep := (ih (insertBack less x done)).trans
          ((insertBack_perm less x done).append_left rest)
        exact hstep.trans List.perm_middle
  have hall := hfold []
  rw [List.append_nil] at hall
  exact (List.reverse_perm _).trans hall

end Permutation

/-! ## Sorting what is mapped -/

section Mapped

variable {β : Type} (less : β → β → Bool) (f : α → β)

theorem insertBack_map (x : α) (xs : List α) :
    insertBack less (f x) (xs.map f) = (insertBack (fun a b => less (f a) (f b)) x xs).map f := by
  induction xs with
  | nil => rfl
  | cons y rest ih =>
      rw [List.map_cons, insertBack, insertBack]
      by_cases hless : less (f x) (f y) = true
      · rw [if_pos hless, if_pos hless, ih, List.map_cons]
      · rw [if_neg hless, if_neg hless, List.map_cons, List.map_cons]

/-- Items can be sorted by what they are mapped to before they are. -/
theorem sorted_map (xs : List α) :
    sorted less (xs.map f) = (sorted (fun a b => less (f a) (f b)) xs).map f := by
  have hfold (done : List α) :
      (xs.map f).foldl (fun done x => insertBack less x done) (done.map f)
        = (xs.foldl (fun done x => insertBack (fun a b => less (f a) (f b)) x done)
            done).map f := by
    induction xs generalizing done with
    | nil => rfl
    | cons x rest ih =>
        rw [List.map_cons, List.foldl_cons, List.foldl_cons, insertBack_map]
        exact ih _
  unfold sorted
  rw [List.map_reverse]
  exact congrArg _ (hfold [])

end Mapped

/-! ## Sorting puts in order -/

variable {cmp : α → α → Ordering} {xs ys : List α}

/-- Among some items, what comes no later than an item comes no later than what follows it. -/
def TransitiveOn (cmp : α → α → Ordering) (xs : List α) : Prop :=
  ∀ a ∈ xs, ∀ b ∈ xs, ∀ c ∈ xs, (cmp a b).isLE → (cmp b c).isLE → (cmp a c).isLE

instance (cmp : α → α → Ordering) (xs : List α) : Decidable (TransitiveOn cmp xs) :=
  inferInstanceAs (Decidable (∀ a ∈ xs, ∀ b ∈ xs, ∀ c ∈ xs, _ → _ → _))

theorem TransitiveOn.mono (h : TransitiveOn cmp ys) (hsub : ∀ x ∈ xs, x ∈ ys) :
    TransitiveOn cmp xs := by
  intro a ha b hb c hc
  exact h a (hsub a ha) b (hsub b hb) c (hsub c hc)

theorem TransitiveOn.opposite (h : TransitiveOn cmp xs) : TransitiveOn (fun a b => cmp b a) xs := by
  intro a ha b hb c hc hab hbc
  exact h c hc b hb a ha hbc hab

variable [OrientedCmp cmp]

/-- An item put back past the items that it comes before leaves a list in order. -/
theorem insertBack_ordered {x : α} (htrans : TransitiveOn cmp (x :: xs))
    (h : xs.Pairwise fun a b => (cmp b a).isLE) :
    (insertBack (cmp · · == .lt) x xs).Pairwise fun a b => (cmp b a).isLE := by
  induction xs with
  | nil => exact List.pairwise_singleton _ _
  | cons y rest ih =>
      have hy : y ∈ x :: y :: rest := List.mem_cons_of_mem _ List.mem_cons_self
      rw [List.pairwise_cons] at h
      rw [insertBack]
      split
      next hlt =>
        have hrest : TransitiveOn cmp (x :: rest) := by
          refine htrans.mono fun z hz => ?_
          rcases List.mem_cons.1 hz with rfl | hz
          · exact List.mem_cons_self
          · exact List.mem_cons_of_mem _ (List.mem_cons_of_mem _ hz)
        refine List.pairwise_cons.2 ⟨fun z hz => ?_, ih hrest h.2⟩
        rcases List.mem_cons.1 ((insertBack_perm _ x rest).mem_iff.1 hz) with rfl | hz
        · rw [beq_iff_eq.1 hlt]
          rfl
        · exact h.1 z hz
      next hge =>
        -- What the item is not before comes no later than it does.
        have hle : (cmp y x).isLE := by
          rw [← OrientedCmp.isGE_eq_isLE]
          cases hxy : cmp x y with
          | lt => exact absurd (beq_iff_eq.2 hxy) hge
          | eq => rfl
          | gt => rfl
        refine List.pairwise_cons.2 ⟨fun z hz => ?_, List.pairwise_cons.2 h⟩
        rcases List.mem_cons.1 hz with rfl | hlater
        · exact hle
        · exact htrans z (List.mem_cons_of_mem _ hz) y hy x List.mem_cons_self (h.1 z hlater) hle

/-- **Sorting.**  A list is sorted into one in which no item comes after a later one. -/
theorem sorted_ordered (htrans : TransitiveOn cmp xs) :
    (sorted (cmp · · == .lt) xs).Pairwise fun a b => (cmp a b).isLE := by
  have hfold (done rest : List α) (htrans : TransitiveOn cmp (rest ++ done))
      (h : done.Pairwise fun a b => (cmp b a).isLE) :
      (rest.foldl (fun done x => insertBack (cmp · · == .lt) x done) done).Pairwise
        fun a b => (cmp b a).isLE := by
    induction rest generalizing done with
    | nil => exact h
    | cons x rest ih =>
        refine ih _ (htrans.mono fun z hz => ?_) (insertBack_ordered (htrans.mono ?_) h)
        · have hperm := (insertBack_perm (cmp · · == .lt) x done).append_left rest
          exact List.perm_middle.mem_iff.1 (hperm.mem_iff.1 hz)
        · intro z hz
          rw [List.cons_append, List.mem_cons, List.mem_append]
          rcases List.mem_cons.1 hz with heq | hz
          · exact .inl heq
          · exact .inr (.inr hz)
  rw [sorted, List.pairwise_reverse]
  refine hfold [] xs ?_ .nil
  rwa [List.append_nil]

/-! ## Lists without level items -/

/-- No two items are level. -/
def Apart (cmp : α → α → Ordering) (xs : List α) : Prop := xs.Pairwise fun a b => cmp a b ≠ .eq

theorem Apart.perm (h : Apart cmp xs) (hperm : xs.Perm ys) : Apart cmp ys :=
  List.Pairwise.perm h hperm fun hne heq => hne (OrientedCmp.eq_comm.1 heq)

omit [OrientedCmp cmp] in
theorem Apart.sublist (h : Apart cmp ys) (hsub : xs.Sublist ys) : Apart cmp xs :=
  List.Pairwise.sublist hsub h

/-- Without level items a list is sorted strictly. -/
theorem sorted_strict (htrans : TransitiveOn cmp xs) (hapart : Apart cmp xs) :
    (sorted (cmp · · == .lt) xs).Pairwise fun a b => cmp a b = .lt := by
  have hsorted : Apart cmp (sorted (cmp · · == .lt) xs) := hapart.perm (sorted_perm _ xs).symm
  refine (sorted_ordered htrans).imp₂ (fun {a b} hle hne => ?_) hsorted
  cases hab : cmp a b with
  | lt => rfl
  | eq => exact absurd hab hne
  | gt =>
      rw [hab] at hle
      cases hle

/-- A strictly sorted list has no other order. -/
theorem eq_of_strict (hperm : xs.Perm ys) (hxs : xs.Pairwise fun a b => cmp a b = .lt)
    (hys : ys.Pairwise fun a b => cmp a b = .lt) : xs = ys := by
  refine List.Perm.eq_of_pairwise (fun a b _ _ hab hba => ?_) hxs hys hperm
  rw [← OrientedCmp.gt_iff_lt, hba] at hab
  cases hab

/-- Sorting by the opposite comparison gives the list backwards. -/
theorem sorted_opposite (htrans : TransitiveOn cmp xs) (hapart : Apart cmp xs) :
    sorted (fun a b => cmp b a == .lt) xs = (sorted (cmp · · == .lt) xs).reverse := by
  have hopposite : Apart (fun a b => cmp b a) xs :=
    hapart.imp fun hne heq => hne (OrientedCmp.eq_comm.1 heq)
  have hperm := (sorted_perm (fun a b => cmp b a == .lt) xs).trans
    ((List.reverse_perm _).trans (sorted_perm (cmp · · == .lt) xs)).symm
  have hforward := List.pairwise_reverse.2 (sorted_strict htrans hapart)
  exact eq_of_strict hperm (sorted_strict htrans.opposite hopposite) hforward

end DocStore.Sorting
