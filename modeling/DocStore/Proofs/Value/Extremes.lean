import DocStore.Proofs.Sorting
import DocStore.Proofs.Value.Preorder

/-!
# The smallest and the largest value

Both are found by going through the values and keeping the better one of two (`Sorting.choice?`).
Where the values are compared transitively, what is kept in the end is better than all before it,
and nothing after it is better (`Sorting.choice?_eq_some_iff`).  So of values that are level the
first one is the smallest and the last one the largest (`Value.smallest?_eq_some_iff`,
`Value.largest?_eq_some_iff`).
-/

namespace DocStore

namespace Sorting

/-! ## The best of some items -/

variable {α : Type} {better : α → α → Bool} {xs : List α} {x y : α}

/-- What is kept of some items, each in place of the one so far if it is better. -/
def choice? (better : α → α → Bool) : List α → Option α
  | [] => none
  | x :: rest => some (rest.foldl (fun best y => if better y best then y else best) x)

/-- The item is better than all before it, and none after it is better. -/
def IsBest (better : α → α → Bool) (xs : List α) (x : α) : Prop :=
  ∃ before after, xs = before ++ x :: after ∧
    (∀ y ∈ before, better x y = true) ∧ ∀ y ∈ after, better y x = false

/-- What is better than an item is better than those that this one is better than, and than those
that are not better than it. -/
def ChoosesOn (better : α → α → Bool) (xs : List α) : Prop :=
  ∀ a ∈ xs, ∀ b ∈ xs, ∀ c ∈ xs, better a b = true →
    better b c = true ∨ better c b = false → better a c = true

/-- One item more takes the place of the best so far, or leaves it there. -/
theorem IsBest.append_singleton (h : IsBest better xs x) (hxs : ChoosesOn better (xs ++ [y])) :
    IsBest better (xs ++ [y]) (if better y x then y else x) := by
  obtain ⟨before, after, rfl, hbefore, hafter⟩ := h
  split
  next hy =>
    have hall : ∀ z ∈ before ++ x :: after,
        better x z = true ∨ better z x = false → better y z = true :=
      fun z hz => hxs y (by simp) x (by simp) z (List.mem_append_left _ hz) hy
    refine ⟨before ++ x :: after, [], rfl, fun z hz => ?_, fun _ hz => absurd hz List.not_mem_nil⟩
    rcases List.mem_append.1 hz with hz' | hz'
    · exact hall z hz (.inl (hbefore z hz'))
    · rcases List.mem_cons.1 hz' with rfl | hz'
      · exact hy
      · exact hall z hz (.inr (hafter z hz'))
  next hy =>
    refine ⟨before, after ++ [y], by simp, hbefore, fun z hz => ?_⟩
    rcases List.mem_append.1 hz with hz | hz
    · exact hafter z hz
    · rw [List.mem_singleton.1 hz]
      exact Bool.eq_false_iff.2 hy

/-- Going on from the best of some items gives the best of all. -/
theorem IsBest.foldl {rest : List α} (h : IsBest better xs x)
    (hxs : ChoosesOn better (xs ++ rest)) :
    IsBest better (xs ++ rest)
      (rest.foldl (fun best y => if better y best then y else best) x) := by
  induction rest generalizing xs x with
  | nil => rwa [List.append_nil]
  | cons y rest ih =>
      rw [List.append_cons] at hxs ⊢
      have hstep : ChoosesOn better (xs ++ [y]) := fun a ha b hb c hc =>
        hxs a (List.mem_append_left _ ha) b (List.mem_append_left _ hb) c
          (List.mem_append_left _ hc)
      exact ih (h.append_singleton hstep) hxs

/-- There is one best item at most. -/
theorem IsBest.unique (hx : IsBest better xs x) (hy : IsBest better xs y) : x = y := by
  obtain ⟨before, after, rfl, hbefore, hafter⟩ := hx
  obtain ⟨before', after', hparts, hbefore', hafter'⟩ := hy
  -- The one further on would have to be better than the other, which forbids just that.
  rcases List.append_eq_append_iff.1 hparts with ⟨between, hfront, hback⟩ | ⟨between, hfront, hback⟩
  · cases between with
    | nil => exact (List.cons.inj hback).1
    | cons z between =>
        obtain ⟨rfl, hrest⟩ := List.cons.inj hback
        have hyes := hbefore' x (by simp [hfront])
        have hno := hafter y (by simp [hrest])
        exact absurd (hyes.symm.trans hno) (by decide)
  · cases between with
    | nil => exact (List.cons.inj hback).1.symm
    | cons z between =>
        obtain ⟨rfl, hrest⟩ := List.cons.inj hback
        have hyes := hbefore y (by simp [hfront])
        have hno := hafter' x (by simp [hrest])
        exact absurd (hyes.symm.trans hno) (by decide)

/-- The best item is better than any other, or the other one is no better. -/
theorem IsBest.eq_or_better (h : IsBest better xs x) :
    ∀ y ∈ xs, y = x ∨ better x y = true ∨ better y x = false := by
  obtain ⟨before, after, rfl, hbefore, hafter⟩ := h
  intro y hy
  rcases List.mem_append.1 hy with hy | hy
  · exact .inr (.inl (hbefore y hy))
  · rcases List.mem_cons.1 hy with rfl | hy
    · exact .inl rfl
    · exact .inr (.inr (hafter y hy))

theorem choice?_eq_none_iff : choice? better xs = none ↔ xs = [] := by
  cases xs with
  | nil => exact iff_of_true rfl rfl
  | cons x rest => exact iff_of_false (Option.some_ne_none _) (List.cons_ne_nil _ _)

/-- **The choice.**  What is kept is the best of the items. -/
theorem choice?_eq_some_iff (h : ChoosesOn better xs) :
    choice? better xs = some x ↔ IsBest better xs x := by
  cases xs with
  | nil =>
      refine iff_of_false (Option.some_ne_none _).symm ?_
      rintro ⟨before, after, hparts, -⟩
      simp at hparts
  | cons first rest =>
      have hfirst : IsBest better [first] first := ⟨[], [], rfl, by simp, by simp⟩
      have hbest := hfirst.foldl h
      rw [choice?, Option.some_inj]
      constructor
      · rintro rfl
        exact hbest
      · exact hbest.unique

end Sorting

namespace Value

open Sorting (TransitiveOn ChoosesOn IsBest choice?)

variable {values : List Value} {v : Value}

/-! ## One value below another -/

theorem isLE_iff_not_lt {a b : Value} : (a.compare b).isLE ↔ b.compare a ≠ .lt := by
  rw [← compare_swap a b]
  cases a.compare b <;> decide

theorem isLE_self (a : Value) : (a.compare a).isLE := by
  rw [compare_self]
  rfl

/-- The value lies below the other one. -/
def isBelow (a b : Value) : Bool := a.compare b == .lt

theorem isBelow_eq_false_iff {a b : Value} : a.isBelow b = false ↔ (b.compare a).isLE := by
  rw [isLE_iff_not_lt, isBelow, beq_eq_false_iff_ne]

theorem isLE_of_isBelow {a b : Value} (h : a.isBelow b = true) : (a.compare b).isLE := by
  rw [beq_iff_eq.1 h]
  rfl

/-- What lies below a value lies below those that this one is level with or below. -/
theorem choosesOn_isBelow (h : TransitiveOn Value.compare values) :
    ChoosesOn isBelow values := by
  intro a ha b hb c hc hab hbc
  have hle : (b.compare c).isLE := hbc.elim isLE_of_isBelow isBelow_eq_false_iff.1
  rw [← Bool.not_eq_false, isBelow_eq_false_iff]
  intro hca
  have hba := h b hb c hc a ha hle hca
  rw [← isBelow_eq_false_iff, hab] at hba
  cases hba

/-- What does not lie below a value does not lie below those that this one is not below. -/
theorem choosesOn_not_isBelow (h : TransitiveOn Value.compare values) :
    ChoosesOn (fun a b => !a.isBelow b) values := by
  intro a ha b hb c hc hab hbc
  rw [Bool.not_eq_true', isBelow_eq_false_iff] at hab ⊢
  rw [Bool.not_eq_true', Bool.not_eq_false', isBelow_eq_false_iff] at hbc
  exact h c hc b hb a ha (hbc.elim id isLE_of_isBelow) hab

/-! ## The smallest and the largest -/

theorem smallest?_eq_choice (values : List Value) : smallest? values = choice? isBelow values := by
  cases values <;> rfl

theorem largest?_eq_choice (values : List Value) :
    largest? values = choice? (fun a b => !a.isBelow b) values := by
  cases values with
  | nil => rfl
  | cons first rest =>
      have hstep : (fun best w : Value => if w.compare best == .lt then best else w)
          = fun best w => if !w.isBelow best then w else best := by
        funext best w
        rw [isBelow]
        cases w.compare best == .lt <;> rfl
      rw [largest?, hstep]
      rfl

/-- There is a smallest value unless there is none at all. -/
theorem smallest?_eq_none_iff : smallest? values = none ↔ values = [] := by
  rw [smallest?_eq_choice, Sorting.choice?_eq_none_iff]

/-- There is a largest value unless there is none at all. -/
theorem largest?_eq_none_iff : largest? values = none ↔ values = [] := by
  rw [largest?_eq_choice, Sorting.choice?_eq_none_iff]

/-- **The smallest value.**  It lies below all before it, and none after it lies below it. -/
theorem smallest?_eq_some_iff (h : TransitiveOn Value.compare values) :
    smallest? values = some v ↔ ∃ before after, values = before ++ v :: after ∧
      (∀ w ∈ before, v.compare w = .lt) ∧ ∀ w ∈ after, (v.compare w).isLE := by
  rw [smallest?_eq_choice, Sorting.choice?_eq_some_iff (choosesOn_isBelow h), IsBest]
  simp only [isBelow_eq_false_iff]
  simp only [isBelow, beq_iff_eq]

/-- **The largest value.**  None before it lies above it, and it lies above all after it. -/
theorem largest?_eq_some_iff (h : TransitiveOn Value.compare values) :
    largest? values = some v ↔ ∃ before after, values = before ++ v :: after ∧
      (∀ w ∈ before, (w.compare v).isLE) ∧ ∀ w ∈ after, w.compare v = .lt := by
  rw [largest?_eq_choice, Sorting.choice?_eq_some_iff (choosesOn_not_isBelow h), IsBest]
  simp only [Bool.not_eq_true', Bool.not_eq_false', isBelow_eq_false_iff]
  simp only [isBelow, beq_iff_eq]

example :
    let thirty : List Value := [.integer 30, .double ⟨0x403e000000000000⟩]
    smallest? thirty = some (.integer 30) ∧
      largest? thirty = some (.double ⟨0x403e000000000000⟩) :=
  ⟨rfl, rfl⟩

/-- The smallest value comes no later than any other. -/
theorem isLE_of_smallest? (h : TransitiveOn Value.compare values) (hv : smallest? values = some v) :
    ∀ w ∈ values, (v.compare w).isLE := by
  rw [smallest?_eq_choice, Sorting.choice?_eq_some_iff (choosesOn_isBelow h)] at hv
  intro w hw
  rcases hv.eq_or_better w hw with rfl | hbelow | hnot
  · exact isLE_self w
  · exact isLE_of_isBelow hbelow
  · exact isBelow_eq_false_iff.1 hnot

/-- The largest value comes no earlier than any other. -/
theorem isLE_of_largest? (h : TransitiveOn Value.compare values) (hv : largest? values = some v) :
    ∀ w ∈ values, (w.compare v).isLE := by
  rw [largest?_eq_choice, Sorting.choice?_eq_some_iff (choosesOn_not_isBelow h)] at hv
  intro w hw
  rcases hv.eq_or_better w hw with rfl | hnot | hbelow
  · exact isLE_self w
  · rw [Bool.not_eq_true'] at hnot
    exact isBelow_eq_false_iff.1 hnot
  · rw [Bool.not_eq_false'] at hbelow
    exact isLE_of_isBelow hbelow

end Value

end DocStore
