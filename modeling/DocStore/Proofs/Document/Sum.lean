import DocStore.Document.Aggregate
import DocStore.Proofs.Double.Arithmetic
import DocStore.Proofs.Store.Concurrent

/-!
# Sums and means of integers

A sum is carried on as an integer as long as it fits in 64 bits, and as a double from then on, even
if it comes back into the range.  So it is the exact integer exactly if no number is a double and
every sum of the first ones fits (`Aggregate.exact_foldl_eq_some`).  In which order the values come
does not matter exactly if the positive integers and the negative ones fit on their own: all sums
lie between these two (`sum_of_sublist`), and either is the first part of some order.

The main statement is `Aggregate.total_exact_iff`.  That the sum of all integers fits is not enough:
see `Aggregate.total_not_exact`.

A mean is taken in doubles.  There is one exactly if some value is a number, and as long as nothing
is rounded on the way, the mean of integers is the double nearest to it (`mean?_integers`).
-/

namespace DocStore.Aggregate

open Memory (SumsFit)
open Number

/-- The integers among some values. -/
def integers (values : List Value) : List Int :=
  values.filterMap fun v => v.asInteger?.map (·.toInt)

/-- No value is a double. -/
def HasNoDouble (values : List Value) : Prop := ∀ d, .double d ∉ values

/-! ## The exact sum -/

/-- An exact sum that is lost stays lost. -/
theorem foldl_exact_none (values : List Value) (rounded : Double) :
    (values.foldl Totals.add ⟨none, rounded⟩).exact = none := by
  induction values generalizing rounded with
  | nil => rfl
  | cons v rest ih => cases v <;> exact ih _

theorem hasNoDouble_cons {v : Value} {rest : List Value} :
    HasNoDouble (v :: rest) ↔ (∀ d, v ≠ .double d) ∧ HasNoDouble rest := by
  unfold HasNoDouble
  simp only [List.mem_cons, not_or, forall_and, ne_eq, eq_comm]

/-- **The exact sum.**  It is there exactly if no number is a double and no sum of the first
integers overflows. -/
theorem exact_foldl_eq_some {values : List Value} {m n : Int64} {rounded : Double} :
    (values.foldl Totals.add ⟨some m, rounded⟩).exact = some n ↔
      HasNoDouble values ∧ SumsFit m.toInt (integers values) ∧
        n.toInt = m.toInt + (integers values).sum := by
  induction values generalizing m rounded with
  | nil =>
      have hnone : HasNoDouble [] := fun _ => List.not_mem_nil
      have hnil : SumsFit m.toInt (integers []) := SumsFit.nil (fitsInt64_toInt m)
      show some m = some n ↔ HasNoDouble [] ∧ _ ∧ n.toInt = m.toInt + 0
      rw [Option.some_inj, eq_comm, Int.add_zero, Int64.toInt_inj, and_iff_right hnil,
        and_iff_right hnone]
  | cons v rest ih =>
      rw [List.foldl_cons, hasNoDouble_cons]
      cases v with
      | integer a =>
          have hsum : integers (.integer a :: rest) = a.toInt :: integers rest := rfl
          rw [hsum, SumsFit.cons_iff (fitsInt64_toInt m), List.sum_cons, ← Int.add_assoc,
            and_iff_right (fun d hd => by cases hd)]
          show (rest.foldl Totals.add ⟨int64? (m.toInt + a.toInt), _⟩).exact = some n ↔ _
          by_cases hfits : fitsInt64 (m.toInt + a.toInt) = true
          · rw [int64?, if_pos hfits, ih, Memory.toInt_ofInt hfits]
          · rw [int64?, if_neg hfits, foldl_exact_none]
            refine iff_of_false (fun h => by cases h) ?_
            intro h
            -- The sum of no more integers is the one that overflows.
            have hempty := h.2.1 [] List.nil_prefix
            rw [List.sum_nil, Int.add_zero] at hempty
            exact hfits hempty
      | double d =>
          show (rest.foldl Totals.add ⟨none, _⟩).exact = some n ↔ _
          rw [foldl_exact_none]
          refine iff_of_false (fun h => by cases h) ?_
          intro h
          exact h.1.1 d rfl
      | _ =>
          rw [and_iff_right (fun d hd => by cases hd)]
          exact ih

/-- The total is an integer exactly if the exact sum is there. -/
theorem total_eq_integer {values : List Value} {n : Int64} :
    total values = .integer n ↔
      HasNoDouble values ∧ SumsFit 0 (integers values) ∧ n.toInt = (integers values).sum := by
  have hexact : total values = .integer n ↔ (values.foldl Totals.add {}).exact = some n := by
    unfold total
    dsimp only
    cases (values.foldl Totals.add {}).exact with
    | none => simp
    | some m => simp
  rw [hexact]
  refine exact_foldl_eq_some.trans ?_
  rw [Int64.toInt_zero, Int.zero_add]

/-! ## The order of the values -/

/-- One integer more counts if it is of the kind. -/
theorem sum_filter_cons (p : Int → Bool) (a : Int) (rest : List Int) :
    ((a :: rest).filter p).sum = (if p a then a else 0) + (rest.filter p).sum := by
  rw [List.filter_cons]
  split
  · rw [List.sum_cons]
  · rw [Int.zero_add]

/-- A part of some integers sums up to no less than the negative ones and no more than the positive
ones. -/
theorem sum_of_sublist {xs ys : List Int} (h : xs.Sublist ys) :
    (ys.filter (· < 0)).sum ≤ xs.sum ∧ xs.sum ≤ (ys.filter (0 < ·)).sum := by
  induction h with
  | slnil => exact ⟨Int.le_refl _, Int.le_refl _⟩
  | cons a _ ih =>
      rw [sum_filter_cons, sum_filter_cons]
      simp only [decide_eq_true_eq]
      split <;> split <;> omega
  | cons_cons a _ ih =>
      rw [sum_filter_cons, sum_filter_cons, List.sum_cons]
      simp only [decide_eq_true_eq]
      split <;> split <;> omega

/-- The integers of some kind among the values are those of the values of this kind. -/
theorem integers_filter (p : Int → Bool) (values : List Value) :
    integers (values.filter fun v => v.asInteger?.any (p ·.toInt))
      = (integers values).filter p := by
  induction values with
  | nil => rfl
  | cons v rest ih =>
      cases v with
      | integer a =>
          have hsum : integers (.integer a :: rest) = a.toInt :: integers rest := rfl
          have hkind : (Value.integer a).asInteger?.any (p ·.toInt) = p a.toInt := rfl
          rw [hsum, List.filter_cons, List.filter_cons, ← ih, hkind]
          split <;> rfl
      | _ => exact ih

theorem fitsInt64_of_le {low n high : Int} (hlow : fitsInt64 low = true)
    (hhigh : fitsInt64 high = true) (h : low ≤ n ∧ n ≤ high) : fitsInt64 n = true := by
  rw [fitsInt64_iff] at hlow hhigh ⊢
  omega

/-- **Sums of integers.**  The sum of some values is an integer exactly if no number is a double and
no sum of the first integers overflows; then it is the exact sum.  It is the same integer in every
order exactly if the sum of the negative integers and that of the positive ones both fit. -/
theorem total_exact_iff (values : List Value) :
    (∀ n, total values = .integer n ↔
      HasNoDouble values ∧ SumsFit 0 (integers values) ∧ n.toInt = (integers values).sum) ∧
    ((∃ n, ∀ others, others.Perm values → total others = .integer n) ↔
      HasNoDouble values ∧ fitsInt64 ((integers values).filter (· < 0)).sum = true ∧
        fitsInt64 ((integers values).filter (0 < ·)).sum = true) := by
  refine ⟨fun n => total_eq_integer, ?_⟩
  constructor
  · intro h
    obtain ⟨n, hall⟩ := h
    have hfilter : ∀ p : Int → Bool, fitsInt64 ((integers values).filter p).sum = true := by
      intro p
      -- In some order the integers of the kind come first, so that their sum is a partial one.
      have hperm := List.filter_append_perm (fun v => v.asInteger?.any (p ·.toInt)) values
      have hfits := (total_eq_integer.1 (hall _ hperm)).2.1
      rw [integers, List.filterMap_append] at hfits
      have hfirst := hfits _ (List.prefix_append _ _)
      rw [Int.zero_add] at hfirst
      rw [← integers_filter]
      exact hfirst
    exact ⟨(total_eq_integer.1 (hall _ (.refl _))).1, hfilter _, hfilter _⟩
  · intro h
    obtain ⟨hnone, hlow, hhigh⟩ := h
    have hfits : ∀ xs ys : List Int, ys.Perm (integers values) → xs.Sublist ys →
        fitsInt64 xs.sum = true := by
      intro xs ys hperm hxs
      rw [← (hperm.filter _).sum_eq] at hlow hhigh
      exact fitsInt64_of_le hlow hhigh (sum_of_sublist hxs)
    refine ⟨Int64.ofInt (integers values).sum, ?_⟩
    intro others hperm
    have hsame : (integers others).Perm (integers values) := hperm.filterMap _
    rw [total_eq_integer]
    refine ⟨fun d hd => hnone d (hperm.mem_iff.1 hd), ?_, ?_⟩
    · intro first hfirst
      rw [Int.zero_add]
      exact hfits _ _ hsame hfirst.sublist
    · rw [Memory.toInt_ofInt (hfits _ _ (.refl _) (.refl _)), hsame.sum_eq]

/-- The greatest integer, one more and one less: the sum fits, but that of the first two does not,
and it is given as a double.  With the last two the other way round it is exact. -/
theorem total_not_exact :
    let values : List Value := [.integer Int64.maxValue, .integer 1, .integer (-1)]
    HasNoDouble values ∧ (integers values).sum = Int64.maxValue.toInt ∧
      total values = .double ⟨0x43e0000000000000⟩ ∧
      total [.integer Int64.maxValue, .integer (-1), .integer 1] = .integer Int64.maxValue := by
  intro values
  have hnone : HasNoDouble values := by simp [HasNoDouble, values]
  have hexact : (values.foldl Totals.add {}).exact = none := by decide +kernel
  have hrounded : (values.foldl Totals.add {}).rounded = ⟨0x43e0000000000000⟩ := by decide +kernel
  refine ⟨hnone, by decide, ?_, rfl⟩
  unfold total
  dsimp only
  rw [hexact, hrounded]

/-! ## The mean -/

/-- There is a mean unless no value is a number. -/
theorem mean?_eq_none_iff {values : List Value} :
    mean? values = none ↔ ∀ v ∈ values, v.asDouble? = none := by
  have hnone : mean? values = none ↔ (values.filterMap (·.asDouble?)).isEmpty = true := by
    unfold mean?
    dsimp only
    split <;> simp_all
  rw [hnone, List.isEmpty_iff, List.filterMap_eq_nil_iff]

/-- Where no number is a double, the numbers are the integers. -/
theorem numbers_eq_map_ofInt {values : List Value} (h : HasNoDouble values) :
    values.filterMap (·.asDouble?) = (integers values).map Double.ofInt := by
  induction values with
  | nil => rfl
  | cons v rest ih =>
      obtain ⟨hv, hrest⟩ := hasNoDouble_cons.1 h
      cases v with
      | integer n =>
          have hsum : integers (.integer n :: rest) = n.toInt :: integers rest := rfl
          rw [hsum, List.map_cons, ← ih hrest]
          rfl
      | double d => exact absurd rfl (hv d)
      | _ => exact ih hrest

/-- Integers whose magnitudes add up to at most 53 bits are added without rounding. -/
theorem foldl_add_ofInt {m : Int} {terms : List Int}
    (h : m.natAbs + (terms.map Int.natAbs).sum < 2 ^ 53) :
    (terms.map Double.ofInt).foldl Double.add (.ofInt m) = .ofInt (m + terms.sum) := by
  induction terms generalizing m with
  | nil => rw [List.sum_nil, Int.add_zero, List.map_nil, List.foldl_nil]
  | cons n rest ih =>
      rw [List.map_cons, List.sum_cons] at h
      rw [List.map_cons, List.foldl_cons, Double.add_ofInt (by omega) (by omega), ih (by omega),
        List.sum_cons, Int.add_assoc]

theorem natAbs_sum_le (terms : List Int) : terms.sum.natAbs ≤ (terms.map Int.natAbs).sum := by
  induction terms with
  | nil => exact Nat.le_refl _
  | cons n rest ih =>
      rw [List.sum_cons, List.map_cons, List.sum_cons]
      omega

/-- **The mean.**  The mean of integers whose magnitudes add up to at most 53 bits is the double
nearest to their sum divided by their number. -/
theorem mean?_integers {values : List Value} (hnone : HasNoDouble values)
    (hsome : integers values ≠ []) (hsum : ((integers values).map Int.natAbs).sum < 2 ^ 53)
    (hlength : (integers values).length < 2 ^ 53) :
    mean? values = some (.ofRatio ((integers values).sum < 0) (integers values).sum.natAbs
      (integers values).length) := by
  have hnumbers := numbers_eq_map_ofInt hnone
  cases hterms : integers values with
  | nil => exact absurd hterms hsome
  | cons n rest =>
      rw [hterms] at hsum hlength hnumbers
      have hbound := Nat.lt_of_le_of_lt (natAbs_sum_le (n :: rest)) hsum
      rw [List.map_cons, List.sum_cons] at hsum
      have htotal : ((n :: rest).map Double.ofInt).foldl Double.add (.ofMagnitude true 0)
          = .ofInt (n :: rest).sum := by
        rw [List.map_cons, List.foldl_cons, Double.negativeZero_add_ofInt (by omega),
          foldl_add_ofInt hsum, List.sum_cons]
      unfold mean?
      dsimp only
      rw [hnumbers, htotal, List.length_map, Double.div_ofInt hbound hlength (Nat.succ_ne_zero _)]
      rfl

example : mean? [.integer 1, .null, .integer 2] = some (.ofRatio false 3 2) := by
  decide +kernel

end DocStore.Aggregate
