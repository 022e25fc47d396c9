import DocStore.Proofs.Double.Number
import DocStore.Proofs.Value.Order

/-!
# Where the order of values is transitive

Integers compare exactly among each other, but with a double they compare as doubles.  An integer
rounds to its nearest double, so two integers can each compare equal to the double between them and
not to each other: the order of values is no preorder, and its equality no equivalence.

That is all that goes wrong.  Over the values that hold only integers of a set, the order is
transitive, and its equality too, exactly when no two integers of the set round to the same double
(`RoundApart`), and numbers compare as the numbers they denote, a negative zero first, exactly when
every integer of the set is a double (`compare_preorder_iff`).  Integers of at most 53 bits are.
-/

namespace DocStore

/-! ## Chained comparisons -/

/-- The third comparison follows from the first two: of `a` with `b`, of `b` with `c`, and so of `a`
with `c`. -/
def Chains (ab bc ac : Ordering) : Prop := ab.isLE → bc.isLE → ac = ab.then bc

namespace Chains

variable {ab bc ac ab' bc' ac' : Ordering}

theorem isLE (h : Chains ab bc ac) (hab : ab.isLE) (hbc : bc.isLE) : ac.isLE := by
  rw [h hab hbc]
  cases ab
  · rfl
  · exact hbc
  · cases hab

theorem eq_eq (h : Chains ab bc ac) (hab : ab = .eq) (hbc : bc = .eq) : ac = .eq := by
  subst hab hbc
  exact h rfl rfl

/-- One comparison after another: the second counts where the first are equal. -/
theorem andThen (h : Chains ab bc ac) (h' : Chains ab' bc' ac') :
    Chains (ab.then ab') (bc.then bc') (ac.then ac') := by
  intro hab hbc
  cases ab with
  | gt => cases hab
  | lt =>
      cases bc with
      | gt => cases hbc
      | lt | eq => rw [h rfl rfl]; rfl
  | eq =>
      cases bc with
      | gt => cases hbc
      | lt => rw [h rfl rfl]; cases ab' <;> first | rfl | cases hab
      | eq => rw [h rfl rfl]; exact h' hab hbc

theorem of_compare {α : Type} [Ord α] [Std.TransOrd α] (a b c : α) :
    Chains (compare a b) (compare b c) (compare a c) := by
  intro hab hbc
  cases hab' : compare a b with
  | gt => rw [hab'] at hab; cases hab
  | lt => exact Std.TransCmp.lt_of_lt_of_isLE hab' hbc
  | eq => exact Std.TransCmp.congr_left hab'

end Chains

instance : Std.TransOrd Timestamp where
  isLE_trans := by
    intro a b c hab hbc
    exact ((Chains.of_compare a.seconds.toInt b.seconds.toInt c.seconds.toInt).andThen
      (Chains.of_compare a.nanos.toInt b.nanos.toInt c.nanos.toInt)).isLE hab hbc

namespace Value

/-! ## The integers of a value -/

mutual

/-- The integers inside a value, at any depth, belong to the set. -/
def IntegersIn (N : Int64 → Prop) : Value → Prop
  | integer n => N n
  | array items => IntegersInItems N items
  | map fields => IntegersInFields N fields
  | _ => True

/-- The same of the items of an array. -/
def IntegersInItems (N : Int64 → Prop) : List Value → Prop
  | [] => True
  | v :: rest => v.IntegersIn N ∧ IntegersInItems N rest

/-- The same of the fields of a map. -/
def IntegersInFields (N : Int64 → Prop) : Fields → Prop
  | [] => True
  | (_, v) :: rest => v.IntegersIn N ∧ IntegersInFields N rest

end

/-- No two integers of the set round to the same double. -/
def RoundApart (N : Int64 → Prop) : Prop :=
  ∀ m n : Int64, N m → N n → Double.ofInt m.toInt = Double.ofInt n.toInt → m = n

theorem natAbs_int64_lt (n : Int64) : n.toInt.natAbs < 2 ^ 64 := by
  have hlow := n.le_toInt
  have hhigh := n.toInt_lt
  omega

/-! ## Numbers -/

variable {N : Int64 → Prop}

/-- Integers that round apart compare as their doubles. -/
theorem compare_integer (hN : RoundApart N) {m n : Int64} (hm : N m) (hn : N n) :
    compare (integer m) (integer n)
      = (Double.ofInt m.toInt).compareBits (Double.ofInt n.toInt) := by
  have hapart : ∀ {m n : Int64}, N m → N n → m.toInt < n.toInt →
      (Double.ofInt m.toInt).orderKey < (Double.ofInt n.toInt).orderKey := by
    intro m n hm hn hlt
    have hle := Double.orderKey_ofInt_le (natAbs_int64_lt m) (natAbs_int64_lt n) (Int.le_of_lt hlt)
    have hne : (Double.ofInt m.toInt).orderKey ≠ (Double.ofInt n.toInt).orderKey := by
      intro heq
      have hmn := hN m n hm hn (Double.orderKey_injective heq)
      rw [hmn] at hlt
      exact Int.lt_irrefl _ hlt
    omega
  show Ord.compare m.toInt n.toInt = Ord.compare (Double.orderKey _) (Double.orderKey _)
  rcases Int.lt_trichotomy m.toInt n.toInt with hlt | heq | hgt
  · rw [compare_lt_iff_lt.2 hlt, compare_lt_iff_lt.2 (hapart hm hn hlt)]
  · rw [heq, compare_eq_iff_eq.2 rfl, compare_eq_iff_eq.2 rfl]
  · rw [compare_gt_iff_gt.2 hgt, compare_gt_iff_gt.2 (hapart hn hm hgt)]

/-- Numbers over integers that round apart compare as doubles. -/
theorem compare_numbers (hN : RoundApart N) {a b : Value} (ha : a.IntegersIn N)
    (hb : b.IntegersIn N) {x y : Double} (hx : a.asDouble? = some x) (hy : b.asDouble? = some y) :
    a.compare b = x.compareBits y := by
  cases a with
  | integer m =>
      obtain rfl := Option.some.inj hx
      cases b with
      | integer n =>
          obtain rfl := Option.some.inj hy
          exact compare_integer hN ha hb
      | double e =>
          obtain rfl := Option.some.inj hy
          rfl
      | _ => cases hy
  | double d =>
      obtain rfl := Option.some.inj hx
      cases b with
      | integer n =>
          obtain rfl := Option.some.inj hy
          rfl
      | double e =>
          obtain rfl := Option.some.inj hy
          rfl
      | _ => cases hy
  | _ => cases hx

/-! ## Kinds -/

/-- Values of different kinds compare as their kinds. -/
theorem compare_of_rank_ne {a b : Value} (h : a.rank ≠ b.rank) :
    a.compare b = Ord.compare a.rank b.rank := by
  cases a <;> cases b <;> first | rfl | exact absurd rfl h

/-- Values of three kinds that are not all the same chain as their kinds do. -/
theorem chains_of_ranks {a b c : Value} (h : ¬ (a.rank = b.rank ∧ b.rank = c.rank)) :
    Chains (a.compare b) (b.compare c) (a.compare c) := by
  have hle : ∀ {x y : Value}, (x.compare y).isLE → x.rank ≤ y.rank := by
    intro x y hxy
    by_cases heq : x.rank = y.rank
    · exact Nat.le_of_eq heq
    · rw [compare_of_rank_ne heq, Nat.isLE_compare] at hxy
      exact hxy
  have hlt : ∀ {x y : Value}, x.rank < y.rank → x.compare y = .lt := by
    intro x y hxy
    rw [compare_of_rank_ne (Nat.ne_of_lt hxy), Nat.compare_eq_lt]
    exact hxy
  intro hab hbc
  have hrab := hle hab
  have hrbc := hle hbc
  rw [hlt (by omega : a.rank < c.rank)]
  by_cases hstrict : a.rank < b.rank
  · rw [hlt hstrict]
    rfl
  · -- The first two are of one kind, so the third is of a later one.
    rw [hlt (by omega : b.rank < c.rank)]
    cases h : a.compare b with
    | lt | eq => rfl
    | gt => rw [h] at hab; cases hab

mutual

/-- **Transitivity.**  Over integers that round apart comparisons chain. -/
theorem chains (hN : RoundApart N) (a b c : Value) (ha : a.IntegersIn N) (hb : b.IntegersIn N)
    (hc : c.IntegersIn N) : Chains (a.compare b) (b.compare c) (a.compare c) := by
  by_cases hkinds : a.rank = b.rank ∧ b.rank = c.rank
  case neg => exact chains_of_ranks hkinds
  obtain ⟨hab, hbc⟩ := hkinds
  have hnumbers : ∀ {x y z : Double}, a.asDouble? = some x → b.asDouble? = some y →
      c.asDouble? = some z → Chains (a.compare b) (b.compare c) (a.compare c) := by
    intro x y z hx hy hz
    rw [compare_numbers hN ha hb hx hy, compare_numbers hN hb hc hy hz,
      compare_numbers hN ha hc hx hz]
    exact Chains.of_compare x.orderKey y.orderKey z.orderKey
  cases a with
  | null | increment _ | deleteField =>
      cases b <;> cases hab <;> cases c <;> cases hbc <;> exact fun _ _ => rfl
  | boolean x =>
      cases b with
      | boolean y =>
          cases c with
          | boolean z => exact Chains.of_compare x.toNat y.toNat z.toNat
          | _ => cases hbc
      | _ => cases hab
  | integer x =>
      cases b with
      | integer y | double y =>
          cases c with
          | integer z | double z => exact hnumbers rfl rfl rfl
          | _ => cases hbc
      | _ => cases hab
  | double x =>
      cases b with
      | integer y | double y =>
          cases c with
          | integer z | double z => exact hnumbers rfl rfl rfl
          | _ => cases hbc
      | _ => cases hab
  | timestamp x =>
      cases b with
      | timestamp y =>
          cases c with
          | timestamp z => exact Chains.of_compare x y z
          | _ => cases hbc
      | _ => cases hab
  | string x =>
      cases b with
      | string y =>
          cases c with
          | string z => exact Chains.of_compare x y z
          | _ => cases hbc
      | _ => cases hab
  | bytes x =>
      cases b with
      | bytes y =>
          cases c with
          | bytes z =>
              exact Chains.of_compare (x.map UInt8.toNat) (y.map UInt8.toNat) (z.map UInt8.toNat)
          | _ => cases hbc
      | _ => cases hab
  | reference x =>
      cases b with
      | reference y =>
          cases c with
          | reference z =>
              exact Chains.of_compare (Text.split '/' x) (Text.split '/' y) (Text.split '/' z)
          | _ => cases hbc
      | _ => cases hab
  | array as =>
      cases b with
      | array bs =>
          cases c with
          | array cs => exact chainsItems hN as bs cs ha hb hc
          | _ => cases hbc
      | _ => cases hab
  | map as =>
      cases b with
      | map bs =>
          cases c with
          | map cs => exact chainsFields hN as bs cs ha hb hc
          | _ => cases hbc
      | _ => cases hab

/-- Item by item. -/
theorem chainsItems (hN : RoundApart N) (as bs cs : List Value) (ha : IntegersInItems N as)
    (hb : IntegersInItems N bs) (hc : IntegersInItems N cs) :
    Chains (compareItems as bs) (compareItems bs cs) (compareItems as cs) := by
  match as, bs, cs with
  | [], [], _ => exact fun _ _ => rfl
  | [], _ :: _, _ :: _ => exact fun _ _ => rfl
  | [], _ :: _, [] => exact fun _ h => nomatch h
  | _ :: _, [], _ => exact fun h => nomatch h
  | _ :: _, _ :: _, [] => exact fun _ h => nomatch h
  | a :: as, b :: bs, c :: cs =>
      exact (chains hN a b c ha.1 hb.1 hc.1).andThen (chainsItems hN as bs cs ha.2 hb.2 hc.2)

/-- Field by field, the name before the value. -/
theorem chainsFields (hN : RoundApart N) (as bs cs : Fields) (ha : IntegersInFields N as)
    (hb : IntegersInFields N bs) (hc : IntegersInFields N cs) :
    Chains (compareFields as bs) (compareFields bs cs) (compareFields as cs) := by
  match as, bs, cs with
  | [], [], _ => exact fun _ _ => rfl
  | [], _ :: _, _ :: _ => exact fun _ _ => rfl
  | [], _ :: _, [] => exact fun _ h => nomatch h
  | _ :: _, [], _ => exact fun h => nomatch h
  | _ :: _, _ :: _, [] => exact fun _ h => nomatch h
  | (k, a) :: as, (l, b) :: bs, (m, c) :: cs =>
      exact ((Chains.of_compare k l m).andThen (chains hN a b c ha.1 hb.1 hc.1)).andThen
        (chainsFields hN as bs cs ha.2 hb.2 hc.2)

end

/-! ## Equality as queries see it -/

theorem compare_self (a : Value) : a.compare a = .eq := by
  have hswap := compare_swap a a
  cases h : a.compare a with
  | eq => rfl
  | lt | gt => rw [h] at hswap; cases hswap

/-- Values that compare equal are of one kind. -/
theorem storeEquals_iff {a b : Value} : a.storeEquals b = true ↔ a.compare b = .eq := by
  rw [storeEquals, Bool.and_eq_true, beq_iff_eq, beq_iff_eq]
  refine ⟨And.right, fun h => ⟨?_, h⟩⟩
  by_contra hne
  rw [compare_of_rank_ne hne, Nat.compare_eq_eq] at h
  exact hne h

theorem storeEquals_comm (a b : Value) : a.storeEquals b = b.storeEquals a := by
  rw [Bool.eq_iff_iff, storeEquals_iff, storeEquals_iff, ← compare_swap a b]
  cases a.compare b <;> decide

/-! ## Numbers by what they denote -/

/-- The number that an integer denotes, in units of `2 ^ -1074`. -/
def integerNumber (n : Int64) : WithBot (WithTop Int) :=
  ((n.toInt * Double.unitsOfOne : Int) : WithTop Int)

/-- A value denotes a number, in units of `2 ^ -1074`.  A NaN denotes none. -/
inductive Denotes : Value → WithBot (WithTop Int) → Prop
  | integer (n : Int64) : Denotes (integer n) (integerNumber n)
  | double {d : Double} (h : d.isNaN = false) : Denotes (double d) d.number

/-- The double zero with the sign bit set. -/
def isNegativeZero : Value → Bool
  | double d => d.isNegativeZero
  | _ => false

/-- The integer is a double: rounding leaves it as it is. -/
def IsDouble (n : Int64) : Prop := (Double.ofInt n.toInt).number = integerNumber n

theorem integerNumber_lt {m n : Int64} (h : m.toInt < n.toInt) :
    integerNumber m < integerNumber n := by
  rw [integerNumber, integerNumber, WithBot.coe_lt_coe, WithTop.coe_lt_coe]
  exact Int.mul_lt_mul_of_pos_right h Double.unitsOfOne_pos

/-- Integers are in the order of their numbers. -/
theorem compare_integerNumber (m n : Int64) :
    Ord.compare (integerNumber m) (integerNumber n) = Ord.compare m.toInt n.toInt := by
  rcases Int.lt_trichotomy m.toInt n.toInt with hlt | heq | hgt
  · rw [compare_lt_iff_lt.2 hlt, compare_lt_iff_lt.2 (integerNumber_lt hlt)]
  · rw [Int64.toInt_inj.1 heq, compare_eq_iff_eq.2 rfl, compare_eq_iff_eq.2 rfl]
  · rw [compare_gt_iff_gt.2 hgt, compare_gt_iff_gt.2 (integerNumber_lt hgt)]

/-- Integers that are doubles compare with doubles as numbers. -/
theorem compareBits_ofInt {n : Int64} (hn : IsDouble n) {d : Double} (hd : d.isNaN = false) :
    (Double.ofInt n.toInt).compareBits d
      = (Ord.compare (integerNumber n) d.number).then (Ord.compare d.isNegativeZero false) := by
  have habs := natAbs_int64_lt n
  rw [Double.compareBits_eq (Double.isNaN_ofInt habs) hd, hn, Double.isNegativeZero_ofInt habs]

/-- Numbers whose integers are doubles compare as what they denote, a negative zero first. -/
theorem compare_of_denotes (hN : ∀ n, N n → IsDouble n) {a b : Value} (ha : a.IntegersIn N)
    (hb : b.IntegersIn N) {x y : WithBot (WithTop Int)} (hx : a.Denotes x) (hy : b.Denotes y) :
    a.compare b
      = (Ord.compare x y).then (Ord.compare b.isNegativeZero a.isNegativeZero) := by
  cases hx with
  | integer m =>
      cases hy with
      | integer n =>
          rw [compare_integerNumber]
          exact Ordering.then_eq.symm
      | double hd => exact compareBits_ofInt (hN m ha) hd
  | double hd =>
      cases hy with
      | integer n =>
          rw [← compare_swap]
          show ((Double.ofInt n.toInt).compareBits _).swap = _
          rw [compareBits_ofInt (hN n hb) hd, Ordering.swap_then, swap_compare, swap_compare]
          rfl
      | double he => exact Double.compareBits_eq hd he

/-- Integers that are doubles round apart. -/
theorem roundApart_of_isDouble (hN : ∀ n, N n → IsDouble n) : RoundApart N := by
  intro m n hm hn heq
  have hnumber : integerNumber m = integerNumber n := by
    rw [← hN m hm, ← hN n hn, heq]
  rw [← compare_eq_iff_eq, compare_integerNumber, compare_eq_iff_eq] at hnumber
  exact Int64.toInt_inj.1 hnumber

/-! ## The whole order -/

/-- Two integers with one double, and that double: where transitivity fails. -/
theorem roundApart_of_trans
    (h : ∀ a b c : Value, a.IntegersIn N → b.IntegersIn N → c.IntegersIn N →
      a.compare b = .eq → b.compare c = .eq → (a.compare c).isLE) : RoundApart N := by
  have hle : ∀ m n : Int64, N m → N n → Double.ofInt m.toInt = Double.ofInt n.toInt →
      m.toInt ≤ n.toInt := by
    intro m n hm hn heq
    have hleft : (integer m).compare (double (Double.ofInt m.toInt)) = .eq :=
      compare_eq_iff_eq.2 rfl
    have hright : (double (Double.ofInt m.toInt)).compare (integer n) = .eq := by
      rw [heq]
      exact compare_eq_iff_eq.2 rfl
    exact compare_le_iff_le.1 (Ordering.isLE_iff_ne_gt.1
      (h (integer m) (double _) (integer n) hm trivial hn hleft hright))
  intro m n hm hn heq
  exact Int64.toInt_inj.1 (Int.le_antisymm (hle m n hm hn heq) (hle n m hn hm heq.symm))

/-- **Where the order of values is a preorder.**  Comparing the other way round gives the opposite
order, and equality is reflexive and symmetric, for all values.  Over the values with integers of a
set only, the order and the equality are transitive exactly when no two of those integers round to
the same double, and numbers are in the order of what they denote, a negative zero before the other
zeros, exactly when each of those integers is a double. -/
theorem compare_preorder_iff (N : Int64 → Prop) :
    (∀ a b : Value, b.compare a = (a.compare b).swap) ∧
    (∀ a : Value, a.storeEquals a = true) ∧
    (∀ a b : Value, a.storeEquals b = b.storeEquals a) ∧
    ((∀ a b c : Value, a.IntegersIn N → b.IntegersIn N → c.IntegersIn N →
        (a.compare b).isLE → (b.compare c).isLE → (a.compare c).isLE) ↔ RoundApart N) ∧
    ((∀ a b c : Value, a.IntegersIn N → b.IntegersIn N → c.IntegersIn N →
        a.storeEquals b = true → b.storeEquals c = true → a.storeEquals c = true)
      ↔ RoundApart N) ∧
    ((∀ a b : Value, a.IntegersIn N → b.IntegersIn N →
        ∀ x y, a.Denotes x → b.Denotes y →
          a.compare b
            = (Ord.compare x y).then (Ord.compare b.isNegativeZero a.isNegativeZero))
      ↔ ∀ n, N n → IsDouble n) ∧
    ((∀ n, N n → IsDouble n) → RoundApart N) ∧
    (∀ n : Int64, n.toInt.natAbs < 2 ^ 53 → IsDouble n) := by
  refine ⟨fun a b => (compare_swap a b).symm, fun a => storeEquals_iff.2 (compare_self a),
    storeEquals_comm, ⟨?_, ?_⟩, ⟨?_, ?_⟩, ⟨?_, ?_⟩, roundApart_of_isDouble,
    fun n hn => Double.number_ofInt_of_lt hn⟩
  · intro h
    exact roundApart_of_trans fun a b c ha hb hc hab hbc =>
      h a b c ha hb hc (by rw [hab]; rfl) (by rw [hbc]; rfl)
  · intro hN a b c ha hb hc hab hbc
    exact (chains hN a b c ha hb hc).isLE hab hbc
  · intro h
    refine roundApart_of_trans fun a b c ha hb hc hab hbc => ?_
    have heq := h a b c ha hb hc (storeEquals_iff.2 hab) (storeEquals_iff.2 hbc)
    rw [storeEquals_iff.1 heq]
    rfl
  · intro hN a b c ha hb hc hab hbc
    exact storeEquals_iff.2 ((chains hN a b c ha hb hc).eq_eq (storeEquals_iff.1 hab)
      (storeEquals_iff.1 hbc))
  · -- An integer compares equal to its nearest double, so they denote the same number.
    intro h n hn
    have hnan := Double.isNaN_ofInt (natAbs_int64_lt n)
    have heq := h (integer n) (double (Double.ofInt n.toInt)) hn trivial _ _ (.integer n)
      (.double hnan)
    have hself : (integer n).compare (double (Double.ofInt n.toInt)) = .eq :=
      compare_eq_iff_eq.2 rfl
    rw [hself, eq_comm, Ordering.then_eq_eq] at heq
    exact (compare_eq_iff_eq.1 heq.1).symm
  · intro hN a b ha hb x y hx hy
    exact compare_of_denotes hN ha hb hx hy

/-- The integers `2 ^ 53` and `2 ^ 53 + 1` round to one double: they compare equal to it and not to
each other.  The integer zero and the negative zero denote the same number and are not equal. -/
theorem not_preorder :
    ((integer 9007199254740993).compare (double ⟨0x4340000000000000⟩) = .eq ∧
      (double ⟨0x4340000000000000⟩).compare (integer 9007199254740992) = .eq ∧
      (integer 9007199254740993).compare (integer 9007199254740992) = .gt) ∧
    (¬ ∀ a b c : Value, (a.compare b).isLE → (b.compare c).isLE → (a.compare c).isLE) ∧
    (¬ ∀ a b c : Value, a.storeEquals b = true → b.storeEquals c = true →
        a.storeEquals c = true) ∧
    (integer 0).storeEquals (double ⟨0x8000000000000000⟩) = false ∧
    (¬ ∀ n d x y, (integer n).Denotes x → (double d).Denotes y →
        ((integer n).storeEquals (double d) = true ↔ x = y)) := by
  have hleft : (integer 9007199254740993).compare (double ⟨0x4340000000000000⟩) = .eq := by
    decide +kernel
  have hright : (double ⟨0x4340000000000000⟩).compare (integer 9007199254740992) = .eq := by
    decide +kernel
  have hends : (integer 9007199254740993).compare (integer 9007199254740992) = .gt := by
    decide +kernel
  have hzeros : (integer 0).storeEquals (double ⟨0x8000000000000000⟩) = false := by
    decide +kernel
  refine ⟨⟨hleft, hright, hends⟩, fun h => ?_, fun h => ?_, hzeros, fun h => ?_⟩
  · have hle := h _ _ _ (by rw [hleft]; rfl) (by rw [hright]; rfl)
    rw [hends] at hle
    cases hle
  · have heq := storeEquals_iff.1 (h _ _ _ (storeEquals_iff.2 hleft) (storeEquals_iff.2 hright))
    rw [hends] at heq
    cases heq
  · have hnumber : integerNumber 0 = (⟨0x8000000000000000⟩ : Double).number := by decide +kernel
    have heq := (h 0 ⟨0x8000000000000000⟩ _ _ (.integer 0) (.double (by decide +kernel))).2 hnumber
    rw [hzeros] at heq
    cases heq

end Value

end DocStore
