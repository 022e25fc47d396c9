import DocStore.Proofs.OrderedId
import DocStore.Proofs.Text.Bytes
import Mathlib.Algebra.Ring.Nat

/-!
# The order of generated ids

Of the ids that a generator makes one after the other, each text comes after those before it in the
order of bytes, whatever the clock reads (`texts_increase`).

Two things go into this.  A step of the generator makes a larger number as long as the counter has
room: a later millisecond counts for more than any counter, and within a millisecond the counter
goes up.  A counter starts in the lower half of its range, so there is room for as many steps as
there are numbers in the upper half (`HasRoom.next`).  And texts of one number of digits are ordered
as the numbers are (`text_lt_text`), since the highest digit in which they differ decides
(`lastDigits_lt_lastDigits`) and the dashes stand at the same places.
-/

namespace DocStore

/-! ## Digits -/

namespace Number

theorem lastDigits_succ (base count n : Nat) :
    lastDigits base (count + 1) n = n / base ^ count % base :: lastDigits base count n := by
  unfold lastDigits power
  rw [List.range_succ_eq_map, List.map_cons, List.map_map]
  congr 1
  refine List.map_congr_left fun i _ => ?_
  have hplace : count + 1 - 1 - (i + 1) = count - 1 - i := by omega
  rw [Function.comp_apply, hplace]

theorem length_lastDigits (base count n : Nat) : (lastDigits base count n).length = count := by
  simp [lastDigits]

theorem lt_of_mem_lastDigits {base count n d : Nat} (hbase : 0 < base)
    (h : d ∈ lastDigits base count n) : d < base := by
  obtain ⟨i, -, rfl⟩ := List.mem_map.1 h
  exact Nat.mod_lt _ hbase

/-- **The order of digits.**  The digits in the last places are ordered as the numbers that they
write. -/
theorem lastDigits_lt_lastDigits {base count m n : Nat} (hbase : 0 < base)
    (h : m % base ^ count < n % base ^ count) :
    lastDigits base count m < lastDigits base count n := by
  induction count with
  | zero => simp [Nat.mod_one] at h
  | succ count ih =>
      rw [Nat.mod_pow_succ, Nat.mod_pow_succ] at h
      rw [lastDigits_succ, lastDigits_succ, List.cons_lt_cons_iff]
      rcases Nat.lt_trichotomy (m / base ^ count % base) (n / base ^ count % base) with
        hless | hsame | hmore
      · exact .inl hless
      · rw [hsame, Nat.add_lt_add_iff_right] at h
        exact .inr ⟨hsame, ih h⟩
      · -- A larger digit in front counts for more than all digits behind it.
        have hbehind := Nat.mod_lt n (Nat.pow_pos (n := count) hbase)
        have hahead := Nat.mul_le_mul_left (base ^ count) (Nat.succ_le_of_lt hmore)
        rw [Nat.mul_succ] at hahead
        generalize m % base ^ count = low at h
        omega

end Number

/-! ## Texts -/

/-- Of lists that begin with equally many items, these items decide before those behind them. -/
theorem append_lt_append_iff {α : Type} [LT α] {as bs us vs : List α}
    (h : as.length = bs.length) : as ++ us < bs ++ vs ↔ as < bs ∨ as = bs ∧ us < vs := by
  induction as generalizing bs with
  | nil =>
      obtain rfl := List.length_eq_zero_iff.1 h.symm
      simp
  | cons a rest ih =>
      cases bs with
      | nil => cases h
      | cons b others =>
          simp only [List.cons_append, List.cons_lt_cons_iff, ih (Nat.succ.inj h), List.cons.injEq]
          tauto

namespace OrderedId

/-- Characters in groups are ordered as the characters are. -/
theorem grouped_lt_grouped {sizes : List Nat} {as bs : List Char} (hlength : as.length = bs.length)
    (hsizes : as.length ≤ sizes.sum) (h : as < bs) : grouped sizes as < grouped sizes bs := by
  induction sizes generalizing as bs with
  | nil =>
      obtain rfl := List.length_eq_zero_iff.1 (Nat.le_zero.1 hsizes)
      obtain rfl := List.length_eq_zero_iff.1 hlength.symm
      exact absurd h (List.not_lt_nil [])
  | cons size sizes ih =>
      rw [List.sum_cons] at hsizes
      cases sizes with
      | nil =>
          rw [List.sum_nil, Nat.add_zero] at hsizes
          rw [grouped, grouped, List.take_of_length_le hsizes,
            List.take_of_length_le (hlength ▸ hsizes)]
          exact h
      | cons next rest =>
          have htake : (as.take size).length = (bs.take size).length := by
            rw [List.length_take, List.length_take, hlength]
          have hdrop : (as.drop size).length = (bs.drop size).length := by
            rw [List.length_drop, List.length_drop, hlength]
          rw [← List.take_append_drop size as, ← List.take_append_drop size bs,
            append_lt_append_iff htake] at h
          change as.take size ++ '-' :: grouped (next :: rest) (as.drop size)
            < bs.take size ++ '-' :: grouped (next :: rest) (bs.drop size)
          rw [append_lt_append_iff htake, List.cons_lt_cons_iff]
          refine h.imp_right fun hboth => ⟨hboth.1, .inr ⟨rfl, ih hdrop ?_ hboth.2⟩⟩
          rw [List.length_drop]
          omega

/-- The digits of an id. -/
def digits (id : OrderedId) : List Char := (Number.lastDigits 16 32 id.value).map Nat.digitChar

theorem length_digits (id : OrderedId) : id.digits.length = 32 := by
  rw [digits, List.length_map, Number.length_lastDigits]

theorem digitChar_lt_digitChar :
    ∀ m < 16, ∀ n < 16, m < n → Nat.digitChar m < Nat.digitChar n := by decide

theorem isAscii_digitChar : ∀ n < 16, Text.IsAscii (Nat.digitChar n) := by
  unfold Text.IsAscii
  decide

theorem isAscii_of_mem_digits {id : OrderedId} {c : Char} (h : c ∈ id.digits) : Text.IsAscii c := by
  obtain ⟨n, hn, rfl⟩ := List.mem_map.1 h
  exact isAscii_digitChar n (Number.lt_of_mem_lastDigits (by decide) hn)

theorem text_eq (id : OrderedId) : id.text = String.ofList (grouped [8, 4, 4, 4, 12] id.digits) :=
  rfl

/-- **The order of texts.**  Ids of 128 bits are ordered by the bytes of their texts as by their
bits. -/
theorem text_lt_text {a b : OrderedId} (h : a.value < b.value) (hb : b.value < 16 ^ 32) :
    Text.Percent.bytes a.text < Text.Percent.bytes b.text := by
  have hless : Number.lastDigits 16 32 a.value < Number.lastDigits 16 32 b.value := by
    apply Number.lastDigits_lt_lastDigits (by decide)
    simpa only [Nat.mod_eq_of_lt (Nat.lt_trans h hb), Nat.mod_eq_of_lt hb] using h
  have hdigits : a.digits < b.digits := by
    refine map_lt_map_of_mem hless fun m hm n hn hmn => ?_
    exact digitChar_lt_digitChar m (Number.lt_of_mem_lastDigits (by decide) hm) n
      (Number.lt_of_mem_lastDigits (by decide) hn) hmn
  have hascii (id : OrderedId) : ∀ c ∈ grouped [8, 4, 4, 4, 12] id.digits, Text.IsAscii c := by
    intro c hc
    rcases mem_grouped hc with rfl | hc
    · unfold Text.IsAscii
      decide
    · exact isAscii_of_mem_digits hc
  have hgrouped : grouped [8, 4, 4, 4, 12] a.digits < grouped [8, 4, 4, 4, 12] b.digits := by
    refine grouped_lt_grouped ?_ ?_ hdigits
    · rw [length_digits, length_digits]
    · rw [length_digits]
      decide
  rw [text_eq, text_eq]
  exact Text.Percent.bytes_lt_of_lt (hascii a) (hascii b) hgrouped

/-- The character is a hexadecimal digit in lower case. -/
def isLowerHex (c : Char) : Bool := ('0' ≤ c && c ≤ '9') || ('a' ≤ c && c ≤ 'f')

/-- The character is the one that an id has at a position, as far as its shape goes. -/
def fits (c : Char) (i : Nat) : Bool :=
  if [8, 13, 18, 23].contains i then c == '-' else isLowerHex c

theorem isLowerHex_digitChar : ∀ n < 16, isLowerHex (Nat.digitChar n) = true := by decide

/-- A stretch of digits between two dashes fits. -/
theorem fits_stretch {cs : List Char} (hhex : ∀ c ∈ cs, isLowerHex c = true) {size start : Nat}
    (hlength : cs.length = size)
    (hdashless : ∀ i < start + size, start ≤ i → [8, 13, 18, 23].contains i = false) :
    ((cs.zipIdx start).all fun (c, i) => fits c i) = true := by
  rw [List.all_eq_true]
  rintro ⟨c, i⟩ hmem
  obtain ⟨hstart, hend, hc⟩ := List.mem_zipIdx hmem
  change fits c i = true
  rw [fits, hdashless i (by omega) hstart, if_neg Bool.false_ne_true]
  exact hhex c (hc ▸ List.getElem_mem _)

/-- The text of every id has the shape of an id. -/
theorem hasShape_text (id : OrderedId) : hasShape id.text.toList = true := by
  have hlength := length_digits id
  have hhex : ∀ c ∈ id.digits, isLowerHex c = true := by
    intro c hc
    obtain ⟨n, hn, rfl⟩ := List.mem_map.1 hc
    exact isLowerHex_digitChar n (Number.lt_of_mem_lastDigits (by decide) hn)
  rw [text_eq, String.toList_ofList]
  generalize id.digits = ds at hlength hhex
  have hgroup {size start : Nat} (before : Nat) (hsize : before + size ≤ 32)
      (hdashless : ∀ i < start + size, start ≤ i → [8, 13, 18, 23].contains i = false) :
      ((((ds.drop before).take size).zipIdx start).all fun (c, i) => fits c i) = true := by
    refine fits_stretch (fun c hc => hhex c (List.mem_of_mem_drop (List.mem_of_mem_take hc))) ?_
      hdashless
    rw [List.length_take, List.length_drop]
    omega
  change ((grouped [8, 4, 4, 4, 12] ds).length == 36 &&
    (grouped [8, 4, 4, 4, 12] ds).zipIdx.all fun (c, i) => fits c i) = true
  simp only [grouped, List.drop_drop, List.zipIdx_append, List.zipIdx_cons, List.all_append,
    List.all_cons, List.length_append, List.length_cons, List.length_take, List.length_drop,
    hlength, Bool.and_eq_true]
  exact ⟨rfl, hgroup 0 (by decide) (by decide), rfl, hgroup 8 (by decide) (by decide), rfl,
    hgroup 12 (by decide) (by decide), rfl, hgroup 16 (by decide) (by decide), rfl,
    hgroup 20 (by decide) (by decide)⟩

/-! ## Runs of a generator -/

/-- The generator can make some more ids within one millisecond. -/
structure HasRoom (id : OrderedId) (more : Nat) : Prop where
  millis : id.millis < 2 ^ 48
  counter : id.counter + more ≤ maxCounter

theorem HasRoom.value_lt {id : OrderedId} {more : Nat} (h : id.HasRoom more) :
    id.value < 16 ^ 32 := by
  have hmillis := h.millis
  have hcounter := h.counter
  unfold value
  unfold maxCounter at *
  omega

/-- **Steps of a generator.**  With room for one id more, the next id is larger, and there is room
for all that could follow, as long as these are no more than the counters in the upper half. -/
theorem HasRoom.next {last : OrderedId} {more now : Nat} (h : last.HasRoom (more + 1))
    (hnow : now < 2 ^ 48) (draw : Nat) (hmore : more + startBound ≤ maxCounter + 1) :
    (last.next now draw).HasRoom more ∧ last.value < (last.next now draw).value := by
  have hmillis := h.millis
  have hcounter := h.counter
  have hdraw : draw % startBound < startBound := Nat.mod_lt _ (by decide)
  unfold OrderedId.next
  dsimp only
  split
  next hsame =>
    refine ⟨⟨h.millis, ?_⟩, ?_⟩
    · change last.counter + 1 + more ≤ maxCounter
      omega
    · exact Nat.add_lt_add_left (Nat.lt_succ_self _) _
  next hother =>
    -- There is room, so the counter starts anew only for a later millisecond.
    have hlater : last.millis < max now last.millis := by
      simp only [Bool.and_eq_true, decide_eq_true_eq, not_and] at hother
      by_contra hnot
      exact hother (by omega) (by omega)
    have hbound : max now last.millis < 2 ^ 48 := Nat.max_lt.2 ⟨hnow, hmillis⟩
    refine ⟨⟨hbound, ?_⟩, ?_⟩
    · change draw % startBound + more ≤ maxCounter
      omega
    · unfold value
      dsimp only
      unfold maxCounter at *
      omega

/-- Ids that are made one after the other, in a number that the generator has room for, become
larger. -/
theorem HasRoom.sequence {last : OrderedId} {steps : List (Nat × Nat)}
    (h : last.HasRoom steps.length) (hcount : steps.length ≤ startBound)
    (hclock : ∀ step ∈ steps, step.1 < 2 ^ 48) :
    (last :: sequence last steps).Pairwise fun a b => a.value < b.value ∧ b.value < 16 ^ 32 := by
  induction steps generalizing last with
  | nil => exact List.pairwise_singleton _ _
  | cons step rest ih =>
      rw [List.forall_mem_cons] at hclock
      rw [List.length_cons] at h hcount
      obtain ⟨hroom, hlarger⟩ := h.next hclock.1 step.2
        (show rest.length + startBound ≤ maxCounter + 1 by unfold startBound maxCounter at *; omega)
      have hrest := ih hroom (Nat.le_of_succ_le hcount) hclock.2
      refine List.pairwise_cons.2 ⟨fun id hid => ?_, hrest⟩
      rcases List.mem_cons.1 hid with rfl | hid
      · exact ⟨hlarger, hroom.value_lt⟩
      · have hafter := (List.pairwise_cons.1 hrest).1 id hid
        exact ⟨Nat.lt_trans hlarger hafter.1, hafter.2⟩

/-- **Generated ids.**  Of fewer than 2^79 ids that a new generator makes, whatever it draws and
however the clock runs below 2^48 milliseconds, each text comes in the order of bytes after all
those before it, and has the shape of an id. -/
theorem texts_increase {steps : List (Nat × Nat)} (hcount : steps.length < 2 ^ 79)
    (hclock : ∀ step ∈ steps, step.1 < 2 ^ 48) :
    ((sequence initial steps).map text).Pairwise
        (fun a b => Text.Percent.bytes a < Text.Percent.bytes b) ∧
      ∀ t ∈ (sequence initial steps).map text, hasShape t.toList = true := by
  constructor
  · have hroom : initial.HasRoom steps.length :=
      ⟨by decide, by unfold initial maxCounter; dsimp only; omega⟩
    have hcounters : steps.length ≤ startBound := by
      unfold startBound
      omega
    have hlarger := hroom.sequence hcounters hclock
    exact List.pairwise_map.2 ((List.pairwise_cons.1 hlarger).2.imp fun h => text_lt_text h.1 h.2)
  · intro t ht
    obtain ⟨id, -, rfl⟩ := List.mem_map.1 ht
    exact hasShape_text id

/-- The clock stands still, goes back and jumps. -/
theorem texts_increase_uneven :
    ((sequence initial [(0, 9), (5, 3), (5, 7), (2, 1), (2 ^ 48 - 1, 4)]).map text).Pairwise
        (fun a b => Text.Percent.bytes a < Text.Percent.bytes b) ∧
      ∀ t ∈ (sequence initial [(0, 9), (5, 3), (5, 7), (2, 1), (2 ^ 48 - 1, 4)]).map text,
        hasShape t.toList = true :=
  texts_increase (by decide) (by decide)

end OrderedId

end DocStore
