import DocStore.Proofs.Text.Bytes

/-!
# Segments of a URL told from their text

A byte of a text stands for itself in a segment, or it is written as `%` and two digits.  As `%`
does not stand for itself, the first byte is known from what is written, and what is written of the
other bytes is known, too (`eq_of_encodeByte_append`).  So texts with the same segment are the same
(`encode_injective`).

A segment consists of `%` and of characters that stand for themselves (`mem_encode`), so that other
characters of ASCII can separate segments (`not_mem_encode`).
-/

namespace DocStore.Text.Percent

/-! ## The characters of a byte -/

/-- A byte is a character with its number. -/
theorem toNat_ofNat_byte (b : UInt8) : (Char.ofNat b.toNat).toNat = b.toNat := by
  have hlt := b.toNat_lt
  have hvalid : b.toNat.isValidChar := .inl (by omega)
  rw [Char.ofNat, dif_pos hvalid]
  rfl

theorem ofNat_byte_inj {a b : UInt8} : Char.ofNat a.toNat = Char.ofNat b.toNat ↔ a = b := by
  refine ⟨fun h => ?_, fun h => h ▸ rfl⟩
  rw [← UInt8.toNat_inj, ← toNat_ofNat_byte a, h, toNat_ofNat_byte]

theorem eq_of_hexDigit {m n : Nat} (hm : m < 16) (hn : n < 16) (h : hexDigit m = hexDigit n) :
    m = n := by
  have hall : ∀ m < 16, ∀ n < 16, hexDigit m = hexDigit n → m = n := by decide
  exact hall m hm n hn h

/-- The digits stand for themselves. -/
theorem hexDigit_eq {n : Nat} (h : n < 16) :
    ∃ b, isKept b = true ∧ hexDigit n = Char.ofNat b.toNat := by
  have hall : ∀ n < 16, isKept (UInt8.ofNat (hexDigit n).toNat) = true ∧
      hexDigit n = Char.ofNat (UInt8.ofNat (hexDigit n).toNat).toNat := by decide
  exact ⟨_, hall n h⟩

theorem encodeByte_of_isKept {b : UInt8} (h : isKept b = true) :
    encodeByte b = [Char.ofNat b.toNat] :=
  if_pos h

theorem encodeByte_of_not_isKept {b : UInt8} (h : isKept b = false) :
    encodeByte b = ['%', hexDigit (b.toNat / 16), hexDigit (b.toNat % 16)] :=
  if_neg (ne_true_of_eq_false h)

/-- What stands for itself is not `%`. -/
theorem ofNat_ne_percent {b : UInt8} (h : isKept b = true) : Char.ofNat b.toNat ≠ '%' := by
  intro hpercent
  obtain rfl : b = 0x25 := ofNat_byte_inj.1 hpercent
  cases h

/-! ## Bytes known from their segment -/

/-- The first byte of a segment is known, and so is the rest of the segment. -/
theorem eq_of_encodeByte_append {a b : UInt8} {rest rest' : List Char}
    (h : encodeByte a ++ rest = encodeByte b ++ rest') : a = b ∧ rest = rest' := by
  cases ha : isKept a with
  | true =>
      rw [encodeByte_of_isKept ha, List.singleton_append] at h
      cases hb : isKept b with
      | true =>
          rw [encodeByte_of_isKept hb, List.singleton_append, List.cons.injEq] at h
          exact ⟨ofNat_byte_inj.1 h.1, h.2⟩
      | false =>
          rw [encodeByte_of_not_isKept hb, List.cons_append, List.cons.injEq] at h
          exact absurd h.1 (ofNat_ne_percent ha)
  | false =>
      rw [encodeByte_of_not_isKept ha, List.cons_append] at h
      cases hb : isKept b with
      | true =>
          rw [encodeByte_of_isKept hb, List.singleton_append, List.cons.injEq] at h
          exact absurd h.1.symm (ofNat_ne_percent hb)
      | false =>
          rw [encodeByte_of_not_isKept hb] at h
          simp only [List.cons_append, List.nil_append, List.cons.injEq, true_and] at h
          obtain ⟨hhigh, hlow, hrest⟩ := h
          have hla := a.toNat_lt
          have hlb := b.toNat_lt
          have hdiv := eq_of_hexDigit (by omega) (by omega) hhigh
          have hmod := eq_of_hexDigit (by omega) (by omega) hlow
          exact ⟨UInt8.toNat_inj.1 (by omega), hrest⟩

theorem encodeByte_ne_nil (b : UInt8) : encodeByte b ≠ [] := by
  unfold encodeByte
  split <;> exact List.cons_ne_nil _ _

theorem flatMap_encodeByte_injective : Function.Injective (List.flatMap encodeByte) := by
  intro as bs h
  induction as generalizing bs with
  | nil =>
      cases bs with
      | nil => rfl
      | cons b bs =>
          rw [List.flatMap_nil, List.flatMap_cons] at h
          exact absurd (List.append_eq_nil_iff.1 h.symm).1 (encodeByte_ne_nil b)
  | cons a as ih =>
      cases bs with
      | nil =>
          rw [List.flatMap_nil, List.flatMap_cons] at h
          exact absurd (List.append_eq_nil_iff.1 h).1 (encodeByte_ne_nil a)
      | cons b bs =>
          rw [List.flatMap_cons, List.flatMap_cons] at h
          obtain ⟨rfl, hrest⟩ := eq_of_encodeByte_append h
          rw [ih hrest]

/-- **Segments of texts.**  Texts with the same segment are the same. -/
theorem encode_injective : Function.Injective encode :=
  fun _ _ h => bytes_injective (flatMap_encodeByte_injective (String.ofList_injective h))

/-! ## The characters of a segment -/

/-- A segment consists of `%` and of characters that stand for themselves. -/
theorem mem_encode {s : String} {c : Char} (h : c ∈ (encode s).toList) :
    c = '%' ∨ ∃ b, isKept b = true ∧ c = Char.ofNat b.toNat := by
  rw [encode, String.toList_ofList] at h
  obtain ⟨b, -, hc⟩ := List.mem_flatMap.1 h
  have hlt := b.toNat_lt
  cases hb : isKept b with
  | true =>
      rw [encodeByte_of_isKept hb, List.mem_singleton] at hc
      exact .inr ⟨b, hb, hc⟩
  | false =>
      rw [encodeByte_of_not_isKept hb] at hc
      simp only [List.mem_cons, List.not_mem_nil, or_false] at hc
      rcases hc with rfl | rfl | rfl
      · exact .inl rfl
      · exact .inr (hexDigit_eq (by omega))
      · exact .inr (hexDigit_eq (by omega))

/-- No other character of a byte is in a segment. -/
theorem not_mem_encode {b : UInt8} (hkept : isKept b = false) (hpercent : b ≠ 0x25) (s : String) :
    Char.ofNat b.toNat ∉ (encode s).toList := by
  intro h
  rcases mem_encode h with hb | ⟨b', hb', hb⟩
  · exact hpercent (ofNat_byte_inj.1 hb)
  · obtain rfl := ofNat_byte_inj.1 hb
    exact absurd hb' (ne_true_of_eq_false hkept)

end DocStore.Text.Percent
