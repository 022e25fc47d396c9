import DocStore.Text.Base64

/-!
# Reading base64 back

Bytes are read back from their text (`decode?_encode`).  The groups are read one by one; as no digit
is the padding, only the last one can be short.
-/

namespace DocStore.Text.Base64

theorem digit?_symbol {n : Nat} (h : n < 64) : digit? (symbol n) = some n := by
  have hall : ∀ m < 64, digit? (symbol m) = some m := by decide
  exact hall n h

theorem symbol_ne_padding {n : Nat} (h : n < 64) : symbol n ≠ '=' := by
  have hall : ∀ m < 64, symbol m ≠ '=' := by decide
  exact hall n h

/-- A full group is read as its three bytes. -/
theorem decodeChars_group {a b c d : Nat} (ha : a < 64) (hb : b < 64) (hc : c < 64) (hd : d < 64)
    (rest : List Char) :
    decodeChars (symbol a :: symbol b :: symbol c :: symbol d :: rest)
      = (decodeChars rest).map fun bytes =>
          UInt8.ofNat (a * 4 + b / 16) :: UInt8.ofNat (b % 16 * 16 + c / 4)
            :: UInt8.ofNat (c % 4 * 64 + d) :: bytes := by
  rw [decodeChars, digit?_symbol ha, digit?_symbol hb, digit?_symbol hc, digit?_symbol hd]
  · cases decodeChars rest <;> rfl
  · intro _ hpadding
    exact absurd hpadding (symbol_ne_padding hd)
  · intro hpadding
    exact absurd hpadding (symbol_ne_padding hd)

/-- The digits of bytes are read as the bytes. -/
theorem decodeChars_encodeChars (bytes : List UInt8) :
    decodeChars (encodeChars bytes) = some bytes := by
  have hbyte {n : Nat} {x : UInt8} (h : n = x.toNat) : UInt8.ofNat n = x := by
    rw [h, UInt8.ofNat_toNat]
  match bytes with
  | [] => rfl
  | [a] =>
      have ha := a.toNat_lt
      have hfirst := @hbyte (a.toNat / 4 * 4 + a.toNat % 4 * 16 / 16) a (by omega)
      have hleft : a.toNat % 4 * 16 % 16 = 0 := by omega
      simp only [encodeChars, decodeChars, digit?_symbol (show a.toNat / 4 < 64 by omega),
        digit?_symbol (show a.toNat % 4 * 16 < 64 by omega), Option.bind_eq_bind, Option.bind_some,
        hleft, BEq.rfl, if_true, hfirst]
  | [a, b] =>
      have ha := a.toNat_lt
      have hb := b.toNat_lt
      have hmiddle : a.toNat % 4 * 16 + b.toNat / 16 < 64 := by omega
      have hlast : b.toNat % 16 * 4 < 64 := by omega
      have hfirst := @hbyte (a.toNat / 4 * 4 + (a.toNat % 4 * 16 + b.toNat / 16) / 16) a (by omega)
      have hsecond := @hbyte
        ((a.toNat % 4 * 16 + b.toNat / 16) % 16 * 16 + b.toNat % 16 * 4 / 4) b (by omega)
      have hleft : b.toNat % 16 * 4 % 4 = 0 := by omega
      rw [encodeChars, decodeChars, digit?_symbol (by omega), digit?_symbol hmiddle,
        digit?_symbol hlast]
      · simp only [Option.bind_eq_bind, Option.bind_some, hleft, BEq.rfl, if_true, hfirst, hsecond]
      · exact symbol_ne_padding hlast
  | a :: b :: c :: rest =>
      have ha := a.toNat_lt
      have hb := b.toNat_lt
      have hc := c.toNat_lt
      have hfirst := @hbyte (a.toNat / 4 * 4 + (a.toNat % 4 * 16 + b.toNat / 16) / 16) a (by omega)
      have hsecond := @hbyte ((a.toNat % 4 * 16 + b.toNat / 16) % 16 * 16
        + (b.toNat % 16 * 4 + c.toNat / 64) / 4) b (by omega)
      have hthird := @hbyte ((b.toNat % 16 * 4 + c.toNat / 64) % 4 * 64 + c.toNat % 64) c (by omega)
      rw [encodeChars, decodeChars_group (by omega) (by omega) (by omega) (by omega),
        decodeChars_encodeChars rest, Option.map_some, hfirst, hsecond, hthird]

/-- **Base64.**  Bytes are read back from their text. -/
theorem decode?_encode (bytes : List UInt8) : decode? (encode bytes) = some bytes := by
  rw [decode?, encode, String.toList_ofList, decodeChars_encodeChars]

end DocStore.Text.Base64
