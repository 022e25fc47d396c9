import DocStore.Text.Percent
import Mathlib.Data.List.Basic

/-!
# The bytes of a text

Texts are ordered by their bytes in UTF-8.  The bytes of a text are those of its characters one
after the other (`bytes_ofList`), and a character of ASCII is one byte.  So texts of ASCII are
ordered by their bytes as they are by their characters (`bytes_lt_of_lt`).
-/

namespace DocStore

/-- A function that keeps the order of the items of two lists keeps the order of the lists. -/
theorem map_lt_map_of_mem {α β : Type} [LT α] [LT β] {f : α → β} {as bs : List α} (h : as < bs)
    (hf : ∀ a ∈ as, ∀ b ∈ bs, a < b → f a < f b) : as.map f < bs.map f := by
  induction h with
  | nil => exact .nil
  | rel hless => exact .rel (hf _ List.mem_cons_self _ List.mem_cons_self hless)
  | cons _ ih =>
      refine .cons (ih fun a ha b hb => hf a ?_ b ?_)
      · exact List.mem_cons_of_mem _ ha
      · exact List.mem_cons_of_mem _ hb

namespace Text

/-- The character is one of ASCII. -/
def IsAscii (c : Char) : Prop := c.toNat < 128

namespace Percent

theorem toList_loop (bs : ByteArray) (i : Nat) (before : List UInt8) :
    ByteArray.toList.loop bs i before = before.reverse ++ bs.data.toList.drop i := by
  fun_induction ByteArray.toList.loop bs i before with
  | case1 i before h ih =>
      have hlength : i < bs.data.toList.length := by simpa using h
      rw [ih, List.drop_eq_getElem_cons hlength]
      simp [ByteArray.get!, h]
  | case2 i before h =>
      rw [List.drop_eq_nil_of_le (by simpa using Nat.le_of_not_lt h), List.append_nil]

/-- Texts are known from their bytes. -/
theorem bytes_injective : Function.Injective bytes := by
  intro s t h
  rw [bytes, bytes, ByteArray.toList, ByteArray.toList, toList_loop, toList_loop] at h
  exact String.toByteArray_inj.1 (ByteArray.ext (Array.toList_inj.1 h))

/-- The bytes of a text are those of its characters. -/
theorem bytes_ofList (cs : List Char) :
    bytes (String.ofList cs) = cs.flatMap String.utf8EncodeChar := by
  rw [bytes, ByteArray.toList, toList_loop, String.toUTF8_eq_toByteArray,
    String.toByteArray_ofList, List.utf8Encode, List.toList_data_toByteArray]
  rfl

theorem utf8EncodeChar_of_isAscii {c : Char} (h : IsAscii c) :
    String.utf8EncodeChar c = [UInt8.ofNat c.toNat] :=
  if_pos (Nat.le_of_lt_succ h)

theorem bytes_of_isAscii {cs : List Char} (h : ∀ c ∈ cs, IsAscii c) :
    bytes (String.ofList cs) = cs.map fun c => UInt8.ofNat c.toNat := by
  rw [bytes_ofList, List.map_eq_flatMap]
  exact List.flatMap_congr fun c hc => utf8EncodeChar_of_isAscii (h c hc)

/-- **The order of bytes.**  Texts of ASCII are ordered by their bytes as by their characters. -/
theorem bytes_lt_of_lt {as bs : List Char} (has : ∀ c ∈ as, IsAscii c)
    (hbs : ∀ c ∈ bs, IsAscii c) (h : as < bs) :
    bytes (String.ofList as) < bytes (String.ofList bs) := by
  have hbyte {c : Char} (hc : IsAscii c) : (UInt8.ofNat c.toNat).toNat = c.toNat :=
    UInt8.toNat_ofNat_of_lt' (Nat.lt_trans hc (by decide))
  rw [bytes_of_isAscii has, bytes_of_isAscii hbs]
  refine map_lt_map_of_mem h fun a ha b hb hab => ?_
  rw [UInt8.lt_iff_toNat_lt, hbyte (has a ha), hbyte (hbs b hb)]
  exact hab

end Percent

end Text

end DocStore
