import DocStore.OrderedId
import DocStore.Proofs.Path.Names

/-!
# The texts of generated ids

A generated id is written with hexadecimal digits and dashes, so it stands for itself as a name in a
path: it is not empty, and has neither slashes nor blanks in it (`OrderedId.isPlainName_text`).
-/

namespace DocStore

namespace OrderedId

theorem mem_grouped {c : Char} {sizes : List Nat} {cs : List Char} (h : c ∈ grouped sizes cs) :
    c = '-' ∨ c ∈ cs := by
  induction sizes generalizing cs with
  | nil => cases h
  | cons size rest ih =>
      cases rest with
      | nil => exact .inr (List.mem_of_mem_take h)
      | cons next rest =>
          rcases List.mem_append.1 h with hhere | hlater
          · exact .inr (List.mem_of_mem_take hhere)
          · rcases List.mem_cons.1 hlater with rfl | hlater
            · exact .inl rfl
            · exact (ih hlater).imp_right List.mem_of_mem_drop

theorem digitChar_plain :
    ∀ n < 16, (Nat.digitChar n == '/') = false ∧ Text.isBlank (Nat.digitChar n) = false := by
  decide

/-- **Generated ids.**  The text of an id is a plain name. -/
theorem isPlainName_text (id : OrderedId) : Text.IsPlainName id.text := by
  have hchars : ∀ c ∈ id.text.toList, (c == '/') = false ∧ Text.isBlank c = false := by
    intro c hc
    rw [text, String.toList_ofList] at hc
    rcases mem_grouped hc with rfl | hdigit
    · decide
    · obtain ⟨n, hn, rfl⟩ := List.mem_map.1 hdigit
      obtain ⟨i, -, rfl⟩ := List.mem_map.1 hn
      exact digitChar_plain _ (Nat.mod_lt _ (by decide))
  refine ⟨?_, Text.hasChar_eq_false_iff.2 fun c hc => (hchars c hc).1, fun c hc => (hchars c hc).2⟩
  have hdash : '-' ∈ id.text.toList := by
    rw [text, String.toList_ofList]
    simp [grouped]
  rw [Bool.eq_false_iff]
  intro hempty
  rw [String.isEmpty_iff.1 hempty] at hdash
  cases hdash

end OrderedId

end DocStore
