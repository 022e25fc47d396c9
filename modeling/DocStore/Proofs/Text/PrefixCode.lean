import Mathlib.Data.List.Basic

/-!
# Texts behind each other

Where words end by a character that is in none of them, a word and what follows it are known from
the text (`eq_of_append_eq`).  Texts that are joined are taken apart one by one after their
separators (`joinedAfter_eq`), where none of them starts as their end does.
-/

namespace DocStore.Text

/-- The text is at its end, or a character comes next that stops a word. -/
def Ends (stops : Char → Bool) (rest : List Char) : Prop := ∀ c ∈ rest.head?, stops c = true

theorem ends_nil (stops : Char → Bool) : Ends stops [] :=
  fun _ hc => absurd hc (Option.not_mem_none _)

/-- Words end where a character stands that stops them. -/
theorem eq_of_append_eq {stops : Char → Bool} {word word' rest rest' : List Char}
    (hword : ∀ c ∈ word, stops c = false) (hword' : ∀ c ∈ word', stops c = false)
    (hrest : Ends stops rest) (hrest' : Ends stops rest') (h : word ++ rest = word' ++ rest') :
    word = word' ∧ rest = rest' := by
  have htake {word rest : List Char} (hword : ∀ c ∈ word, stops c = false)
      (hrest : Ends stops rest) : (word ++ rest).takeWhile (!stops ·) = word := by
    rw [List.takeWhile_append_of_pos fun c hc => by simp [hword c hc]]
    cases rest with
    | nil => simp
    | cons c cs => simp [hrest c rfl]
  have hsame : word = word' := by
    rw [← htake hword hrest, h, htake hword' hrest']
  subst hsame
  exact ⟨rfl, List.append_cancel_left h⟩

/-- Texts behind another one, each after the separator. -/
def joinedAfter (sep : Char) (texts : List (List Char)) : List Char :=
  texts.flatMap fun text => sep :: text

@[simp] theorem joinedAfter_nil (sep : Char) : joinedAfter sep [] = [] := rfl

@[simp] theorem joinedAfter_cons (sep : Char) (text : List Char) (texts : List (List Char)) :
    joinedAfter sep (text :: texts) = sep :: (text ++ joinedAfter sep texts) := List.flatMap_cons

theorem intercalate_cons_eq (sep : Char) (text : List Char) (texts : List (List Char)) :
    [sep].intercalate (text :: texts) = text ++ joinedAfter sep texts := by
  induction texts generalizing text with
  | nil => simp
  | cons next texts ih => simp [List.intercalate_cons_cons, ih]

/-- A character between texts that are joined is the separator, or it belongs to one of them. -/
theorem mem_intercalate {sep c : Char} {texts : List (List Char)}
    (h : c ∈ [sep].intercalate texts) : c = sep ∨ ∃ text ∈ texts, c ∈ text := by
  cases texts with
  | nil => cases h
  | cons text texts =>
      rw [intercalate_cons_eq, List.mem_append, joinedAfter, List.mem_flatMap] at h
      rcases h with hfirst | ⟨later, hlater, hc⟩
      · exact .inr ⟨text, List.mem_cons_self, hfirst⟩
      · rcases List.mem_cons.1 hc with rfl | hc
        · exact .inl rfl
        · exact .inr ⟨later, List.mem_cons_of_mem _ hlater, hc⟩

/-- The separator follows every text that is joined, where it or another stop follows the last. -/
theorem ends_joinedAfter {stops : Char → Bool} {sep : Char} (hsep : stops sep = true)
    (texts : List (List Char)) {rest : List Char} (hrest : Ends stops rest) :
    Ends stops (joinedAfter sep texts ++ rest) := by
  cases texts with
  | nil => exact hrest
  | cons text texts =>
      intro c hc
      cases hc
      exact hsep

/-- The text is not empty, and no character comes first that stops a word. -/
def IsOpen (stops : Char → Bool) (text : List Char) : Prop :=
  ∃ c cs, text = c :: cs ∧ stops c = false

/-- Texts that are joined in the same way up to their end are so after their separators, too: as no
text starts like an end, it is seen whether there is one. -/
theorem joinedAfter_eq {stops : Char → Bool} (sep : Char) {texts texts' : List (List Char)}
    (hopen : ∀ text ∈ texts, IsOpen stops text) (hopen' : ∀ text ∈ texts', IsOpen stops text)
    {rest rest' : List Char} (hrest : Ends stops rest) (hrest' : Ends stops rest')
    (h : [sep].intercalate texts ++ rest = [sep].intercalate texts' ++ rest') :
    joinedAfter sep texts ++ rest = joinedAfter sep texts' ++ rest' := by
  have hne {text rest later : List Char} (htext : IsOpen stops text) (hrest : Ends stops rest) :
      rest ≠ text ++ later := by
    obtain ⟨c, cs, rfl, hc⟩ := htext
    rintro rfl
    have hstop := hrest c rfl
    rw [hc] at hstop
    cases hstop
  cases texts with
  | nil =>
      cases texts' with
      | nil => exact h
      | cons text' texts' =>
          rw [intercalate_cons_eq, List.append_assoc] at h
          exact absurd h (hne (hopen' text' List.mem_cons_self) hrest)
  | cons text texts =>
      cases texts' with
      | nil =>
          rw [intercalate_cons_eq, List.append_assoc] at h
          exact absurd h.symm (hne (hopen text List.mem_cons_self) hrest')
      | cons text' texts' =>
          rw [intercalate_cons_eq, intercalate_cons_eq] at h
          rw [joinedAfter_cons, joinedAfter_cons, List.cons_append, List.cons_append, h]

end DocStore.Text
