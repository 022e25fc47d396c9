import DocStore.Text.Blank
import Mathlib.Data.List.Basic
import Mathlib.Data.List.TakeWhile

/-!
# Stripped texts

A text has nothing to strip when neither its first nor its last character is stripped
(`strip_eq_self_iff`), as holds of a text that has been stripped (`strip_strip`).  A text that has
no blanks around it once it has lost the slashes at its ends had none before
(`trim_eq_self_of_strip`).
-/

namespace DocStore.Text

variable {p : Char → Bool} {cs : List Char}

theorem dropWhile_eq_self_iff : cs.dropWhile p = cs ↔ ∀ c ∈ cs.head?, p c = false := by
  cases cs with
  | nil => simp
  | cons c cs =>
      constructor
      · intro h d hd
        cases hd
        rw [Bool.eq_false_iff]
        intro hc
        rw [List.dropWhile_cons_of_pos hc] at h
        have hlength := (List.dropWhile_sublist p (l := cs)).length_le
        rw [h] at hlength
        exact absurd hlength (by simp)
      · intro h
        exact List.dropWhile_cons_of_neg (by simp [h c rfl])

theorem toList_ne_nil {s : String} (h : s.isEmpty = false) : s.toList ≠ [] := by
  intro hnil
  rw [String.toList_inj.1 (hnil.trans String.toList_empty.symm)] at h
  cases h

/-- Behind the front, stripping takes characters from the back. -/
theorem prefix_stripChars (p : Char → Bool) (cs : List Char) :
    stripChars p cs <+: cs.dropWhile p := by
  rw [stripChars, ← List.reverse_suffix, List.reverse_reverse]
  exact List.dropWhile_suffix p

/-- Stripping takes characters from the ends alone. -/
theorem isInfix_stripChars (p : Char → Bool) (cs : List Char) : stripChars p cs <:+: cs :=
  (prefix_stripChars p cs).isInfix.trans (List.dropWhile_suffix p).isInfix

/-- Nothing is stripped of characters of which neither the first nor the last is. -/
theorem stripChars_eq_self_iff :
    stripChars p cs = cs ↔ (∀ c ∈ cs.head?, p c = false) ∧ ∀ c ∈ cs.getLast?, p c = false := by
  rw [← dropWhile_eq_self_iff, ← List.head?_reverse, ← dropWhile_eq_self_iff]
  constructor
  · intro h
    have hfront : cs.dropWhile p = cs := by
      have hlength : cs.length ≤ (cs.dropWhile p).length := by
        have hback := ((List.dropWhile_sublist p (l := (cs.dropWhile p).reverse))).length_le
        rw [List.length_reverse, ← List.length_reverse] at hback
        rw [show ((cs.dropWhile p).reverse.dropWhile p).reverse = cs from h] at hback
        exact hback
      exact (List.dropWhile_suffix p).eq_of_length
        (Nat.le_antisymm (List.dropWhile_sublist p).length_le hlength)
    rw [stripChars, hfront] at h
    have hback := congrArg List.reverse h
    rw [List.reverse_reverse] at hback
    exact ⟨hfront, hback⟩
  · intro hboth
    obtain ⟨hfront, hback⟩ := hboth
    rw [stripChars, hfront, hback, List.reverse_reverse]

/-- What has been stripped has nothing to strip. -/
theorem stripChars_stripChars (p : Char → Bool) (cs : List Char) :
    stripChars p (stripChars p cs) = stripChars p cs := by
  have hhead (l : List Char) : ∀ c ∈ (l.dropWhile p).head?, p c = false := by
    intro c hc
    have hfirst := List.head?_dropWhile_not p l
    rwa [Option.mem_def.1 hc] at hfirst
  rw [stripChars_eq_self_iff]
  constructor
  · obtain ⟨back, hback⟩ := prefix_stripChars p cs
    intro c hc
    refine hhead cs c ?_
    rw [← hback, List.head?_append, Option.mem_def.1 hc]
    rfl
  · rw [stripChars, List.getLast?_reverse]
    exact hhead _

theorem strip_eq_self_iff {s : String} :
    strip p s = s ↔
      (∀ c ∈ s.toList.head?, p c = false) ∧ ∀ c ∈ s.toList.getLast?, p c = false := by
  rw [← stripChars_eq_self_iff, strip, ← String.toList_inj, String.toList_ofList]

theorem strip_strip (p : Char → Bool) (s : String) : strip p (strip p s) = strip p s := by
  rw [strip, strip, String.toList_ofList, stripChars_stripChars]

/-- A text that is left by stripping it twice had nothing to strip. -/
theorem strip_eq_self_of_strip {q : Char → Bool} {s : String} (h : strip q (strip p s) = s) :
    strip p s = s := by
  have hlist : stripChars q (stripChars p s.toList) = s.toList := by
    have htwice := congrArg String.toList h
    rwa [strip, strip, String.toList_ofList, String.toList_ofList] at htwice
  have hlength : s.toList.length ≤ (stripChars p s.toList).length := by
    have hle := (isInfix_stripChars q (stripChars p s.toList)).length_le
    rwa [hlist] at hle
  rw [strip, (isInfix_stripChars p s.toList).eq_of_length
    (Nat.le_antisymm (isInfix_stripChars p s.toList).length_le hlength), String.ofList_toList]

/-- Nothing is stripped of a text that goes from one with nothing to strip to one without characters
that are stripped. -/
theorem strip_append_append {s t : String} (hs : s.isEmpty = false) (hstrip : strip p s = s)
    (ht : t.isEmpty = false) (hkept : ∀ c ∈ t.toList, p c = false) (between : String) :
    strip p (s ++ between ++ t) = s ++ between ++ t := by
  rw [strip_eq_self_iff] at hstrip ⊢
  rw [String.toList_append, String.toList_append, List.append_assoc,
    List.head?_append_of_ne_nil _ (toList_ne_nil hs), ← List.append_assoc,
    List.getLast?_append_of_ne_nil _ (toList_ne_nil ht)]
  exact ⟨hstrip.1, fun c hc => hkept c (List.mem_of_getLast? hc)⟩

/-- Where the first character is kept, stripping leaves the front as it is. -/
theorem head?_stripChars_of_not {c : Char} (hc : cs.head? = some c) (hkept : p c = false) :
    (stripChars p cs).head? = some c := by
  have hfront : cs.dropWhile p = cs := by
    rw [dropWhile_eq_self_iff, hc]
    rintro _ ⟨⟩
    exact hkept
  obtain ⟨first, rest, rfl⟩ : ∃ first rest, cs = first :: rest := by
    cases cs with
    | nil => cases hc
    | cons first rest => exact ⟨first, rest, rfl⟩
  cases hc
  rw [stripChars, hfront, List.reverse_cons, List.dropWhile_append]
  split
  · rw [List.dropWhile_cons_of_neg (by simp [hkept])]
    rfl
  · simp

/-- Where the last character is kept, stripping leaves the back as it is. -/
theorem getLast?_stripChars_of_not {c : Char} (hc : cs.getLast? = some c) (hkept : p c = false) :
    (stripChars p cs).getLast? = some c := by
  have hrest : ((cs.dropWhile p).reverse).head? = some c := by
    obtain ⟨front, hsplit⟩ := List.dropWhile_suffix p (l := cs)
    rw [List.head?_reverse]
    cases hdropped : cs.dropWhile p with
    | nil =>
        rw [List.dropWhile_eq_nil_iff] at hdropped
        have hdrop := hdropped c (List.mem_of_getLast? hc)
        rw [hkept] at hdrop
        cases hdrop
    | cons first rest =>
        rw [hdropped] at hsplit
        rw [← hsplit, List.getLast?_append_of_ne_nil _ (List.cons_ne_nil _ _)] at hc
        exact hc
  have hback : (cs.dropWhile p).reverse.dropWhile p = (cs.dropWhile p).reverse := by
    rw [dropWhile_eq_self_iff, hrest]
    rintro _ ⟨⟩
    exact hkept
  rw [stripChars, hback, List.reverse_reverse, ← List.head?_reverse, hrest]

/-- A text has no blanks around it if it has none without the slashes at its ends. -/
theorem trim_eq_self_of_strip {s : String}
    (h : trim (strip (· == '/') s) = strip (· == '/') s) : trim s = s := by
  have hends := strip_eq_self_iff.1 h
  rw [strip, String.toList_ofList] at hends
  have hslash {c : Char} (hc : (c == '/') = true) : isBlank c = false := by
    rw [beq_iff_eq.1 hc]
    decide
  rw [trim, strip_eq_self_iff]
  constructor
  · intro c hc
    cases hkept : c == '/' with
    | true => exact hslash hkept
    | false => exact hends.1 c (head?_stripChars_of_not hc hkept)
  · intro c hc
    cases hkept : c == '/' with
    | true => exact hslash hkept
    | false => exact hends.2 c (getLast?_stripChars_of_not hc hkept)

end DocStore.Text
