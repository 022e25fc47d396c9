import DocStore.Json.Reader
import DocStore.Proofs.Json.Number
import DocStore.Proofs.Text.PrefixCode

/-!
# The text of a JSON value

A value whose doubles are finite is known from its text (`render_injective`).  The texts are a
prefix code: where two texts go on with delimiters and give the same characters, the values are the
same and so is what follows (`eq_of_render`).  A string ends at its quote, as the reader finds it
(`string?_escaped`); words and numbers end at the delimiter, which is none of their characters.
-/

namespace DocStore.Json

open Number Text

/-! ## Strings -/

section Strings

/-- The digit in base sixteen that is written has the value that it is written for. -/
theorem hexDigit?_hexChar (n : Nat) : hexDigit? (hexChar n) = some (n % 16) := by
  have hall : ∀ d < 16, hexDigit? (Nat.digitChar d) = some d := by decide
  exact hall (n % 16) (Nat.mod_lt n (by decide))

/-- The number of a control character is read as the character. -/
theorem escapedUnit?_control {c : Char} (h : c.toNat < 0x20) (rest : List Char) :
    Reader.escapedUnit? ('0' :: '0' :: hexChar (c.toNat / 16) :: hexChar c.toNat :: rest)
      = some (c, rest) := by
  have hunit : Reader.unit? ('0' :: '0' :: hexChar (c.toNat / 16) :: hexChar c.toNat :: rest)
      = some (c.toNat, rest) := by
    have hzero : hexDigit? '0' = some 0 := rfl
    have hvalue : ((0 * 16 + 0) * 16 + c.toNat / 16 % 16) * 16 + c.toNat % 16 = c.toNat := by omega
    simp only [Reader.unit?, hzero, hexDigit?_hexChar, Option.bind_eq_bind, Option.bind_some,
      hvalue]
  unfold Reader.escapedUnit?
  rw [hunit]
  have hlow : (decide (c.toNat < 0xd800) || decide (0xdfff < c.toNat)) = true := by
    rw [Bool.or_eq_true, decide_eq_true_eq]
    exact .inl (by omega)
  simp only [Option.bind_eq_bind, Option.bind_some, hlow, if_true, Char.ofNat_toNat]

/-- A character is written with a backslash and what is read as it then, or it is one that can
stand in a string. -/
theorem escapeChar_cases (c : Char) :
    (∃ escape, escapeChar c = '\\' :: escape ∧
        ∀ rest, Reader.escaped? (escape ++ rest) = some (c, rest)) ∨
      escapeChar c = [c] ∧ c ≠ '"' ∧ c ≠ '\\' ∧ ¬ c.toNat < 0x20 := by
  by_cases hshort : c ∈ ['"', '\\', '\n', '\r', '\t', '\x08', '\x0c']
  · left
    simp only [List.mem_cons, List.not_mem_nil, or_false] at hshort
    rcases hshort with rfl | rfl | rfl | rfl | rfl | rfl | rfl
    · exact ⟨['"'], rfl, fun _ => rfl⟩
    · exact ⟨['\\'], rfl, fun _ => rfl⟩
    · exact ⟨['n'], rfl, fun _ => rfl⟩
    · exact ⟨['r'], rfl, fun _ => rfl⟩
    · exact ⟨['t'], rfl, fun _ => rfl⟩
    · exact ⟨['b'], rfl, fun _ => rfl⟩
    · exact ⟨['f'], rfl, fun _ => rfl⟩
  · simp only [List.mem_cons, List.not_mem_nil, or_false, not_or] at hshort
    obtain ⟨hquote, hbackslash, hn, hr, ht, hb, hf⟩ := hshort
    simp only [escapeChar, beq_iff_eq, hquote, hbackslash, hn, hr, ht, hb, hf, if_false]
    by_cases hcontrol : c.toNat < 0x20
    · exact .inl ⟨_, if_pos hcontrol, escapedUnit?_control hcontrol⟩
    · exact .inr ⟨if_neg hcontrol, hquote, hbackslash, hcontrol⟩

/-- What is written for a character is read as the character. -/
theorem stringBody?_escapeChar (fuel : Nat) (done : List Char) (c : Char) (rest : List Char) :
    Reader.stringBody? (fuel + 1) done (escapeChar c ++ rest)
      = Reader.stringBody? fuel (c :: done) rest := by
  rcases escapeChar_cases c with ⟨escape, hescape, hread⟩ | ⟨hplain, hquote, hbackslash, hcontrol⟩
  · rw [hescape, List.cons_append, Reader.stringBody?, hread]
  · rw [hplain, List.singleton_append, Reader.stringBody?, if_neg hcontrol]
    · exact hquote
    · exact hbackslash

/-- The body of a string is read up to its quote. -/
theorem stringBody?_escaped {fuel : Nat} (cs done rest : List Char) (h : cs.length < fuel) :
    Reader.stringBody? fuel done (cs.flatMap escapeChar ++ '"' :: rest)
      = some (cs.reverse ++ done, rest) := by
  induction cs generalizing fuel done with
  | nil =>
      obtain ⟨n, rfl⟩ : ∃ n, fuel = n + 1 := ⟨fuel - 1, by omega⟩
      rfl
  | cons c cs ih =>
      obtain ⟨n, rfl⟩ : ∃ n, fuel = n + 1 := ⟨fuel - 1, by omega⟩
      rw [List.flatMap_cons, List.append_assoc, stringBody?_escapeChar,
        ih (c :: done) (by simpa using h)]
      simp

theorem length_le_length_escaped (cs : List Char) : cs.length ≤ (cs.flatMap escapeChar).length := by
  have hpos (c : Char) : 0 < (escapeChar c).length := by
    rcases escapeChar_cases c with ⟨escape, hescape, -⟩ | ⟨hplain, -⟩
    · rw [hescape]
      exact Nat.zero_lt_succ _
    · rw [hplain]
      exact Nat.zero_lt_succ _
  induction cs with
  | nil => exact Nat.le_refl 0
  | cons c cs ih =>
      have hc := hpos c
      rw [List.flatMap_cons, List.length_append, List.length_cons]
      omega

/-- **Strings.**  A string between its quotes is read up to its quote. -/
theorem string?_escaped (s : String) (rest : List Char) :
    Reader.string? (s.toList.flatMap escapeChar ++ '"' :: rest) = some (s, rest) := by
  have hfuel : s.toList.length < (s.toList.flatMap escapeChar ++ '"' :: rest).length + 1 := by
    have hlength := length_le_length_escaped s.toList
    rw [List.length_append]
    omega
  rw [Reader.string?, stringBody?_escaped _ _ _ hfuel]
  simp

theorem toList_quoted (s : String) :
    (quoted s).toList = '"' :: (s.toList.flatMap escapeChar ++ ['"']) := by
  rw [quoted, String.toList_ofList]
  rfl

/-- Strings are a prefix code. -/
theorem eq_of_quoted {s t : String} {rest rest' : List Char}
    (h : (quoted s).toList ++ rest = (quoted t).toList ++ rest') : s = t ∧ rest = rest' := by
  rw [toList_quoted, toList_quoted, List.cons_append, List.cons_append, List.append_assoc,
    List.append_assoc] at h
  have hread := congrArg Reader.string? (List.cons.inj h).2
  rw [List.singleton_append, List.singleton_append, string?_escaped, string?_escaped] at hread
  cases hread
  exact ⟨rfl, rfl⟩

end Strings

/-! ## Words and numbers -/

/-- What can follow a value inside another one. -/
def isDelimiter (c : Char) : Bool := c == ',' || c == ']' || c == '}'

theorem ends_close {close : Char} (h : isDelimiter close = true) (rest : List Char) :
    Ends isDelimiter (close :: rest) := by
  intro c hc
  cases hc
  exact h

/-- The value is written as a word. -/
def isWord : Json → Bool
  | null | bool _ => true
  | _ => false

/-- The value is a number. -/
def isNumber : Json → Bool
  | integer _ | double _ => true
  | _ => false

/-- Characters that no word and no number has. -/
def isMark (c : Char) : Bool := isDelimiter c || c == '"' || c == '[' || c == '\x7b'

theorem isMark_of_isNumberChar {c : Char} (h : IsNumberChar c) : isMark c = false := by
  rw [Bool.eq_false_iff]
  intro hmark
  simp only [isMark, isDelimiter, Bool.or_eq_true, beq_iff_eq] at hmark
  rcases hmark with ((((rfl | rfl) | rfl) | rfl) | rfl) | rfl <;> exact absurd h (by decide)

mutual

/-- Every double in the value is finite. -/
def IsFinite : Json → Prop
  | double d => d.isFinite = true
  | array items => ItemsFinite items
  | object fields => FieldsFinite fields
  | _ => True

def ItemsFinite : List Json → Prop
  | [] => True
  | j :: rest => j.IsFinite ∧ ItemsFinite rest

def FieldsFinite : List (String × Json) → Prop
  | [] => True
  | (_, j) :: rest => j.IsFinite ∧ FieldsFinite rest

end

theorem itemsFinite_iff {items : List Json} : ItemsFinite items ↔ ∀ j ∈ items, j.IsFinite := by
  induction items with
  | nil => exact ⟨fun _ _ hmem => absurd hmem List.not_mem_nil, fun _ => trivial⟩
  | cons j items ih => rw [ItemsFinite, ih, List.forall_mem_cons]

theorem fieldsFinite_append {fields fields' : List (String × Json)} :
    FieldsFinite (fields ++ fields') ↔ FieldsFinite fields ∧ FieldsFinite fields' := by
  induction fields with
  | nil => exact (and_iff_right trivial).symm
  | cons field fields ih => rw [List.cons_append, FieldsFinite, FieldsFinite, ih, and_assoc]

theorem render_double {d : Double} (h : d.isFinite = true) : (double d).render = doubleText d :=
  if_pos h

theorem isNumberChar_of_mem_render {j : Json} (h : j.isNumber = true) (hfinite : j.IsFinite) :
    ∀ c ∈ j.render.toList, IsNumberChar c := by
  cases j with
  | integer n => exact isNumberChar_of_mem_intText
  | double d =>
      rw [render_double hfinite]
      exact isNumberChar_of_mem_doubleText
  | _ => cases h

/-- No mark is in a word or a number. -/
theorem isMark_of_mem_render {j : Json} (h : j.isWord = true ∨ j.isNumber = true)
    (hfinite : j.IsFinite) : ∀ c ∈ j.render.toList, isMark c = false := by
  rcases h with hword | hnumber
  · have hall : j.render.toList.all (!isMark ·) = true := by
      cases j with
      | null => rfl
      | bool b => cases b <;> rfl
      | _ => cases hword
    exact fun c hc => by simpa using List.all_eq_true.1 hall c hc
  · exact fun c hc => isMark_of_isNumberChar (isNumberChar_of_mem_render hnumber hfinite c hc)

theorem isDelimiter_of_isMark {c : Char} (h : isMark c = false) : isDelimiter c = false := by
  simp only [isMark, Bool.or_eq_false_iff] at h
  exact h.1.1.1

/-- Words have letters that no number has. -/
theorem word_ne_number {j k : Json} (hj : j.isWord = true) (hk : k.isNumber = true)
    (hfinite : k.IsFinite) : j.render ≠ k.render := by
  intro heq
  have hletter : ∃ c ∈ j.render.toList, ¬ IsNumberChar c := by
    cases j with
    | null => exact ⟨'n', by decide, by decide⟩
    | bool b =>
        cases b with
        | true => exact ⟨'t', by decide, by decide⟩
        | false => exact ⟨'f', by decide, by decide⟩
    | _ => cases hj
  obtain ⟨c, hc, hword⟩ := hletter
  exact hword (isNumberChar_of_mem_render hk hfinite c (heq ▸ hc))

/-- Words and numbers with the same text are the same. -/
theorem eq_of_render_eq {j k : Json} (hj : j.isWord = true ∨ j.isNumber = true)
    (hk : k.isWord = true ∨ k.isNumber = true) (hjf : j.IsFinite) (hkf : k.IsFinite)
    (h : j.render = k.render) : j = k := by
  rcases hj with hj | hj
  · rcases hk with hk | hk
    · cases j with
      | null =>
          cases k with
          | null => rfl
          | bool b => cases b <;> exact absurd h (by decide)
          | _ => cases hk
      | bool b =>
          cases k with
          | null => cases b <;> exact absurd h (by decide)
          | bool b' =>
              cases b <;> cases b'
              · rfl
              · exact absurd h (by decide)
              · exact absurd h (by decide)
              · rfl
          | _ => cases hk
      | _ => cases hj
    · exact absurd h (word_ne_number hj hk hkf)
  · rcases hk with hk | hk
    · exact absurd h.symm (word_ne_number hk hj hjf)
    · cases j with
      | integer m =>
          cases k with
          | integer n => exact congrArg integer (intText_injective h)
          | double d =>
              exact absurd ((render_double hkf).symm.trans h.symm) (doubleText_ne_intText d m)
          | _ => cases hk
      | double d =>
          cases k with
          | integer n => exact absurd ((render_double hjf).symm.trans h) (doubleText_ne_intText d n)
          | double e =>
              rw [render_double hjf, render_double hkf] at h
              exact congrArg double (doubleText_injective h)
          | _ => cases hk
      | _ => cases hj

/-! ## Lists and objects -/

theorem toList_render_array (items : List Json) :
    (array items).render.toList
      = '[' :: ([','].intercalate ((renderItems items).map String.toList) ++ [']']) := by
  rw [render, String.toList_append, String.toList_append, String.toList_intercalate]
  rfl

theorem toList_render_object (fields : List (String × Json)) :
    (object fields).render.toList
      = '\x7b' :: ([','].intercalate ((renderFields fields).map String.toList) ++ ['\x7d']) := by
  rw [render, String.toList_append, String.toList_append, String.toList_intercalate]
  rfl

/-- The mark that a string, a list or an object starts with. -/
def mark? : Json → Option Char
  | string _ => some '"'
  | array _ => some '['
  | object _ => some '\x7b'
  | _ => none

/-- What is written is not empty, and tells from its first character whether it is a string, a list
or an object; no delimiter comes first. -/
theorem head_render {j : Json} (hfinite : j.IsFinite) :
    ∃ c cs, j.render.toList = c :: cs ∧ isDelimiter c = false ∧
      (if isMark c then some c else none) = j.mark? := by
  have hplain (hj : j.isWord = true ∨ j.isNumber = true) (hne : j.render.toList ≠ []) :
      ∃ c cs, j.render.toList = c :: cs ∧ isDelimiter c = false ∧
        (if isMark c then some c else none) = (none : Option Char) := by
    obtain ⟨c, cs, htext⟩ := List.exists_cons_of_ne_nil hne
    have hc : isMark c = false :=
      isMark_of_mem_render hj hfinite c (by rw [htext]; exact List.mem_cons_self)
    exact ⟨c, cs, htext, isDelimiter_of_isMark hc, by simp [hc]⟩
  cases j with
  | null => exact hplain (.inl rfl) (by decide)
  | bool b => exact hplain (.inl rfl) (by cases b <;> decide)
  | integer n =>
      refine hplain (.inr rfl) ?_
      show (intText n).toList ≠ []
      rw [toList_intText]
      exact List.append_ne_nil_of_right_ne_nil _ Nat.toDigits_ne_nil
  | double d =>
      refine hplain (.inr rfl) ?_
      obtain ⟨c, rest, hbody, -⟩ := @body_eq_cons _ (pointOf d.shortest)
        (@isDigit_of_mem_significantDigits d.shortest)
      rw [render_double hfinite, toList_doubleText, hbody]
      exact List.append_ne_nil_of_right_ne_nil _ (List.cons_ne_nil c rest)
  | string s => exact ⟨'"', _, toList_quoted s, rfl, rfl⟩
  | array items => exact ⟨'[', _, toList_render_array items, rfl, rfl⟩
  | object fields => exact ⟨'\x7b', _, toList_render_object fields, rfl, rfl⟩

/-- Where what is written starts in the same way, both are strings, lists or objects, or neither
is. -/
theorem mark?_eq {j k : Json} (hj : j.IsFinite) (hk : k.IsFinite) {rest rest' : List Char}
    (h : j.render.toList ++ rest = k.render.toList ++ rest') : j.mark? = k.mark? := by
  obtain ⟨c, cs, htext, -, hmark⟩ := head_render hj
  obtain ⟨c', cs', htext', -, hmark'⟩ := head_render hk
  rw [htext, htext', List.cons_append, List.cons_append] at h
  rw [← hmark, ← hmark', (List.cons.inj h).1]

theorem isWord_or_isNumber {j : Json} (h : j.mark? = none) :
    j.isWord = true ∨ j.isNumber = true := by
  cases j with
  | null | bool b => exact .inl rfl
  | integer n | double d => exact .inr rfl
  | _ => cases h

/-- Words and numbers are a prefix code. -/
theorem eq_of_plain {j k : Json} (hj : j.mark? = none) (hk : k.mark? = none) (hjf : j.IsFinite)
    (hkf : k.IsFinite) {rest rest' : List Char} (hrest : Ends isDelimiter rest)
    (hrest' : Ends isDelimiter rest')
    (h : j.render.toList ++ rest = k.render.toList ++ rest') : j = k ∧ rest = rest' := by
  have hword {j : Json} (hj : j.mark? = none) (hjf : j.IsFinite) :
      ∀ c ∈ j.render.toList, isDelimiter c = false := fun c hc =>
    isDelimiter_of_isMark (isMark_of_mem_render (isWord_or_isNumber hj) hjf c hc)
  obtain ⟨htext, hfollowing⟩ := eq_of_append_eq (hword hj hjf) (hword hk hkf) hrest hrest' h
  have hsame := eq_of_render_eq (isWord_or_isNumber hj) (isWord_or_isNumber hk) hjf hkf
    (String.toList_inj.1 htext)
  exact ⟨hsame, hfollowing⟩

theorem isOpen_of_mem_renderItems {items : List Json} (h : ItemsFinite items) :
    ∀ text ∈ (renderItems items).map String.toList, IsOpen isDelimiter text := by
  induction items with
  | nil => exact fun _ hmem => absurd hmem List.not_mem_nil
  | cons j items ih =>
      intro text hmem
      rcases List.mem_cons.1 hmem with hhead | hlater
      · obtain ⟨c, cs, htext, hc, -⟩ := head_render h.1
        exact ⟨c, cs, hhead.trans htext, hc⟩
      · exact ih h.2 text hlater

/-- A field is its name, a colon and its value. -/
theorem toList_field (name : String) (j : Json) (rest : List Char) :
    (quoted name ++ ":" ++ j.render).toList ++ rest
      = (quoted name).toList ++ ':' :: (j.render.toList ++ rest) := by
  rw [String.toList_append, String.toList_append, List.append_assoc, List.append_assoc]
  rfl

theorem isOpen_of_mem_renderFields {fields : List (String × Json)} :
    ∀ text ∈ (renderFields fields).map String.toList, IsOpen isDelimiter text := by
  induction fields with
  | nil => exact fun _ hmem => absurd hmem List.not_mem_nil
  | cons field fields ih =>
      obtain ⟨name, j⟩ := field
      intro text hmem
      rcases List.mem_cons.1 hmem with hhead | hlater
      · have htext := toList_field name j []
        rw [List.append_nil, toList_quoted] at htext
        exact ⟨'"', _, hhead.trans htext, rfl⟩
      · exact ih text hlater

mutual

/-- Values are a prefix code. -/
theorem eq_of_render (j k : Json) (hj : j.IsFinite) (hk : k.IsFinite) {rest rest' : List Char}
    (hrest : Ends isDelimiter rest) (hrest' : Ends isDelimiter rest')
    (h : j.render.toList ++ rest = k.render.toList ++ rest') : j = k ∧ rest = rest' := by
  have hmark := mark?_eq hj hk h
  cases j with
  | string s =>
      cases k with
      | string t =>
          obtain ⟨rfl, hfollowing⟩ := eq_of_quoted h
          exact ⟨rfl, hfollowing⟩
      | _ => cases hmark
  | array items =>
      cases k with
      | array others =>
          rw [toList_render_array, toList_render_array, List.cons_append, List.cons_append,
            List.append_assoc, List.append_assoc] at h
          have hjoined := joinedAfter_eq ',' (isOpen_of_mem_renderItems hj)
            (isOpen_of_mem_renderItems hk) (ends_close rfl rest) (ends_close rfl rest')
            (List.cons.inj h).2
          obtain ⟨rfl, hfollowing⟩ := eq_of_items items others hj hk hjoined
          exact ⟨rfl, hfollowing⟩
      | _ => cases hmark
  | object fields =>
      cases k with
      | object others =>
          rw [toList_render_object, toList_render_object, List.cons_append, List.cons_append,
            List.append_assoc, List.append_assoc] at h
          have hjoined := joinedAfter_eq ',' isOpen_of_mem_renderFields isOpen_of_mem_renderFields
            (ends_close rfl rest) (ends_close rfl rest') (List.cons.inj h).2
          obtain ⟨rfl, hfollowing⟩ := eq_of_fields fields others hj hk hjoined
          exact ⟨rfl, hfollowing⟩
      | _ => cases hmark
  | _ => exact eq_of_plain rfl hmark.symm hj hk hrest hrest' h

/-- Lists are a prefix code up to their bracket. -/
theorem eq_of_items (items others : List Json) (hitems : ItemsFinite items)
    (hothers : ItemsFinite others) {rest rest' : List Char}
    (h : joinedAfter ',' ((renderItems items).map String.toList) ++ ']' :: rest
      = joinedAfter ',' ((renderItems others).map String.toList) ++ ']' :: rest') :
    items = others ∧ rest = rest' := by
  match items, hitems, others, hothers, h with
  | [], _, [], _, h => exact ⟨rfl, (List.cons.inj h).2⟩
  | [], _, _ :: _, _, h => cases h
  | _ :: _, _, [], _, h => cases h
  | j :: items, hitems, k :: others, hothers, h =>
      simp only [renderItems, List.map_cons, joinedAfter_cons, List.cons_append,
        List.append_assoc] at h
      obtain ⟨rfl, htail⟩ := eq_of_render j k hitems.1 hothers.1
        (ends_joinedAfter rfl _ (ends_close rfl _)) (ends_joinedAfter rfl _ (ends_close rfl _))
        (List.cons.inj h).2
      obtain ⟨rfl, hfollowing⟩ := eq_of_items items others hitems.2 hothers.2 htail
      exact ⟨rfl, hfollowing⟩

/-- Objects are a prefix code up to their brace. -/
theorem eq_of_fields (fields others : List (String × Json)) (hfields : FieldsFinite fields)
    (hothers : FieldsFinite others) {rest rest' : List Char}
    (h : joinedAfter ',' ((renderFields fields).map String.toList) ++ '\x7d' :: rest
      = joinedAfter ',' ((renderFields others).map String.toList) ++ '\x7d' :: rest') :
    fields = others ∧ rest = rest' := by
  match fields, hfields, others, hothers, h with
  | [], _, [], _, h => exact ⟨rfl, (List.cons.inj h).2⟩
  | [], _, _ :: _, _, h => cases h
  | _ :: _, _, [], _, h => cases h
  | (name, j) :: fields, hfields, (name', k) :: others, hothers, h =>
      simp only [renderFields, List.map_cons, joinedAfter_cons, List.cons_append,
        List.append_assoc, toList_field] at h
      obtain ⟨rfl, hvalue⟩ := eq_of_quoted (List.cons.inj h).2
      obtain ⟨rfl, htail⟩ := eq_of_render j k hfields.1 hothers.1
        (ends_joinedAfter rfl _ (ends_close rfl _)) (ends_joinedAfter rfl _ (ends_close rfl _))
        (List.cons.inj hvalue).2
      obtain ⟨rfl, hfollowing⟩ := eq_of_fields fields others hfields.2 hothers.2 htail
      exact ⟨rfl, hfollowing⟩

end

/-- **Texts of values.**  Values with finite doubles and the same text are the same. -/
theorem render_injective {j k : Json} (hj : j.IsFinite) (hk : k.IsFinite)
    (h : j.render = k.render) : j = k := by
  exact (eq_of_render j k hj hk (ends_nil _) (ends_nil _) (congrArg (·.toList ++ []) h)).1

end DocStore.Json
