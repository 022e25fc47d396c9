import DocStore.Proofs.Path.Names
import DocStore.Query.Builder

/-!
# Ranges of names

The documents at or below a document can be looked for in a range of names, from the name of the
document up to the same name with a high character behind it.  In the order of lists, what lies
between two extensions of a list is an extension of the list (`between_append_iff`).  Read for the
names of a path and then for the characters of its last name, this says what the range holds
(`between_rangeEnd_iff`): all that lies at or below the document, and all that lies at or below the
documents beside it whose ids continue its id.
-/

namespace DocStore

open Std

namespace Text

variable {α : Type}

/-- What follows the last piece of a text follows the text. -/
theorem intercalate_append_last (sep : List α) (pieces : List (List α)) (last more : List α) :
    sep.intercalate (pieces ++ [last ++ more]) = sep.intercalate (pieces ++ [last]) ++ more := by
  cases pieces with
  | nil => simp
  | cons piece pieces =>
      rw [intercalate_append _ (List.cons_ne_nil _ _) (List.cons_ne_nil _ _),
        intercalate_append _ (List.cons_ne_nil _ _) (List.cons_ne_nil _ _)]
      simp

variable [Ord α]

/-- Lists are less in their order of comparison exactly if they are less as lists. -/
theorem compare_lists_eq_lt [LT α] [LawfulEqOrd α] (hlt : ∀ a b : α, compare a b = .lt ↔ a < b)
    (xs ys : List α) : compare xs ys = .lt ↔ xs < ys := by
  induction xs generalizing ys with
  | nil => cases ys <;> simp
  | cons x xs ih =>
      cases ys with
      | nil => simp
      | cons y ys =>
          rw [List.compare_cons_cons, Ordering.then_eq_lt, List.cons_lt_cons_iff, hlt, ih,
            LawfulEqCmp.compare_eq_iff_eq]

/-- Texts are compared character by character. -/
theorem compare_eq_compare_toList (s t : String) : compare s t = compare s.toList t.toList := by
  have hlt (s t : String) : compare s t = .lt ↔ compare s.toList t.toList = .lt := by
    rw [compare_lists_eq_lt fun a b => compareOfLessAndEq_eq_lt, ← String.lt_iff]
    exact compareOfLessAndEq_eq_lt
  cases hst : compare s t with
  | lt => exact ((hlt s t).1 hst).symm
  | eq =>
      obtain rfl := LawfulEqCmp.eq_of_compare hst
      exact ReflCmp.compare_self.symm
  | gt => exact (OrientedCmp.gt_iff_lt.2 ((hlt t s).1 (OrientedCmp.gt_iff_lt.1 hst))).symm

/-- What lies between two extensions of a list extends the list. -/
theorem between_append_iff [OrientedOrd α] [LawfulEqOrd α] (common low high xs : List α) :
    (compare (common ++ low) xs).isLE ∧ (compare xs (common ++ high)).isLE ↔
      ∃ rest, xs = common ++ rest ∧ (compare low rest).isLE ∧ (compare rest high).isLE := by
  induction common generalizing xs with
  | nil => simp
  | cons c common ih =>
      cases xs with
      | nil => simp
      | cons x xs =>
          have hself : compare x x = .eq := ReflCmp.compare_self
          rw [List.cons_append, List.cons_append, List.compare_cons_cons, List.compare_cons_cons]
          constructor
          · intro hboth
            obtain ⟨hlow, hhigh⟩ := hboth
            have heq : x = c := by
              apply LawfulEqOrd.eq_of_compare
              have hswap : compare c x = (compare x c).swap := OrientedCmp.eq_swap
              rw [hswap] at hlow
              cases hxc : compare x c with
              | lt => simp [hxc] at hlow
              | eq => rfl
              | gt => simp [hxc] at hhigh
            obtain rfl := heq
            rw [hself, Ordering.eq_then] at hlow hhigh
            obtain ⟨rest, rfl, hrest⟩ := (ih xs).1 ⟨hlow, hhigh⟩
            exact ⟨rest, rfl, hrest⟩
          · intro hsome
            obtain ⟨rest, hxs, hrest⟩ := hsome
            obtain ⟨rfl, htail⟩ := List.cons.inj hxs
            rw [hself, Ordering.eq_then, Ordering.eq_then]
            exact (ih xs).2 ⟨rest, htail, hrest⟩

/-- A common beginning does not count. -/
theorem compare_append_left [OrientedOrd α] (common xs ys : List α) :
    compare (common ++ xs) (common ++ ys) = compare xs ys := by
  induction common with
  | nil => rfl
  | cons c common ih =>
      have hself : compare c c = .eq := ReflCmp.compare_self
      rw [List.cons_append, List.cons_append, List.compare_cons_cons, hself, Ordering.eq_then, ih]

theorem isLE_compare_nil (xs : List α) : (compare [] xs).isLE = true := by
  cases xs <;> rfl

theorem isLE_compare_nil_right {xs : List α} : (compare xs []).isLE = true ↔ xs = [] := by
  cases xs <;> simp

/-- What lies between a text and an extension of it extends it. -/
theorem between_extension_iff {s t more : String} :
    (compare s t).isLE ∧ (compare t (s ++ more)).isLE ↔
      ∃ rest, t = s ++ rest ∧ (compare rest more).isLE := by
  have hbetween := between_append_iff s.toList [] more.toList t.toList
  rw [List.append_nil, ← String.toList_append, ← compare_eq_compare_toList,
    ← compare_eq_compare_toList] at hbetween
  rw [hbetween]
  constructor
  · intro hsome
    obtain ⟨rest, ht, -, hrest⟩ := hsome
    refine ⟨String.ofList rest, String.toList_inj.1 (by simpa using ht), ?_⟩
    rwa [compare_eq_compare_toList, String.toList_ofList]
  · intro hsome
    obtain ⟨rest, rfl, hrest⟩ := hsome
    rw [compare_eq_compare_toList] at hrest
    exact ⟨rest.toList, String.toList_append, isLE_compare_nil _, hrest⟩

theorem compare_extensions (s t u : String) : compare (s ++ t) (s ++ u) = compare t u := by
  rw [compare_eq_compare_toList, String.toList_append, String.toList_append, compare_append_left,
    ← compare_eq_compare_toList]

theorem isLE_compare_extension (s more : String) : (compare s (s ++ more)).isLE = true := by
  have hself := compare_extensions s "" more
  rw [String.append_empty] at hself
  rw [hself, compare_eq_compare_toList]
  exact isLE_compare_nil _

end Text

namespace DocumentKey

variable {key : DocumentKey}

/-- The names of a document are those of its collection and its id. -/
theorem segments_eq (h : key.path.isDocument = true) :
    key.path.segments = key.collection.segments ++ [key.id] := by
  have hne := segments_ne_nil h
  rw [id, ResourcePath.last?, List.getLast?_eq_some_getLast hne, Option.getD_some]
  exact (List.dropLast_concat_getLast hne).symm

/-- The names between that of the document and the same name with the range end behind it: those
whose name in place of the id goes on with characters below the range end, or with the range end
alone and nothing further down. -/
def InNameRange (key : DocumentKey) (names : List String) : Prop :=
  ∃ more rest, names = key.collection.segments ++ (key.id ++ more) :: rest ∧
    (more < String.singleton QueryState.rangeEnd ∨
      more = String.singleton QueryState.rangeEnd ∧ rest = [])

/-- The id of the document with the range end behind it. -/
def rangeEndId (key : DocumentKey) : String := key.id ++ String.singleton QueryState.rangeEnd

/-- A path with a character behind its text has the character behind its last name. -/
theorem split_push (h : key.IsProper) :
    Text.split '/' (key.text.push QueryState.rangeEnd)
      = key.collection.segments ++ [key.rangeEndId] := by
  let stop : ResourcePath := ⟨key.collection.segments ++ [key.rangeEndId]⟩
  have htext : key.text.push QueryState.rangeEnd = stop.text := by
    apply String.toList_inj.1
    rw [String.toList_push, text, ResourcePath.toList_text, ResourcePath.toList_text,
      segments_eq h.document, List.map_append, List.map_append]
    simp only [List.map_cons, List.map_nil, rangeEndId, String.toList_append,
      String.toList_singleton]
    rw [Text.intercalate_append_last]
  have hfree : stop.IsSlashFree := by
    intro name hname
    have hnames : ∀ name ∈ key.collection.segments ++ [key.id],
        Text.hasChar '/' name = false := by
      rw [← segments_eq h.document]
      exact h.slashFree
    rcases List.mem_append.1 hname with hname | hname
    · exact hnames name (List.mem_append_left _ hname)
    · have hid := hnames key.id (by simp)
      rw [List.mem_singleton.1 hname, rangeEndId]
      simp only [Text.hasChar, String.toList_append, String.toList_singleton] at hid ⊢
      rw [List.contains_eq_mem, decide_eq_false_iff_not] at hid ⊢
      intro hmem
      rcases List.mem_append.1 hmem with hmem | hmem
      · exact hid hmem
      · exact absurd hmem (by decide)
  rw [htext, ResourcePath.split_text hfree (by simp [stop])]

/-- **The range of names.**  Between the name of a document and the same name with the range end
behind it lie the names that go on from it. -/
theorem between_rangeEnd_iff (h : key.IsProper) {names : List String} :
    (compare (Text.split '/' key.text) names).isLE ∧
        (compare names (Text.split '/' (key.text.push QueryState.rangeEnd))).isLE ↔
      key.InNameRange names := by
  rw [split_push h, text, ResourcePath.split_text h.slashFree (segments_ne_nil h.document),
    segments_eq h.document, Text.between_append_iff]
  have hextends (more : String) : compare (key.id ++ more) key.rangeEndId
      = compare more (String.singleton QueryState.rangeEnd) :=
    Text.compare_extensions _ _ _
  constructor
  · intro hsome
    obtain ⟨tail, rfl, hlow, hhigh⟩ := hsome
    cases tail with
    | nil => cases hlow
    | cons name rest =>
        rw [List.compare_cons_cons, Ordering.isLE_then_iff_and] at hlow
        rw [List.compare_cons_cons] at hhigh
        obtain ⟨more, rfl, -⟩ := Text.between_extension_iff.1
          ⟨hlow.1, (Ordering.isLE_then_iff_and.1 hhigh).1⟩
        rw [hextends, Ordering.isLE_then_iff_or, Text.isLE_compare_nil_right] at hhigh
        refine ⟨more, rest, rfl, ?_⟩
        rcases hhigh with hless | ⟨hlevel, hrest⟩
        · exact .inl (compareOfLessAndEq_eq_lt.1 hless)
        · exact .inr ⟨LawfulEqCmp.eq_of_compare hlevel, hrest⟩
  · intro hsome
    obtain ⟨more, rest, rfl, hmore⟩ := hsome
    refine ⟨_, rfl, ?_, ?_⟩
    · rw [List.compare_cons_cons, Ordering.isLE_then_iff_and]
      exact ⟨Text.isLE_compare_extension _ _, .inr (Text.isLE_compare_nil _)⟩
    · rw [List.compare_cons_cons, hextends, Ordering.isLE_then_iff_or, Text.isLE_compare_nil_right]
      rcases hmore with hless | ⟨rfl, hrest⟩
      · exact .inl (compareOfLessAndEq_eq_lt.2 hless)
      · exact .inr ⟨ReflCmp.compare_self, hrest⟩

end DocumentKey

end DocStore
