import DocStore.Path.Field
import DocStore.Proofs.Outcome

/-!
# The text of a field path

As text the names of a path stand with dots between them, so names without a dot are read off the
text again: paths of such names with the same text are the same (`text_inj`).  A text is read as the
names between its dots, unless it is blank or one of them is empty (`ofText_eq_ok`).
-/

namespace DocStore.FieldPath

/-- The name is not empty and has no dot. -/
def isName (name : String) : Bool := !name.isEmpty && !Text.hasChar '.' name

theorem isName_iff {name : String} :
    isName name = true ↔ name.isEmpty = false ∧ '.' ∉ name.toList := by
  simp [isName, Text.hasChar]

/-- The pieces of the text between the dots are the names. -/
theorem splitOn_text {path : FieldPath} (hpath : path.segments ≠ [])
    (hnames : ∀ name ∈ path.segments, isName name = true) :
    path.text.toList.splitOn '.' = path.segments.map String.toList := by
  have hdots : ∀ l ∈ path.segments.map String.toList, '.' ∉ l := by
    intro l hl
    obtain ⟨name, hname, rfl⟩ := List.mem_map.1 hl
    exact (isName_iff.1 (hnames name hname)).2
  rw [text, Text.joined, String.toList_intercalate]
  exact List.splitOn_intercalate '.' (by simpa using hdots) (by simpa using hpath)

/-- Paths of names with the same text are the same. -/
theorem text_inj {a b : FieldPath} (ha : a.segments ≠ []) (hb : b.segments ≠ [])
    (hnamesa : ∀ name ∈ a.segments, isName name = true)
    (hnamesb : ∀ name ∈ b.segments, isName name = true) (h : a.text = b.text) : a = b := by
  have hlists : a.segments.map String.toList = b.segments.map String.toList := by
    rw [← splitOn_text ha hnamesa, ← splitOn_text hb hnamesb, h]
  have hsegments : a.segments = b.segments :=
    (List.map_inj_right fun _ _ => String.toList_inj.1).1 hlists
  cases a
  cases b
  exact congrArg mk hsegments

/-- The text of a path: it is not blank, and no name between its dots is empty. -/
def IsReadable (text : String) : Prop :=
  Text.isAllBlank text = false ∧ "" ∉ Text.split '.' text

theorem ofText_eq_ok {text : String} {path : FieldPath} :
    ofText text = .ok path ↔ IsReadable text ∧ path = ⟨Text.split '.' text⟩ := by
  have hnames : (Text.split '.' text).any (·.isEmpty) = true ↔ "" ∈ Text.split '.' text := by
    simp [List.any_eq_true]
  have hsome : (Text.split '.' text).isEmpty = false := by
    simp [Text.split]
  unfold ofText IsReadable
  by_cases hblank : Text.isAllBlank text = true
  · simp [hblank]
  · rw [if_neg hblank]
    by_cases hid : text = documentIdName
    · subst hid
      have hsplit : Text.split '.' documentIdName = [documentIdName] := by decide
      rw [if_pos (beq_self_eq_true _), hsplit, Outcome.pure_eq_ok, eq_comm]
      exact (and_iff_right (by decide)).symm
    · rw [if_neg (by simpa using hid), ofSegments, hsome]
      by_cases hempty : "" ∈ Text.split '.' text
      · simp [hnames.2 hempty, hempty]
      · rw [if_neg Bool.false_ne_true, if_neg (mt hnames.1 hempty), Outcome.pure_eq_ok, eq_comm]
        simp [hblank, hempty]

theorem ofText_error?_eq_none {text : String} :
    Outcome.error? (ofText text) = none ↔ IsReadable text := by
  simp [Outcome.error?_eq_none, ofText_eq_ok]

/-- The text of a path that does not begin with the name of the document id. -/
def AvoidsId (field : String) : Prop :=
  ∀ path, ofText field = .ok path → path.segments.head? ≠ some documentIdName

instance (field : String) : Decidable (AvoidsId field) :=
  match hread : ofText field with
  | .ok path =>
    decidable_of_iff (path.segments.head? ≠ some documentIdName)
      ⟨fun h _ hpath => Except.ok.inj (hread.symm.trans hpath) ▸ h, fun h => h path hread⟩
  | .error _ => isTrue fun _ hpath => nomatch hread.symm.trans hpath

end DocStore.FieldPath
