import DocStore.Proofs.Outcome
import DocStore.Proofs.Path.Resource
import DocStore.Proofs.Text.Blank
import DocStore.Proofs.Text.PrefixCode

/-!
# Names read off the text of a path

References are ordered by the pieces of their texts between the slashes.  Where no name has a slash
in it, these pieces are the names of the path (`split_text`), so that a path is known from its text.
-/

namespace DocStore

namespace Text

/-- No piece of a text has the separator in it. -/
theorem not_mem_of_mem_splitOn {sep : Char} {cs piece : List Char} (h : piece ∈ cs.splitOn sep) :
    sep ∉ piece := by
  induction cs generalizing piece with
  | nil =>
      rw [List.splitOn_nil, List.mem_singleton] at h
      simp [h]
  | cons c rest ih =>
      rw [List.splitOn_cons_eq_if_modifyHead] at h
      split at h
      · rcases List.mem_cons.1 h with rfl | hlater
        · exact List.not_mem_nil
        · exact ih hlater
      next hc =>
        obtain ⟨first, others, hsplit⟩ := List.exists_cons_of_ne_nil (List.splitOn_ne_nil sep rest)
        rw [hsplit] at h ih
        rcases List.mem_cons.1 h with rfl | hlater
        · have hfirst := ih List.mem_cons_self
          simp only [beq_iff_eq] at hc
          simp [hfirst, Ne.symm hc]
        · exact ih (List.mem_cons_of_mem _ hlater)

theorem hasChar_eq_false_iff {sep : Char} {s : String} :
    hasChar sep s = false ↔ ∀ c ∈ s.toList, (c == sep) = false := by
  rw [hasChar, List.contains_eq_mem, decide_eq_false_iff_not]
  constructor
  · intro hsep c hc
    exact beq_eq_false_iff_ne.2 (ne_of_mem_of_not_mem hc hsep)
  · intro hall hsep
    exact absurd (hall sep hsep) (by simp)

/-- A name that is read as it is written, wherever it stands in a path. -/
structure IsPlainName (name : String) : Prop where
  nonempty : name.isEmpty = false
  slashFree : hasChar '/' name = false
  blankFree : ∀ c ∈ name.toList, isBlank c = false

theorem hasChar_of_mem_split {sep : Char} {s piece : String} (h : piece ∈ split sep s) :
    hasChar sep piece = false := by
  obtain ⟨cs, hcs, rfl⟩ := List.mem_map.1 h
  simpa [hasChar] using not_mem_of_mem_splitOn hcs

/-- Pieces that are put together in two parts have a separator between the parts. -/
theorem intercalate_append {α : Type} (sep : List α) {front back : List (List α)}
    (hfront : front ≠ []) (hback : back ≠ []) :
    sep.intercalate (front ++ back) = sep.intercalate front ++ (sep ++ sep.intercalate back) := by
  induction front with
  | nil => exact absurd rfl hfront
  | cons piece front ih =>
      cases front with
      | nil =>
          obtain ⟨first, others, rfl⟩ := List.exists_cons_of_ne_nil hback
          rw [List.singleton_append, List.intercalate_cons_cons, List.intercalate_singleton,
            List.append_assoc]
      | cons piece' front =>
          have hrest := ih (List.cons_ne_nil _ _)
          rw [List.cons_append, List.cons_append, List.intercalate_cons_cons, ← List.cons_append,
            hrest, List.intercalate_cons_cons]
          simp only [List.append_assoc]

end Text

namespace ResourcePath

/-- No name of the path has a slash in it. -/
def IsSlashFree (path : ResourcePath) : Prop :=
  ∀ name ∈ path.segments, Text.hasChar '/' name = false

instance (path : ResourcePath) : Decidable path.IsSlashFree :=
  inferInstanceAs (Decidable (∀ name ∈ path.segments, _))

theorem toList_text (path : ResourcePath) :
    path.text.toList = ['/'].intercalate (path.segments.map String.toList) := by
  rw [text, Text.joined, String.toList_intercalate]
  rfl

/-- The pieces of the text are the names. -/
theorem split_text {path : ResourcePath} (hfree : path.IsSlashFree) (hne : path.segments ≠ []) :
    Text.split '/' path.text = path.segments := by
  have hslash : ∀ l ∈ path.segments.map String.toList, '/' ∉ l := by
    intro l hl
    obtain ⟨name, hname, rfl⟩ := List.mem_map.1 hl
    have hno := hfree name hname
    simpa [Text.hasChar] using hno
  rw [Text.split, toList_text, List.splitOn_intercalate '/' hslash (by simpa using hne),
    List.map_map]
  simp [Function.comp_def]

/-- No name of the path is empty, and none has a slash in it. -/
def HasNames (path : ResourcePath) : Prop :=
  ∀ name ∈ path.segments, name.isEmpty = false ∧ Text.hasChar '/' name = false

theorem HasNames.isSlashFree {path : ResourcePath} (h : path.HasNames) : path.IsSlashFree :=
  fun name hname => (h name hname).2

/-- A path that is read from a text has names. -/
theorem hasNames_of_ofText {text : String} {path : ResourcePath} (h : ofText text = .ok path) :
    path.HasNames := by
  unfold ofText at h
  generalize Text.strip (· == '/') (Text.trim text) = inner at h
  dsimp only at h
  split at h
  · rw [Outcome.pure_eq_ok] at h
    subst h
    intro name hname
    cases hname
  · split at h
    · exact (Outcome.throw_eq_ok.1 h).elim
    next hempty =>
      rw [Outcome.pure_eq_ok] at h
      subst h
      rw [Bool.not_eq_true, List.any_eq_false] at hempty
      exact fun name hname =>
        ⟨Bool.eq_false_iff.2 (hempty name hname), Text.hasChar_of_mem_split hname⟩

/-- The text of a path starts as its first name does. -/
theorem head?_text {path : ResourcePath} (h : path.HasNames) :
    path.text.toList.head? = path.segments.head?.bind (·.toList.head?) := by
  rw [toList_text]
  cases hsegments : path.segments with
  | nil => rfl
  | cons name rest =>
      have hne := Text.toList_ne_nil (h name (hsegments ▸ List.mem_cons_self)).1
      rw [List.map_cons, Text.intercalate_cons_eq, List.head?_append_of_ne_nil _ hne]
      rfl

/-- The text of a path ends as its last name does. -/
theorem getLast?_text {path : ResourcePath} (h : path.HasNames) :
    path.text.toList.getLast? = path.segments.getLast?.bind (·.toList.getLast?) := by
  rw [toList_text]
  rcases List.eq_nil_or_concat path.segments with hsegments | ⟨front, name, hsegments⟩
  · rw [hsegments]
    rfl
  · rw [List.concat_eq_append] at hsegments
    have hne := Text.toList_ne_nil (h name (hsegments ▸ by simp)).1
    rw [hsegments, List.map_append, List.getLast?_concat]
    cases front with
    | nil => simp
    | cons first front =>
        rw [Text.intercalate_append _ (by simp) (by simp), List.map_singleton,
          List.intercalate_singleton, ← List.append_assoc, List.getLast?_append_of_ne_nil _ hne]
        rfl

/-- The text of a path with names has no slashes at its ends. -/
theorem strip_text {path : ResourcePath} (h : path.HasNames) :
    Text.strip (· == '/') path.text = path.text := by
  have hslash {name : String} (hname : name ∈ path.segments) :
      ∀ c ∈ name.toList, (c == '/') = false := Text.hasChar_eq_false_iff.1 (h name hname).2
  rw [Text.strip_eq_self_iff, head?_text h, getLast?_text h]
  constructor
  · intro c hc
    obtain ⟨name, hname, hc⟩ := Option.mem_bind_iff.1 hc
    exact hslash (List.mem_of_mem_head? hname) c (List.mem_of_mem_head? hc)
  · intro c hc
    obtain ⟨name, hname, hc⟩ := Option.mem_bind_iff.1 hc
    exact hslash (List.mem_of_getLast? hname) c (List.mem_of_getLast? hc)

/-- The names further down stand behind a slash. -/
theorem toList_text_child {path : ResourcePath} (hne : path.segments ≠ []) {names : List String}
    (hnames : names ≠ []) :
    (path.child names).text.toList
      = path.text.toList ++ '/' :: (⟨names⟩ : ResourcePath).text.toList := by
  rw [toList_text, toList_text, toList_text, child, List.map_append,
    Text.intercalate_append _ (by simpa using hne) (by simpa using hnames)]
  simp

/-- Behind a slash the text of a path goes on with the names further down. -/
theorem split_text_child {path : ResourcePath} (hfree : path.IsSlashFree)
    (hne : path.segments ≠ []) {names : List String} (hnames : names ≠ []) :
    Text.split '/' (path.child names).text
      = path.segments ++ Text.split '/' (⟨names⟩ : ResourcePath).text := by
  rw [Text.split, toList_text_child hne hnames, List.splitOn_append_cons_self, List.map_append]
  exact congrArg (· ++ _) (split_text hfree hne)

/-- Names directly below a path are told apart by the texts. -/
theorem text_child_inj {path : ResourcePath} (hne : path.segments ≠ []) {name name' : String} :
    (path.child [name]).text = (path.child [name']).text ↔ name = name' := by
  refine ⟨fun htext => ?_, fun hname => hname ▸ rfl⟩
  have hlists := congrArg String.toList htext
  rw [toList_text_child hne (List.cons_ne_nil _ _), toList_text_child hne (List.cons_ne_nil _ _),
    List.append_cancel_left_eq, List.cons.injEq, String.toList_inj] at hlists
  exact hlists.2

/-- Behind a slash a text goes on with the plain name of what lies directly below. -/
theorem ofText_append_name {text name : String} {path : ResourcePath}
    (htrim : Text.trim text = text) (hstrip : Text.strip (· == '/') text = text)
    (h : ofText text = .ok path) (hne : path.segments ≠ []) (hname : Text.IsPlainName name) :
    ofText (text ++ "/" ++ name) = .ok (path.child [name]) := by
  unfold ofText at h ⊢
  rw [htrim, hstrip] at h
  dsimp only at h ⊢
  split at h
  · rw [Outcome.pure_eq_ok] at h
    exact absurd (congrArg segments h).symm hne
  next htext =>
    rw [Bool.not_eq_true] at htext
    split at h
    · exact (Outcome.throw_eq_ok.1 h).elim
    next hnames =>
      rw [Outcome.pure_eq_ok] at h
      subst h
      have hslash := Text.hasChar_eq_false_iff.1 hname.slashFree
      have hsplit : Text.split '/' (text ++ "/" ++ name) = Text.split '/' text ++ [name] := by
        have hpiece : name.toList.splitOn '/' = [name.toList] := by
          have hpieces : ∀ l ∈ [name.toList], '/' ∉ l := by
            simpa [Text.hasChar] using hname.slashFree
          simpa using List.splitOn_intercalate '/' hpieces (List.cons_ne_nil _ _)
        have hcut : (text ++ "/" ++ name).toList = text.toList ++ '/' :: name.toList := by simp
        rw [Text.split, hcut, List.splitOn_append_cons_self, hpiece, List.map_append, Text.split]
        simp
      rw [Text.trim, Text.strip_append_append htext htrim hname.nonempty hname.blankFree,
        Text.strip_append_append htext hstrip hname.nonempty hslash, hsplit]
      have hsome : (text ++ "/" ++ name).isEmpty = false := by
        rw [Bool.eq_false_iff]
        intro hempty
        have hlist := congrArg String.toList (String.isEmpty_iff.1 hempty)
        simp at hlist
      rw [hsome, if_neg Bool.false_ne_true, if_neg, child]
      · rfl
      · rw [List.any_append, Bool.eq_false_iff.2 hnames]
        simp [hname.nonempty]

/-- Paths with the same text have the same names. -/
theorem eq_of_split_text {a b : ResourcePath} (ha : a.IsSlashFree) (hb : b.IsSlashFree)
    (hane : a.segments ≠ []) (hbne : b.segments ≠ [])
    (h : Text.split '/' a.text = Text.split '/' b.text) : a = b := by
  rw [split_text ha hane, split_text hb hbne] at h
  exact ext_segments h

end ResourcePath

namespace DocumentKey

/-- A key as it is written: the path of a document, with names that have no slash in them. -/
structure IsProper (key : DocumentKey) : Prop where
  document : key.path.isDocument = true
  slashFree : key.path.IsSlashFree

instance (key : DocumentKey) : Decidable key.IsProper :=
  decidable_of_iff (key.path.isDocument = true ∧ key.path.IsSlashFree)
    ⟨fun h => ⟨h.1, h.2⟩, fun h => ⟨h.document, h.slashFree⟩⟩

theorem segments_ne_nil {path : ResourcePath} (h : path.isDocument = true) :
    path.segments ≠ [] := by
  intro hnil
  simp [ResourcePath.isDocument, ResourcePath.isRoot, hnil] at h

end DocumentKey

end DocStore
