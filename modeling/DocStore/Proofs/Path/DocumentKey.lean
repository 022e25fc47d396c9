import DocStore.Document.Encode
import DocStore.Document.Reference
import DocStore.Proofs.Document.Encode
import DocStore.Proofs.Path.Names
import Mathlib.Data.List.Induction

/-!
# Keys that a program can make

A program reads paths from texts, and goes on from a collection to a document with an id and from a
document to a collection with a name (`ResourcePath.IsMade`).  Such a path has names that are not
empty and have no slash in them, and every path with such names can be made (`isMade_iff`).

Whether a path is read back from its text is another question: blanks at the ends of the text are
taken off before it is cut into names.  A path with names is read back exactly if it has no blanks
there (`ofText_text_iff`), that is, if its first name does not start with one and its last name does
not end with one (`DocumentKey.isUnpadded_iff`).
-/

namespace DocStore

/-- The key at a path has the path. -/
theorem DocumentKey.path_of_ofPath {path : ResourcePath} {key : DocumentKey}
    (h : ofPath path = .ok key) : key.path = path := by
  rw [ofPath] at h
  split at h
  · cases h
    rfl
  · cases h

namespace ResourcePath

/-- The paths of collections and documents that a program can make. -/
inductive IsMade : ResourcePath → Prop
  /-- A path is read from a text. -/
  | read {text : String} {path : ResourcePath} (h : ofText text = .ok path) : IsMade path
  /-- The document of an id is looked up in a collection. -/
  | document {c : CollectionRef} {id : String} {key : DocumentKey} (above : IsMade c.path)
      (h : c.doc id = .ok key) : IsMade key.path
  /-- A record that names its id is inserted into a collection. -/
  | inserted {collection : ResourcePath} {v : Value} {id : String} {key : DocumentKey}
      (above : IsMade collection) (hid : documentIdOf v = .ok id)
      (h : DocumentKey.ofPath (collection.child [id]) = .ok key) : IsMade key.path
  /-- The collection of a name is looked up below a document. -/
  | collection {key : DocumentKey} {name : String} {c : CollectionRef} (above : IsMade key.path)
      (h : key.collectionRef name = .ok c) : IsMade c.path

theorem HasNames.child {path : ResourcePath} (h : path.HasNames) {name : String}
    (hempty : name.isEmpty = false) (hslash : Text.hasChar '/' name = false) :
    (path.child [name]).HasNames := by
  intro other hother
  rcases List.mem_append.1 hother with hother | hother
  · exact h other hother
  · rw [List.mem_singleton.1 hother]
    exact ⟨hempty, hslash⟩

/-- A name between two slashes is read as the only name of a path. -/
theorem ofText_between_slashes {name : String} (hempty : name.isEmpty = false)
    (hslash : Text.hasChar '/' name = false) : ofText ("/" ++ name ++ "/") = .ok ⟨[name]⟩ := by
  have hkept := Text.hasChar_eq_false_iff.1 hslash
  have hne := Text.toList_ne_nil hempty
  have hlist : ("/" ++ name ++ "/").toList = '/' :: (name.toList ++ ['/']) := by simp
  have htrim : Text.trim ("/" ++ name ++ "/") = "/" ++ name ++ "/" := by
    rw [Text.trim, Text.strip_eq_self_iff, hlist]
    constructor
    · rintro c ⟨⟩
      decide
    · rw [← List.cons_append, List.getLast?_append_of_ne_nil _ (List.cons_ne_nil _ _)]
      rintro c ⟨⟩
      decide
  have hstrip : Text.strip (· == '/') ("/" ++ name ++ "/") = name := by
    have hfront : (name.toList ++ ['/']).dropWhile (· == '/') = name.toList ++ ['/'] := by
      rw [Text.dropWhile_eq_self_iff, List.head?_append_of_ne_nil _ hne]
      exact fun c hc => hkept c (List.mem_of_mem_head? hc)
    have hback : name.toList.reverse.dropWhile (· == '/') = name.toList.reverse := by
      rw [Text.dropWhile_eq_self_iff, List.head?_reverse]
      exact fun c hc => hkept c (List.mem_of_getLast? hc)
    rw [Text.strip, hlist, Text.stripChars, List.dropWhile_cons_of_pos rfl, hfront,
      List.reverse_append, List.reverse_singleton, List.singleton_append,
      List.dropWhile_cons_of_pos rfl, hback, List.reverse_reverse, String.ofList_toList]
  have hsplit : Text.split '/' name = [name] := by
    have htext : (⟨[name]⟩ : ResourcePath).text = name := by
      rw [← String.toList_inj, toList_text]
      simp
    have hone := @split_text ⟨[name]⟩ (by simpa [IsSlashFree] using hslash)
      (List.cons_ne_nil _ _)
    rwa [htext] at hone
  rw [ofText, htrim, hstrip]
  dsimp only
  rw [hempty, hsplit]
  simp [hempty]

/-- A document path is made by its text, or goes on from a collection. -/
theorem isMade_of_hasNames {names : List String} (h : (⟨names⟩ : ResourcePath).HasNames) :
    IsMade ⟨names⟩ := by
  -- Each name but the first leads one step down from the path before it.
  induction names using List.reverseRecOn with
  | nil => exact @IsMade.read "" _ rfl
  | append_singleton front name ih =>
      obtain ⟨hempty, hslash⟩ := h name (List.mem_append_right _ List.mem_cons_self)
      have hfront : IsMade ⟨front⟩ := ih fun other hother => h other (List.mem_append_left _ hother)
      have hnamed : (name.isEmpty || Text.hasChar '/' name) = false := by simp [hempty, hslash]
      rcases Nat.mod_two_eq_zero_or_one front.length with heven | hodd
      · cases front with
        | nil => exact .read (ofText_between_slashes hempty hslash)
        | cons first rest =>
            refine @IsMade.collection ⟨⟨first :: rest⟩⟩ name
              ⟨(⟨first :: rest⟩ : ResourcePath).child [name]⟩ hfront ?_
            rw [DocumentKey.collectionRef, hnamed, if_neg Bool.false_ne_true]
            rfl
      · have hcollection : (⟨front⟩ : ResourcePath).isCollection = true := by
          simp [isCollection, size, hodd]
        refine @IsMade.document ⟨⟨front⟩⟩ name ⟨(⟨front⟩ : ResourcePath).child [name]⟩ hfront ?_
        rw [CollectionRef.doc, hnamed, if_neg Bool.false_ne_true, DocumentKey.ofPath,
          if_pos (isDocument_child hcollection name)]
        rfl

/-- **Paths that can be made.**  They are the paths with names. -/
theorem isMade_iff {path : ResourcePath} : path.IsMade ↔ path.HasNames := by
  constructor
  · intro h
    induction h with
    | read h => exact hasNames_of_ofText h
    | @document c id key _ h ih =>
        rw [CollectionRef.doc] at h
        split at h
        · cases h
        next hid =>
          simp only [Bool.or_eq_true, not_or, Bool.not_eq_true] at hid
          rw [DocumentKey.path_of_ofPath h]
          exact ih.child hid.1 hid.2
    | inserted _ hid h ih =>
        obtain ⟨-, hempty, hslash⟩ := documentIdOf_eq_ok.1 hid
        rw [DocumentKey.path_of_ofPath h]
        exact ih.child hempty hslash
    | @collection key name c _ h ih =>
        rw [DocumentKey.collectionRef] at h
        split at h
        · cases h
        next hname =>
          simp only [Bool.or_eq_true, not_or, Bool.not_eq_true] at hname
          cases h
          exact ih.child hname.1 hname.2
  · exact isMade_of_hasNames

/-! ## Paths and their texts -/

/-- A path that is read has the text, but for what is stripped at its ends. -/
theorem text_of_ofText {text : String} {path : ResourcePath} (h : ofText text = .ok path) :
    path.text = Text.strip (· == '/') (Text.trim text) := by
  unfold ofText at h
  generalize Text.strip (· == '/') (Text.trim text) = inner at h ⊢
  dsimp only at h
  split at h
  next hempty =>
    rw [Outcome.pure_eq_ok] at h
    subst h
    exact (String.isEmpty_iff.1 hempty).symm
  · split at h
    · exact (Outcome.throw_eq_ok.1 h).elim
    · rw [Outcome.pure_eq_ok] at h
      subst h
      rw [← String.toList_inj, toList_text, Text.split, List.map_map]
      simp [Function.comp_def, List.intercalate_splitOn]

/-- **Paths read back.**  A path is read back from its text exactly if it has names and its text has
no blanks around it. -/
theorem ofText_text_iff {path : ResourcePath} :
    ofText path.text = .ok path ↔ path.HasNames ∧ Text.trim path.text = path.text := by
  constructor
  · intro h
    exact ⟨hasNames_of_ofText h, Text.strip_eq_self_of_strip (text_of_ofText h).symm⟩
  · intro hboth
    obtain ⟨hnames, htrim⟩ := hboth
    rw [ofText, htrim, strip_text hnames]
    dsimp only
    by_cases hnil : path.segments = []
    · obtain rfl : path = root := ext_segments hnil
      rfl
    · have hsplit := split_text hnames.isSlashFree hnil
      have hsome : path.text.isEmpty = false := by
        rw [Bool.eq_false_iff]
        intro hempty
        rw [String.isEmpty_iff.1 hempty] at hsplit
        have hname := hnames "" (hsplit ▸ by decide)
        cases hname.1
      have hall : path.segments.any (·.isEmpty) = false :=
        List.any_eq_false.2 fun name hname => Bool.eq_false_iff.1 (hnames name hname).1
      rw [hsome, if_neg Bool.false_ne_true, hsplit, hall, if_neg Bool.false_ne_true]
      rfl

end ResourcePath

namespace DocumentKey

/-- No blanks stand at the ends of a key: its first name does not start with one, and its id does
not end with one. -/
structure IsUnpadded (key : DocumentKey) : Prop where
  front : ∀ name ∈ key.path.segments.head?, ∀ c ∈ name.toList.head?, Text.isBlank c = false
  back : ∀ c ∈ key.id.toList.getLast?, Text.isBlank c = false

/-- A key has no blanks at its ends if its text has none around it. -/
theorem isUnpadded_iff {key : DocumentKey} (hdocument : key.path.isDocument = true)
    (hnames : key.path.HasNames) : key.IsUnpadded ↔ Text.trim key.text = key.text := by
  obtain ⟨id, hid⟩ : ∃ id, key.path.segments.getLast? = some id :=
    Option.ne_none_iff_exists'.1
      (mt List.getLast?_eq_none_iff.1 (segments_ne_nil hdocument))
  have hback : key.id = id := by rw [DocumentKey.id, ResourcePath.last?, hid, Option.getD_some]
  rw [Text.trim, Text.strip_eq_self_iff, text, ResourcePath.head?_text hnames,
    ResourcePath.getLast?_text hnames, hid, Option.bind_some]
  constructor
  · intro h
    refine ⟨fun c hc => ?_, hback ▸ h.back⟩
    obtain ⟨name, hname, hc⟩ := Option.mem_bind_iff.1 hc
    exact h.front name hname c hc
  · intro hboth
    obtain ⟨hfront, hend⟩ := hboth
    exact ⟨fun name hname c hc => hfront c (Option.mem_bind_iff.2 ⟨name, hname, hc⟩),
      hback.symm ▸ hend⟩

/-- The key that is read from a text has the path that is read. -/
theorem ofText_eq_ok {text : String} {key : DocumentKey} :
    ofText text = .ok key ↔
      ResourcePath.ofText text = .ok key.path ∧ key.path.isDocument = true := by
  rw [ofText, Outcome.bind_eq_ok]
  constructor
  · intro hsome
    obtain ⟨path, hpath, hkey⟩ := hsome
    obtain rfl := path_of_ofPath hkey
    rw [ofPath] at hkey
    split at hkey
    next hdocument => exact ⟨hpath, hdocument⟩
    · cases hkey
  · intro hboth
    obtain ⟨hpath, hdocument⟩ := hboth
    exact ⟨key.path, hpath, by rw [ofPath, if_pos hdocument]; rfl⟩

/-- **Keys read back.**  A key that can be made is read back from its text exactly if it has no
blanks at its ends. -/
theorem ofText_text_iff {key : DocumentKey} (hdocument : key.path.isDocument = true)
    (hnames : key.path.HasNames) : ofText key.text = .ok key ↔ key.IsUnpadded := by
  rw [ofText_eq_ok, text, ResourcePath.ofText_text_iff, isUnpadded_iff hdocument hnames, text]
  simp [hdocument, hnames]

end DocumentKey

end DocStore
