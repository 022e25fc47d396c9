import DocStore.Proofs.Path.DocumentKey
import DocStore.Proofs.Wire.Value
import DocStore.Store.Http

/-!
# Documents told by their names

A server tells documents by their names, and a key is read off the name as it is read off a text
(`keyOfName_documentName`).  Blanks around a text are taken off when it is read, and an id may end
with a blank, just as the first name of a path may start with one.  A key therefore comes back from
its name exactly if it has no blanks at its ends (`key_read_back_iff`).  Any other key is read as
that of a different document, or not at all.
-/

namespace DocStore

namespace DatabaseId

/-- A key is read off its name as it is read off its text. -/
theorem keyOfName_documentName (db : DatabaseId) {key : DocumentKey}
    (hnames : key.path.HasNames) :
    db.keyOfName (db.documentName key) = DocumentKey.ofText key.text := by
  rw [keyOfName, documentName, DocumentKey.text,
    db.relativePath_referenceName (ResourcePath.strip_text hnames), Outcome.ok_bind]

end DatabaseId

namespace Http

/-- The snapshot of an entry has the key that is read off the name of its document. -/
theorem keyOfName_of_entrySnapshot {db : DatabaseId} {entry document : Json} {name : String}
    {found : Snapshot} (hdocument : entry.field? "document" = some document)
    (hname : document.field? "name" = some (.string name))
    (h : entrySnapshot db entry = .ok (some found)) : db.keyOfName name = .ok found.key := by
  rw [entrySnapshot, hdocument] at h
  dsimp only at h
  rw [hname] at h
  obtain ⟨key, hkey, h⟩ := Outcome.bind_eq_ok.1 h
  obtain ⟨read, hread, h⟩ := Outcome.bind_eq_ok.1 h
  obtain ⟨time, -, h⟩ := Outcome.bind_eq_ok.1 h
  obtain ⟨fields, -, hread⟩ := Outcome.bind_eq_ok.1 hread
  obtain ⟨created, -, hread⟩ := Outcome.bind_eq_ok.1 hread
  obtain ⟨updated, -, hread⟩ := Outcome.bind_eq_ok.1 hread
  cases hread
  cases h
  exact hkey

/-- **Keys and names.**  A key that can be made comes back from its name, and from its text, exactly
if its first name does not start with a blank and its id does not end with one.  Only then has what
a query gives of a document the key of the document. -/
theorem key_read_back_iff (db : DatabaseId) {key : DocumentKey} (hmade : key.path.IsMade)
    (hdocument : key.path.isDocument = true) :
    (db.keyOfName (db.documentName key) = .ok key ↔ key.IsUnpadded) ∧
      (DocumentKey.ofText key.text = .ok key ↔ key.IsUnpadded) ∧
      ∀ entry document found, entry.field? "document" = some document →
        document.field? "name" = some (.string (db.documentName key)) →
        entrySnapshot db entry = .ok (some found) → (found.key = key ↔ key.IsUnpadded) := by
  have hnames := ResourcePath.isMade_iff.1 hmade
  have htext := DocumentKey.ofText_text_iff hdocument hnames
  refine ⟨?_, htext, fun entry document found hentry hname hfound => ?_⟩
  · rw [db.keyOfName_documentName hnames, htext]
  · have hkey := keyOfName_of_entrySnapshot hentry hname hfound
    rw [← htext, ← db.keyOfName_documentName hnames, hkey, Except.ok.injEq]

/-- The blanks of `users / ann` stay: they end the name of the collection and start the id. -/
theorem key_read_back_inner_blanks :
    (⟨["users ", " ann"]⟩ : ResourcePath).IsMade ∧
      (⟨⟨["users ", " ann"]⟩⟩ : DocumentKey).IsUnpadded ∧
      DatabaseId.keyOfName ⟨"demo", "(default)"⟩
        "projects/demo/databases/(default)/documents/users / ann" = .ok ⟨⟨["users ", " ann"]⟩⟩ ∧
      ∀ found, entrySnapshot ⟨"demo", "(default)"⟩
          (.object [("document", .object [("name", .string
            "projects/demo/databases/(default)/documents/users / ann")])]) = .ok (some found) →
        found.key = ⟨⟨["users ", " ann"]⟩⟩ := by
  have hmade : (⟨["users ", " ann"]⟩ : ResourcePath).IsMade :=
    ResourcePath.isMade_iff.2 (by unfold ResourcePath.HasNames; decide)
  have hunpadded : (⟨⟨["users ", " ann"]⟩⟩ : DocumentKey).IsUnpadded :=
    { front := by rintro _ ⟨⟩ _ ⟨⟩; decide
      back := by rintro _ ⟨⟩; decide }
  have hname : DatabaseId.documentName ⟨"demo", "(default)"⟩ ⟨⟨["users ", " ann"]⟩⟩
      = "projects/demo/databases/(default)/documents/users / ann" := by decide +kernel
  obtain ⟨hread, -, hentry⟩ :=
    @key_read_back_iff ⟨"demo", "(default)"⟩ ⟨⟨["users ", " ann"]⟩⟩ hmade (by decide)
  rw [hname] at hread hentry
  exact ⟨hmade, hunpadded, hread.2 hunpadded,
    fun found hfound => (hentry _ _ found rfl rfl hfound).2 hunpadded⟩

/-- The id `ann ` is accepted, but the key of its document is read as that of `users/ann`. -/
theorem not_key_read_back :
    ¬ ∀ (db : DatabaseId) (key : DocumentKey), key.path.IsMade → key.path.isDocument = true →
      db.keyOfName (db.documentName key) = .ok key ∧ DocumentKey.ofText key.text = .ok key := by
  intro hall
  have hcollection : (⟨["users"]⟩ : ResourcePath).IsMade :=
    @ResourcePath.IsMade.read "users" _ (by decide)
  have hmade : (⟨["users", "ann "]⟩ : ResourcePath).IsMade :=
    @ResourcePath.IsMade.document ⟨⟨["users"]⟩⟩ "ann " ⟨⟨["users", "ann "]⟩⟩ hcollection (by decide)
  have hread : DocumentKey.ofText (DocumentKey.text ⟨⟨["users", "ann "]⟩⟩)
      = .ok ⟨⟨["users", "ann"]⟩⟩ := by decide +kernel
  have hback := (hall ⟨"demo", "(default)"⟩ ⟨⟨["users", "ann "]⟩⟩ hmade (by decide)).2
  exact absurd (hread.symm.trans hback) (by decide)

end Http

end DocStore
