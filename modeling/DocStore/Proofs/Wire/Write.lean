import DocStore.Proofs.Wire.Query
import DocStore.Wire.Write

/-!
# Writes known from their text

A write is sent as an object, and a commit as the list of these.  Writes whose names, values and
operands have forms on the wire (`Write.IsRepresentable`) are told by their texts
(`eq_of_render_ofWrite`), and so are whole commits (`eq_of_render_commit`).  A creation, a
replacement and a merge all send a document; they differ in the fields beside it, which are there
or are left out, so that a mask without paths is told from none.
-/

namespace DocStore

/-! ## Names of documents -/

/-- Paths that have names are known from their texts. -/
theorem ResourcePath.text_injective {a b : ResourcePath} (ha : a.HasNames) (hb : b.HasNames)
    (h : a.text = b.text) : a = b := by
  have hroot {path : ResourcePath} (hpath : path.HasNames) (hne : path.segments ≠ []) :
      path.text ≠ ResourcePath.root.text := by
    intro htext
    obtain ⟨name, rest, hsegments⟩ := List.exists_cons_of_ne_nil hne
    have hname := (hpath name (hsegments ▸ List.mem_cons_self)).1
    have hhead := head?_text hpath
    rw [htext, hsegments, List.head?_cons, Option.bind_some] at hhead
    exact Text.toList_ne_nil hname (List.head?_eq_none_iff.1 hhead.symm)
  by_cases hane : a.segments = []
  · by_cases hbne : b.segments = []
    · exact ext_segments (hane.trans hbne.symm)
    · obtain rfl : a = .root := ext_segments hane
      exact absurd h.symm (hroot hb hbne)
  · by_cases hbne : b.segments = []
    · obtain rfl : b = .root := ext_segments hbne
      exact absurd h (hroot ha hane)
    · exact eq_of_split_text ha.isSlashFree hb.isSlashFree hane hbne
        (congrArg (Text.split '/') h)

/-- Documents whose paths have names are known from their names. -/
theorem DatabaseId.documentName_injective (db : DatabaseId) {key key' : DocumentKey}
    (hnames : key.path.HasNames) (hnames' : key'.path.HasNames)
    (h : db.documentName key = db.documentName key') : key = key' := by
  have hpath := congrArg db.relativePath h
  rw [documentName, documentName, DocumentKey.text, DocumentKey.text,
    db.relativePath_referenceName (ResourcePath.strip_text hnames),
    db.relativePath_referenceName (ResourcePath.strip_text hnames')] at hpath
  obtain ⟨path⟩ := key
  exact congrArg DocumentKey.mk
    (ResourcePath.text_injective hnames hnames' (Except.ok.inj hpath))

/-! ## Writes with a form -/

/-- The write has a form on the wire: its document has a name, and its fields and the operands of
its increments have forms. -/
def Write.IsRepresentable : Write → Prop
  | create key data increments | set key data _ increments =>
    key.path.HasNames ∧ Value.FieldsRepresentable data ∧
      ∀ i ∈ increments, i.operand.IsRepresentable
  | delete key => key.path.HasNames

namespace Wire

variable (db : DatabaseId)

/-! ## Parts of a write -/

theorem ofFields_injective {data data' : Fields} (hdata : Value.FieldsRepresentable data)
    (hdata' : Value.FieldsRepresentable data') (h : ofFields db data = ofFields db data') :
    data = data' := by
  have hmap : ofValue db (.map data) = ofValue db (.map data') := by
    rw [ofValue, ofValue, h]
  exact Value.map.inj (ofValue_injective db (v := .map data) (w := .map data') hdata hdata' hmap)

theorem ofDocument_injective {key key' : DocumentKey} {data data' : Fields}
    (hnames : key.path.HasNames) (hnames' : key'.path.HasNames)
    (hdata : Value.FieldsRepresentable data) (hdata' : Value.FieldsRepresentable data')
    (h : ofDocument db key data = ofDocument db key' data') : key = key' ∧ data = data' := by
  simp only [ofDocument, Json.object.injEq, List.cons.injEq, Prod.mk.injEq, Json.string.injEq,
    true_and, and_true] at h
  exact ⟨db.documentName_injective hnames hnames' h.2, ofFields_injective db hdata hdata' h.1⟩

theorem ofIncrement_injective {i i' : Increment} (hi : i.operand.IsRepresentable)
    (hi' : i'.operand.IsRepresentable) (h : ofIncrement db i = ofIncrement db i') : i = i' := by
  obtain ⟨path, operand⟩ := i
  obtain ⟨path', operand'⟩ := i'
  simp only [ofIncrement, Json.object.injEq, List.cons.injEq, Prod.mk.injEq, Json.string.injEq,
    true_and, and_true] at h
  cases FieldPath.wireText_injective h.1
  cases ofValue_injective db hi hi' h.2
  rfl

/-- The increments of a write are a field that is left out where there are none. -/
theorem ofIncrements_eq (increments : List Increment) :
    ofIncrements db increments = optional "updateTransforms"
      (if increments.isEmpty then none
        else some (.array (increments.map (ofIncrement db)))) :=
  optional_eq _ _ _

theorem ofIncrements_injective {increments increments' : List Increment}
    (hoperands : ∀ i ∈ increments, i.operand.IsRepresentable)
    (hoperands' : ∀ i ∈ increments', i.operand.IsRepresentable)
    (h : ofIncrements db increments = ofIncrements db increments') : increments = increments' := by
  have hfield := congrArg (Keyed.get? "updateTransforms") h
  rw [ofIncrements_eq, ofIncrements_eq, get?_optional, get?_optional, if_pos rfl, if_pos rfl]
    at hfield
  rcases eq_of_unless_empty hfield with ⟨hnone, hnone'⟩ | hsame
  · rw [hnone, hnone']
  · have hitems := map_eq_map_of (g := id)
      (fun i hi i' hi' => ofIncrement_injective db (hoperands i hi) (hoperands' i' hi'))
      (Json.array.inj hsame)
    rwa [List.map_id, List.map_id] at hitems

/-- The paths of a mask on the wire. -/
def ofMask (paths : List FieldPath) : Json :=
  single "fieldPaths" (.array (paths.map fun path => .string path.wireText))

theorem ofMask_injective : Function.Injective ofMask := by
  intro paths paths' h
  exact List.map_injective_iff.2
    (fun _ _ hpath => FieldPath.wireText_injective (Json.string.inj hpath))
    (Json.array.inj (single_injective h))

theorem ofWrite_set (key : DocumentKey) (data : Fields) (mask : Option (List FieldPath))
    (increments : List Increment) :
    ofWrite db (.set key data mask increments)
      = .object (("update", ofDocument db key data) ::
          (optional "updateMask" (mask.map ofMask) ++ ofIncrements db increments)) := by
  cases mask <;> rfl

/-- A mask and increments are told apart, and a mask without paths is not left out. -/
theorem mask_ofIncrements_injective {mask mask' : Option (List FieldPath)}
    {increments increments' : List Increment}
    (h : optional "updateMask" (mask.map ofMask) ++ ofIncrements db increments
      = optional "updateMask" (mask'.map ofMask) ++ ofIncrements db increments') :
    mask = mask' ∧ ofIncrements db increments = ofIncrements db increments' := by
  have hmask := congrArg (Keyed.get? "updateMask") h
  rw [ofIncrements_eq, ofIncrements_eq] at hmask
  simp only [Keyed.get?_append, get?_optional, if_true, String.reduceEq, if_false, Option.or_none]
    at hmask
  cases Option.map_injective ofMask_injective hmask
  exact ⟨rfl, List.append_cancel_left h⟩

/-! ## Writes -/

/-- Writes with the same form are the same. -/
theorem ofWrite_injective {w w' : Write} (hw : w.IsRepresentable) (hw' : w'.IsRepresentable)
    (h : ofWrite db w = ofWrite db w') : w = w' := by
  cases w with
  | create key data increments =>
      obtain ⟨hnames, hdata, hoperands⟩ := hw
      cases w' with
      | create key' data' increments' =>
          obtain ⟨hnames', hdata', hoperands'⟩ := hw'
          simp only [ofWrite, Json.object.injEq, List.cons_append, List.nil_append,
            List.cons.injEq, Prod.mk.injEq, true_and] at h
          obtain ⟨rfl, rfl⟩ := ofDocument_injective db hnames hnames' hdata hdata' h.1
          rw [ofIncrements_injective db hoperands hoperands' h.2]
      | set => simp [ofWrite] at h
      | delete => simp [ofWrite, single] at h
  | set key data mask increments =>
      obtain ⟨hnames, hdata, hoperands⟩ := hw
      cases w' with
      | create => simp [ofWrite] at h
      | set key' data' mask' increments' =>
          obtain ⟨hnames', hdata', hoperands'⟩ := hw'
          simp only [ofWrite_set, Json.object.injEq, List.cons.injEq, Prod.mk.injEq, true_and] at h
          obtain ⟨rfl, rfl⟩ := ofDocument_injective db hnames hnames' hdata hdata' h.1
          obtain ⟨rfl, hincrements⟩ := mask_ofIncrements_injective db h.2
          rw [ofIncrements_injective db hoperands hoperands' hincrements]
      | delete => simp [ofWrite, single] at h
  | delete key =>
      cases w' with
      | create => simp [ofWrite, single] at h
      | set => simp [ofWrite, single] at h
      | delete key' =>
          have hname := Json.string.inj (single_injective h)
          rw [db.documentName_injective hw hw' hname]

theorem isFinite_ofDocument (key : DocumentKey) (data : Fields) :
    (ofDocument db key data).IsFinite :=
  ⟨isFinite_ofFields db data, trivial, trivial⟩

theorem fieldsFinite_ofIncrements (increments : List Increment) :
    Json.FieldsFinite (ofIncrements db increments) := by
  unfold ofIncrements
  split
  · exact trivial
  · exact ⟨Json.itemsFinite_iff.2 (List.forall_mem_map.2 fun i _ =>
      ⟨trivial, isFinite_ofValue db i.operand, trivial⟩), trivial⟩

/-- A write has finite doubles only. -/
theorem isFinite_ofWrite (w : Write) : (ofWrite db w).IsFinite := by
  cases w with
  | create key data increments =>
      exact ⟨isFinite_single trivial, isFinite_ofDocument db key data,
        fieldsFinite_ofIncrements db increments⟩
  | set key data mask increments =>
      have hmask (paths : List FieldPath) : (ofMask paths).IsFinite :=
        isFinite_single (Json.itemsFinite_iff.2 (List.forall_mem_map.2 fun _ _ => trivial))
      rw [ofWrite_set]
      refine ⟨isFinite_ofDocument db key data, Json.fieldsFinite_append.2
        ⟨fieldsFinite_optional.2 fun j hj => ?_, fieldsFinite_ofIncrements db increments⟩⟩
      obtain ⟨paths, -, rfl⟩ := Option.map_eq_some_iff.1 hj
      exact hmask paths
  | delete key => exact isFinite_single trivial

/-- **Nothing of a write is lost on the wire.**  Writes that are sent with the same text are the
same: in kind, key, fields, mask and increments, in their order. -/
theorem eq_of_render_ofWrite {w w' : Write} (hw : w.IsRepresentable) (hw' : w'.IsRepresentable)
    (h : (ofWrite db w).render = (ofWrite db w').render) : w = w' :=
  ofWrite_injective db hw hw'
    (Json.render_injective (isFinite_ofWrite db w) (isFinite_ofWrite db w') h)

/-- A merge of one number and an increment of another, whose field has a dot in its name. -/
theorem eq_of_render_ofWrite_visits :
    let db : DatabaseId := ⟨"demo", "(default)"⟩
    let merge (data : Fields) : Write := .set ⟨⟨["users", "ann"]⟩⟩ data
      (some [⟨["stats", "age"]⟩]) [⟨⟨["visits.today"]⟩, .integer 1⟩]
    let data : Fields := Fields.setIn [] (.integer 7) ["stats", "age"]
    let data' : Fields := [("stats", .map [("age", .integer 7)])]
    (merge data).IsRepresentable ∧ (merge data').IsRepresentable ∧
      (ofWrite db (merge data)).render = (ofWrite db (merge data')).render ∧
      merge data = merge data' := by
  intro db merge data data'
  have hmerge : (merge data').IsRepresentable :=
    ⟨by unfold ResourcePath.HasNames; decide, ⟨⟨trivial, trivial⟩, trivial⟩,
      List.forall_mem_singleton.2 trivial⟩
  have hdata : data = data' := rfl
  have htext : (ofWrite db (merge data)).render = (ofWrite db (merge data')).render :=
    congrArg (fun data => (ofWrite db (merge data)).render) hdata
  exact ⟨hdata ▸ hmerge, hmerge, htext, eq_of_render_ofWrite db (hdata ▸ hmerge) hmerge htext⟩

/-- A commit is known from its text, too. -/
theorem eq_of_render_commit {writes writes' : List Write}
    (hwrites : ∀ w ∈ writes, w.IsRepresentable) (hwrites' : ∀ w ∈ writes', w.IsRepresentable)
    (h : (single "writes" (.array (writes.map (ofWrite db)))).render
      = (single "writes" (.array (writes'.map (ofWrite db)))).render) : writes = writes' := by
  have hfinite (writes : List Write) :
      (single "writes" (.array (writes.map (ofWrite db)))).IsFinite :=
    isFinite_single (Json.itemsFinite_iff.2 (List.forall_mem_map.2 fun w _ =>
      isFinite_ofWrite db w))
  have hform := Json.array.inj
    (single_injective (Json.render_injective (hfinite writes) (hfinite writes') h))
  have hitems := map_eq_map_of (g := id)
    (fun w hw w' hw' => ofWrite_injective db (hwrites w hw) (hwrites' w' hw')) hform
  rwa [List.map_id, List.map_id] at hitems

end Wire

end DocStore
