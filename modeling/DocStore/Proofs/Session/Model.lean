import DocStore.Proofs.Document.Update
import DocStore.Proofs.Session.Statement
import DocStore.Session.Model

/-!
# Models and their documents

A model is saved in a store in memory that nobody else writes to.  A save that succeeds has created
the document, has found nothing to write, or has merged what changed into the document (`Saves`);
one that fails has changed nothing (`Unchanged`).  That is shown for every session of a model that
is regular, as all are that come from a new model (`IsRegular.saveModel`).
-/

namespace DocStore

open Diff Merge SplitData
open Memory (Table)

/-! ## Attributes -/

/-- Fields as documents hold them: a record without markers, and no field has the name of the
document id. -/
structure Fields.IsContent (fields : Fields) : Prop where
  record : Value.recordFields (fun _ => true) false fields = true
  nameless : Keyed.get? FieldPath.documentIdName fields = none

namespace Fields.IsContent

variable {fields before after : Fields}

theorem set (h : fields.IsContent) {path : FieldPath}
    (hpath : path.segments.head? ≠ some FieldPath.documentIdName) {v : Value}
    (hv : v.isRecord (fun _ => true) false = true) : (Fields.set fields path v).IsContent where
  record := Fields.recordFields_setIn h.record (fun _ _ => rfl) hv
  nameless := (Fields.get?_setIn_of_ne hpath).trans h.nameless

theorem remove (h : fields.IsContent) {path : FieldPath}
    (hafter : Fields.remove? fields path = some after) : after.IsContent where
  record := Fields.recordFields_removeIn? h.record hafter
  nameless := Fields.get?_removeIn?_of_none h.nameless hafter

/-- A document is created with the content as it is. -/
theorem encodeCreate (h : fields.IsContent) {encoded : EncodedData}
    (hencoded : DocStore.encodeCreate fields = .ok encoded) :
    encoded.fields = fields ∧ encoded.increments = [] := by
  obtain ⟨-, rfl⟩ := encodeCreate_eq_ok.1 hencoded
  constructor
  · have hkept := kept_of_record (v := .map fields) h.record
    exact (innerOf_kept fields).symm.trans (congrArg innerOf hkept)
  · simp [parts, raised_of_record h.record]

/-- The changes from one content to another do not name the document id. -/
theorem strip_between (hbefore : before.IsContent) (hafter : after.IsContent) :
    stripDocumentId (between false before after) = (between false before after, none) := by
  have hnone : Keyed.get? FieldPath.documentIdName (difference false before after) = none := by
    rw [get?_difference (Value.sorted_of_recordFields hafter.record), hafter.nameless,
      hbefore.nameless]
    rfl
  rw [stripDocumentId, show between false before after = difference false before after from rfl,
    hnone]

end Fields.IsContent

/-- The paths that an update from one record to another writes have different texts. -/
def Diff.WritesApart (before after : Fields) : Prop :=
  ((leafPaths (between false before after)).map FieldPath.text).Nodup

instance (before after : Fields) : Decidable (WritesApart before after) :=
  inferInstanceAs (Decidable (List.Nodup _))

namespace Fields.IsContent

variable {before after : Fields}

/-- Changes are encoded as a merge. -/
theorem encodeUpdate_between (hbefore : before.IsContent) (hafter : after.IsContent)
    (hdirty : between false before after ≠ []) :
    encodeUpdate (between false before after)
      = (encodeSet true (between false before after)).map some := by
  rw [encodeUpdate, hbefore.strip_between hafter, if_neg (by simpa using hdirty)]

/-- There is something to write where something has changed. -/
theorem encodeUpdate_ne_none (hbefore : before.IsContent) (hafter : after.IsContent)
    (hdirty : between false before after ≠ []) :
    encodeUpdate (between false before after) ≠ .ok none := by
  rw [hbefore.encodeUpdate_between hafter hdirty]
  cases encodeSet true (between false before after) with
  | error e => exact fun h => nomatch h
  | ok encoded => exact fun h => nomatch h

/-- An update whose paths have different texts takes all changes, and its mask names each of
them. -/
theorem eq_of_encodeUpdate (hbefore : before.IsContent) (hafter : after.IsContent)
    (hdirty : between false before after ≠ []) (happart : WritesApart before after)
    {encoded : EncodedData}
    (hencoded : encodeUpdate (between false before after) = .ok (some encoded)) :
    encoded = ⟨keptFields (between false before after),
      some (leafPaths (between false before after)), []⟩ := by
  have hrecord : Value.recordFields (fun _ => true) true (between false before after) = true :=
    record_difference hbefore.record hafter.record
  rw [hbefore.encodeUpdate_between hafter hdirty] at hencoded
  cases hset : encodeSet true (between false before after) with
  | error e =>
      rw [hset] at hencoded
      cases hencoded
  | ok encoded' =>
      rw [hset] at hencoded
      cases hencoded
      exact ((encodeSet_merge_of_nodup hrecord hdirty happart).1 hset).2.symm

end Fields.IsContent

/-! ## The document of a model -/

namespace Model

/-- The key of the document of a model, once it has been saved. -/
def key? (m : Model) : Option DocumentKey :=
  match (Connection.modelQuery m).insertTarget, m.id with
  | .ok path, some id => some ⟨path.child [id]⟩
  | _, _ => none

/-- The fields of the document of a model in a table. -/
def fieldsIn? (table : Table) (m : Model) : Option Fields :=
  m.key?.bind fun key => (Keyed.get? key.path table).map (·.fields)

/-- Where the document of a model is. -/
structure IsAt (m : Model) (path : ResourcePath) (id : String) : Prop where
  target : (QueryState.ofTable m.collection).insertTarget = .ok path
  id_eq : m.id = some id
  plain : Text.IsPlainName id

variable {m m' : Model} {path : ResourcePath} {id : String}

/-- The document of a model is known from its collection and its id. -/
theorem fieldsIn?_congr (hcollection : m'.collection = m.collection) (hid : m'.id = m.id)
    (table : Table) : m'.fieldsIn? table = m.fieldsIn? table := by
  unfold fieldsIn? key? Connection.modelQuery
  rw [hcollection, hid]

theorem IsAt.key? (h : m.IsAt path id) : m.key? = some ⟨path.child [id]⟩ := by
  have htarget : (Connection.modelQuery m).insertTarget = .ok path := h.target
  unfold Model.key?
  rw [htarget, h.id_eq]

theorem key?_of_nameless (h : m.id = none) : m.key? = none := by
  unfold Model.key?
  rw [h]
  cases (Connection.modelQuery m).insertTarget <;> rfl

theorem IsAt.fieldsIn? (h : m.IsAt path id) (table : Table) :
    m.fieldsIn? table = (Keyed.get? (path.child [id]) table).map (·.fields) := by
  rw [Model.fieldsIn?, h.key?, Option.bind_some]

end Model

/-! ## Sessions of a model -/

namespace ModelSession

/-- The documents in the store. -/
def table (s : ModelSession Memory.State) : Table := s.session.client.store.table

/-- A model that is not saved yet, on a connection that does not pretend.  Other documents may be
there. -/
structure IsFresh (s : ModelSession Memory.State) : Prop where
  listens : s.session.pretending = false
  wellFormed : Memory.WellFormed s.table
  attributes : s.model.attributes.IsContent
  keyName : FieldPath.AvoidsId s.model.keyName
  unsaved : s.model.saved = false
  nameless : s.model.id = none

/-- What holds of a model all the time: its attributes are content, and once it is saved its
document is there. -/
structure IsRegular (s : ModelSession Memory.State) : Prop where
  listens : s.session.pretending = false
  wellFormed : Memory.WellFormed s.table
  attributes : s.model.attributes.IsContent
  keyName : FieldPath.AvoidsId s.model.keyName
  unsaved : s.model.saved = false → s.model.id = none
  stored : s.model.saved = true → s.model.stored.IsContent
  document : s.model.saved = true → ∃ path id held, s.model.IsAt path id ∧
    Keyed.get? (path.child [id]) s.table = some held

theorem IsFresh.isRegular {s : ModelSession Memory.State} (h : s.IsFresh) : s.IsRegular where
  listens := h.listens
  wellFormed := h.wellFormed
  attributes := h.attributes
  keyName := h.keyName
  unsaved _ := h.nameless
  stored hsaved := absurd (h.unsaved.symm.trans hsaved) Bool.false_ne_true
  document hsaved := absurd (h.unsaved.symm.trans hsaved) Bool.false_ne_true

/-- What a save that succeeds has done. -/
inductive Saves (s s' : ModelSession Memory.State) : Prop
  /-- The document is new. -/
  | created (hnew : s.model.saved = false)
      (hfields : s'.model.fieldsIn? s'.table = some s'.model.attributes)
      (hstored : s'.model.stored = s'.model.attributes)
  /-- There was nothing to write. -/
  | clean (hsaved : s.model.saved = true)
      (hclean : between false s.model.stored s.model.attributes = [])
      (hmodel : s'.model = s.model) (htable : s'.table = s.table)
  /-- The changes were merged into the document. -/
  | merged (hsaved : s.model.saved = true) (base : Fields)
      (hbase : s.model.fieldsIn? s.table = some base)
      (hfields : s'.model.fieldsIn? s'.table
        = some (Merge.merged base (between false s.model.stored s.model.attributes)))
      (hattributes : s'.model.attributes = s.model.attributes)
      (hstored : s'.model.stored = s.model.attributes)

variable {s s' : ModelSession Memory.State}

/-- A save that fails changes neither the model nor a document. -/
structure Unchanged (s s' : ModelSession Memory.State) : Prop where
  model : s'.model = s.model
  session : s'.session.IsOver s.table

theorem Unchanged.isRegular (h : Unchanged s s') (hs : s.IsRegular) : s'.IsRegular := by
  have htable : s'.table = s.table := h.session.table_eq
  constructor
  · exact h.session.listens
  · rw [htable]
    exact hs.wellFormed
  all_goals rw [h.model]
  · exact hs.attributes
  · exact hs.keyName
  · exact hs.unsaved
  · exact hs.stored
  · rw [htable]
    exact hs.document

theorem IsRegular.isOver (h : s.IsRegular) : s.session.IsOver s.table := ⟨h.listens, rfl⟩

theorem runOn_current {σ : Type} (s : ModelSession σ) :
    current.runOn s = (.ok s.model, s) := rfl

theorem runOn_put {σ : Type} (m : Model) (s : ModelSession σ) :
    (put m).runOn s = (.ok (), { s with model := m }) := rfl

/-- Without hooks nothing happens. -/
theorem runOn_runHooks_nil (s : ModelSession Memory.State) :
    (runHooks []).runOn s = (.ok (), s) := rfl

theorem runOn_onSession {σ α : Type} {s : ModelSession σ} {a : Action (Session σ) α}
    {outcome : Outcome α} {session : Session σ} (h : a.runOn s.session = (outcome, session)) :
    (onSession a).runOn s = (outcome, { s with session }) := by
  rw [onSession, Action.runOn_onPart, h]

/-- A model is regular when its document has been written. -/
theorem IsRegular.written (h : s.IsRegular) {path : ResourcePath} {id : String}
    {session : Session Memory.State} {stored : Memory.Stored} {m : Model}
    (hover : session.IsOver (Keyed.insert (path.child [id]) stored s.table))
    (hat : m.IsAt path id) (hkeyName : m.keyName = s.model.keyName) (hsaved : m.saved = true)
    (hattributes : m.attributes.IsContent) (hstored : m.stored.IsContent) :
    IsRegular ⟨session, m⟩ ∧ m.fieldsIn? session.client.store.table = some stored.fields := by
  have hcollection := (QueryState.insertTarget_ofTable.1 hat.target).2
  have hget : Keyed.get? (path.child [id]) session.client.store.table = some stored := by
    rw [hover.table_eq]
    exact Keyed.get?_insert_self
  refine ⟨⟨hover.listens, ?_, hattributes, ?_, ?_, fun _ => hstored,
    fun _ => ⟨path, id, stored, hat, hget⟩⟩, ?_⟩
  · rw [ModelSession.table, hover.table_eq]
    exact h.wellFormed.insert (ResourcePath.isDocument_child hcollection id) _
  · rw [hkeyName]
    exact h.keyName
  · exact fun hnot => absurd (hnot.symm.trans hsaved) Bool.false_ne_true
  · rw [hat.fieldsIn?, hget]
    rfl

section Saves

variable (database : DatabaseId) (pageSize : Nat)

/-- The first save creates the document, or fails. -/
theorem IsRegular.createModel (h : s.IsRegular) (hnew : s.model.saved = false) :
    (∃ e s', ((Connection.inMemory database pageSize).createModel {}).runOn s = (.error e, s') ∧
      Unchanged s s') ∨
    (∃ s', ((Connection.inMemory database pageSize).createModel {}).runOn s = (.ok true, s') ∧
      s'.IsRegular ∧ Saves s s') := by
  have hid := h.unsaved hnew
  unfold Connection.createModel Connection.modelQuery
  rw [Action.runOn_bind_of_ok (runOn_runHooks_nil s), Action.runOn_bind_of_ok (runOn_current s)]
  dsimp only
  rw [hid]
  dsimp only
  rcases h.isOver.insertGetId database pageSize s.model.collection
      (Value.sorted_of_recordFields h.attributes.record) h.attributes.nameless h.keyName with
    ⟨e, session, hrun, hover⟩ |
    ⟨path, at?, id, encoded, now, session, hrun, htarget, hread, hplain, hencoded, hnone, hover⟩
  · exact .inl ⟨e, { s with session }, Action.runOn_bind_of_error (runOn_onSession hrun), rfl,
      hover⟩
  · have hcontent : (Fields.set s.model.attributes at? (.string id)).IsContent :=
      h.attributes.set (h.keyName at? hread) rfl
    obtain ⟨hfields, hincrements⟩ := hcontent.encodeCreate hencoded
    rw [hfields, hincrements] at hover
    let m : Model := { s.model with
      id := some id
      saved := true
      attributes := Fields.set s.model.attributes at? (.string id)
      stored := Fields.set s.model.attributes at? (.string id) }
    have hat : m.IsAt path id := ⟨htarget, rfl, hplain⟩
    obtain ⟨hregular, hstored⟩ := h.written hover hat rfl rfl hcontent hcontent
    refine .inr ⟨⟨session, m⟩, ?_, hregular, .created hnew hstored rfl⟩
    rw [Action.runOn_bind_of_ok (runOn_onSession hrun), hread,
      Action.runOn_bind_of_ok (Action.runOn_ofOutcome _ _)]
    have hkey : (⟨path.child [id]⟩ : DocumentKey).id = id := by
      simp [DocumentKey.id, ResourcePath.last?, ResourcePath.child]
    rw [hkey, Action.runOn_bind_of_ok (runOn_put _ _)]
    rfl

/-- A later save writes what has changed, or fails. -/
theorem IsRegular.updateModel (h : s.IsRegular) (hsaved : s.model.saved = true) :
    (∃ e s', ((Connection.inMemory database pageSize).updateModel {}).runOn s = (.error e, s') ∧
      Unchanged s s') ∨
    (∃ written s', ((Connection.inMemory database pageSize).updateModel {}).runOn s
        = (.ok written, s') ∧ s'.IsRegular ∧
      (WritesApart s.model.stored s.model.attributes → Saves s s')) := by
  obtain ⟨path, id, held, hat, hheld⟩ := h.document hsaved
  have hpersisted : s.model.persistedId = .ok id := by
    rw [Model.persistedId, hat.id_eq]
    rfl
  unfold Connection.updateModel Connection.modelQuery
  rw [Action.runOn_bind_of_ok (runOn_current s)]
  by_cases hdirty : between false s.model.stored s.model.attributes = []
  · refine .inr ⟨false, s, ?_, h, fun _ => .clean hsaved hdirty rfl rfl⟩
    rw [if_pos]
    · rfl
    · rw [Diff.isDirty, show ({} : Repository).loose = false from rfl, hdirty]
      rfl
  · have hisDirty : (!Diff.isDirty ({} : Repository).loose s.model.stored s.model.attributes)
        = false := by
      rw [Diff.isDirty, Bool.not_not, List.isEmpty_eq_false_iff]
      exact hdirty
    rw [hisDirty, if_neg Bool.false_ne_true, Action.runOn_bind_of_ok (runOn_runHooks_nil s),
      Action.runOn_bind_of_ok (runOn_current s)]
    dsimp only
    rw [hpersisted, Action.runOn_bind_of_ok (Action.runOn_ofOutcome _ _)]
    rcases h.isOver.update_whereKey database pageSize h.wellFormed
        hat.target hat.plain (.of_mem (Keyed.mem_of_get?_eq_some hheld))
        ((h.stored hsaved).encodeUpdate_ne_none h.attributes hdirty) with
      ⟨e, session, hrun, hover⟩ | ⟨encoded, now, table', session, hrun, hencoded, hcommit, hover⟩
    · exact .inl ⟨e, { s with session },
        Action.runOn_bind_of_error (runOn_onSession hrun), rfl, hover⟩
    · obtain ⟨stored, hcommitted⟩ := Memory.commitTable_set now s.table ⟨path.child [id]⟩
        encoded.fields encoded.mask encoded.increments
      obtain rfl := Except.ok.inj (hcommit.symm.trans hcommitted)
      have hat' : (s.model.persisted id).IsAt path id := ⟨hat.target, rfl, hat.plain⟩
      obtain ⟨hregular, hstored⟩ := h.written hover hat' rfl rfl h.attributes h.attributes
      refine .inr ⟨true, ⟨session, s.model.persisted id⟩, ?_, hregular, fun happart =>
        .merged hsaved held.fields ?_ ?_ rfl rfl⟩
      · rw [Action.runOn_bind_of_ok (runOn_onSession hrun),
          Action.runOn_bind_of_ok (runOn_put _ _)]
        rfl
      · rw [hat.fieldsIn?, hheld]
        rfl
      · obtain rfl :=
          (h.stored hsaved).eq_of_encodeUpdate h.attributes hdirty happart hencoded
        rw [Memory.commitTable_merge now ⟨path.child [id]⟩ hheld] at hcommit
        have hmerged := congrArg (Keyed.get? (path.child [id])) (Except.ok.inj hcommit)
        rw [Keyed.get?_insert_self, Keyed.get?_insert_self, Option.some.injEq] at hmerged
        rw [ModelSession.table, hstored, ← hmerged, leafPaths, applyMask_eq]
        rfl

/-- A save creates the document of a model or writes what has changed, or it fails. -/
theorem IsRegular.saveModel (h : s.IsRegular) :
    (∃ e s', ((Connection.inMemory database pageSize).saveModel {}).runOn s = (.error e, s') ∧
      Unchanged s s') ∨
    (∃ written s', ((Connection.inMemory database pageSize).saveModel {}).runOn s
        = (.ok written, s') ∧ s'.IsRegular ∧
      ((s.model.saved = true → WritesApart s.model.stored s.model.attributes) → Saves s s')) := by
  unfold Connection.saveModel
  rw [Action.runOn_bind_of_ok (runOn_current s)]
  cases hsaved : s.model.saved with
  | false =>
      rw [if_neg Bool.false_ne_true]
      rcases h.createModel database pageSize hsaved with
        hfailed | ⟨s', hrun, hregular, hsaves⟩
      · exact .inl hfailed
      · exact .inr ⟨true, s', hrun, hregular, fun _ => hsaves⟩
  | true =>
      rw [if_pos rfl]
      rcases h.updateModel database pageSize hsaved with
        hfailed | ⟨written, s', hrun, hregular, hsaves⟩
      · exact .inl hfailed
      · exact .inr ⟨written, s', hrun, hregular, fun happart => hsaves (happart rfl)⟩

end Saves

end ModelSession

end DocStore
