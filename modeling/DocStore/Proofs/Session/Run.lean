import DocStore.Proofs.Document.Settled
import DocStore.Proofs.Document.Thinned
import DocStore.Proofs.Session.Model

/-!
# Models and their documents over whole runs

A model is edited and saved, time and again.  After each save that succeeds the document has the
attributes of the model, but for hollow maps below the top level that it may lack
(`Saves.isThinned`).  A document that agreed with what the model knew of it agrees with the
attributes afterwards exactly if the save has emptied no map below the top level
(`Saves.agrees_iff`).

A run consists of saves that succeed, of saves that fail and of edits (`Runs`), and both statements
carry over to runs from a new model by induction (`saves_agree`).
-/

namespace DocStore

open Diff
open Memory (Table)

/-! ## Steps -/

/-- A step of a program that edits a model. -/
inductive ModelStep
  | set (field : String) (value : Value)
  | remove (field : String)
  | save

namespace ModelStep

/-- What a step does.  Models are saved without hooks and compared strictly. -/
def action (c : Connection Memory.State) : ModelStep → Action (ModelSession Memory.State) Unit
  | set field value => do
    ModelSession.put (← Action.ofOutcome ((← ModelSession.current).set field value))
  | remove field => do
    ModelSession.put (← Action.ofOutcome ((← ModelSession.current).remove field)).2
  | save => do
    let _ ← c.saveModel {}

def isSave : ModelStep → Bool
  | save => true
  | set _ _ | remove _ => false

theorem eq_save_of_isSave {step : ModelStep} (h : step.isSave = true) : step = save := by
  cases step with
  | save => rfl
  | set field value => cases h
  | remove field => cases h

/-- The values that are set are records without markers, and not under the name of the document
id. -/
def IsPlain : ModelStep → Prop
  | set field value => value.isRecord (fun _ => true) false = true ∧ FieldPath.AvoidsId field
  | remove _ | save => True

instance : (step : ModelStep) → Decidable step.IsPlain
  | set _ _ => inferInstanceAs (Decidable (_ ∧ _))
  | remove _ | save => isTrue trivial

end ModelStep

/-! ## Agreement -/

/-- The document of a model has some fields, up to a relation. -/
def Model.IsStoredAs (r : Fields → Fields → Prop) (table : Table) (m : Model)
    (fields : Fields) : Prop :=
  ∃ held, m.fieldsIn? table = some held ∧ r held fields

instance (r : Fields → Fields → Prop) [DecidableRel r] (table : Table) (m : Model)
    (fields : Fields) : Decidable (m.IsStoredAs r table fields) :=
  decidable_of_iff ((m.fieldsIn? table).any (fun held => r held fields) = true) (by
    simp [Model.IsStoredAs, Option.any_eq_true])

namespace ModelSession

variable {s s' : ModelSession Memory.State}

/-- The document of a model has the attributes of the model, up to a relation. -/
def HasAttributes (r : Fields → Fields → Prop) (s : ModelSession Memory.State) : Prop :=
  s.model.IsStoredAs r s.table s.model.attributes

/-- The document of a saved model has the attributes that are known to be stored, up to a
relation. -/
def IsSynced (r : Fields → Fields → Prop) (s : ModelSession Memory.State) : Prop :=
  s.model.saved = true → s.model.IsStoredAs r s.table s.model.stored

/-- The document of a model has the attributes of the model. -/
abbrev Agrees (s : ModelSession Memory.State) : Prop :=
  s.HasAttributes (Value.alikeFields · · = true)

instance (s : ModelSession Memory.State) : Decidable s.Agrees :=
  inferInstanceAs (Decidable (Model.IsStoredAs _ _ _ _))

/-- A merge leads to agreement exactly if no map below the top level is emptied. -/
theorem alike_merged_iff {base before after : Fields} (hbase : Value.alikeFields base before = true)
    (hbefore : before.IsContent) (hafter : after.IsContent) :
    Value.alikeFields (Merge.merged base (between false before after)) after = true ↔
      ¬ EmptiesMap before after := by
  have hmerged : Value.alikeFields (Merge.merged base (between false before after))
      (settledFields false before after) = true :=
    alike_merged_onto hbase hbefore.record hafter.record
  rw [← settledFields_eq_self_iff hafter.record]
  constructor
  · intro halike
    rw [Value.alikeFields_comm] at hmerged
    exact settledFields_eq_of_alike hafter.record (Value.alikeFields_trans hmerged halike)
  · intro hsettled
    rwa [hsettled] at hmerged

variable {r : Fields → Fields → Prop}

theorem isStoredAs_iff {table : Table} {m : Model} {held fields : Fields}
    (h : m.fieldsIn? table = some held) : m.IsStoredAs r table fields ↔ r held fields := by
  rw [Model.IsStoredAs, h]
  simp

/-- A document that has the attributes after a save is known as it is. -/
theorem Saves.isSynced (h : Saves s s') (hsynced : s.IsSynced r) (hafter : s'.HasAttributes r) :
    s'.IsSynced r := by
  intro hsaved'
  cases h with
  | created hnew hfields hstored =>
      rw [hstored]
      exact hafter
  | clean hsaved hclean hmodel htable =>
      rw [hmodel, htable]
      exact hsynced hsaved
  | merged hsaved base hbase hfields hattributes hstored =>
      rw [hstored, ← hattributes]
      exact hafter

/-- What is merged where nothing has changed changes nothing. -/
theorem merged_of_clean (base : Fields) {before after : Fields}
    (hclean : between false before after = []) :
    Merge.merged base (between false before after) = base := by
  rw [hclean]
  rfl

/-- **Saves.**  After a save the document agrees with the model exactly if the save has emptied no
map below the top level, provided that the document agreed with what the model knew of it. -/
theorem Saves.agrees_iff (h : Saves s s') (hregular : s.IsRegular)
    (hsynced : s.IsSynced (Value.alikeFields · · = true)) :
    s'.Agrees ↔ (s.model.saved = true → ¬ EmptiesMap s.model.stored s.model.attributes) := by
  cases h with
  | created hnew hfields hstored =>
      refine iff_of_true ⟨_, hfields, Value.alikeFields_refl _⟩ fun hsaved => ?_
      exact absurd (hnew.symm.trans hsaved) Bool.false_ne_true
  | clean hsaved hclean hmodel htable =>
      obtain ⟨base, hbase, halike⟩ := hsynced hsaved
      have hiff := alike_merged_iff halike (hregular.stored hsaved) hregular.attributes
      rw [merged_of_clean base hclean] at hiff
      rw [Agrees, HasAttributes, hmodel, htable, isStoredAs_iff hbase, hiff]
      simp [hsaved]
  | merged hsaved base hbase hfields hattributes hstored =>
      have halike := (isStoredAs_iff hbase).1 (hsynced hsaved)
      rw [Agrees, HasAttributes, hattributes, isStoredAs_iff hfields,
        alike_merged_iff halike (hregular.stored hsaved) hregular.attributes]
      simp [hsaved]

/-- After a save the document lacks no more than hollow maps of the attributes, if it lacked no more
of what the model knew of it. -/
theorem Saves.isThinned (h : Saves s s') (hregular : s.IsRegular) (hregular' : s'.IsRegular)
    (hsynced : s.IsSynced Value.Thinned) : s'.HasAttributes Value.Thinned := by
  have hmerged {base : Fields} (hsaved : s.model.saved = true)
      (hheld : Value.Thinned base s.model.stored) :
      Value.Thinned (Merge.merged base (between false s.model.stored s.model.attributes))
        s.model.attributes :=
    thinned_merged hheld (hregular.stored hsaved).record hregular.attributes.record
  cases h with
  | created hnew hfields hstored =>
      exact ⟨_, hfields,
        Value.thinned_refl (Value.sorted_of_recordFields hregular'.attributes.record)⟩
  | clean hsaved hclean hmodel htable =>
      obtain ⟨base, hbase, hheld⟩ := hsynced hsaved
      have hafter := hmerged hsaved hheld
      rw [merged_of_clean base hclean] at hafter
      rw [HasAttributes, hmodel, htable]
      exact ⟨base, hbase, hafter⟩
  | merged hsaved base hbase hfields hattributes hstored =>
      rw [HasAttributes, hattributes]
      exact ⟨_, hfields, hmerged hsaved ((isStoredAs_iff hbase).1 (hsynced hsaved))⟩

/-! ## Runs -/

/-- The session with other attributes. -/
def withAttributes (s : ModelSession Memory.State) (attributes : Fields) :
    ModelSession Memory.State :=
  { s with model := { s.model with attributes } }

theorem IsRegular.withAttributes (h : s.IsRegular) {attributes : Fields}
    (hcontent : attributes.IsContent) : (s.withAttributes attributes).IsRegular where
  listens := h.listens
  wellFormed := h.wellFormed
  attributes := hcontent
  keyName := h.keyName
  unsaved := h.unsaved
  stored := h.stored
  document hsaved := by
    obtain ⟨path, id, held, hat, hheld⟩ := h.document hsaved
    exact ⟨path, id, held, ⟨hat.target, hat.id_eq, hat.plain⟩, hheld⟩

theorem fieldsIn?_withAttributes (s : ModelSession Memory.State) (attributes : Fields)
    (table : Table) :
    (s.withAttributes attributes).model.fieldsIn? table = s.model.fieldsIn? table :=
  Model.fieldsIn?_congr (by rfl) (by rfl) table

theorem IsSynced.withAttributes (h : s.IsSynced r) (attributes : Fields) :
    (s.withAttributes attributes).IsSynced r := by
  intro hsaved
  have hstored := h hsaved
  rw [Model.IsStoredAs, ← fieldsIn?_withAttributes s attributes] at hstored
  exact hstored

theorem Unchanged.isSynced (h : Unchanged s s') (hsynced : s.IsSynced r) : s'.IsSynced r := by
  have htable : s'.table = s.table := h.session.table_eq
  rwa [IsSynced, h.model, htable]

/-- Setting and removing change the attributes alone, which stay content. -/
theorem edits_attributes (c : Connection Memory.State) (h : s.model.attributes.IsContent)
    {step : ModelStep} (hstep : step.IsPlain) (hedit : step.isSave = false) :
    ∃ attributes, attributes.IsContent ∧
      ((step.action c).runOn s).2 = s.withAttributes attributes := by
  cases step with
  | save => cases hedit
  | set field value =>
      rw [ModelStep.action, Action.runOn_bind_of_ok (runOn_current s), Model.set]
      cases hread : FieldPath.ofText field with
      | error e => exact ⟨_, h, rfl⟩
      | ok path => exact ⟨_, h.set (hstep.2 path hread) hstep.1, rfl⟩
  | remove field =>
      rw [ModelStep.action, Action.runOn_bind_of_ok (runOn_current s), Model.remove]
      cases FieldPath.ofText field with
      | error e => exact ⟨_, h, rfl⟩
      | ok path =>
          rw [Outcome.ok_bind]
          cases hafter : Fields.remove? s.model.attributes path with
          | none => exact ⟨_, h, rfl⟩
          | some after => exact ⟨_, h.remove hafter, rfl⟩

/-- Of each save of a run that succeeds, something holds of the sessions before and after it. -/
def EachSave (c : Connection Memory.State)
    (p : ModelSession Memory.State → ModelSession Memory.State → Prop) :
    List ModelStep → ModelSession Memory.State → Prop
  | [], _ => True
  | step :: rest, s =>
    let result := (step.action c).runOn s
    (step.isSave = true → result.1.isOk = true → p s result.2) ∧ EachSave c p rest result.2

section Runs

variable {c : Connection Memory.State}
  {p q : ModelSession Memory.State → ModelSession Memory.State → Prop} {rest : List ModelStep}

instance EachSave.decidable [∀ s s', Decidable (p s s')] :
    (steps : List ModelStep) → (s : ModelSession Memory.State) → Decidable (EachSave c p steps s)
  | [], _ => isTrue trivial
  | step :: rest, s =>
    have := EachSave.decidable rest ((step.action c).runOn s).2
    inferInstanceAs (Decidable ((_ → _ → _) ∧ _))

theorem EachSave.imp (hpq : ∀ s s', p s s' → q s s') {steps : List ModelStep}
    (h : EachSave c p steps s) : EachSave c q steps s := by
  induction steps generalizing s with
  | nil => trivial
  | cons step rest ih => exact ⟨fun hsave hok => hpq _ _ (h.1 hsave hok), ih h.2⟩

theorem eachSave_edit {step : ModelStep} (hedit : step.isSave = false) :
    EachSave c p (step :: rest) s ↔ EachSave c p rest ((step.action c).runOn s).2 :=
  ⟨And.right, fun hrest => ⟨fun hsave => absurd (hedit.symm.trans hsave) Bool.false_ne_true,
    hrest⟩⟩

theorem eachSave_failed {e : Error} (h : (c.saveModel {}).runOn s = (.error e, s')) :
    EachSave c p (.save :: rest) s ↔ EachSave c p rest s' := by
  have hrun : (ModelStep.save.action c).runOn s = (.error e, s') := Action.runOn_bind_of_error h
  rw [EachSave, hrun]
  exact ⟨And.right, fun hrest => ⟨fun _ hok => absurd hok Bool.false_ne_true, hrest⟩⟩

theorem eachSave_saved {written : Bool} (h : (c.saveModel {}).runOn s = (.ok written, s')) :
    EachSave c p (.save :: rest) s ↔ p s s' ∧ EachSave c p rest s' := by
  have hrun : (ModelStep.save.action c).runOn s = (.ok (), s') := Action.runOn_bind_of_ok h
  rw [EachSave, hrun]
  exact and_congr_left fun _ => ⟨fun hall => hall rfl rfl, fun hp _ _ => hp⟩

end Runs

/-- The mask of an update is complete. -/
def WritesAll (s _ : ModelSession Memory.State) : Prop :=
  s.model.saved = true → WritesApart s.model.stored s.model.attributes

instance (s s' : ModelSession Memory.State) : Decidable (WritesAll s s') :=
  inferInstanceAs (Decidable (_ → WritesApart _ _))

/-- An update empties no map below the top level. -/
def KeepsMaps (s _ : ModelSession Memory.State) : Prop :=
  s.model.saved = true → ¬ EmptiesMap s.model.stored s.model.attributes

/-- A run, by what its steps do: other attributes are set, a save fails and changes nothing, or it
succeeds. -/
inductive Runs (c : Connection Memory.State) : ModelSession Memory.State → List ModelStep → Prop
  | nil (s : ModelSession Memory.State) : Runs c s []
  | edit {s : ModelSession Memory.State} {step : ModelStep} {rest : List ModelStep}
      {attributes : Fields} (hedit : step.isSave = false)
      (hstep : ((step.action c).runOn s).2 = s.withAttributes attributes)
      (hrest : Runs c (s.withAttributes attributes) rest) : Runs c s (step :: rest)
  | failed {s s' : ModelSession Memory.State} {rest : List ModelStep} {e : Error}
      (hstep : (c.saveModel {}).runOn s = (.error e, s')) (hunchanged : Unchanged s s')
      (hrest : Runs c s' rest) : Runs c s (.save :: rest)
  | saved {s s' : ModelSession Memory.State} {rest : List ModelStep} {written : Bool}
      (hstep : (c.saveModel {}).runOn s = (.ok written, s')) (hregular : s.IsRegular)
      (hregular' : s'.IsRegular) (hsaves : Saves s s') (hrest : Runs c s' rest) :
      Runs c s (.save :: rest)

/-- The runs of a regular session are of this kind. -/
theorem IsRegular.runs (h : s.IsRegular) (database : DatabaseId) (pageSize : Nat)
    {steps : List ModelStep} (hsteps : ∀ step ∈ steps, step.IsPlain)
    (hmasks : EachSave (.inMemory database pageSize) WritesAll steps s) :
    Runs (.inMemory database pageSize) s steps := by
  induction steps generalizing s with
  | nil => exact .nil s
  | cons step rest ih =>
      rw [List.forall_mem_cons] at hsteps
      cases hsave : step.isSave with
      | true =>
        obtain rfl := ModelStep.eq_save_of_isSave hsave
        rcases h.saveModel database pageSize with
          ⟨e, s', hstep, hunchanged⟩ | ⟨written, s', hstep, hregular', hsaves⟩
        · rw [eachSave_failed hstep] at hmasks
          exact .failed hstep hunchanged (ih (hunchanged.isRegular h) hsteps.2 hmasks)
        · rw [eachSave_saved hstep] at hmasks
          exact .saved hstep h hregular' (hsaves hmasks.1) (ih hregular' hsteps.2 hmasks.2)
      | false =>
        obtain ⟨attributes, hcontent, hstep⟩ :=
          edits_attributes (.inMemory database pageSize) h.attributes hsteps.1 hsave
        rw [eachSave_edit hsave, hstep] at hmasks
        exact .edit hsave hstep (ih (h.withAttributes hcontent) hsteps.2 hmasks)

/-- In a run whose document lacks no more than hollow maps of what the model knows of it, it lacks
no more of the attributes after each save. -/
theorem Runs.eachSave_thinned {c : Connection Memory.State} {steps : List ModelStep}
    (h : Runs c s steps) (hsynced : s.IsSynced Value.Thinned) :
    EachSave c (fun _ s' => s'.IsRegular ∧ s'.HasAttributes Value.Thinned) steps s := by
  induction h with
  | nil s => trivial
  | edit hedit hstep _ ih =>
      rw [eachSave_edit hedit, hstep]
      exact ih (hsynced.withAttributes _)
  | failed hstep hunchanged _ ih =>
      rw [eachSave_failed hstep]
      exact ih (hunchanged.isSynced hsynced)
  | saved hstep hregular hregular' hsaves _ ih =>
      rw [eachSave_saved hstep]
      have hthinned := hsaves.isThinned hregular hregular' hsynced
      exact ⟨⟨hregular', hthinned⟩, ih (hsaves.isSynced hsynced hthinned)⟩

/-- In a run whose document is known as it is, it agrees with the model after each save exactly if
no save empties a map below the top level. -/
theorem Runs.eachSave_agrees_iff {c : Connection Memory.State} {steps : List ModelStep}
    (h : Runs c s steps) (hsynced : s.IsSynced (Value.alikeFields · · = true)) :
    EachSave c (fun _ s' => s'.Agrees) steps s ↔ EachSave c KeepsMaps steps s := by
  induction h with
  | nil s => exact Iff.rfl
  | edit hedit hstep _ ih =>
      rw [eachSave_edit hedit, eachSave_edit hedit, hstep]
      exact ih (hsynced.withAttributes _)
  | failed hstep hunchanged _ ih =>
      rw [eachSave_failed hstep, eachSave_failed hstep]
      exact ih (hunchanged.isSynced hsynced)
  | @saved s s' _ _ hstep hregular _ hsaves _ ih =>
      have hiff : s'.Agrees ↔ KeepsMaps s s' := hsaves.agrees_iff hregular hsynced
      rw [eachSave_saved hstep, eachSave_saved hstep, ← hiff]
      exact and_congr_right fun hagrees => ih (hsaves.isSynced hsynced hagrees)

/-! ## Refreshing -/

/-- A refresh finds the document and changes the attributes only up to a relation, and nothing
else. -/
def RefreshKeeps (r : Fields → Fields → Prop) (c : Connection Memory.State)
    (s : ModelSession Memory.State) : Prop :=
  ∃ fields s', c.refreshModel.runOn s = (.ok true, s') ∧ r fields s.model.attributes ∧
    s'.model = { s.model with attributes := fields, stored := fields } ∧ s'.table = s.table

/-- A model whose document has its attributes is kept by a refresh, if its collection is named
without blanks around it. -/
theorem IsRegular.refreshKeeps (h : s.IsRegular) (database : DatabaseId) (pageSize : Nat)
    (hhas : s.HasAttributes r) (htrim : Text.trim s.model.collectionPath = s.model.collectionPath) :
    RefreshKeeps r (.inMemory database pageSize) s := by
  have hsaved : s.model.saved = true := by
    rw [← Bool.not_eq_false]
    intro hnot
    obtain ⟨held, hheld, -⟩ := hhas
    rw [Model.fieldsIn?, Model.key?_of_nameless (h.unsaved hnot)] at hheld
    cases hheld
  obtain ⟨path, id, held, hat, hheld⟩ := h.document hsaved
  have hfields : s.model.fieldsIn? s.table = some held.fields := by
    rw [hat.fieldsIn?, hheld]
    rfl
  obtain ⟨hread, hcollection⟩ := QueryState.insertTarget_ofTable.1 hat.target
  rw [Text.trim_eq_self_of_strip htrim] at hread
  have hkey : DocumentKey.ofText (s.model.collectionPath ++ "/" ++ id)
      = .ok ⟨path.child [id]⟩ := by
    rw [DocumentKey.ofText, ResourcePath.ofText_append_name htrim (Text.strip_strip _ _) hread
      (ResourcePath.segments_ne_nil_of_isCollection hcollection) hat.plain, Outcome.ok_bind,
      Batcher.ofPath_child hcollection]
  have hpersisted : s.model.persistedId = .ok id := by
    rw [Model.persistedId, hat.id_eq]
    rfl
  obtain ⟨session, hget, htable⟩ : ∃ session, (onSession (Session.onClient (Client.onStore
      (Memory.datastore.get ⟨path.child [id]⟩)))).runOn s
        = (.ok (held.snapshot ⟨path.child [id]⟩ s.session.client.store.clock.now),
            { s with session }) ∧ session.client.store.table = s.table :=
    ⟨_, runOn_onSession (Session.runOn_onClient
      (Client.runOn_onStore (Memory.runOn_get_of_stored hheld))), rfl⟩
  refine ⟨held.fields, ⟨session, { s.model with attributes := held.fields }.persisted id⟩, ?_,
    (isStoredAs_iff hfields).1 hhas, ?_, htable⟩
  · unfold Connection.refreshModel
    rw [Action.runOn_bind_of_ok (runOn_current s)]
    dsimp only
    rw [hpersisted, Action.runOn_bind_of_ok (Action.runOn_ofOutcome _ _), hkey,
      Action.runOn_bind_of_ok (Action.runOn_ofOutcome _ _)]
    exact (Action.runOn_bind_of_ok hget).trans rfl
  · simp [Model.persisted, hsaved, hat.id_eq]

/-! ## Whole runs -/

/-- After each save that succeeds the document agrees with the model, and a refresh would change
nothing. -/
def InStep (c : Connection Memory.State) (s : ModelSession Memory.State)
    (steps : List ModelStep) : Prop :=
  s.IsFresh → (∀ step ∈ steps, step.IsPlain) →
    EachSave c (fun _ s' => s'.Agrees ∧
      RefreshKeeps (Value.alikeFields · · = true) c s') steps s

/-- **Models and their documents.**  In a run of edits and saves of a model that is new, with values
without markers and updates whose paths have different texts, after each save that succeeds the
document has the attributes of the model, but for hollow maps below the top level.  It has them all
after each of these saves exactly if none of them empties a map below the top level that had fields
before.  A refresh finds the document and gives the model what the document has, if the collection
is named without blanks around it. -/
theorem saves_agree (database : DatabaseId) (pageSize : Nat) (hfresh : s.IsFresh)
    {steps : List ModelStep} (hsteps : ∀ step ∈ steps, step.IsPlain)
    (hmasks : EachSave (.inMemory database pageSize) WritesAll steps s) :
    EachSave (.inMemory database pageSize) (fun _ s' => s'.HasAttributes Value.Thinned ∧
      (Text.trim s'.model.collectionPath = s'.model.collectionPath → ∀ r, s'.HasAttributes r →
        RefreshKeeps r (.inMemory database pageSize) s')) steps s ∧
    (EachSave (.inMemory database pageSize) (fun _ s' => s'.Agrees) steps s ↔
      EachSave (.inMemory database pageSize) KeepsMaps steps s) := by
  have hsynced (r : Fields → Fields → Prop) : s.IsSynced r := fun hsaved =>
    absurd (hfresh.unsaved.symm.trans hsaved) Bool.false_ne_true
  have hruns := hfresh.isRegular.runs database pageSize hsteps hmasks
  constructor
  · refine EachSave.imp (fun _ s' hafter => ?_) (hruns.eachSave_thinned (hsynced _))
    exact ⟨hafter.2, fun htrim r hhas => hafter.1.refreshKeeps database pageSize hhas htrim⟩
  · exact hruns.eachSave_agrees_iff (hsynced _)

/-- A new model of a collection, over a store without documents. -/
def new (collection : String) : ModelSession Memory.State where
  session.client := .fresh { clock := { readings := fun _ => default } }
  model.collection := collection

theorem isFresh_new (collection : String) : (new collection).IsFresh where
  listens := rfl
  wellFormed := Memory.Reachable.empty.wellFormed
  attributes := ⟨rfl, rfl⟩
  keyName := (by decide : FieldPath.AvoidsId "id")
  unsaved := rfl
  nameless := rfl

/-- Two fields of a map are set and one of them is removed again; saves succeed, and the document
follows. -/
theorem saves_agree_address :
    let steps : List ModelStep :=
      [.set "address.city" (.string "Paris"), .set "address.zip" (.integer 75001), .save,
        .remove "address.zip", .save]
    ¬ EachSave (.inMemory default 100) (fun _ _ => False) steps (new "users") ∧
      EachSave (.inMemory default 100) KeepsMaps steps (new "users") ∧
      EachSave (.inMemory default 100) (fun _ s' => s'.HasAttributes Value.Thinned ∧
        (Text.trim s'.model.collectionPath = s'.model.collectionPath → ∀ r, s'.HasAttributes r →
          RefreshKeeps r (.inMemory default 100) s')) steps (new "users") := by
  intro steps
  have h := saves_agree default 100 (isFresh_new "users") (by decide : ∀ step ∈ steps, step.IsPlain)
    (by decide +kernel)
  exact ⟨by decide +kernel, h.2.1 (by decide +kernel), h.1⟩

/-- The document and the model fall apart: a map that has lost its last field is gone from the
document and not from the model, of two paths with one text only the first is written, and a
document in a collection that is named with a blank behind is not found again. -/
theorem not_inStep :
    ¬ InStep (.inMemory default 100) (new "users")
        [.set "a.b.c" (.integer 1), .save, .remove "a.b.c", .save] ∧
      ¬ InStep (.inMemory default 100) (new "users")
        [.set "a" (.map [("b", .map [("c", .integer 2)]), ("b.c", .integer 1)]), .save,
          .set "a" (.map [("b", .map [("c", .integer 20)]), ("b.c", .integer 10)]), .save] ∧
      ¬ InStep (.inMemory default 100) (new "users ") [.set "name" (.string "Ann"), .save] := by
  have hagrees {collection : String} {steps : List ModelStep}
      (hplain : ∀ step ∈ steps, step.IsPlain)
      (h : ¬ EachSave (.inMemory default 100) (fun _ s' => s'.Agrees) steps (new collection)) :
      ¬ InStep (.inMemory default 100) (new collection) steps :=
    fun hstep => h (EachSave.imp (fun _ _ => And.left) (hstep (isFresh_new _) hplain))
  refine ⟨hagrees (by decide) (by decide +kernel), hagrees (by decide) (by decide +kernel),
    fun hstep => ?_⟩
  have hfound : EachSave (.inMemory default 100) (fun _ s' =>
      ((Connection.inMemory default 100).refreshModel.runOn s').1.toOption = some true)
      [.set "name" (.string "Ann"), .save] (new "users ") := by
    refine EachSave.imp (fun _ s' hboth => ?_) (hstep (isFresh_new _) (by decide))
    obtain ⟨-, fields, s'', hrun, -⟩ := hboth
    rw [hrun]
    rfl
  revert hfound
  decide +kernel

end ModelSession

end DocStore
