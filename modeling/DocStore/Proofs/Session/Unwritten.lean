import DocStore.Proofs.Document.Dirty
import DocStore.Proofs.Session.Task

/-!
# Saves that write nothing

A save answers false if it has written nothing.  It does so in two cases (`Unwritten`).  Either the
model had not changed: then nothing has happened at all.  Or it had, and the update of its document
has reached none: the connection pretends, the changes have no field to write, or no document was
found, as when somebody else has removed it (`Unreached`).

In the second case the model is marked as stored all the same.  What is known of the store is wrong
then, and the changes are lost: the later saves find nothing to write.  The main statement,
`save_keeps_model_iff`, says which saves that answer false keep what is known of the store.
-/

namespace DocStore

variable {σ : Type}

/-! ## Updates of no document -/

/-- The number of the documents of an update is that of its keys. -/
theorem Batcher.length_of_updateEncoded {ds : Datastore σ} {keys : List DocumentKey}
    {data : EncodedData} {count : Nat} {b b' : Batcher σ}
    (h : (updateEncoded ds keys data).runOn b = (.ok count, b')) : count = keys.length := by
  obtain ⟨-, b₁, -, h⟩ := Action.runOn_bind_eq_ok.1 h
  split at h
  next hempty =>
    obtain ⟨-, b₂, -, hcount⟩ := Action.runOn_bind_eq_ok.1 h
    cases hcount
    rw [List.isEmpty_iff.1 hempty, List.length_nil]
  next =>
    obtain ⟨-, b₂, -, hcount⟩ := Action.runOn_bind_eq_ok.1 h
    cases hcount
    rfl

namespace Connection

/-- Why an update reaches no document. -/
inductive Unreached (c : Connection σ) (q : QueryState) (data : Fields) (s : Session σ) : Prop
  /-- It is only logged. -/
  | pretended (h : s.pretending = true)
  /-- There is nothing to write. -/
  | empty (h : encodeUpdate data = .ok none)
  /-- The store finds no document. -/
  | unmatched (target : StoreQuery) (client : Client σ) (htarget : q.identityQuery = .ok target)
      (hquery : (Client.onStore (c.store.query target)).runOn s.client = (.ok [], client))

variable {c : Connection σ} {q : QueryState} {data : Fields} {s s' : Session σ}

/-- Where no document has been merged into, the store has found none. -/
theorem query_eq_nil_of_merge {target : StoreQuery} {encoded : EncodedData}
    {client client' : Client σ}
    (h : (c.matchingKeys target >>= fun keys =>
      Client.mutate (Batcher.updateEncoded c.store keys encoded)).runOn client
        = (.ok 0, client')) :
    ∃ client', (Client.onStore (c.store.query target)).runOn client = (.ok [], client') := by
  obtain ⟨keys, client₁, hkeys, hmutate⟩ := Action.runOn_bind_eq_ok.1 h
  obtain ⟨documents, _, hquery, hdocuments⟩ := Action.runOn_bind_eq_ok.1 hkeys
  cases hdocuments
  rw [Client.mutate, Action.runOn_onPart, Prod.mk.injEq] at hmutate
  have hlength := Batcher.length_of_updateEncoded (Prod.ext hmutate.1 rfl)
  rw [List.length_map, eq_comm, List.length_eq_zero_iff] at hlength
  exact ⟨client₁, hlength ▸ hquery⟩

/-- An update that answers zero has reached no document. -/
theorem unreached_of_update (h : (c.update q data).runOn s = (.ok 0, s')) :
    c.Unreached q data s := by
  rw [update, Action.runOn_bind_eq_ok] at h
  obtain ⟨text, s₁, htext, h⟩ := h
  obtain ⟨target, s₂, htarget, h⟩ := Action.runOn_bind_eq_ok.1 h
  obtain ⟨data?, s₃, hencode, h⟩ := Action.runOn_bind_eq_ok.1 h
  obtain ⟨count, s₄, hrun, hcount⟩ := Action.runOn_bind_eq_ok.1 h
  cases hcount
  simp only [Action.runOn_ofOutcome, Prod.mk.injEq] at htext htarget hencode
  obtain ⟨-, rfl⟩ := htext
  obtain ⟨htarget, rfl⟩ := htarget
  obtain ⟨hencode, rfl⟩ := hencode
  cases hpretending : s.pretending with
  | true => exact .pretended hpretending
  | false =>
  cases data? with
  | none => exact .empty hencode
  | some encoded =>
  generalize hmerge : (c.matchingKeys target >>= fun keys =>
    Client.mutate (Batcher.updateEncoded c.store keys encoded)).runOn s.client = result at hrun
  obtain ⟨outcome, client⟩ := result
  rw [Session.runOn_run_eq text 0 hpretending hmerge] at hrun
  cases outcome with
  | error e => cases hrun
  | ok answer =>
      cases hrun
      obtain ⟨client', hquery⟩ := query_eq_nil_of_merge hmerge
      exact .unmatched target client' htarget hquery

end Connection

/-! ## Saves that answer false -/

theorem Model.persistedId_eq_ok {m : Model} {id : String} :
    m.persistedId = .ok id ↔ m.id = some id := by
  unfold Model.persistedId
  cases m.id <;> simp

/-- A step of the session that succeeds leaves the model. -/
theorem ModelSession.runOn_onSession_eq_ok {α : Type} {a : Action (Session σ) α} {x : α}
    {s s' : ModelSession σ} (h : (onSession a).runOn s = (.ok x, s')) :
    ∃ session, a.runOn s.session = (.ok x, session) ∧ s' = { s with session } := by
  rw [onSession, Action.runOn_onPart, Prod.mk.injEq] at h
  exact ⟨_, Prod.ext h.1 rfl, h.2.symm⟩

namespace Connection

/-- What a save that answers false has done. -/
inductive Unwritten (c : Connection σ) (r : Repository) (s : ModelSession σ) :
    ModelSession σ → Prop
  /-- The model had not changed, and nothing has happened. -/
  | clean (hsaved : s.model.saved = true)
      (hclean : Diff.isDirty r.loose s.model.stored s.model.attributes = false) :
      Unwritten c r s s
  /-- The update of the model that came out of the hooks has reached no document, and the model is
  marked as stored. -/
  | lost (m : Model) (client : Client σ) (id : String) (session : Session σ)
      (hsaved : s.model.saved = true)
      (hdirty : Diff.isDirty r.loose s.model.stored s.model.attributes = true)
      (hhooks : (Hooks.run r.hooks.beforeUpdate s.model).runOn s.session.client = (.ok m, client))
      (hid : m.id = some id)
      (hupdate : (c.update ((modelQuery m).whereKey id)
        (Diff.between r.loose m.stored m.attributes)).runOn { s.session with client }
          = (.ok 0, session)) :
      Unwritten c r s ⟨session, m.persisted id⟩

variable {c : Connection σ} {r : Repository} {s s' : ModelSession σ}

/-- The first save does not answer false. -/
theorem createModel_ne_false : (c.createModel r).runOn s ≠ (.ok false, s') := by
  intro h
  rw [createModel, Action.runOn_bind_eq_ok] at h
  obtain ⟨-, s₁, -, h⟩ := h
  obtain ⟨m, s₂, -, h⟩ := Action.runOn_bind_eq_ok.1 h
  obtain ⟨key, s₃, -, h⟩ := Action.runOn_bind_eq_ok.1 h
  obtain ⟨path, s₄, -, h⟩ := Action.runOn_bind_eq_ok.1 h
  obtain ⟨-, s₅, -, h⟩ := Action.runOn_bind_eq_ok.1 h
  cases h

theorem unwritten_of_updateModel (hsaved : s.model.saved = true)
    (h : (c.updateModel r).runOn s = (.ok false, s')) : c.Unwritten r s s' := by
  obtain ⟨session, model⟩ := s
  rw [updateModel, Action.runOn_bind_of_ok (ModelSession.runOn_current _)] at h
  dsimp only at h hsaved
  cases hdirty : Diff.isDirty r.loose model.stored model.attributes with
  | false =>
      rw [hdirty] at h
      cases h
      exact .clean hsaved hdirty
  | true =>
      obtain ⟨m, client, hhooks, -⟩ := Hooks.runOn_run r.hooks.beforeUpdate model session.client
      rw [hdirty, Bool.not_true, if_neg Bool.false_ne_true,
        Action.runOn_bind_of_ok (ModelSession.runOn_runHooks hhooks),
        Action.runOn_bind_of_ok (ModelSession.runOn_current _)] at h
      obtain ⟨id, s₁, hid, h⟩ := Action.runOn_bind_eq_ok.1 h
      obtain ⟨count, s₂, hupdate, h⟩ := Action.runOn_bind_eq_ok.1 h
      rw [Action.runOn_ofOutcome, Prod.mk.injEq] at hid
      obtain ⟨hid, rfl⟩ := hid
      obtain ⟨after, hanswer, rfl⟩ := ModelSession.runOn_onSession_eq_ok hupdate
      rw [Action.runOn_bind_of_ok (ModelSession.runOn_put _ _), Action.runOn_pure,
        Prod.mk.injEq, Except.ok.injEq, decide_eq_false_iff_not, Nat.not_lt,
        Nat.le_zero] at h
      obtain ⟨rfl, rfl⟩ := h
      exact .lost m client id after hsaved hdirty hhooks (Model.persistedId_eq_ok.1 hid) hanswer

theorem updateModel_of_unwritten (h : c.Unwritten r s s') :
    (c.updateModel r).runOn s = (.ok false, s') := by
  rw [updateModel, Action.runOn_bind_of_ok (ModelSession.runOn_current _)]
  cases h with
  | clean hsaved hclean =>
      dsimp only
      rw [hclean]
      rfl
  | lost m client id session hsaved hdirty hhooks hid hupdate =>
      obtain ⟨before, model⟩ := s
      dsimp only at hdirty hhooks ⊢
      rw [hdirty, Bool.not_true, if_neg Bool.false_ne_true,
        Action.runOn_bind_of_ok (ModelSession.runOn_runHooks hhooks),
        Action.runOn_bind_of_ok (ModelSession.runOn_current _), Model.persistedId_eq_ok.2 hid,
        Action.runOn_bind_of_ok (Action.runOn_ofOutcome _ _),
        Action.runOn_bind_of_ok
          (ModelSession.runOn_onSession (s := ⟨{ before with client }, m⟩) hupdate),
        Action.runOn_bind_of_ok (ModelSession.runOn_put _ _)]
      rfl

/-- **Saves that answer false.**  A save answers false if the model had not changed, or if the
update of the model has reached no document. -/
theorem saveModel_eq_false_iff :
    (c.saveModel r).runOn s = (.ok false, s') ↔ c.Unwritten r s s' := by
  rw [saveModel, Action.runOn_bind_of_ok (ModelSession.runOn_current _)]
  cases hsaved : s.model.saved with
  | false =>
      rw [if_neg Bool.false_ne_true]
      refine iff_of_false createModel_ne_false fun h => ?_
      cases h with
      | clean htrue | lost _ _ _ _ htrue => exact Bool.false_ne_true (hsaved.symm.trans htrue)
  | true =>
      rw [if_pos rfl]
      exact ⟨unwritten_of_updateModel hsaved, updateModel_of_unwritten⟩

/-! ## What is known of the store afterwards -/

open Value in
/-- A save that has written nothing leaves nothing to write for the next one. -/
theorem Unwritten.again (h : c.Unwritten r s s')
    (hordered : orderedFields s'.model.attributes = true)
    (hnumbers : EnclosedInFields (·.isNaN = false) s'.model.attributes) :
    (c.saveModel r).runOn s' = (.ok false, s') := by
  rw [saveModel_eq_false_iff]
  cases h with
  | clean hsaved hclean => exact .clean hsaved hclean
  | lost m client id session =>
      exact .clean rfl ((Diff.isDirty_self_iff hordered).2 fun _ => hnumbers)

open Value in
/-- **Saves that write nothing.**  A save that answers false keeps what is known of the store
exactly if the model had not changed, or its hooks have put back what had.  If it had not changed,
nothing has happened at all.  If it had, the update of the model that came out of the hooks has
reached no document; the attributes are taken for stored, and no later save tries to write them. -/
theorem save_keeps_model_iff (h : (c.saveModel r).runOn s = (.ok false, s')) :
    (s'.model.stored = s.model.stored ∧ s'.model.id = s.model.id ∧ s'.model.saved = s.model.saved ↔
      Diff.isDirty r.loose s.model.stored s.model.attributes = false ∨
        s'.model.attributes = s.model.stored ∧ s'.model.id = s.model.id) ∧
    (Diff.isDirty r.loose s.model.stored s.model.attributes = false → s' = s) ∧
    (Diff.isDirty r.loose s.model.stored s.model.attributes = true →
      (∃ m client id, (Hooks.run r.hooks.beforeUpdate s.model).runOn s.session.client
          = (.ok m, client) ∧ m.id = some id ∧ s'.model = m.persisted id ∧
        c.Unreached ((modelQuery m).whereKey id) (Diff.between r.loose m.stored m.attributes)
          { s.session with client }) ∧
      s'.model.stored = s'.model.attributes ∧
      (orderedFields s'.model.attributes = true →
        EnclosedInFields (·.isNaN = false) s'.model.attributes →
          s'.model.isDirty = false ∧ (c.saveModel r).runOn s' = (.ok false, s'))) := by
  have hunwritten := saveModel_eq_false_iff.1 h
  have hagain := hunwritten.again
  cases hunwritten with
  | clean hsaved hclean =>
      refine ⟨iff_of_true ⟨rfl, rfl, rfl⟩ (.inl hclean), fun _ => rfl, fun hdirty => ?_⟩
      exact absurd (hclean.symm.trans hdirty) Bool.false_ne_true
  | lost m client id session hsaved hdirty hhooks hid hupdate =>
      refine ⟨?_, fun hclean => absurd (hclean.symm.trans hdirty) Bool.false_ne_true, fun _ =>
        ⟨⟨m, client, id, hhooks, hid, rfl, unreached_of_update hupdate⟩, rfl,
          fun hordered hnumbers => ⟨(Diff.isDirty_self_iff hordered).2 fun _ => hnumbers,
            hagain hordered hnumbers⟩⟩⟩
      rw [hdirty]
      constructor
      · rintro ⟨hstored, hsame, -⟩
        exact .inr ⟨hstored, hsame⟩
      · rintro (hfalse | ⟨hstored, hsame⟩)
        · cases hfalse
        · exact ⟨hstored, hsame, hsaved.symm⟩

/-- A user with another name than the one last saved.  Somebody else has removed the document. -/
def removedUser (pretending : Bool) : ModelSession Memory.State where
  session.client := .fresh { clock := { readings := fun _ => default } }
  session.pretending := pretending
  model.collection := "users"
  model.id := some "ann"
  model.saved := true
  model.attributes := [("id", .string "ann"), ("name", .string "Bob")]
  model.stored := [("id", .string "ann"), ("name", .string "Ann")]

theorem isDirty_removedUser (pretending : Bool) :
    (removedUser pretending).model.isDirty = true := by
  cases pretending <;> decide +kernel

/-- The save of the user answers false, and takes the new name for stored. -/
theorem saveModel_removedUser (pretending : Bool) :
    ∃ s', ((Connection.inMemory default 100).saveModel {}).runOn (removedUser pretending)
        = (.ok false, s') ∧
      s'.model = (removedUser pretending).model.persisted "ann" := by
  have hfalse : (((Connection.inMemory default 100).saveModel {}).runOn
      (removedUser pretending)).1.toOption = some false := by
    cases pretending <;> decide +kernel
  generalize hrun : ((Connection.inMemory default 100).saveModel {}).runOn
    (removedUser pretending) = result at hfalse
  obtain ⟨outcome, s'⟩ := result
  rw [Outcome.toOption_eq_some] at hfalse
  obtain rfl : outcome = .ok false := hfalse
  refine ⟨s', rfl, ?_⟩
  cases saveModel_eq_false_iff.1 hrun with
  | clean _ hclean =>
      exact absurd (hclean.symm.trans (isDirty_removedUser pretending)) Bool.false_ne_true
  | lost m client id session _ _ hhooks hid _ =>
      cases hhooks
      cases hid
      rfl

/-- The new name is taken for stored, and the next save does not try to write it. -/
theorem save_keeps_model_iff_removed :
    ∃ s', ((Connection.inMemory default 100).saveModel {}).runOn (removedUser false)
        = (.ok false, s') ∧
      s'.model.stored = s'.model.attributes ∧ s'.model.isDirty = false ∧
      ((Connection.inMemory default 100).saveModel {}).runOn s' = (.ok false, s') := by
  obtain ⟨s', h, hmodel⟩ := saveModel_removedUser false
  obtain ⟨-, -, hlost⟩ := save_keeps_model_iff h
  obtain ⟨-, hstored, hagain⟩ := hlost (isDirty_removedUser false)
  rw [hmodel] at hagain
  obtain ⟨hclean, hnext⟩ := hagain (by decide) ⟨trivial, trivial, trivial⟩
  exact ⟨s', h, hstored, hmodel ▸ hclean, hnext⟩

/-- A save that answers false, and what is known of the store is another thing afterwards: the
document has been removed, or the connection pretends. -/
theorem not_save_keeps_model :
    (∃ s', ((Connection.inMemory default 100).saveModel {}).runOn (removedUser false)
        = (.ok false, s') ∧
      (removedUser false).model.isDirty = true ∧ s'.model.isDirty = false ∧
      s'.model.stored ≠ (removedUser false).model.stored) ∧
    ∃ s', ((Connection.inMemory default 100).saveModel {}).runOn (removedUser true)
        = (.ok false, s') ∧
      (removedUser true).model.isDirty = true ∧ s'.model.isDirty = false ∧
      s'.model.stored ≠ (removedUser true).model.stored := by
  have hlost (pretending : Bool) {s' : ModelSession Memory.State}
      (hmodel : s'.model = (removedUser pretending).model.persisted "ann") :
      (removedUser pretending).model.isDirty = true ∧ s'.model.isDirty = false ∧
        s'.model.stored ≠ (removedUser pretending).model.stored := by
    rw [hmodel]
    refine ⟨isDirty_removedUser pretending, by cases pretending <;> decide +kernel, ?_⟩
    simp [Model.persisted, removedUser]
  obtain ⟨s₁, h₁, hmodel₁⟩ := saveModel_removedUser false
  obtain ⟨s₂, h₂, hmodel₂⟩ := saveModel_removedUser true
  exact ⟨⟨s₁, h₁, hlost false hmodel₁⟩, s₂, h₂, hlost true hmodel₂⟩

end Connection

end DocStore
