import DocStore.Proofs.Mutation.Chunks
import DocStore.Proofs.OrderedId
import DocStore.Proofs.Store.Memory
import DocStore.Proofs.Value.Fields
import DocStore.Session.Mutation

/-!
# Statements about one document in memory

What the statements of a connection do to a table in memory when they are about one document of a
collection: the insertion of a record under a generated id (`IsOver.insertGetId`), and the update of
the document with an id (`IsOver.update_whereKey`).  Each of them either fails and leaves the table
as it was, or succeeds and commits one write.
-/

namespace DocStore

open Memory (Table)

/-! ## The query for an id -/

namespace ResourcePath

/-- A text of blanks is the root. -/
theorem ofText_of_isAllBlank {text : String} (h : Text.isAllBlank text = true) :
    ofText text = .ok root := by
  have hnil : text.toList.dropWhile Text.isBlank = [] :=
    List.dropWhile_eq_nil_iff.2 (List.all_eq_true.1 h)
  have htrim : Text.trim text = "" := by
    rw [Text.trim, Text.strip, Text.stripChars, hnil]
    rfl
  rw [ofText, htrim]
  rfl

theorem segments_ne_nil_of_isCollection {path : ResourcePath} (h : path.isCollection = true) :
    path.segments ≠ [] := by
  intro hnil
  simp [isCollection, size, hnil] at h

end ResourcePath

namespace QueryState

variable {collection id : String} {path : ResourcePath}

/-- A query for the documents of a collection. -/
abbrev ofTable (collection : String) : QueryState := ({} : QueryState).table collection

/-- A collection takes documents if its name is the path of one. -/
theorem insertTarget_ofTable :
    (ofTable collection).insertTarget = .ok path ↔
      ResourcePath.ofText (Text.strip (· == '/') (Text.trim collection)) = .ok path ∧
        path.isCollection = true := by
  have htarget : (ofTable collection).insertTarget
      = ResourcePath.ofText (Text.strip (· == '/') (Text.trim collection)) >>= fun path =>
          if path.isCollection then pure path
          else throw (.invalidArgument
            ("'" ++ Text.strip (· == '/') (Text.trim collection)
              ++ "' is not a collection path")) := rfl
  rw [htarget, Outcome.bind_eq_ok]
  constructor
  · intro hsome
    obtain ⟨_, hread, hpath⟩ := hsome
    split at hpath
    next hcollection =>
      rw [Outcome.pure_eq_ok] at hpath
      subst hpath
      exact ⟨hread, hcollection⟩
    next => exact (Outcome.throw_eq_ok.1 hpath).elim
  · intro hboth
    obtain ⟨hread, hcollection⟩ := hboth
    exact ⟨path, hread, by rw [if_pos hcollection]; rfl⟩

/-- The query that a store executes for the documents of a collection with an id. -/
def idsAt (path : ResourcePath) (id : String) : StoreQuery where
  source := .collection path
  projection := some [.documentId]
  filters := [⟨.documentId, .equal, .string id⟩]

theorem identityQuery_whereKey (h : (ofTable collection).insertTarget = .ok path) (id : String) :
    ((ofTable collection).whereKey id).identityQuery = .ok (idsAt path id) := by
  obtain ⟨hpath, hcollection⟩ := insertTarget_ofTable.1 h
  have hblank : Text.isAllBlank (Text.strip (· == '/') (Text.trim collection)) = false := by
    rw [Bool.eq_false_iff]
    intro hblank
    rw [ResourcePath.ofText_of_isAllBlank hblank] at hpath
    cases hpath
    cases hcollection
  let q : QueryState :=
    { (ofTable collection).whereKey id with columns := [FieldPath.documentIdName] }
  have hsource : q.compileSource = .ok (.collection path) := by
    simp only [q, compileSource, whereKey, addWhere, whereWith, addPredicate, table, Option.filter,
      hblank, Bool.not_false, if_true, hpath]
    rfl
  have hcalls : q.compileCalls
      = .ok [.select [.documentId], .collection path, .filter .documentId .equal (.string id)] := by
    simp only [compileCalls, Component.all, List.mapM_cons, compileComponent, compilePart, hsource]
    rfl
  have hcompile : q.compile
      = .ok ⟨.collection path,
          [.select [.documentId], .filter .documentId .equal (.string id)]⟩ := by
    rw [compile, hcalls]
    rfl
  change q.toStoreQuery = _
  rw [toStoreQuery, hcompile, Outcome.ok_bind, CompiledQuery.toStoreQuery, StoreQuery.ofSource,
    StoreQuery.ofCollection, if_pos hcollection]
  rfl

end QueryState

/-- Two references are equal to the store if their texts are. -/
theorem Value.storeEquals_reference {a b : String} :
    (Value.reference a).storeEquals (.reference b) = true ↔ a = b := by
  rw [Value.storeEquals, Value.compare]
  simp only [Value.rank, beq_self_eq_true, Bool.true_and, beq_iff_eq,
    Std.LawfulEqCmp.compare_eq_iff_eq]
  refine ⟨fun hsplit => ?_, fun htext => htext ▸ rfl⟩
  have hpieces := congrArg (List.map String.toList) hsplit
  simp only [Text.split, List.map_map, Function.comp_def, String.toList_ofList,
    List.map_id'] at hpieces
  have hjoined := congrArg (['/'].intercalate ·) hpieces
  simp only [List.intercalate_splitOn] at hjoined
  exact String.toList_inj.1 hjoined

namespace Memory

variable {table : Table} {path : ResourcePath} {id : String}

/-- The query for an id chooses the document with the id. -/
theorem selects_idsAt {now : Timestamp} (hpath : path.segments ≠ [])
    (hid : Text.hasChar '/' id = false) {s : Snapshot}
    (hs : s ∈ candidates now (.collection path) table) :
    (QueryState.idsAt path id).selects s = (s.key == ⟨path.child [id]⟩) := by
  have hselects : (QueryState.idsAt path id).selects s
      = (Value.reference s.key.text).storeEquals (.reference (path.child [id]).text) := by
    have hnormal : Filter.normal (.collection path) ⟨.documentId, .equal, .string id⟩
        = ⟨.documentId, .equal, .reference (path.child [id]).text⟩ := by
      simp [Filter.normal, FieldPath.isDocumentId, FieldPath.documentId, Value.asDocument, hid]
    have hsource : (s.exists? && (QueryState.idsAt path id).source.contains s.key) = true :=
      candidates_selected hs
    rw [StoreQuery.selects, hsource, Bool.true_and, QueryState.idsAt, List.all_cons, List.all_nil,
      hnormal, Bool.and_true]
    rfl
  obtain ⟨p, stored, -, hdocument, hsource, rfl⟩ := mem_candidates.1 hs
  have hparent : p.parent = path := by
    simpa [Source.contains, DocumentKey.collection] using hsource
  obtain ⟨name, rfl⟩ := ResourcePath.exists_child_of_parent
    (DocumentKey.segments_ne_nil hdocument) hparent
  change _ = ((⟨path.child [name]⟩ : DocumentKey) == _)
  rw [hselects, Bool.eq_iff_iff, Value.storeEquals_reference, beq_iff_eq]
  change (path.child [name]).text = _ ↔ _
  rw [ResourcePath.text_child_inj hpath]
  simp [ResourcePath.child]

/-- The query for the id of a document that is there gives its key. -/
theorem keys_idsAt (now : Timestamp) (hwf : WellFormed table) (hpath : path.segments ≠ [])
    (hid : Text.hasChar '/' id = false) (hstored : IsStored table (path.child [id])) :
    ((QueryState.idsAt path id).run (candidates now (.collection path) table)).map (·.key)
      = [⟨path.child [id]⟩] := by
  let q := QueryState.idsAt path id
  let documents := candidates now (.collection path) table
  have hrun : (q.run documents).map (·.key) = (q.ordered documents).map (·.key) :=
    q.map_key_run documents
  have hkeys : (documents.filter q.selects).map (·.key)
      = (documents.map (·.key)).filter (· == ⟨path.child [id]⟩) := by
    rw [List.filter_congr fun s hs => selects_idsAt hpath hid hs, List.filter_map]
    rfl
  have hmem : ⟨path.child [id]⟩ ∈ documents.map (·.key) :=
    (mem_candidates_keys hwf).2 ⟨hstored, by simp [ResourcePath.child, ResourcePath.parent]⟩
  have hcount := List.count_eq_one_of_mem (nodup_candidates_keys now hwf _) hmem
  have hperm := (q.ordered_perm documents).map (·.key)
  rw [hkeys, List.filter_beq, hcount, ← hrun] at hperm
  exact List.perm_singleton.1 hperm

end Memory

/-! ## Sessions -/

/-- A client runs a mutation on a batcher of its own. -/
theorem Client.runOn_mutate {σ α : Type} {a : Action (Batcher σ) α} {c : Client σ}
    {outcome : Outcome α} {b : Batcher σ} (h : a.runOn { client := c } = (outcome, b)) :
    (mutate a).runOn c = (outcome, b.client) := by
  rw [mutate, Action.runOn_onPart, h]

/-- A connection to the store in memory. -/
def Connection.inMemory (database : DatabaseId) (pageSize : Nat) : Connection Memory.State where
  database
  store := Memory.datastore
  pageSize

/-- A mutation asks the store in memory for the keys of the documents of a query. -/
theorem Connection.runOn_matchingKeys_eq (database : DatabaseId) (pageSize : Nat) (q : StoreQuery)
    (client : Client Memory.State) :
    ∃ client', ((Connection.inMemory database pageSize).matchingKeys q).runOn client
        = (.ok ((q.run (Memory.candidates client.store.clock.now q.source
            client.store.table)).map (·.key)), client') ∧
      client'.store.table = client.store.table :=
  ⟨_, Action.runOn_bind_of_ok (Client.runOn_onStore (Memory.runOn_query q client.store)), rfl⟩

namespace Session

section Statements

variable {σ α : Type} {s : Session σ} {operation : Action (Client σ) α} {client : Client σ}

/-- A step of the client is run on the client. -/
theorem runOn_onClient {outcome : Outcome α} (h : operation.runOn s.client = (outcome, client)) :
    (onClient operation).runOn s = (outcome, { s with client }) := by
  rw [onClient, Action.runOn_onPart, h]

/-- A statement is run on the client and then noted; its failure gets its text. -/
theorem runOn_run_eq (statement : String) (pretended : α) (hlistens : s.pretending = false)
    {outcome : Outcome α} (h : operation.runOn s.client = (outcome, client)) :
    (run statement pretended operation).runOn s
      = (outcome.mapError fun e => e.toTransportFailure.withQuery statement,
          note statement false { s with client }) := by
  cases outcome <;> simp [run, Action.runOn_bind, onClient, hlistens, h] <;> rfl

/-- A statement is run on the client; its failure gets its text. -/
theorem runOn_run (statement : String) (pretended : α) (hlistens : s.pretending = false)
    {outcome : Outcome α} (h : operation.runOn s.client = (outcome, client)) :
    ∃ s', (run statement pretended operation).runOn s
        = (outcome.mapError fun e => e.toTransportFailure.withQuery statement, s') ∧
      s'.client = client ∧ s'.pretending = false := by
  refine ⟨_, runOn_run_eq statement pretended hlistens h, ?_⟩
  unfold note
  split <;> exact ⟨rfl, hlistens⟩

/-- A statement whose operation succeeds gives what the operation gives. -/
theorem runOn_run_of_ok (statement : String) (pretended : α) (hlistens : s.pretending = false)
    {x : α} (h : operation.runOn s.client = (.ok x, client)) :
    ∃ s', (run statement pretended operation).runOn s = (.ok x, s') ∧ s'.client = client ∧
      s'.pretending = false :=
  runOn_run statement pretended hlistens h

/-- A statement whose operation fails, fails. -/
theorem runOn_run_of_error (statement : String) (pretended : α) (hlistens : s.pretending = false)
    {e : Error} (h : operation.runOn s.client = (.error e, client)) :
    ∃ e' s', (run statement pretended operation).runOn s = (.error e', s') ∧
      s'.client = client ∧ s'.pretending = false :=
  ⟨_, runOn_run statement pretended hlistens h⟩

theorem noteModified_client (s : Session σ) (modified : Bool) :
    (s.noteModified modified).client = s.client := by
  unfold noteModified
  split <;> rfl

end Statements

/-- The session runs its statements, on a table in memory. -/
structure IsOver (s : Session Memory.State) (table : Table) : Prop where
  listens : s.pretending = false
  table_eq : s.client.store.table = table

variable {s : Session Memory.State} {table : Table}

theorem IsOver.noteModified (h : s.IsOver table) (modified : Bool) :
    (s.noteModified modified).IsOver table := by
  unfold Session.noteModified
  split
  · exact ⟨h.listens, h.table_eq⟩
  · exact h

end Session

/-! ## The insertion of one record -/

/-- The data of a record that names its id is the record without it. -/
theorem stripDocumentId_set {data : Fields} (hsorted : Keyed.Sorted data)
    (hnameless : Keyed.get? FieldPath.documentIdName data = none) (v : Value) :
    stripDocumentId (Fields.set data .documentId v) = (data, some v) := by
  have hget : Keyed.get? FieldPath.documentIdName (Fields.set data .documentId v) = some v :=
    Keyed.get?_insert_self
  have herase : Keyed.erase FieldPath.documentIdName (Fields.set data .documentId v) = data := by
    have hinsert : Keyed.Sorted (Fields.set data .documentId v) := hsorted.insert
    refine Keyed.eq_of_get?_eq hinsert.erase hsorted fun name => ?_
    by_cases hname : name = FieldPath.documentIdName
    · rw [hname, Keyed.get?_erase_self hinsert, hnameless]
    · rw [Keyed.get?_erase_of_ne hname]
      exact Keyed.get?_insert_of_ne hname
  rw [stripDocumentId, hget, herase]

namespace Batcher

variable {collection : ResourcePath} {id : String} {data : Fields} {table : Table}

/-- A record is inserted under the id that it names, unless a write does not take it or a document
is there already. -/
theorem runOn_insert_named (hcollection : collection.isCollection = true)
    (hid : Text.IsPlainName id) (hsorted : Keyed.Sorted data)
    (hnameless : Keyed.get? FieldPath.documentIdName data = none) {b : Batcher Memory.State}
    (htable : b.client.store.table = table) :
    (∃ e b', (insert Memory.datastore collection [Fields.set data .documentId (.string id)]).runOn b
        = (.error e, b') ∧ b'.client.store.table = table) ∨
    (∃ encoded now b', (insert Memory.datastore collection
          [Fields.set data .documentId (.string id)]).runOn b
            = (.ok [⟨collection.child [id]⟩], b') ∧
        encodeCreate data = .ok encoded ∧ Keyed.get? (collection.child [id]) table = none ∧
        b'.client.store.table = Keyed.insert (collection.child [id])
          ⟨Memory.applyIncrements encoded.fields encoded.increments, now, now⟩ table) := by
  obtain ⟨b₁, hbuild, hstore₁, -⟩ := runOn_enter .building b
  obtain ⟨b₂, hcompile, hstore₂, -⟩ := runOn_enter .compiling b₁
  have hrun : (insert Memory.datastore collection
        [Fields.set data .documentId (.string id)]).runOn b
      = ([Fields.set data .documentId (.string id)].mapM (createWrite collection) >>= fun writes =>
          commitChunks Memory.datastore insertChunk writes >>= fun _ =>
            pure (writes.map (·.key))).runOn b₂ := by
    simp only [insert, hcollection, List.isEmpty_cons, Bool.not_true, Bool.false_eq_true, if_false]
    rw [Action.runOn_bind_of_ok hbuild, Action.runOn_bind_of_ok hcompile]
  rw [hrun]
  rcases runOn_createWrites hcollection [Fields.set data .documentId (.string id)] b₂ with
    ⟨-, writes, b₃, hwrites, hstore₃, hcreates⟩ | ⟨-, e, b₃, hwrites, hstore₃⟩
  · rw [Action.runOn_bind_of_ok hwrites]
    have hstore : b₃.client.store.table = table := by
      rw [hstore₃, hstore₂, hstore₁, htable]
    obtain ⟨write, hwrite, rfl⟩ : ∃ write, Creates collection
        (Fields.set data .documentId (.string id)) write ∧ writes = [write] := by
      cases hcreates with
      | cons hwrite hrest =>
          cases hrest
          exact ⟨_, hwrite, rfl⟩
    obtain ⟨id', encoded, hnamed, hencoded, rfl⟩ := hwrite
    rw [stripDocumentId_set hsorted hnameless] at hnamed hencoded
    obtain rfl : id' = id := by
      have hown := documentIdOf_eq_ok.1 (hnamed _ rfl)
      exact (Option.some.inj hown.1).symm
    rcases runOn_commitChunks_once Memory.datastore (List.cons_ne_nil _ [])
        (show [Write.create ⟨collection.child [id']⟩ encoded.fields
          encoded.increments].length ≤ insertChunk by simp [insertChunk]) b₃ with
      ⟨b₄, hcommit, hdone⟩ | ⟨e, e', b₄, hcommit, hfailed⟩
    · have htable' := Memory.commitTable_of_runOn_commit hdone
      rw [hstore] at htable'
      obtain ⟨hnone, htable'⟩ := Memory.commitTable_create_eq_ok.1 htable'
      exact .inr ⟨encoded, _, b₄, Action.runOn_bind_of_ok hcommit, hencoded, hnone, htable'.symm⟩
    · exact .inl ⟨e', b₄, Action.runOn_bind_of_error hcommit,
        (Memory.table_of_runOn_commit hfailed).trans hstore⟩
  · refine .inl ⟨e, b₃, Action.runOn_bind_of_error hwrites, ?_⟩
    rw [hstore₃, hstore₂, hstore₁, htable]

/-- An update of one document commits one write. -/
theorem runOn_updateEncoded_one (encoded : EncodedData) {key : DocumentKey} {now : Timestamp}
    {table' : Table} {b : Batcher Memory.State} (hnow : b.client.store.clock.now = now)
    (htable : b.client.store.table = table)
    (hdone : Memory.commitTable now table
      [.set key encoded.fields encoded.mask encoded.increments] = .ok table') :
    ∃ b', (updateEncoded Memory.datastore [key] encoded).runOn b = (.ok 1, b') ∧
      b'.client.store.table = table' := by
  obtain ⟨b₁, hbuild, hstore₁, -⟩ := runOn_enter .building b
  simp only [updateEncoded, List.isEmpty_cons, Bool.false_eq_true, if_false]
  rw [Action.runOn_bind_of_ok hbuild]
  have hcommit := Memory.runOn_commit [.set key encoded.fields encoded.mask encoded.increments]
    b₁.client.store
  rw [hstore₁, hnow, htable, hdone] at hcommit
  rcases runOn_commitChunks_once Memory.datastore (List.cons_ne_nil _ [])
      (show [Write.set key encoded.fields encoded.mask encoded.increments].length ≤ updateChunk by
        simp [updateChunk]) b₁ with
    ⟨b₂, hchunks, hok⟩ | ⟨e, e', b₂, -, hfailed⟩
  · refine ⟨b₂, Action.runOn_bind_of_ok hchunks, ?_⟩
    rw [hstore₁, hcommit] at hok
    rw [← (Prod.mk.inj hok).2]
  · rw [hstore₁, hcommit] at hfailed
    cases (Prod.mk.inj hfailed).1

end Batcher

/-! ## Statements -/

namespace Session.IsOver

variable {s : Session Memory.State} {table : Table} (database : DatabaseId) (pageSize : Nat)
  {collection : String}

/-- A generated id is a plain name. -/
theorem nextId (h : s.IsOver table) :
    ∃ id s', (onClient Client.nextId).runOn s = (.ok id, s') ∧ Text.IsPlainName id ∧
      s'.IsOver table :=
  ⟨_, _, rfl, OrderedId.isPlainName_text _, h.listens, h.table_eq⟩

/-- A record is inserted under a generated id that is also put into one of its fields, or nothing
is. -/
theorem insertGetId (h : s.IsOver table) (collection : String) {record : Fields}
    (hsorted : Keyed.Sorted record)
    (hnameless : Keyed.get? FieldPath.documentIdName record = none) {field : String}
    (hfield : FieldPath.AvoidsId field) :
    (∃ e s', ((Connection.inMemory database pageSize).insertGetId (.ofTable collection) record
        (some field)).runOn s = (.error e, s') ∧ s'.IsOver table) ∨
    (∃ path at? id encoded now s',
      ((Connection.inMemory database pageSize).insertGetId (.ofTable collection) record
        (some field)).runOn s = (.ok ⟨path.child [id]⟩, s') ∧
      (QueryState.ofTable collection).insertTarget = .ok path ∧
      FieldPath.ofText field = .ok at? ∧ Text.IsPlainName id ∧
      encodeCreate (Fields.set record at? (.string id)) = .ok encoded ∧
      Keyed.get? (path.child [id]) table = none ∧
      s'.IsOver (Keyed.insert (path.child [id])
        ⟨Memory.applyIncrements encoded.fields encoded.increments, now, now⟩ table)) := by
  have hstrip : stripDocumentId record = (record, none) := by rw [stripDocumentId, hnameless]
  unfold Connection.insertGetId
  cases htarget : (QueryState.ofTable collection).insertTarget with
  | error e => exact .inl ⟨e, s, Action.runOn_bind_of_error rfl, h⟩
  | ok path =>
  have hcollection := (QueryState.insertTarget_ofTable.1 htarget).2
  rw [Action.runOn_bind_of_ok (Action.runOn_ofOutcome _ _), hstrip]
  dsimp only
  obtain ⟨id, s₁, hid, hname, h₁⟩ := h.nextId
  rw [Action.runOn_bind_of_ok hid]
  cases hread : FieldPath.ofText field with
  | error e => exact .inl ⟨e, s₁, Action.runOn_bind_of_error rfl, h₁⟩
  | ok at? =>
  rw [Action.runOn_bind_of_ok (Action.runOn_ofOutcome _ _), pure_bind,
    Batcher.ofPath_child hcollection, Action.runOn_bind_of_ok (Action.runOn_ofOutcome _ _)]
  have hdata : Keyed.Sorted (Fields.set record at? (.string id)) := Fields.sorted_setIn hsorted
  have hdataless : Keyed.get? FieldPath.documentIdName (Fields.set record at? (.string id))
      = none :=
    (Fields.get?_setIn_of_ne (hfield at? hread)).trans hnameless
  rcases Batcher.runOn_insert_named hcollection hname hdata hdataless (b := { client := s₁.client })
      h₁.table_eq with
    ⟨e, b, hinsert, htable⟩ | ⟨encoded, now, b, hinsert, hencoded, hnone, htable⟩
  · obtain ⟨e', s₂, hrun, hclient, hlistens⟩ :=
      runOn_run_of_error (insertStatement path.text
        [Fields.set (Fields.set record at? (.string id)) .documentId (.string id)]) []
        h₁.listens (Client.runOn_mutate hinsert)
    exact .inl ⟨e', s₂, Action.runOn_bind_of_error hrun, hlistens, by rw [hclient, htable]⟩
  · obtain ⟨s₂, hrun, hclient, hlistens⟩ :=
      runOn_run_of_ok (insertStatement path.text
        [Fields.set (Fields.set record at? (.string id)) .documentId (.string id)]) []
        h₁.listens (Client.runOn_mutate hinsert)
    refine .inr ⟨path, at?, id, encoded, now, s₂.noteModified true, ?_, rfl, rfl, hname, hencoded,
      hnone, IsOver.noteModified ⟨hlistens, by rw [hclient, htable]⟩ true⟩
    exact Action.runOn_bind_of_ok hrun

/-- The document with an id is asked for by its id. -/
theorem runOn_matchingKeys (hwf : Memory.WellFormed table) {path : ResourcePath} {id : String}
    (hpath : path.segments ≠ []) (hid : Text.IsPlainName id)
    (hstored : Memory.IsStored table (path.child [id])) {client : Client Memory.State}
    (htable : client.store.table = table) :
    ∃ client', ((Connection.inMemory database pageSize).matchingKeys
        (QueryState.idsAt path id)).runOn client = (.ok [⟨path.child [id]⟩], client') ∧
      client'.store.table = table := by
  obtain ⟨client', hasked, htable'⟩ :=
    Connection.runOn_matchingKeys_eq database pageSize (QueryState.idsAt path id) client
  have hkeys := Memory.keys_idsAt client.store.clock.now hwf hpath hid.slashFree hstored
  rw [htable] at hasked htable'
  exact ⟨client', hasked.trans (congrArg (fun keys => (Except.ok keys, client')) hkeys), htable'⟩

/-- An update of the document with an id commits one write, or nothing. -/
theorem update_whereKey (h : s.IsOver table) (hwf : Memory.WellFormed table) {path : ResourcePath}
    (htarget : (QueryState.ofTable collection).insertTarget = .ok path) {id : String}
    (hid : Text.IsPlainName id) (hstored : Memory.IsStored table (path.child [id]))
    {data : Fields} (hdata : encodeUpdate data ≠ .ok none) :
    (∃ e s', ((Connection.inMemory database pageSize).update
        ((QueryState.ofTable collection).whereKey id) data).runOn s = (.error e, s') ∧
      s'.IsOver table) ∨
    (∃ encoded now table' s', ((Connection.inMemory database pageSize).update
        ((QueryState.ofTable collection).whereKey id) data).runOn s = (.ok 1, s') ∧
      encodeUpdate data = .ok (some encoded) ∧
      Memory.commitTable now table [.set ⟨path.child [id]⟩ encoded.fields encoded.mask
        encoded.increments] = .ok table' ∧ s'.IsOver table') := by
  have hpath := ResourcePath.segments_ne_nil_of_isCollection
    (QueryState.insertTarget_ofTable.1 htarget).2
  unfold Connection.update
  rw [QueryState.identityQuery_whereKey htarget]
  cases ((QueryState.ofTable collection).whereKey id).updateStatement data with
  | error e => exact .inl ⟨e, s, Action.runOn_bind_of_error rfl, h⟩
  | ok statement =>
  rw [Action.runOn_bind_of_ok (Action.runOn_ofOutcome _ _),
    Action.runOn_bind_of_ok (Action.runOn_ofOutcome _ _)]
  cases hencode : encodeUpdate data with
  | error e => exact .inl ⟨e, s, Action.runOn_bind_of_error rfl, h⟩
  | ok encoded? =>
  cases encoded? with
  | none => exact absurd hencode hdata
  | some encoded =>
  rw [Action.runOn_bind_of_ok (Action.runOn_ofOutcome _ _)]
  dsimp only
  obtain ⟨client₁, hkeys, htable₁⟩ :=
    runOn_matchingKeys database pageSize hwf hpath hid hstored h.table_eq
  obtain ⟨stored, hcommit⟩ := Memory.commitTable_set client₁.store.clock.now table
    ⟨path.child [id]⟩ encoded.fields encoded.mask encoded.increments
  obtain ⟨b, hupdate, htable₂⟩ :=
    Batcher.runOn_updateEncoded_one encoded (b := { client := client₁ }) rfl htable₁ hcommit
  have hmutate : ((Connection.inMemory database pageSize).matchingKeys (QueryState.idsAt path id)
        >>= fun keys => Client.mutate (Batcher.updateEncoded Memory.datastore keys
          encoded)).runOn s.client = (.ok 1, b.client) :=
    (Action.runOn_bind_of_ok hkeys).trans (Client.runOn_mutate hupdate)
  obtain ⟨s₁, hrun, hclient, hlistens⟩ := runOn_run_of_ok statement 0 h.listens hmutate
  refine .inr ⟨encoded, _, _, s₁.noteModified true, Action.runOn_bind_of_ok hrun, rfl, hcommit, ?_⟩
  exact IsOver.noteModified ⟨hlistens, by rw [hclient, htable₂]⟩ true

end Session.IsOver

end DocStore
