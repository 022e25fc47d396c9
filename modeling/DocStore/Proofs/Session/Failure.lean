import DocStore.Proofs.Mutation.Course
import DocStore.Proofs.Session.Statement

/-!
# How statements fail

A statement is checked before the store is asked for anything: a statement that fails although the
store has granted all that it was asked for has asked for nothing (`asks_nothing_of_refused`).

A statement ends with the first request that the store fails to answer.  Its failure tells the text
of the statement, and the chunk if the request belongs to one; but it is a transport failure only if
the store has not answered with one of the codes that checking uses (`shows_failure_iff`).
-/

namespace DocStore

variable {σ α : Type}

/-! ## Statements -/

/-- A statement on the documents of a query, or on the collection of a query. -/
inductive Statement
  | get
  | first
  | exists?
  | count
  | min (field : String)
  | max (field : String)
  | sum (field : String)
  | mean (field : String)
  | insert (records : List Fields)
  | insertGetId (record : Fields) (sequence : Option String)
  | update (data : Fields)
  | increment (field : String) (amount : Value) (extra : Fields)
  | decrement (field : String) (amount : Value) (extra : Fields)
  | delete
  | deleteById (id : Value)

namespace Statement

/-- A step whose result is left out. -/
def only (a : Action (Session σ) α) : Action (Session σ) Unit := do
  let _ ← a
  return ()

/-- Runs a statement, without its result. -/
def perform (c : Connection σ) (q : QueryState) : Statement → Action (Session σ) Unit
  | get => only (c.get q)
  | first => only (c.first q)
  | exists? => only (c.exists? q)
  | count => only (c.count q)
  | min field => only (c.min q field)
  | max field => only (c.max q field)
  | sum field => only (c.sum q field)
  | mean field => only (c.mean q field)
  | insert records => only (c.insert q records)
  | insertGetId record sequence => only (c.insertGetId q record sequence)
  | update data => only (c.update q data)
  | increment field amount extra => only (c.increment q field amount extra)
  | decrement field amount extra => only (c.decrement q field amount extra)
  | delete => only (c.delete q)
  | deleteById id => only (c.deleteById q id)

/-- The id of a record: the one that it names, or one that is drawn. -/
def idOf (id? : Option Value) (drawn : Outcome String) : Outcome String :=
  match id? with
  | some v => documentIdOf v
  | none => drawn

/-- The data of a record with its id in a field, if one is given. -/
def sequenced (sequence : Option String) (id : String) (data : Fields) : Outcome Fields :=
  match sequence with
  | some field => do return Fields.set data (← FieldPath.ofText field) (.string id)
  | none => pure data

/-- A record with its id, as the statement that inserts it has it. -/
def identified (record : Fields) (sequence : Option String) (drawn : Outcome String) :
    Outcome Fields := do
  let id ← idOf (stripDocumentId record).2 drawn
  return Fields.set (← sequenced sequence id (stripDocumentId record).1) .documentId (.string id)

/-- The text of a statement. -/
def text (q : QueryState) (drawn : Outcome String) : Statement → Outcome String
  | get => q.statement
  | first => { q with limit := some 1 }.statement
  | exists? => { q.select [] with limit := some 1 }.statement
  | count => q.reductionStatement Aggregate.count.name "*"
  | min field => q.reductionStatement Aggregate.min.name field
  | max field => q.reductionStatement Aggregate.max.name field
  | sum field => q.reductionStatement Aggregate.sum.name field
  | mean field => q.reductionStatement Aggregate.avg.name field
  | insert records => do return insertStatement (← q.insertTarget).text records
  | insertGetId record sequence => do
    return insertStatement (← q.insertTarget).text [← identified record sequence drawn]
  | update data => q.updateStatement data
  | increment field amount extra => do
    q.updateStatement (← Connection.incrementData field amount extra)
  | decrement field amount extra => do
    q.updateStatement (← Connection.incrementData field amount.opposite extra)
  | delete => q.deleteStatement
  | deleteById id => (q.addWhere "id" "=" id).deleteStatement

/-- The records that a statement inserts. -/
def created : Statement → List Fields
  | insert records => records
  | insertGetId record _ => [record]
  | _ => []

/-- The statement merges data into documents. -/
def merges : Statement → Bool
  | update _ | increment _ _ _ | decrement _ _ _ => true
  | _ => false

/-- The statement deletes documents. -/
def deletes : Statement → Bool
  | delete | deleteById _ => true
  | _ => false

/-- The position that a statement puts into the failure `e` of the last of its exchanges. -/
inductive At (c : Connection σ) (st : Statement) :
    List Exchange → Error → Option ChunkPosition → Prop
  /-- The query belongs to no chunk; a position that the failure has brought along is left. -/
  | query {q : StoreQuery} {e : Error} : At c st [.query q (.error e)] e e.chunk
  /-- An insertion commits a chunk after the other. -/
  | insertion {asked : List Exchange} {e : Error} (records : st.created ≠ [])
      (commits : ∀ x ∈ asked, x.isCommit = true) :
      At c st asked e (some ⟨asked.length, (chunksOf Batcher.insertChunk st.created).length⟩)
  /-- An update commits a chunk of the documents that it has found after the other. -/
  | update {q : StoreQuery} {documents : List Snapshot} {asked : List Exchange} {e : Error}
      (h : st.merges = true) (commits : ∀ x ∈ asked, x.isCommit = true) :
      At c st (.query q (.ok documents) :: asked) e
        (some ⟨asked.length, (chunksOf Batcher.updateChunk documents).length⟩)
  /-- A deletion clears a chunk of the documents that it has found after the other. -/
  | deletion {q : StoreQuery} {documents : List Snapshot} {asked : List Exchange} {e : Error}
      {n : Nat} (h : st.deletes = true)
      (place : InChunk (Batcher.clearChunk c.store.watched c.pageSize)
        (chunksOf Batcher.deleteChunk (documents.map (·.key))) asked n) :
      At c st (.query q (.ok documents) :: asked) e
        (some ⟨n + 1, (chunksOf Batcher.deleteChunk documents).length⟩)

/-- What becomes of a failure of the store: it gets a position and, when it is passed on, the text
of the statement. -/
def Tells (text : Outcome String) (place : List Exchange → Error → Option ChunkPosition → Prop)
    (asked : List Exchange) (e e' : Error) : Prop :=
  ∃ statement position, text = .ok statement ∧ place asked e position ∧
    e' = ({ e with chunk := position } : Error).toTransportFailure.withQuery statement

end Statement

/-! ## The course of a statement -/

/-- The connection whose store is watched. -/
def Connection.watched (c : Connection σ) : Connection (Watched σ) where
  database := c.database
  store := c.store.watched
  pageSize := c.pageSize

/-- The exchanges of a session with its store. -/
def Session.exchanges (s : Session (Watched σ)) : List Exchange := s.client.exchanges

namespace Session

variable {allowed : List Exchange → Prop} {shown : List Exchange → Error → Error → Prop}

/-- The course of a statement is that of its operation; a failure of the store is shown with the
text of the statement. -/
theorem course_run (statement : String) (pretended : α)
    {operation : Action (Client (Watched σ)) α} {s : Session (Watched σ)}
    (h : Course Client.exchanges allowed shown operation s.client) :
    Course exchanges allowed
      (fun asked e e' => ∃ e₁, shown asked e e₁ ∧ e' = e₁.toTransportFailure.withQuery statement)
      (run statement pretended operation) s := by
  cases hlistens : s.pretending with
  | true =>
      refine .silent (t := s.note statement true) (x := pretended) ?_ ?_
      · simp [run, Action.runOn_bind, hlistens]
        rfl
      · unfold note
        split <;> rfl
  | false =>
      obtain ⟨asked, hseen, hends⟩ := h
      cases hoperation : operation.runOn s.client with
      | mk outcome client =>
        rw [hoperation] at hseen hends
        obtain ⟨s', hrun, hclient, -⟩ := runOn_run statement pretended hlistens hoperation
        refine ⟨asked, by rw [hrun, exchanges, hclient, hseen]; rfl, ?_⟩
        rw [hrun]
        cases hends with
        | done granted => exact .done granted
        | refused granted h => exact .refused granted h
        | failed granted failure h => exact .failed granted failure ⟨_, h, rfl⟩

end Session

namespace Statement

open Session (exchanges)

variable {c : Connection σ} {q : QueryState} {st : Statement} {s : Session (Watched σ)}

theorem course_only {allowed : List Exchange → Prop} {shown : List Exchange → Error → Error → Prop}
    {a : Action (Session (Watched σ)) α} (h : Course exchanges allowed shown a s) :
    Course exchanges allowed shown (only a) s :=
  h.bind_silent fun _ t => ⟨(), t, rfl, rfl⟩

/-- A statement that runs one query. -/
theorem course_reading (text : Outcome String) (target : Outcome StoreQuery) :
    Course exchanges Guarded (Tells text (At c st))
      (do
        let statement ← Action.ofOutcome text
        c.watched.fetch statement (← Action.ofOutcome target)) s := by
  refine .outcome_bind (fun _ => rfl) fun statement htext => ?_
  refine .outcome_bind (fun _ => rfl) fun sq _ => ?_
  have hquery : Course Client.exchanges Guarded
      (fun asked e e' => asked = [.query sq (.error e)] ∧ e' = e)
      (Client.onStore (c.watched.store.query sq)) s.client :=
    .keep (fun _ => rfl) (fun _ => rfl) fun _ => ⟨rfl, rfl⟩
  refine (Session.course_run statement [] hquery).mono (fun _ => id) ?_
  intro asked e e' hshown
  obtain ⟨_, ⟨rfl, rfl⟩, rfl⟩ := hshown
  exact ⟨statement, _, htext, .query, rfl⟩

theorem course_columnValues (aggregate : Aggregate) (field : String) :
    Course exchanges Guarded (Tells (q.reductionStatement aggregate.name field) (At c st))
      (c.watched.columnValues q aggregate field) s := by
  refine .outcome_bind (fun _ => rfl) fun path _ => ?_
  exact (course_reading _ _).bind_silent fun _ t => ⟨_, t, rfl, rfl⟩

/-- The data that a statement inserts is inserted in commits. -/
theorem course_insertion {text : Outcome String} {statement : String} (htext : text = .ok statement)
    {records : List Fields} (hsome : st.created ≠ [])
    (hcount : records.length = st.created.length) (collection : ResourcePath) :
    Course exchanges Guarded (Tells text (At c st))
      (Session.run statement []
        (Client.mutate (Batcher.insert c.watched.store collection records))) s := by
  have hinsert : Course Client.exchanges Guarded
      (AtCommit (chunksOf Batcher.insertChunk records).length)
      (Client.mutate (Batcher.insert c.watched.store collection records)) s.client :=
    (Batcher.course_insert collection records _).onPart rfl fun _ => rfl
  refine (Session.course_run statement [] hinsert).mono (fun _ => id) ?_
  intro asked e e' hshown
  obtain ⟨_, ⟨hcommits, rfl⟩, rfl⟩ := hshown
  rw [length_chunksOf_congr hcount]
  exact ⟨statement, _, htext, .insertion hsome hcommits, rfl⟩

theorem noteModified_silent {x : α} (modified : α → Bool) (t : Session (Watched σ)) :
    ∃ y u, (Action.update (Session.noteModified (modified x)) >>= fun _ => pure x :
        Action (Session (Watched σ)) α).runOn t = (.ok y, u) ∧ exchanges u = exchanges t :=
  ⟨x, t.noteModified (modified x), rfl,
    congrArg Client.exchanges (Session.noteModified_client t (modified x))⟩

/-- The keys of the documents that a query gives are known once it is answered. -/
theorem course_targeted {target : StoreQuery}
    {f : List DocumentKey → Action (Client (Watched σ)) Nat}
    {place : List Snapshot → List Exchange → Error → Error → Prop}
    (hf : ∀ documents client,
      Course Client.exchanges (Misled (∀ s ∈ documents, s.key.path.isDocument = true))
        (place documents) (f (documents.map (·.key))) client) (client : Client (Watched σ)) :
    Course Client.exchanges Guarded
      (fun asked e e' => (asked = [.query target (.error e)] ∧ e' = e) ∨
        ∃ documents rest, asked = .query target (.ok documents) :: rest ∧ place documents rest e e')
      (c.watched.matchingKeys target >>= f) client := by
  have hsplit : (c.watched.matchingKeys target >>= f)
      = (Client.onStore (c.watched.store.query target) >>= fun documents =>
          f (documents.map (·.key))) := by
    rw [Connection.matchingKeys, bind_assoc]
    rfl
  rw [hsplit]
  refine Course.keep_bind (fun _ => rfl) (fun _ => rfl) (fun _ => .inl ⟨rfl, rfl⟩)
    fun documents t => ?_
  refine (hf documents t).mono (fun rest hmisled => ?_) fun rest e e' hplace => ?_
  · refine .of_misled (Misled.answered (x := .query target (.ok documents)) fun hboth => ?_)
    exact hmisled hboth.2
  · exact .inr ⟨documents, rest, rfl, hplace⟩

theorem course_update (hst : st.merges = true) (data : Fields) :
    Course exchanges Guarded (Tells (q.updateStatement data) (At c st)) (c.watched.update q data)
      s := by
  refine .outcome_bind (fun _ => rfl) fun statement htext => ?_
  refine .outcome_bind (fun _ => rfl) fun target _ => ?_
  refine .outcome_bind (fun _ => rfl) fun encoded _ => ?_
  refine Course.bind_silent ?_ fun count t => noteModified_silent (fun n => 0 < n) t
  cases encoded with
  | none =>
      have hnone : Course Client.exchanges Guarded (fun _ _ _ => False)
          (pure 0 : Action (Client (Watched σ)) Nat) s.client := .silent rfl rfl
      refine (Session.course_run statement 0 hnone).mono (fun _ => id) ?_
      intro asked e e' hshown
      obtain ⟨_, hfalse, -⟩ := hshown
      exact hfalse.elim
  | some encoded =>
      have hwrites : ∀ (documents : List Snapshot) client,
          Course Client.exchanges (Misled (∀ s ∈ documents, s.key.path.isDocument = true))
            (AtCommit (chunksOf Batcher.updateChunk documents).length)
            (Client.mutate (Batcher.updateEncoded c.watched.store (documents.map (·.key)) encoded))
            client := by
        intro documents client
        rw [length_chunksOf_congr (List.length_map Snapshot.key).symm]
        exact (Batcher.course_updateEncoded _ _ _).onPart rfl fun _ => rfl
      refine (Session.course_run statement 0 (course_targeted hwrites s.client)).mono
        (fun _ => id) ?_
      intro asked e e' hshown
      obtain ⟨e₁, ⟨rfl, rfl⟩ | ⟨documents, rest, rfl, hcommits, rfl⟩, rfl⟩ := hshown
      · exact ⟨statement, _, htext, .query, rfl⟩
      · exact ⟨statement, _, htext, .update hst hcommits, rfl⟩

theorem course_delete (hst : st.deletes = true) :
    Course exchanges Guarded (Tells q.deleteStatement (At c st)) (c.watched.delete q) s := by
  refine .outcome_bind (fun _ => rfl) fun statement htext => ?_
  refine .outcome_bind (fun _ => rfl) fun target _ => ?_
  refine Course.bind_silent ?_ fun count t => noteModified_silent (fun n => 0 < n) t
  have hwrites : ∀ (documents : List Snapshot) client,
      Course Client.exchanges (Misled (∀ s ∈ documents, s.key.path.isDocument = true))
        (fun asked e e' => ∃ n,
          InChunk (Batcher.clearChunk c.store.watched c.pageSize)
            (chunksOf Batcher.deleteChunk (documents.map (·.key))) asked n ∧
          e' = e.withChunk (n + 1) (chunksOf Batcher.deleteChunk (documents.map (·.key))).length)
        (Client.mutate (Batcher.delete c.watched.store c.watched.pageSize (documents.map (·.key))))
        client := by
    intro documents client
    refine Course.onPart (Batcher.course_delete c.pageSize (fun hkeys key hkey => ?_) _) rfl
      fun _ => rfl
    obtain ⟨s, hs, rfl⟩ := List.mem_map.1 hkey
    exact hkeys s hs
  refine (Session.course_run statement 0 (course_targeted hwrites s.client)).mono (fun _ => id) ?_
  intro asked e e' hshown
  obtain ⟨e₁, ⟨rfl, rfl⟩ | ⟨documents, rest, rfl, n, hin, rfl⟩, rfl⟩ := hshown
  · exact ⟨statement, _, htext, .query, rfl⟩
  · rw [length_chunksOf_congr (List.length_map Snapshot.key)]
    exact ⟨statement, _, htext, .deletion hst hin, rfl⟩

theorem course_insert (records : List Fields) (drawn : Outcome String) :
    Course exchanges Guarded (Tells ((insert records).text q drawn) (At c (insert records)))
      (c.watched.insert q records) s := by
  cases records with
  | nil => exact .silent rfl rfl
  | cons record rest =>
  refine .outcome_bind (fun _ => rfl) fun collection htarget => ?_
  refine Course.bind_silent ?_ fun _ t => noteModified_silent (fun _ => true) t
  have htext : (insert (record :: rest)).text q drawn
      = .ok (insertStatement collection.text (record :: rest)) := by
    rw [text, htarget]
    rfl
  have hsome : (insert (record :: rest)).created ≠ [] := List.cons_ne_nil _ _
  exact course_insertion htext hsome rfl collection

/-- The step that finds the id of a record. -/
def findId (id? : Option Value) : Action (Session σ) String :=
  match id? with
  | some v => Action.ofOutcome (documentIdOf v)
  | none => Session.onClient Client.nextId

/-- The insertion under one id, in terms of the data that it inserts. -/
theorem insertGetId_eq (c : Connection σ) (record : Fields) (sequence : Option String) :
    c.insertGetId q record sequence = (do
      let collection ← Action.ofOutcome q.insertTarget
      let id ← findId (stripDocumentId record).2
      let data ← Action.ofOutcome (sequenced sequence id (stripDocumentId record).1)
      let key ← Action.ofOutcome (DocumentKey.ofPath (collection.child [id]))
      let data := Fields.set data .documentId (.string id)
      let _ ← Session.run (insertStatement collection.text [data]) []
        (Client.mutate (Batcher.insert c.store collection [data]))
      Action.update (Session.noteModified true)
      return key) := by
  unfold Connection.insertGetId findId sequenced
  rcases stripDocumentId record with ⟨data, id?⟩
  dsimp only
  cases sequence with
  | none => cases id? <;> rfl
  | some field =>
      dsimp only
      cases FieldPath.ofText field <;> cases id? <;> rfl

theorem course_insertGetId (record : Fields) (sequence : Option String) :
    Course exchanges Guarded
      (Tells ((insertGetId record sequence).text q (Client.nextId.runOn s.client).1)
        (At c (insertGetId record sequence)))
      (c.watched.insertGetId q record sequence) s := by
  generalize hdrawn : (Client.nextId.runOn s.client).1 = drawn
  rw [insertGetId_eq]
  refine .outcome_bind (fun _ => rfl) fun collection htarget => ?_
  -- Once the id is known, so are the data and the statement.
  have hknown : ∀ id (t : Session (Watched σ)),
      idOf (stripDocumentId record).2 drawn = .ok id →
      Course exchanges Guarded
        (Tells ((insertGetId record sequence).text q drawn)
          (At c (insertGetId record sequence)))
        (do
          let data ← Action.ofOutcome (sequenced sequence id (stripDocumentId record).1)
          let key ← Action.ofOutcome (DocumentKey.ofPath (collection.child [id]))
          let data := Fields.set data .documentId (.string id)
          let _ ← Session.run (insertStatement collection.text [data]) []
            (Client.mutate (Batcher.insert c.watched.store collection [data]))
          Action.update (Session.noteModified true)
          return key) t := by
    intro id t hid
    refine .outcome_bind (fun _ => rfl) fun data hdata => ?_
    refine .outcome_bind (fun _ => rfl) fun key _ => ?_
    refine Course.bind_silent ?_ fun _ u => noteModified_silent (fun _ => true) u
    have htext : (insertGetId record sequence).text q drawn = .ok
        (insertStatement collection.text [Fields.set data .documentId (.string id)]) := by
      rw [text, htarget, identified, hid, Outcome.ok_bind, Outcome.ok_bind, hdata]
      rfl
    have hsome : (insertGetId record sequence).created ≠ [] := List.cons_ne_nil _ _
    have hcount : [Fields.set data .documentId (.string id)].length
        = (insertGetId record sequence).created.length := rfl
    exact course_insertion htext hsome hcount collection
  cases hid : (stripDocumentId record).2 with
  | some v =>
      exact .outcome_bind (fun _ => rfl) fun id hdocument =>
        hknown id s (by rw [hid]; exact hdocument)
  | none =>
      obtain ⟨id, client, hnext, hstore⟩ : ∃ id client,
          Client.nextId.runOn s.client = (.ok id, client) ∧ client.store = s.client.store :=
        ⟨_, _, rfl, rfl⟩
      refine .silent_bind (Session.runOn_onClient hnext) ?_ (hknown id _ ?_)
      · exact congrArg Watched.exchanges hstore
      · rw [hid, ← hdrawn, hnext]
        rfl

theorem eq_of_checkAmount {amount checked : Value} {method : String}
    (h : amount.checkAmount method = .ok checked) : checked = amount := by
  rw [Value.checkAmount] at h
  split at h
  · exact (Outcome.pure_eq_ok.1 h).symm
  · cases h

/-- **The course of a statement.**  It fails by itself only before it has asked for anything, and a
failure of the store ends it. -/
theorem course_perform (c : Connection σ) (q : QueryState) (st : Statement)
    (s : Session (Watched σ)) :
    Course exchanges Guarded
      (Tells (st.text q (Client.nextId.runOn s.client).1) (At c st))
      (st.perform c.watched q) s := by
  cases st with
  | get => exact course_only (course_reading _ _)
  | first | exists? | count =>
      exact course_only ((course_reading _ _).bind_silent fun _ t => ⟨_, t, rfl, rfl⟩)
  | min field | max field | sum field | mean field =>
      exact course_only ((course_columnValues _ field).bind_silent fun _ t => ⟨_, t, rfl, rfl⟩)
  | insert records => exact course_only (course_insert records _)
  | insertGetId record sequence => exact course_only (course_insertGetId record sequence)
  | update data => exact course_only (course_update rfl data)
  | increment field amount extra | decrement field amount extra =>
      refine course_only (.outcome_bind (fun _ => rfl) fun checked hchecked => ?_)
      refine .outcome_bind (fun _ => rfl) fun data hdata => ?_
      rw [eq_of_checkAmount hchecked] at hdata
      rw [text, hdata]
      exact course_update rfl data
  | delete | deleteById id => exact course_only (course_delete rfl)

/-! ## Refused statements -/

/-- **Statements that are refused.**  A statement that fails although the store has granted every
request has asked for nothing, as long as the store gives documents only with keys of documents. -/
theorem asks_nothing_of_refused (c : Connection σ) (q : QueryState) (st : Statement)
    (s : Session (Watched σ)) {e : Error} {s' : Session (Watched σ)}
    (hrun : (st.perform c.watched q).runOn s = (.error e, s')) :
    ∃ asked, exchanges s' = exchanges s ++ asked ∧
      (HaveDocumentKeys asked → (∀ x ∈ asked, x.failure? = none) → asked = []) := by
  obtain ⟨asked, hseen, hends⟩ := course_perform c q st s
  rw [hrun] at hseen hends
  refine ⟨asked, hseen, fun hkeys hgranted => ?_⟩
  cases hends with
  | refused _ hguarded => exact hguarded hkeys
  | failed _ failure _ =>
      -- The last request has failed.
      rw [hgranted _ (List.mem_append_right _ List.mem_cons_self)] at failure
      cases failure

/-- A hundred records are not sent because of the one after them, which has a marker that only a
merge takes. -/
theorem asks_nothing_of_refused_insertion :
    let st : Statement := insert (List.replicate 100 [] ++ [[("age", .deleteField)]])
    let s : Session (Watched Memory.State) :=
      { client := .fresh { store := ⟨[], { readings := fun _ => default }⟩ } }
    ∃ e s', (st.perform (Connection.inMemory default 1000).watched (.ofTable "users")).runOn s
        = (.error e, s') ∧ exchanges s' = [] := by
  intro st s
  have hfails : ((st.perform (Connection.inMemory default 1000).watched
      (.ofTable "users")).runOn s).1.toOption = none := by decide +kernel
  have hsound : HaveDocumentKeys (exchanges ((st.perform
      (Connection.inMemory default 1000).watched (.ofTable "users")).runOn s).2) := by
    decide +kernel
  have hgranted : ∀ x ∈ exchanges ((st.perform (Connection.inMemory default 1000).watched
      (.ofTable "users")).runOn s).2, x.failure? = none := by decide +kernel
  cases hrun : (st.perform (Connection.inMemory default 1000).watched
      (.ofTable "users")).runOn s with
  | mk outcome s' =>
    rw [hrun] at hfails hsound hgranted
    cases outcome with
    | ok x => cases hfails
    | error e =>
        obtain ⟨asked, hseen, hnothing⟩ := asks_nothing_of_refused _ _ _ _ hrun
        have hasked : exchanges s' = asked := hseen
        exact ⟨e, s', rfl, hasked.trans (hnothing (hasked ▸ hsound) (hasked ▸ hgranted))⟩

end Statement

/-! ## Failures of the store -/

/-- The failure tells another one as a transport failure. -/
structure Error.Wraps (e' e : Error) : Prop where
  code_eq : e'.code = .transportFailure
  message_eq : e'.message = "[" ++ e.effectiveStatus ++ "] " ++ e.message
  status_eq : e'.status = some e.effectiveStatus

/-- A failure is told as a transport failure unless it has a code of checking. -/
theorem Error.wraps_iff {e : Error} (h : e.code ≠ .transportFailure)
    (position : Option ChunkPosition) (statement : String) :
    ((({ e with chunk := position } : Error).toTransportFailure).withQuery statement).Wraps e ↔
      e.isValidation = false := by
  cases hvalidation : e.isValidation with
  | true =>
      refine iff_of_false (fun hwraps => h ?_) (by simp)
      have hkept : ({ e with chunk := position } : Error).toTransportFailure
          = { e with chunk := position } := if_pos (by simpa [isValidation] using .inl hvalidation)
      rw [hkept] at hwraps
      exact hwraps.code_eq
  | false =>
      refine iff_of_true ?_ rfl
      have hwrapped : ({ e with chunk := position } : Error).toTransportFailure
          = { e with
              code := .transportFailure
              message := "[" ++ e.effectiveStatus ++ "] " ++ e.message
              chunk := position
              status := some e.effectiveStatus } :=
        if_neg (by simpa [isValidation, h] using hvalidation)
      rw [hwrapped]
      exact ⟨rfl, rfl, rfl⟩

namespace Statement

open Session (exchanges)

/-- **Failures of the store.**  A request that the store fails to answer ends the statement, and its
failure has the text of the statement and the position of the chunk; but it is a transport failure
only if it does not have a code of checking. -/
theorem shows_failure_iff (c : Connection σ) (q : QueryState) (st : Statement)
    (s : Session (Watched σ)) :
    ∃ asked, exchanges ((st.perform c.watched q).runOn s).2 = exchanges s ++ asked ∧
      ∀ x ∈ asked, ∀ e, x.failure? = some e →
        ∃ statement position e', st.text q (Client.nextId.runOn s.client).1 = .ok statement ∧
          At c st asked e position ∧ ((st.perform c.watched q).runOn s).1 = .error e' ∧
          e'.query = some statement ∧ e'.chunk = position ∧
          (e.code ≠ .transportFailure → (e'.Wraps e ↔ e.isValidation = false)) := by
  obtain ⟨asked, hseen, hends⟩ := course_perform c q st s
  refine ⟨asked, hseen, fun x hx e hfailure => ?_⟩
  generalize ((st.perform c.watched q).runOn s).1 = outcome at hends ⊢
  cases hends with
  | done granted =>
      rw [granted x hx] at hfailure
      cases hfailure
  | refused granted _ =>
      rw [granted x hx] at hfailure
      cases hfailure
  | @failed before last _ _ granted failure htells =>
      obtain rfl : x = last := by
        rcases List.mem_append.1 hx with hx | hx
        · rw [granted x hx] at hfailure
          cases hfailure
        · exact List.mem_singleton.1 hx
      obtain rfl := Option.some.inj (hfailure.symm.trans failure)
      obtain ⟨statement, position, htext, hplace, rfl⟩ := htells
      refine ⟨statement, position, _, htext, hplace, rfl, rfl, ?_, fun hcode =>
        Error.wraps_iff hcode position statement⟩
      rw [Error.withQuery, Error.toTransportFailure]
      split <;> rfl

/-- A store in memory that fails to answer its first query. -/
def failingAtFirst (e : Error) : Connection (Recording Memory.State) where
  database := ⟨"demo", "(default)"⟩
  store := Memory.datastore.recording (.ofFailures [("query", 1, e)])

/-- A store that cannot be reached: the statement fails with its text and `[UNAVAILABLE]`. -/
theorem shows_failure_iff_unavailable :
    let s : Session (Watched (Recording Memory.State)) :=
      { client := .fresh { store := { store := ⟨[], { readings := fun _ => default }⟩ } } }
    let e : Error := { code := .unavailable, message := "connection refused" }
    ∃ e', ((get.perform (failingAtFirst e).watched (.ofTable "users")).runOn s).1 = .error e' ∧
      e'.query = some "select * from users" ∧ e'.chunk = none ∧
      e'.message = "[UNAVAILABLE] connection refused" ∧ e'.Wraps e := by
  intro s e
  obtain ⟨asked, hseen, hshows⟩ :=
    shows_failure_iff (failingAtFirst e) (.ofTable "users") get s
  have hfailures : (exchanges ((get.perform (failingAtFirst e).watched
      (.ofTable "users")).runOn s).2).map (·.failure?) = [some e] := by decide +kernel
  obtain ⟨x, hx, hfailure⟩ : ∃ x ∈ asked, x.failure? = some e := by
    rw [hseen] at hfailures
    exact List.mem_map.1 (hfailures ▸ List.mem_cons_self)
  obtain ⟨statement, position, e', htext, hplace, hrun, hquery, hchunk, hwraps⟩ :=
    hshows x hx e hfailure
  have htold : e'.Wraps e := (hwraps (by decide)).2 rfl
  have hnone : position = none := by
    cases hplace with
    | query => rfl
    | insertion records _ => exact absurd rfl records
    | update h _ => cases h
    | deletion h _ => cases h
  cases htext
  exact ⟨e', hrun, hquery, hchunk.trans hnone, htold.message_eq, htold⟩

/-- The store answers `invalid-argument`, and the statement fails with this code. -/
theorem shows_failure_not_invalid_argument :
    let s : Session (Watched (Recording Memory.State)) :=
      { client := .fresh { store := { store := ⟨[], { readings := fun _ => default }⟩ } } }
    let e : Error :=
      { code := .invalidArgument, message := "index missing", status := some "INVALID_ARGUMENT" }
    let e' : Error := e.withQuery "select * from users"
    (exchanges ((get.perform (failingAtFirst e).watched (.ofTable "users")).runOn s).2).map
        (·.failure?) = [some e] ∧
      ((get.perform (failingAtFirst e).watched (.ofTable "users")).runOn s).1 = .error e' ∧
      e.code ≠ .transportFailure ∧ ¬ e'.Wraps e := by
  refine ⟨by decide +kernel, by decide +kernel, by decide, fun hwraps => ?_⟩
  cases hwraps.code_eq

end Statement

end DocStore
