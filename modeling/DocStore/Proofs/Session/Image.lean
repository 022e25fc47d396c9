import DocStore.Proofs.Session.Failure

/-!
# Statements on images of stores

A statement knows of a store only what the store answers.  Where a map of states commutes with the
requests to two stores (`Datastore.Commutes`), it commutes with what is made of the requests: with
walks, with mutations in chunks and with every statement (`Statement.commutes_perform`).

A store that is watched answers as the store itself does.  So a statement has the same outcome on
both and leaves the same store, and what it asks of a watched store is what it asks of the store
(`Statement.runOn_perform_watched`).
-/

namespace DocStore

variable {α β σ τ υ : Type}

/-! ## Steps -/

/-- On the image of a state, the second step does what the first one does on the state. -/
def Action.Commutes (φ : τ → υ) (a : Action τ α) (b : Action υ α) : Prop :=
  ∀ t, b.runOn (φ t) = ((a.runOn t).1, φ (a.runOn t).2)

namespace Action.Commutes

variable {φ : τ → υ} {a : Action τ α} {b : Action υ α} {f : α → Action τ β} {g : α → Action υ β}

theorem pure (x : α) : Commutes φ (pure x) (pure x) := fun _ => rfl

theorem ofOutcome (r : Outcome α) : Commutes φ (ofOutcome r) (ofOutcome r) := fun _ => rfl

theorem bind (h : Commutes φ a b) (hrest : ∀ x, Commutes φ (f x) (g x)) :
    Commutes φ (a >>= f) (b >>= g) := by
  intro t
  rw [Action.runOn_bind, Action.runOn_bind, h t]
  cases a.runOn t with
  | mk outcome t' =>
    cases outcome with
    | ok x => exact hrest x t'
    | error e => rfl

theorem outcome_bind (r : Outcome α) (hrest : ∀ x, Commutes φ (f x) (g x)) :
    Commutes φ (Action.ofOutcome r >>= f) (Action.ofOutcome r >>= g) := (ofOutcome r).bind hrest

/-- What comes after the state is asked for may depend on the state. -/
theorem state_bind {f : τ → Action τ α} {g : υ → Action υ α}
    (h : ∀ t, Commutes φ (f t) (g (φ t))) :
    Commutes φ (state >>= f) (state >>= g) := by
  intro t
  rw [runOn_bind_of_ok (runOn_state _), runOn_bind_of_ok (runOn_state _)]
  exact h t t

theorem update {f : τ → τ} {g : υ → υ} (h : ∀ t, g (φ t) = φ (f t)) :
    Commutes φ (update f) (update g) := fun t => congrArg (Except.ok (), ·) (h t)

theorem attempt (h : Commutes φ a b) : Commutes φ a.attempt b.attempt := by
  intro t
  rw [runOn_attempt, runOn_attempt, h t]

theorem onPart {τ' υ' : Type} {ψ : τ' → υ'} {get : τ' → τ} {put : τ → τ' → τ'} {get' : υ' → υ}
    {put' : υ → υ' → υ'} (h : Commutes φ a b) (hget : ∀ t, get' (ψ t) = φ (get t))
    (hput : ∀ part t, put' (φ part) (ψ t) = ψ (put part t)) :
    Commutes ψ (onPart get put a) (onPart get' put' b) := by
  intro t
  rw [runOn_onPart, runOn_onPart, hget, h, hput]

theorem mapM {f : β → Action τ α} {g : β → Action υ α} (h : ∀ x, Commutes φ (f x) (g x))
    (items : List β) : Commutes φ (items.mapM f) (items.mapM g) := by
  induction items with
  | nil => exact pure []
  | cons x rest ih =>
      rw [List.mapM_cons, List.mapM_cons]
      exact (h x).bind fun y => ih.bind fun ys => pure (y :: ys)

end Action.Commutes

/-! ## Requests -/

/-- A map of states that commutes with the requests to two stores. -/
structure Datastore.Commutes (φ : σ → τ) (ds : Datastore σ) (ds' : Datastore τ) : Prop where
  get : ∀ key, Action.Commutes φ (ds.get key) (ds'.get key)
  query : ∀ q, Action.Commutes φ (ds.query q) (ds'.query q)
  collections : ∀ key, Action.Commutes φ (ds.collections key) (ds'.collections key)
  commit : ∀ writes, Action.Commutes φ (ds.commit writes) (ds'.commit writes)
  rounds : ∀ s, ds'.rounds (φ s) = ds.rounds s

variable {φ : σ → τ} {ds : Datastore σ} {ds' : Datastore τ}

namespace Client

/-- The client with the image of its store. -/
def map (φ : σ → τ) (c : Client σ) : Client τ := { c with store := φ c.store }

theorem commutes_onStore {a : Action σ α} {b : Action τ α} (h : Action.Commutes φ a b) :
    Action.Commutes (map φ) (onStore a) (onStore b) := h.onPart (fun _ => rfl) fun _ _ => rfl

theorem commutes_log (level : Log.Level) (logger message : String) :
    Action.Commutes (map φ) (log level logger message) (log level logger message) :=
  .update fun _ => rfl

theorem commutes_nextId : Action.Commutes (map φ) nextId nextId := fun _ => rfl

end Client

namespace RecursiveDelete

open Client (map)

theorem commutes_sumOver {f : α → Action (Client σ) Nat} {g : α → Action (Client τ) Nat}
    (h : ∀ x, Action.Commutes (map φ) (f x) (g x)) (items : List α) :
    Action.Commutes (map φ) (sumOver f items) (sumOver g items) := by
  induction items with
  | nil => exact .pure 0
  | cons x rest ih => exact (h x).bind fun _ => ih.bind fun _ => .pure _

theorem commutes_emptyCollection (h : ds.Commutes φ ds') (size : Nat)
    {f : DocumentKey → Action (Client σ) Nat} {g : DocumentKey → Action (Client τ) Nat}
    (htree : ∀ key, Action.Commutes (map φ) (f key) (g key)) (rounds : Nat)
    (collection : ResourcePath) :
    Action.Commutes (map φ) (emptyCollection ds size f rounds collection)
      (emptyCollection ds' size g rounds collection) := by
  induction rounds with
  | zero => exact .pure 0
  | succ rounds ih =>
      refine .outcome_bind _ fun q => (Client.commutes_onStore (h.query q)).bind fun documents => ?_
      split
      · exact .pure 0
      · exact (commutes_sumOver (fun s => htree s.key) documents).bind fun _ =>
          ih.bind fun _ => .pure _

theorem commutes_deleteAfter (h : ds.Commutes φ ds') {f : DocumentKey → Action (Client σ) Nat}
    {g : DocumentKey → Action (Client τ) Nat} (key : DocumentKey)
    (hbelow : Action.Commutes (map φ) (f key) (g key)) :
    Action.Commutes (map φ) (deleteAfter ds f key) (deleteAfter ds' g key) := by
  have hcommit := Client.commutes_onStore (h.commit [.delete key])
  refine hbelow.bind fun removed => ?_
  dsimp only
  split
  · exact (Client.commutes_log _ _ _).bind fun _ => hcommit.bind fun _ => .pure _
  · exact hcommit.bind fun _ => .pure _

theorem commutes_descendantsIn (h : ds.Commutes φ ds') (size rounds : Nat) (key : DocumentKey) :
    Action.Commutes (map φ) (descendantsIn ds size rounds key)
      (descendantsIn ds' size rounds key) := by
  induction rounds generalizing key with
  | zero => exact .pure 0
  | succ rounds ih =>
      refine (Client.commutes_onStore (h.collections key)).bind fun names => ?_
      refine commutes_sumOver (fun name => ?_) names
      exact commutes_emptyCollection h size (fun key => commutes_deleteAfter h key (ih key)) _ _

theorem commutes_descendants (h : ds.Commutes φ ds') (size : Nat) (key : DocumentKey) :
    Action.Commutes (map φ) (descendants ds size key) (descendants ds' size key) := by
  refine .state_bind fun c => ?_
  have hrounds : ds'.rounds (c.map φ).store = ds.rounds c.store := h.rounds c.store
  rw [hrounds]
  exact commutes_descendantsIn h size _ key

end RecursiveDelete

/-! ## Mutations -/

namespace Batcher

/-- The mutation with the image of its store. -/
def map (φ : σ → τ) (b : Batcher σ) : Batcher τ := { b with client := b.client.map φ }

theorem commutes_onClient {a : Action (Client σ) α} {b : Action (Client τ) α}
    (h : Action.Commutes (Client.map φ) a b) :
    Action.Commutes (map φ) (onClient a) (onClient b) := h.onPart (fun _ => rfl) fun _ _ => rfl

theorem commutes_enter (phase : Phase) :
    Action.Commutes (map φ) (enter phase) (enter phase) := by
  have hphase : Action.Commutes (map φ) (Action.update fun b => { b with phase })
      (Action.update fun b => { b with phase }) := .update fun _ => rfl
  exact hphase.bind fun _ => commutes_onClient (Client.commutes_log _ _ _)

theorem commutes_inChunk (position total : Nat) {a : Action (Client σ) α} {b : Action (Client τ) α}
    (h : Action.Commutes (Client.map φ) a b) :
    Action.Commutes (map φ) (inChunk position total a) (inChunk position total b) := by
  refine (commutes_onClient h.attempt).bind fun outcome => ?_
  cases outcome with
  | ok x => exact .pure x
  | error e =>
      exact (commutes_onClient (Client.commutes_log _ _ _)).bind fun _ => .ofOutcome (.error _)

theorem commutes_eachChunk (total : Nat) {f : Nat → List β → Action (Batcher σ) Unit}
    {g : Nat → List β → Action (Batcher τ) Unit}
    (h : ∀ position chunk, Action.Commutes (map φ) (f position chunk) (g position chunk))
    (position : Nat) (chunks : List (List β)) :
    Action.Commutes (map φ) (eachChunk total f position chunks)
      (eachChunk total g position chunks) := by
  induction chunks generalizing position with
  | nil => exact .pure ()
  | cons chunk rest ih =>
      exact (commutes_enter _).bind fun _ => (h position chunk).bind fun _ => ih (position + 1)

theorem commutes_commitChunks (h : ds.Commutes φ ds') (size : Nat) (writes : List Write) :
    Action.Commutes (map φ) (commitChunks ds size writes) (commitChunks ds' size writes) := by
  refine (commutes_enter _).bind fun _ => ?_
  have hstep := fun position (chunk : List Write) =>
    commutes_inChunk position (chunksOf size writes).length
      (Client.commutes_onStore (h.commit chunk))
  exact (commutes_eachChunk _ hstep 1 _).bind fun _ => commutes_enter .done

theorem commutes_createWrite (collection : ResourcePath) (record : Fields) :
    Action.Commutes (map φ) (createWrite collection record) (createWrite collection record) := by
  unfold createWrite
  rcases stripDocumentId record with ⟨data, id?⟩
  have hrest := fun id => Action.Commutes.outcome_bind (φ := map φ)
    (DocumentKey.ofPath (collection.child [id])) fun key =>
      Action.Commutes.outcome_bind (encodeCreate data) fun encoded =>
        Action.Commutes.pure (Write.create key encoded.fields encoded.increments)
  cases id? with
  | some v => exact .outcome_bind _ hrest
  | none => exact (commutes_onClient Client.commutes_nextId).bind hrest

theorem commutes_insert (h : ds.Commutes φ ds') (collection : ResourcePath)
    (records : List Fields) :
    Action.Commutes (map φ) (insert ds collection records) (insert ds' collection records) := by
  refine (commutes_enter _).bind fun _ => ?_
  cases collection.isCollection with
  | false => exact fun _ => rfl
  | true =>
  simp only [Bool.not_true, Bool.false_eq_true, if_false]
  split
  · exact (commutes_enter _).bind fun _ => .pure []
  · refine (commutes_enter _).bind fun _ => ?_
    refine (Action.Commutes.mapM (commutes_createWrite collection) records).bind fun writes => ?_
    exact (commutes_commitChunks h _ writes).bind fun _ => .pure _

theorem commutes_updateEncoded (h : ds.Commutes φ ds') (keys : List DocumentKey)
    (data : EncodedData) :
    Action.Commutes (map φ) (updateEncoded ds keys data) (updateEncoded ds' keys data) := by
  refine (commutes_enter _).bind fun _ => ?_
  split
  · exact (commutes_enter _).bind fun _ => .pure 0
  · exact (commutes_commitChunks h _ _).bind fun _ => .pure _

theorem commutes_delete (h : ds.Commutes φ ds') (size : Nat) (keys : List DocumentKey) :
    Action.Commutes (map φ) (delete ds size keys) (delete ds' size keys) := by
  refine (commutes_enter _).bind fun _ => ?_
  split
  · exact (commutes_enter _).bind fun _ => .pure 0
  · refine (commutes_enter _).bind fun _ => (commutes_enter _).bind fun _ => ?_
    have hchunk := fun (chunk : List DocumentKey) =>
      (Action.Commutes.mapM (RecursiveDelete.commutes_descendants h size) chunk).bind fun _ =>
        Client.commutes_onStore (h.commit (chunk.map .delete))
    have hstep := fun position (chunk : List DocumentKey) =>
      commutes_inChunk position (chunksOf deleteChunk keys).length (hchunk chunk)
    refine (commutes_eachChunk _ hstep 1 _).bind fun _ => ?_
    exact (commutes_enter _).bind fun _ => .pure _

end Batcher

theorem Client.commutes_mutate {a : Action (Batcher σ) α} {b : Action (Batcher τ) α}
    (h : Action.Commutes (Batcher.map φ) a b) :
    Action.Commutes (Client.map φ) (mutate a) (mutate b) := h.onPart (fun _ => rfl) fun _ _ => rfl

/-! ## Statements -/

namespace Session

/-- The session with the image of its store. -/
def map (φ : σ → τ) (s : Session σ) : Session τ := { s with client := s.client.map φ }

theorem note_map (statement : String) (pretended : Bool) (s : Session σ) :
    (s.map φ).note statement pretended = (s.note statement pretended).map φ := by
  have hlogging : (s.map φ).logging = s.logging := rfl
  rw [note, note, hlogging]
  split <;> rfl

theorem noteModified_map (modified : Bool) (s : Session σ) :
    (s.map φ).noteModified modified = (s.noteModified modified).map φ := by
  unfold noteModified
  split <;> rfl

theorem commutes_run (statement : String) (pretended : α) {a : Action (Client σ) α}
    {b : Action (Client τ) α} (h : Action.Commutes (Client.map φ) a b) :
    Action.Commutes (map φ) (run statement pretended a) (run statement pretended b) := by
  refine .state_bind fun s => ?_
  have hpretending : (s.map φ).pretending = s.pretending := rfl
  rw [hpretending]
  split
  · exact (Action.Commutes.update (note_map statement true)).bind fun _ => .pure pretended
  · have honClient : Action.Commutes (map φ) (onClient a) (onClient b) :=
      h.onPart (fun _ => rfl) fun _ _ => rfl
    refine honClient.attempt.bind fun outcome => ?_
    refine (Action.Commutes.update (note_map statement false)).bind fun _ => ?_
    cases outcome with
    | ok x => exact .pure x
    | error e => exact .ofOutcome (.error _)

/-- Noting at the end of a statement that it has written. -/
theorem commutes_noteModified (modified : Bool) (x : α) :
    Action.Commutes (map φ) (do Action.update (noteModified modified); return x)
      (do Action.update (noteModified modified); return x) :=
  (Action.Commutes.update (noteModified_map modified)).bind fun _ => .pure x

end Session

namespace Connection

open Session (map)

/-- The connection to another store. -/
def withStore (c : Connection σ) (ds' : Datastore τ) : Connection τ := { c with store := ds' }

variable {c : Connection σ}

theorem commutes_fetch (h : c.store.Commutes φ ds') (statement : String) (q : StoreQuery) :
    Action.Commutes (map φ) (c.fetch statement q) ((c.withStore ds').fetch statement q) :=
  Session.commutes_run statement [] (Client.commutes_onStore (h.query q))

theorem commutes_get (h : c.store.Commutes φ ds') (q : QueryState) :
    Action.Commutes (map φ) (c.get q) ((c.withStore ds').get q) :=
  .outcome_bind _ fun _ => .outcome_bind _ fun _ => commutes_fetch h _ _

theorem commutes_fetchFor (h : c.store.Commutes φ ds') (q : QueryState) (aggregate : Aggregate)
    (field : String) (columns : List String) :
    Action.Commutes (map φ) (c.fetchFor q aggregate field columns)
      ((c.withStore ds').fetchFor q aggregate field columns) :=
  .outcome_bind _ fun _ => .outcome_bind _ fun _ => commutes_fetch h _ _

theorem commutes_columnValues (h : c.store.Commutes φ ds') (q : QueryState) (aggregate : Aggregate)
    (field : String) :
    Action.Commutes (map φ) (c.columnValues q aggregate field)
      ((c.withStore ds').columnValues q aggregate field) :=
  .outcome_bind _ fun _ => (commutes_fetchFor h q aggregate field _).bind fun _ => .pure _

theorem commutes_matchingKeys (h : c.store.Commutes φ ds') (q : StoreQuery) :
    Action.Commutes (Client.map φ) (c.matchingKeys q) ((c.withStore ds').matchingKeys q) :=
  (Client.commutes_onStore (h.query q)).bind fun _ => .pure _

theorem commutes_update (h : c.store.Commutes φ ds') (q : QueryState) (data : Fields) :
    Action.Commutes (map φ) (c.update q data) ((c.withStore ds').update q data) := by
  refine .outcome_bind _ fun statement => .outcome_bind _ fun target =>
    .outcome_bind _ fun encoded => ?_
  refine Action.Commutes.bind (Session.commutes_run statement 0 ?_) fun count =>
    Session.commutes_noteModified _ count
  cases encoded with
  | none => exact .pure 0
  | some encoded =>
      exact (commutes_matchingKeys h target).bind fun keys =>
        Client.commutes_mutate (Batcher.commutes_updateEncoded h keys encoded)

theorem commutes_delete (h : c.store.Commutes φ ds') (q : QueryState) :
    Action.Commutes (map φ) (c.delete q) ((c.withStore ds').delete q) := by
  refine .outcome_bind _ fun statement => .outcome_bind _ fun target => ?_
  refine Action.Commutes.bind (Session.commutes_run statement 0 ?_) fun count =>
    Session.commutes_noteModified _ count
  exact (commutes_matchingKeys h target).bind fun keys =>
    Client.commutes_mutate (Batcher.commutes_delete h _ keys)

theorem commutes_insert (h : c.store.Commutes φ ds') (q : QueryState) (records : List Fields) :
    Action.Commutes (map φ) (c.insert q records) ((c.withStore ds').insert q records) := by
  unfold Connection.insert
  split
  · exact .pure true
  · refine .outcome_bind _ fun collection => Action.Commutes.bind ?_ fun _ =>
      Session.commutes_noteModified true true
    exact Session.commutes_run _ [] (Client.commutes_mutate (Batcher.commutes_insert h _ records))

theorem commutes_insertGetId (h : c.store.Commutes φ ds') (q : QueryState) (record : Fields)
    (sequence : Option String) :
    Action.Commutes (map φ) (c.insertGetId q record sequence)
      ((c.withStore ds').insertGetId q record sequence) := by
  rw [Statement.insertGetId_eq, Statement.insertGetId_eq]
  refine .outcome_bind _ fun collection => Action.Commutes.bind ?_ fun id => ?_
  · unfold Statement.findId
    cases (stripDocumentId record).2 with
    | some v => exact .ofOutcome _
    | none => exact Client.commutes_nextId.onPart (fun _ => rfl) fun _ _ => rfl
  · refine .outcome_bind _ fun data => .outcome_bind _ fun key => ?_
    refine Action.Commutes.bind ?_ fun _ => Session.commutes_noteModified true key
    exact Session.commutes_run _ [] (Client.commutes_mutate (Batcher.commutes_insert h _ _))

end Connection

namespace Statement

theorem commutes_only {a : Action (Session σ) α} {b : Action (Session τ) α}
    (h : Action.Commutes (Session.map φ) a b) :
    Action.Commutes (Session.map φ) (only a) (only b) := h.bind fun _ => .pure ()

/-- **Statements on images.**  A map that commutes with the requests to two stores commutes with
every statement on them. -/
theorem commutes_perform {c : Connection σ} (h : c.store.Commutes φ ds') (q : QueryState)
    (st : Statement) :
    Action.Commutes (Session.map φ) (st.perform c q) (st.perform (c.withStore ds') q) := by
  cases st with
  | get => exact commutes_only (Connection.commutes_get h q)
  | first | exists? => exact commutes_only ((Connection.commutes_get h _).bind fun _ => .pure _)
  | count =>
      exact commutes_only ((Connection.commutes_fetchFor h q .count "*" []).bind fun _ => .pure _)
  | min field | max field | sum field | mean field =>
      exact commutes_only ((Connection.commutes_columnValues h q _ field).bind fun _ => .pure _)
  | insert records => exact commutes_only (Connection.commutes_insert h q records)
  | insertGetId record sequence =>
      exact commutes_only (Connection.commutes_insertGetId h q record sequence)
  | update data => exact commutes_only (Connection.commutes_update h q data)
  | increment field amount extra | decrement field amount extra =>
      exact commutes_only (.outcome_bind _ fun _ => .outcome_bind _ fun data =>
        Connection.commutes_update h q data)
  | delete | deleteById id => exact commutes_only (Connection.commutes_delete h _)

end Statement

/-- Watching leaves a request as it is. -/
theorem Datastore.commutes_watched (ds : Datastore σ) :
    ds.watched.Commutes Watched.store ds where
  get _ := fun _ => rfl
  query _ := fun _ => rfl
  collections _ := fun _ => rfl
  commit _ := fun _ => rfl
  rounds _ := rfl

/-- **Watched stores.**  A statement does on a watched store what it does on the store. -/
theorem Statement.runOn_perform_watched (c : Connection σ) (q : QueryState) (st : Statement)
    (s : Session (Watched σ)) :
    (st.perform c q).runOn (s.map Watched.store)
      = (((st.perform c.watched q).runOn s).1,
          ((st.perform c.watched q).runOn s).2.map Watched.store) := by
  have hstore : c.watched.withStore c.store = c := rfl
  have hcommutes := commutes_perform (c := c.watched) c.store.commutes_watched q st
  rw [hstore] at hcommutes
  exact hcommutes s

end DocStore
