import DocStore.Proofs.Session.Failure
import DocStore.Proofs.Session.Model

/-!
# Statements and saves as tasks

A statement first checks what it was given.  Then it hands one task to the store, together with its
text, unless there is nothing to do (`Statement.act_eq`).  The save of a model is the statement that
it comes to, between its hooks and what it makes of the answer (`Deed.act_eq`).

All that happens before the task is idle: the store is not asked, and what the connection remembers
stays as it is (`Deed.isIdle_prepare`).  So whatever is to be shown about a deed has to be shown
about the four kinds of tasks.
-/

namespace DocStore

variable {σ α β : Type}

/-- A chain of outcomes as a step. -/
theorem Action.ofOutcome_bind (r : Outcome α) (f : α → Outcome β) :
    (ofOutcome (r >>= f) : Action σ β) = ofOutcome r >>= fun x => ofOutcome (f x) := by
  cases r <;> rfl

/-! ## Idle steps -/

namespace Session

/-- Nothing has happened but that time has passed and ids have been drawn: the store has not been
asked, and the connection remembers what it did. -/
structure Idle (s s' : Session σ) : Prop where
  store_eq : s'.client.store = s.client.store
  logging_eq : s'.logging = s.logging
  pretending_eq : s'.pretending = s.pretending
  modified_eq : s'.modified = s.modified
  log_eq : s'.log = s.log

theorem Idle.refl (s : Session σ) : Idle s s := ⟨rfl, rfl, rfl, rfl, rfl⟩

theorem Idle.trans {s t u : Session σ} (h : Idle s t) (hmore : Idle t u) : Idle s u where
  store_eq := hmore.store_eq.trans h.store_eq
  logging_eq := hmore.logging_eq.trans h.logging_eq
  pretending_eq := hmore.pretending_eq.trans h.pretending_eq
  modified_eq := hmore.modified_eq.trans h.modified_eq
  log_eq := hmore.log_eq.trans h.log_eq

/-- A step that is idle from wherever it starts. -/
def IsIdle (a : Action (Session σ) α) : Prop := ∀ s, Idle s (a.runOn s).2

namespace IsIdle

theorem pure (x : α) : IsIdle (σ := σ) (pure x) := Idle.refl

theorem ofOutcome (r : Outcome α) : IsIdle (σ := σ) (Action.ofOutcome r) := Idle.refl

theorem bind {a : Action (Session σ) α} {f : α → Action (Session σ) β} (ha : IsIdle a)
    (hf : ∀ x, IsIdle (f x)) : IsIdle (a >>= f) := by
  intro s
  have hfirst := ha s
  cases hrun : a.runOn s with
  | mk outcome t =>
    rw [hrun] at hfirst
    cases outcome with
    | error e =>
        rw [Action.runOn_bind_of_error hrun]
        exact hfirst
    | ok x =>
        rw [Action.runOn_bind_of_ok hrun]
        exact hfirst.trans (hf x t)

/-- A step of the client that does not ask the store. -/
theorem onClient {a : Action (Client σ) α}
    (h : ∀ client, (a.runOn client).2.store = client.store) : IsIdle (Session.onClient a) :=
  fun s => ⟨h s.client, rfl, rfl, rfl, rfl⟩

end IsIdle

end Session

/-! ## Notes -/

namespace Session

theorem note_client (statement : String) (pretended : Bool) (s : Session σ) :
    (s.note statement pretended).client = s.client := by
  unfold note
  split <;> rfl

theorem note_modified (statement : String) (pretended : Bool) (s : Session σ) :
    (s.note statement pretended).modified = s.modified := by
  unfold note
  split <;> rfl

theorem noteModified_modified (s : Session σ) (modified : Bool) :
    (s.noteModified modified).modified = (s.modified || modified) := by
  cases modified <;> simp [noteModified]

end Session

/-! ## Tasks -/

/-- What a statement that has been checked hands to the store. -/
inductive Task
  | read (target : StoreQuery)
  | insert (collection : ResourcePath) (record : Fields) (more : List Fields)
  | update (target : StoreQuery) (data? : Option EncodedData)
  | delete (target : StoreQuery)

namespace Task

/-- What a task is answered with. -/
def Answer : Task → Type
  | read _ => List Snapshot
  | insert _ _ _ => List DocumentKey
  | update _ _ | delete _ => Nat

/-- The answer while the connection pretends. -/
def pretended : (t : Task) → t.Answer
  | read _ => ([] : List Snapshot)
  | insert _ _ _ => ([] : List DocumentKey)
  | update _ _ | delete _ => (0 : Nat)

/-- An answer with which the connection remembers that the store has changed. -/
def changes : (t : Task) → t.Answer → Bool
  | read _, _ => false
  | insert _ _ _, _ => true
  | update _ _, (count : Nat) | delete _, (count : Nat) => 0 < count

/-- The request to the store. -/
def operation (c : Connection σ) : (t : Task) → Action (Client σ) t.Answer
  | read target => Client.onStore (c.store.query target)
  | insert collection record more =>
    Client.mutate (Batcher.insert c.store collection (record :: more))
  | update _ none => (pure 0 : Action (Client σ) Nat)
  | update target (some data) => do
    let keys ← c.matchingKeys target
    (Client.mutate (Batcher.updateEncoded c.store keys data) : Action (Client σ) Nat)
  | delete target => do
    let keys ← c.matchingKeys target
    (Client.mutate (Batcher.delete c.store c.pageSize keys) : Action (Client σ) Nat)

/-- Runs a task under the text of its statement. -/
def carryOut (c : Connection σ) (text : String) (t : Task) : Action (Session σ) t.Answer := do
  let answer ← Session.run text t.pretended (t.operation c)
  Action.update (Session.noteModified (t.changes answer))
  return answer

section Runs

variable {c : Connection σ} {text : String} {t : Task} {s : Session σ}

/-- While the connection pretends, a task is only noted, and its answer taken for granted. -/
theorem runOn_carryOut_of_pretending (h : s.pretending = true) :
    (t.carryOut c text).runOn s
      = (.ok t.pretended, (s.note text true).noteModified (t.changes t.pretended)) := by
  have hrun : (Session.run text t.pretended (t.operation c)).runOn s
      = (.ok t.pretended, s.note text true) := by
    rw [Session.run, Action.runOn_bind_of_ok (Action.runOn_state s), if_pos h]
    rfl
  exact Action.runOn_bind_of_ok hrun

/-- A task that is answered is noted, and so is a change if the answer tells of one. -/
theorem runOn_carryOut_of_answered (h : s.pretending = false) {answer : t.Answer}
    {client : Client σ} (hoperation : (t.operation c).runOn s.client = (.ok answer, client)) :
    (t.carryOut c text).runOn s
      = (.ok answer,
          (Session.note text false { s with client }).noteModified (t.changes answer)) :=
  Action.runOn_bind_of_ok (Session.runOn_run_eq text t.pretended h hoperation)

/-- A task that fails is noted as well. -/
theorem runOn_carryOut_of_failed (h : s.pretending = false) {e : Error} {client : Client σ}
    (hoperation : (t.operation c).runOn s.client = (.error e, client)) :
    (t.carryOut c text).runOn s
      = (.error (e.toTransportFailure.withQuery text),
          Session.note text false { s with client }) :=
  Action.runOn_bind_of_error (Session.runOn_run_eq text t.pretended h hoperation)

end Runs

/-- A query changes nothing that a connection remembers. -/
theorem carryOut_read (c : Connection σ) (text : String) (target : StoreQuery) :
    (read target).carryOut c text = c.fetch text target := by
  have hnone : (Action.update (Session.noteModified false) : Action (Session σ) Unit) = pure () :=
    rfl
  have hfetch : (read target).carryOut c text = (do
      let documents ← c.fetch text target
      Action.update (Session.noteModified false)
      return documents : Action (Session σ) (List Snapshot)) := rfl
  rw [hfetch, hnone]
  simp only [pure_bind]
  exact bind_pure _

end Task

/-- What a statement comes to after its checks: an outcome, or a task with its text and what the
statement makes of its answer. -/
inductive Prepared (α : Type)
  | done (outcome : Outcome α)
  | task (text : String) (t : Task) (give : Outcome t.Answer → Outcome α)

namespace Prepared

/-- Makes something of the outcome. -/
def map (f : Outcome α → Outcome β) : Prepared α → Prepared β
  | done outcome => done (f outcome)
  | task text t give => task text t fun answer => f (give answer)

/-- A task whose answer is turned into the result. -/
def of (text : String) (t : Task) (f : t.Answer → α) : Prepared α := task text t (Except.map f)

/-- Runs the task. -/
def finish (c : Connection σ) : Prepared α → Action (Session σ) α
  | done outcome => Action.ofOutcome outcome
  | task text t give => do Action.ofOutcome (give (← (t.carryOut c text).attempt))

/-- The task, with the text of its statement. -/
def task? : Prepared α → Option (String × Task)
  | done _ => none
  | task text t _ => some (text, t)

/-- A failure to prepare is an outcome. -/
def settle (a : Action (Session σ) (Prepared α)) : Action (Session σ) (Prepared α) :=
  Action.ofFn fun s =>
    match a.runOn s with
    | (.ok p, s) => (.ok p, s)
    | (.error e, s) => (.ok (done (.error e)), s)

variable {c : Connection σ} {text : String} {t : Task}

/-- The outcome is made something of. -/
theorem runOn_finish_map (f : Outcome α → Outcome β) (p : Prepared α) (s : Session σ) :
    ((p.map f).finish c).runOn s = (f ((p.finish c).runOn s).1, ((p.finish c).runOn s).2) := by
  cases p <;> rfl

/-- The result is made something of. -/
theorem finish_map (f : α → Outcome β) (p : Prepared α) :
    (p.map (· >>= f)).finish c = (do Action.ofOutcome (f (← p.finish c))) := by
  refine funext fun s => ?_
  refine (runOn_finish_map _ p s).trans (Eq.trans ?_ (Action.runOn_bind _ _ _).symm)
  cases (p.finish c).runOn s with
  | mk outcome s' => cases outcome <;> rfl

/-- Whatever the outcome, it is made something of. -/
theorem runOn_settle_map (a : Action (Session σ) (Prepared α)) (f : Outcome α → Outcome β)
    (s : Session σ) :
    (settle a >>= fun p => (p.map f).finish c).runOn s
      = (f ((a >>= finish c).runOn s).1, ((a >>= finish c).runOn s).2) := by
  rw [Action.runOn_bind, Action.runOn_bind]
  have hsettle : (settle a).runOn s = match a.runOn s with
      | (.ok p, s) => (.ok p, s)
      | (.error e, s) => (.ok (done (.error e)), s) := rfl
  rw [hsettle]
  cases a.runOn s with
  | mk outcome s' =>
    cases outcome with
    | error e => rfl
    | ok p => exact runOn_finish_map f p s'

/-- The answer is turned into the result. -/
theorem finish_of (c : Connection σ) (text : String) (t : Task) (f : t.Answer → α) :
    (of text t f).finish c = (do return f (← t.carryOut c text)) := by
  refine funext fun s => ?_
  have hrun : ((of text t f).finish c).runOn s
      = (((t.carryOut c text).runOn s).1.map f, ((t.carryOut c text).runOn s).2) := rfl
  have hbind := Action.runOn_bind (t.carryOut c text) (fun answer => pure (f answer)) s
  refine hrun.trans (Eq.trans ?_ hbind.symm)
  cases (t.carryOut c text).runOn s with
  | mk outcome s' => cases outcome <;> rfl

end Prepared

/-! ## Statements -/

namespace Statement

/-- What a statement gives. -/
def Result : Statement → Type
  | get => List Snapshot
  | first => Option Snapshot
  | exists? | insert _ => Bool
  | count | update _ | increment _ _ _ | decrement _ _ _ | delete | deleteById _ => Nat
  | min _ | max _ => Option Value
  | sum _ => Value
  | mean _ => Option Double
  | insertGetId _ _ => DocumentKey

/-- Runs a statement. -/
def act (c : Connection σ) (q : QueryState) : (st : Statement) → Action (Session σ) st.Result
  | get => c.get q
  | first => c.first q
  | exists? => c.exists? q
  | count => c.count q
  | min field => c.min q field
  | max field => c.max q field
  | sum field => c.sum q field
  | mean field => c.mean q field
  | insert records => c.insert q records
  | insertGetId record sequence => c.insertGetId q record sequence
  | update data => c.update q data
  | increment field amount extra => c.increment q field amount extra
  | decrement field amount extra => c.decrement q field amount extra
  | delete => c.delete q
  | deleteById id => c.deleteById q id

/-- A statement that runs one query. -/
def prepareReading (text : Outcome String) (target : Outcome StoreQuery) (f : List Snapshot → α) :
    Outcome (Prepared α) := do
  return .of (← text) (.read (← target)) f

/-- A statement that reduces the values of a field. -/
def prepareReduction (q : QueryState) (aggregate : Aggregate) (field : String)
    (f : List Value → α) : Outcome (Prepared α) := do
  let path ← FieldPath.ofText field
  prepareReading (q.reductionStatement aggregate.name field) (q.select [field]).toStoreQuery
    fun documents => f (Aggregate.fieldValues documents path)

/-- A statement that merges data into documents. -/
def prepareUpdate (q : QueryState) (data : Fields) : Outcome (Prepared Nat) := do
  return .of (← q.updateStatement data) (.update (← q.identityQuery) (← encodeUpdate data)) id

/-- A statement that merges data with a number that has to be checked. -/
def prepareCounting (q : QueryState) (method : String) (amount : Value)
    (data : Value → Outcome Fields) : Outcome (Prepared Nat) := do
  let amount ← amount.checkAmount method
  prepareUpdate q (← data amount)

/-- A statement that deletes documents. -/
def prepareDelete (q : QueryState) : Outcome (Prepared Nat) := do
  return .of (← q.deleteStatement) (.delete (← q.identityQuery)) id

/-- An insertion under one id. -/
def prepareInsertGetId (q : QueryState) (record : Fields) (sequence : Option String) :
    Action (Session σ) (Prepared DocumentKey) := do
  let collection ← Action.ofOutcome q.insertTarget
  let id ← findId (stripDocumentId record).2
  let data ← Action.ofOutcome (sequenced sequence id (stripDocumentId record).1)
  let key ← Action.ofOutcome (DocumentKey.ofPath (collection.child [id]))
  let data := Fields.set data .documentId (.string id)
  return .of (insertStatement collection.text [data]) (.insert collection data []) fun _ => key

/-- The checks of a statement. -/
def prepare (q : QueryState) : (st : Statement) → Action (Session σ) (Prepared st.Result)
  | get => Action.ofOutcome (prepareReading q.statement q.toStoreQuery id)
  | first =>
    let q := { q with limit := some 1 }
    Action.ofOutcome (prepareReading q.statement q.toStoreQuery List.head?)
  | exists? =>
    let q := { q.select [] with limit := some 1 }
    Action.ofOutcome
      (prepareReading q.statement q.toStoreQuery fun documents => !documents.isEmpty)
  | count =>
    Action.ofOutcome (prepareReading (q.reductionStatement Aggregate.count.name "*")
      (q.select []).toStoreQuery List.length)
  | min field => Action.ofOutcome (prepareReduction q .min field Value.smallest?)
  | max field => Action.ofOutcome (prepareReduction q .max field Value.largest?)
  | sum field => Action.ofOutcome (prepareReduction q .sum field Aggregate.total)
  | mean field => Action.ofOutcome (prepareReduction q .avg field Aggregate.mean?)
  | insert [] => (pure (.done (.ok true)) : Action (Session σ) (Prepared Bool))
  | insert (record :: more) => Action.ofOutcome (do
    let collection ← q.insertTarget
    return .of (insertStatement collection.text (record :: more))
      (.insert collection record more) fun _ => true : Outcome (Prepared Bool))
  | insertGetId record sequence => prepareInsertGetId q record sequence
  | update data => Action.ofOutcome (prepareUpdate q data)
  | increment field amount extra =>
    Action.ofOutcome (prepareCounting q "increment" amount fun amount =>
      Connection.incrementData field amount extra)
  | decrement field amount extra =>
    Action.ofOutcome (prepareCounting q "decrement" amount fun amount =>
      Connection.incrementData field amount.opposite extra)
  | delete => Action.ofOutcome (prepareDelete q)
  | deleteById id => Action.ofOutcome (prepareDelete (q.addWhere "id" "=" id))

variable {c : Connection σ} {q : QueryState}

theorem act_reading (text : Outcome String) (target : Outcome StoreQuery)
    (f : List Snapshot → α) :
    (do
        let statement ← Action.ofOutcome text
        let documents ← c.fetch statement (← Action.ofOutcome target)
        return f documents : Action (Session σ) α)
      = Action.ofOutcome (prepareReading text target f) >>= Prepared.finish c := by
  cases text with
  | error e => rfl
  | ok text =>
  cases target with
  | error e => rfl
  | ok target =>
      have hfinish := Prepared.finish_of c text (.read target) f
      rw [Task.carryOut_read] at hfinish
      exact hfinish.symm

theorem act_get (f : List Snapshot → α) :
    (do return f (← c.get q) : Action (Session σ) α)
      = Action.ofOutcome (prepareReading q.statement q.toStoreQuery f) >>= Prepared.finish c := by
  rw [← act_reading, Connection.get]
  simp only [bind_assoc]

theorem act_count :
    c.count q = Action.ofOutcome (prepareReading (q.reductionStatement Aggregate.count.name "*")
      (q.select []).toStoreQuery List.length) >>= Prepared.finish c := by
  rw [← act_reading, Connection.count, Connection.fetchFor]
  simp only [bind_assoc]

theorem act_reduction (aggregate : Aggregate) (field : String) (f : List Value → α) :
    (do return f (← c.columnValues q aggregate field) : Action (Session σ) α)
      = Action.ofOutcome (prepareReduction q aggregate field f) >>= Prepared.finish c := by
  unfold prepareReduction Connection.columnValues Connection.fetchFor
  cases FieldPath.ofText field with
  | error e => rfl
  | ok path =>
      rw [Outcome.ok_bind, ← act_reading]
      simp only [bind_assoc, pure_bind]
      rfl

theorem act_update (data : Fields) :
    c.update q data = Action.ofOutcome (prepareUpdate q data) >>= Prepared.finish c := by
  unfold Connection.update prepareUpdate
  cases q.updateStatement data with
  | error e => rfl
  | ok text =>
  cases q.identityQuery with
  | error e => rfl
  | ok target =>
  cases encodeUpdate data with
  | error e => rfl
  | ok data? =>
      have hfinish := Prepared.finish_of c text (.update target data?) id
      cases data? <;> exact (bind_pure _).symm.trans hfinish.symm

theorem act_delete (q : QueryState) :
    c.delete q = Action.ofOutcome (prepareDelete q) >>= Prepared.finish c := by
  unfold Connection.delete prepareDelete
  cases q.deleteStatement with
  | error e => rfl
  | ok text =>
  cases q.identityQuery with
  | error e => rfl
  | ok target =>
      have hfinish := Prepared.finish_of c text (.delete target) id
      exact (bind_pure _).symm.trans hfinish.symm

theorem act_insert (records : List Fields) :
    c.insert q records = (insert records).prepare q >>= Prepared.finish c := by
  cases records with
  | nil => rfl
  | cons record rest =>
  unfold prepare Connection.insert
  cases q.insertTarget with
  | error e => rfl
  | ok collection =>
      refine Eq.trans ?_ (Prepared.finish_of _ _ _ _).symm
      simp only [Task.carryOut, bind_assoc, pure_bind]
      rfl

theorem act_insertGetId (record : Fields) (sequence : Option String) :
    c.insertGetId q record sequence
      = prepareInsertGetId q record sequence >>= Prepared.finish c := by
  rw [insertGetId_eq, prepareInsertGetId]
  simp only [bind_assoc, pure_bind, Prepared.finish_of, Task.carryOut]
  rfl

theorem act_counting (method : String) (amount : Value) (data : Value → Outcome Fields) :
    (do
        let amount ← Action.ofOutcome (amount.checkAmount method)
        c.update q (← Action.ofOutcome (data amount)))
      = Action.ofOutcome (prepareCounting q method amount data) >>= Prepared.finish c := by
  rw [prepareCounting, Action.ofOutcome_bind, bind_assoc]
  simp only [act_update, Action.ofOutcome_bind, bind_assoc]

theorem isIdle_findId (id? : Option Value) : Session.IsIdle (σ := σ) (findId id?) := by
  cases id? with
  | some v => exact .ofOutcome _
  | none => exact .onClient fun _ => rfl

theorem isIdle_prepareInsertGetId (record : Fields) (sequence : Option String) :
    Session.IsIdle (σ := σ) (prepareInsertGetId q record sequence) :=
  (Session.IsIdle.ofOutcome _).bind fun _ => (isIdle_findId _).bind fun _ =>
    (Session.IsIdle.ofOutcome _).bind fun _ => (Session.IsIdle.ofOutcome _).bind fun _ => .pure _

/-- The checks of a statement are idle. -/
theorem isIdle_prepare (q : QueryState) (st : Statement) :
    Session.IsIdle (σ := σ) (st.prepare q) := by
  cases st with
  | insert records =>
      cases records with
      | nil => exact .pure _
      | cons record rest => exact .ofOutcome _
  | insertGetId record sequence => exact isIdle_prepareInsertGetId record sequence
  | _ => exact .ofOutcome _

/-- **Statements.**  A statement is checked, and then it is at most one task. -/
theorem act_eq (c : Connection σ) (q : QueryState) (st : Statement) :
    st.act c q = st.prepare q >>= Prepared.finish c := by
  cases st with
  | get => exact (bind_pure _).symm.trans (act_get id)
  | first => exact act_get List.head?
  | exists? => exact act_get _
  | count => exact act_count
  | min field | max field | sum field | mean field => exact act_reduction _ _ _
  | insert records => exact act_insert records
  | insertGetId record sequence => exact act_insertGetId record sequence
  | update data => exact act_update data
  | increment field amount extra | decrement field amount extra => exact act_counting _ amount _
  | delete => exact act_delete q
  | deleteById id => exact act_delete _

end Statement

/-! ## Deeds -/

/-- The hooks of a model ask for the time alone. -/
theorem Hooks.runOn_run (hooks : List Hook) (m : Model) (client : Client σ) :
    ∃ m' client', (Hooks.run hooks m).runOn client = (.ok m', client') ∧
      client'.store = client.store := by
  induction hooks generalizing m client with
  | nil => exact ⟨m, client, rfl, rfl⟩
  | cons h rest ih =>
      obtain ⟨now, client₁, hnow, hstore⟩ : ∃ now client₁,
          (Client.now : Action (Client σ) Timestamp).runOn client = (.ok now, client₁) ∧
            client₁.store = client.store := ⟨_, _, rfl, rfl⟩
      obtain ⟨m', client', hrun, hstore'⟩ := ih (h now m) client₁
      exact ⟨m', client', (Action.runOn_bind_of_ok hnow).trans hrun, hstore'.trans hstore⟩

theorem ModelSession.runOn_runHooks {hooks : List Hook} {m m' : Model} {s : Session σ}
    {client : Client σ} (h : (Hooks.run hooks m).runOn s.client = (.ok m', client)) :
    (runHooks hooks).runOn ⟨s, m⟩ = (.ok (), ⟨{ s with client }, m'⟩) := by
  rw [runHooks, Action.runOn_bind_of_ok (runOn_current _),
    Action.runOn_bind_of_ok (runOn_onSession (Session.runOn_onClient h))]
  rfl

/-- A statement, or the save of a model. -/
inductive Deed
  | statement (q : QueryState) (st : Statement)
  | save (r : Repository) (m : Model)

namespace Deed

/-- What a deed gives.  The save of a model gives the model, too. -/
def Answer : Deed → Type
  | statement _ st => st.Result
  | save _ _ => Outcome Bool × Model

/-- Does a deed. -/
def act (c : Connection σ) : (d : Deed) → Action (Session σ) d.Answer
  | statement q st => st.act c q
  | save r m => Action.ofFn fun s =>
    let (outcome, s) := (c.saveModel r).runOn ⟨s, m⟩
    ((.ok (outcome, s.model) : Outcome (Outcome Bool × Model)), s.session)

/-- The insertion of a model. -/
def prepareCreate (m : Model) : Action (Session σ) (Prepared (Bool × Model)) := do
  let record :=
    match m.id with
    | some id => Fields.set m.attributes .documentId (.string id)
    | none => m.attributes
  let insertion ←
    Statement.prepareInsertGetId (Connection.modelQuery m) record (some m.keyName)
  return insertion.map fun outcome => do
    let key ← outcome
    let path ← FieldPath.ofText m.keyName
    let attributes := Fields.set m.attributes path (.string key.id)
    return (true, { m with attributes }.persisted key.id)

/-- The update of a model. -/
def prepareChange (loose : Bool) (m : Model) : Action (Session σ) (Prepared (Bool × Model)) := do
  let id ← Action.ofOutcome m.persistedId
  let update ← Action.ofOutcome (Statement.prepareUpdate ((Connection.modelQuery m).whereKey id)
    (Diff.between loose m.stored m.attributes))
  return update.map fun outcome => do
    let count ← outcome
    return (0 < count, m.persisted id)

/-- The statement to which a model comes after its hooks.  If it fails, the model stays. -/
def prepareSave (hooks : List Hook) (m : Model)
    (statement : Model → Action (Session σ) (Prepared (Bool × Model))) :
    Action (Session σ) (Prepared (Outcome Bool × Model)) := do
  let m ← Session.onClient (Hooks.run hooks m)
  let prepared ← Prepared.settle (statement m)
  return prepared.map fun
    | .ok (written, m) => .ok (.ok written, m)
    | .error e => .ok (.error e, m)

/-- The checks of a deed. -/
def prepare : (d : Deed) → Action (Session σ) (Prepared d.Answer)
  | statement q st => st.prepare q
  | save r m =>
    if m.saved then
      if !Diff.isDirty r.loose m.stored m.attributes then
        return (.done (.ok (.ok false, m)) : Prepared (Outcome Bool × Model))
      else prepareSave r.hooks.beforeUpdate m (prepareChange r.loose)
    else prepareSave r.hooks.beforeCreate m prepareCreate

variable {c : Connection σ}

theorem prepareCreate_finish (m : Model) :
    prepareCreate m >>= Prepared.finish c = (do
      let key ← c.insertGetId (Connection.modelQuery m)
        (match m.id with
          | some id => Fields.set m.attributes .documentId (.string id)
          | none => m.attributes)
        (some m.keyName)
      Action.ofOutcome (do
        let path ← FieldPath.ofText m.keyName
        let attributes := Fields.set m.attributes path (.string key.id)
        return (true, { m with attributes }.persisted key.id))) := by
  rw [Statement.act_insertGetId, prepareCreate]
  simp only [bind_assoc, pure_bind]
  simp only [Prepared.finish_map]

theorem prepareChange_finish (loose : Bool) (m : Model) :
    prepareChange loose m >>= Prepared.finish c = (do
      let id ← Action.ofOutcome m.persistedId
      let count ← c.update ((Connection.modelQuery m).whereKey id)
        (Diff.between loose m.stored m.attributes)
      return (decide (0 < count), m.persisted id)) := by
  rw [prepareChange]
  simp only [bind_assoc, pure_bind, Statement.act_update]
  simp only [Prepared.finish_map]
  rfl

/-- What becomes of a model by the statement to which it comes. -/
def answered (m : Model) : Outcome (Bool × Model) × Session σ → Outcome Bool × ModelSession σ
  | (.ok (written, m), s) => (.ok written, ⟨s, m⟩)
  | (.error e, s) => (.error e, ⟨s, m⟩)

section Hooked

variable {r : Repository} {m m' : Model} {s : Session σ} {client : Client σ}

theorem runOn_createModel
    (h : (Hooks.run r.hooks.beforeCreate m).runOn s.client = (.ok m', client)) :
    (c.createModel r).runOn ⟨s, m⟩
      = answered m' ((prepareCreate m' >>= Prepared.finish c).runOn { s with client }) := by
  rw [prepareCreate_finish, Connection.createModel,
    Action.runOn_bind_of_ok (ModelSession.runOn_runHooks h),
    Action.runOn_bind_of_ok (ModelSession.runOn_current _)]
  dsimp only
  rw [Action.runOn_bind, Action.runOn_bind, ModelSession.onSession, Action.runOn_onPart]
  generalize (c.insertGetId (Connection.modelQuery m') _ (some m'.keyName)).runOn _ = result
  obtain ⟨outcome, t⟩ := result
  cases outcome with
  | error e => rfl
  | ok key => cases FieldPath.ofText m'.keyName <;> rfl

theorem runOn_updateModel
    (hdirty : Diff.isDirty r.loose m.stored m.attributes = true)
    (h : (Hooks.run r.hooks.beforeUpdate m).runOn s.client = (.ok m', client)) :
    (c.updateModel r).runOn ⟨s, m⟩
      = answered m' ((prepareChange r.loose m' >>= Prepared.finish c).runOn { s with client }) := by
  rw [prepareChange_finish, Connection.updateModel,
    Action.runOn_bind_of_ok (ModelSession.runOn_current _)]
  dsimp only
  rw [hdirty, Bool.not_true, if_neg Bool.false_ne_true,
    Action.runOn_bind_of_ok (ModelSession.runOn_runHooks h),
    Action.runOn_bind_of_ok (ModelSession.runOn_current _)]
  dsimp only
  cases m'.persistedId with
  | error e => rfl
  | ok id =>
  rw [Action.runOn_bind_of_ok (Action.runOn_ofOutcome _ _),
    Action.runOn_bind_of_ok (Action.runOn_ofOutcome _ _), Action.runOn_bind, Action.runOn_bind,
    ModelSession.onSession, Action.runOn_onPart]
  dsimp only
  generalize (c.update ((Connection.modelQuery m').whereKey id) _).runOn _ = result
  obtain ⟨outcome, t⟩ := result
  cases outcome <;> rfl

theorem runOn_prepareSave {hooks : List Hook}
    (h : (Hooks.run hooks m).runOn s.client = (.ok m', client))
    (statement : Model → Action (Session σ) (Prepared (Bool × Model))) :
    (prepareSave hooks m statement >>= Prepared.finish c).runOn s
      = let (outcome, after) :=
          answered m' ((statement m' >>= Prepared.finish c).runOn { s with client })
        (.ok (outcome, after.model), after.session) := by
  rw [prepareSave, bind_assoc, Action.runOn_bind_of_ok (Session.runOn_onClient h)]
  simp only [bind_assoc, pure_bind]
  rw [Prepared.runOn_settle_map]
  cases ((statement m' >>= Prepared.finish c).runOn { s with client }) with
  | mk outcome t => cases outcome <;> rfl

end Hooked

/-- **Deeds.**  A deed is checked, and then it is at most one task. -/
theorem act_eq (c : Connection σ) (d : Deed) : d.act c = d.prepare >>= Prepared.finish c := by
  cases d with
  | statement q st => exact st.act_eq c q
  | save r m =>
  refine funext fun s => ?_
  have hact : ((save r m).act c).runOn s
      = (.ok (((c.saveModel r).runOn ⟨s, m⟩).1, ((c.saveModel r).runOn ⟨s, m⟩).2.model),
          ((c.saveModel r).runOn ⟨s, m⟩).2.session) := rfl
  change (act c (save r m)).runOn s = (prepare (save r m) >>= Prepared.finish c).runOn s
  rw [hact, Connection.saveModel, Action.runOn_bind_of_ok (ModelSession.runOn_current _), prepare]
  dsimp only
  cases m.saved with
  | false =>
      obtain ⟨m', client, hhooks, -⟩ := Hooks.runOn_run r.hooks.beforeCreate m s.client
      exact (runOn_createModel hhooks ▸ runOn_prepareSave hhooks _).symm
  | true =>
  cases hdirty : Diff.isDirty r.loose m.stored m.attributes with
  | false =>
      have hclean : (c.updateModel r).runOn ⟨s, m⟩ = (.ok false, ⟨s, m⟩) := by
        rw [Connection.updateModel, Action.runOn_bind_of_ok (ModelSession.runOn_current _)]
        dsimp only
        rw [hdirty]
        rfl
      rw [if_pos rfl, hclean]
      rfl
  | true =>
      obtain ⟨m', client, hhooks, -⟩ := Hooks.runOn_run r.hooks.beforeUpdate m s.client
      have h := runOn_prepareSave (c := c) hhooks (prepareChange r.loose)
      rw [← runOn_updateModel hdirty hhooks] at h
      exact h.symm

theorem isIdle_settle {a : Action (Session σ) (Prepared α)} (h : Session.IsIdle a) :
    Session.IsIdle (Prepared.settle a) := by
  intro s
  have hidle := h s
  rw [show (Prepared.settle a).runOn s = match a.runOn s with
      | (.ok p, s) => (.ok p, s)
      | (.error e, s) => (.ok (.done (.error e)), s) from rfl]
  cases hrun : a.runOn s with
  | mk outcome t =>
    rw [hrun] at hidle
    cases outcome <;> exact hidle

theorem isIdle_prepareSave (hooks : List Hook) (m : Model)
    {statement : Model → Action (Session σ) (Prepared (Bool × Model))}
    (h : ∀ m, Session.IsIdle (statement m)) :
    Session.IsIdle (prepareSave hooks m statement) := by
  refine Session.IsIdle.bind (.onClient fun client => ?_) fun m =>
    (isIdle_settle (h m)).bind fun _ => .pure _
  obtain ⟨m', client', hrun, hstore⟩ := Hooks.runOn_run hooks m client
  rw [hrun, hstore]

/-- **Checks.**  The checks of a deed are idle. -/
theorem isIdle_prepare (d : Deed) : Session.IsIdle (σ := σ) d.prepare := by
  cases d with
  | statement q st => exact st.isIdle_prepare q
  | save r m =>
      rw [prepare]
      cases m.saved with
      | false =>
          exact isIdle_prepareSave _ _ fun m =>
            (Statement.isIdle_prepareInsertGetId _ _).bind fun _ => .pure _
      | true =>
      cases Diff.isDirty r.loose m.stored m.attributes with
      | false => exact .pure _
      | true =>
          exact isIdle_prepareSave _ _ fun m =>
            (Session.IsIdle.ofOutcome _).bind fun _ => (Session.IsIdle.ofOutcome _).bind fun _ =>
              .pure _

/-- The task that a deed comes to in a session, with its text, if it comes to one. -/
def task? (d : Deed) (s : Session σ) : Option (String × Task) :=
  (d.prepare.runOn s).1.toOption.bind Prepared.task?

/-- A deed leaves the session as its checks do, or as its task does after them. -/
theorem act_cases (c : Connection σ) (d : Deed) (s : Session σ) :
    ∃ s₁, s.Idle s₁ ∧
      ((d.task? s = none ∧ ((d.act c).runOn s).2 = s₁) ∨
        ∃ text t, d.task? s = some (text, t) ∧
          ((d.act c).runOn s).2 = ((t.carryOut c text).runOn s₁).2) := by
  have hidle := d.isIdle_prepare s
  rw [act_eq, task?]
  cases hrun : (d.prepare : Action (Session σ) (Prepared d.Answer)).runOn s with
  | mk outcome s₁ =>
    rw [hrun] at hidle
    refine ⟨s₁, hidle, ?_⟩
    cases outcome with
    | error e => exact .inl ⟨rfl, by rw [Action.runOn_bind_of_error hrun]⟩
    | ok p =>
        rw [Action.runOn_bind_of_ok hrun]
        cases p with
        | done outcome => exact .inl ⟨rfl, rfl⟩
        | task text t give => exact .inr ⟨text, t, rfl, rfl⟩

end Deed

end DocStore
