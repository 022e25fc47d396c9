import DocStore.Mutation.Batcher
import DocStore.Proofs.Client
import DocStore.Proofs.Document.Encode
import DocStore.Proofs.Path.Resource
import DocStore.Store.Memory
import DocStore.Store.Recording
import Mathlib.Data.List.Forall2

/-!
# Writes that go out in chunks

Whatever the store answers, a mutation of many documents sends the consecutive chunks of its
writes one after the other and stops at the first that fails.  A run of commits is described by
`Commits` (all succeed) and `Delivery` (all succeed, or one fails and ends the run), and
`IsChunking` says what the chunks of a list are.

The main statement, `chunked_mutations_deliver`, is about a store that keeps a record of the
requests.  It holds for every store and for every plan by which requests fail: an insertion of
records of which one is invalid sends nothing, and every other insertion and every update
delivers its writes in chunks of a hundred.
-/

namespace DocStore

/-! ## Chunks -/

/-- The chunks are the consecutive pieces of a list: all full but the last, and none empty. -/
structure IsChunking {α : Type} (size : Nat) (xs : List α) (chunks : List (List α)) : Prop where
  flatten_eq : chunks.flatten = xs
  length_eq : chunks.length = (xs.length + size - 1) / size
  sized : ∀ chunk ∈ chunks, 0 < chunk.length ∧ chunk.length ≤ size
  full : ∀ chunk ∈ chunks.dropLast, chunk.length = size

section Chunks

variable {α : Type} {size : Nat}

@[simp] theorem chunksOf_nil (hsize : 0 < size) : chunksOf size ([] : List α) = [] := by
  have hcount : (size - 1) / size = 0 := Nat.div_eq_of_lt (by omega)
  simp [chunksOf, hcount]

/-- Lists of the same length have the same number of chunks. -/
theorem length_chunksOf_congr {β : Type} {xs : List α} {ys : List β} (h : xs.length = ys.length) :
    (chunksOf size xs).length = (chunksOf size ys).length := by
  simp [chunksOf, h]

/-- The number of chunks goes up by one with each chunk in front. -/
theorem chunk_count_succ (hsize : 0 < size) {n : Nat} (hn : 0 < n) :
    (n + size - 1) / size = (n - size + size - 1) / size + 1 := by
  rcases Nat.le_total n size with hle | hle
  · have hnone : (n - size + size - 1) / size = 0 := Nat.div_eq_of_lt (by omega)
    rw [hnone, Nat.div_eq_iff hsize]
    omega
  · have hsum : n + size - 1 = (n - size + size - 1) + size := by omega
    rw [hsum, Nat.add_div_right _ hsize]

/-- The first chunk is taken off the front, and the others are those of the rest. -/
theorem chunksOf_of_ne_nil (hsize : 0 < size) {xs : List α} (hxs : xs ≠ []) :
    chunksOf size xs = xs.take size :: chunksOf size (xs.drop size) := by
  have hlen : 0 < xs.length := List.length_pos_iff.2 hxs
  unfold chunksOf
  rw [chunk_count_succ hsize hlen, List.range_succ_eq_map, List.map_cons, List.map_map,
    List.length_drop]
  congr 1
  · simp
  · apply List.map_congr_left
    intro i _
    simp [List.drop_drop, Nat.succ_mul, Nat.add_comm]

/-- **Chunking.**  No item of a list is lost or repeated by its chunks. -/
theorem chunksOf_isChunking (hsize : 0 < size) (xs : List α) :
    IsChunking size xs (chunksOf size xs) := by
  induction hlen : xs.length using Nat.strongRecOn generalizing xs with
  | _ n ih =>
      by_cases hxs : xs = []
      · subst hxs
        have hcount : (size - 1) / size = 0 := Nat.div_eq_of_lt (by omega)
        rw [chunksOf_nil hsize]
        exact ⟨rfl, by simp [hcount], by simp, by simp⟩
      · have hpos : 0 < xs.length := List.length_pos_iff.2 hxs
        have hrest := ih (xs.drop size).length (by rw [List.length_drop]; omega) (xs.drop size) rfl
        rw [chunksOf_of_ne_nil hsize hxs]
        refine ⟨?_, ?_, ?_, ?_⟩
        · rw [List.flatten_cons, hrest.flatten_eq, List.take_append_drop]
        · rw [List.length_cons, hrest.length_eq, List.length_drop, chunk_count_succ hsize hpos]
        · intro chunk hchunk
          rcases List.mem_cons.1 hchunk with rfl | hchunk
          · rw [List.length_take]
            omega
          · exact hrest.sized chunk hchunk
        · intro chunk hchunk
          by_cases hlast : xs.drop size = []
          · rw [hlast, chunksOf_nil hsize] at hchunk
            simp at hchunk
          · have hmore : chunksOf size (xs.drop size) ≠ [] := by
              rw [chunksOf_of_ne_nil hsize hlast]
              exact List.cons_ne_nil _ _
            rw [List.dropLast_cons_of_ne_nil hmore] at hchunk
            rcases List.mem_cons.1 hchunk with rfl | hchunk
            · have hmany : 0 < (xs.drop size).length := List.length_pos_iff.2 hlast
              rw [List.length_drop] at hmany
              rw [List.length_take]
              omega
            · exact hrest.full chunk hchunk

end Chunks

/-! ## Runs of commits -/

/-- The commits of some chunks succeed one after the other, from one state to another. -/
inductive Commits {σ : Type} (ds : Datastore σ) : List (List Write) → σ → σ → Prop
  | none (s : σ) : Commits ds [] s s
  | next {chunk : List Write} {rest : List (List Write)} {s t u : σ}
      (here : (ds.commit chunk).runOn s = (.ok (), t)) (later : Commits ds rest t u) :
      Commits ds (chunk :: rest) s u

/-- What comes of committing some chunks one after the other: how many are sent, the outcome,
and the phase and the state at the end. -/
inductive Delivery {σ : Type} (ds : Datastore σ) (chunks : List (List Write)) (s : σ) :
    Nat → Outcome Unit → Phase → σ → Prop
  /-- No commit fails. -/
  | complete {t : σ} (applied : Commits ds chunks s t) :
      Delivery ds chunks s chunks.length (.ok ()) .done t
  /-- A commit fails; the chunks before it are applied, those after it are not sent. -/
  | stopped {before after : List (List Write)} {chunk : List Write} {t u : σ} {e : Error}
      (split : chunks = before ++ chunk :: after) (applied : Commits ds before s t)
      (failed : (ds.commit chunk).runOn t = (.error e, u)) :
      Delivery ds chunks s (before.length + 1)
        (.error (e.withChunk (before.length + 1) chunks.length))
        (.committing (before.length + 1) chunks.length) u

/-- The requests that a store keeps are those that were sent, the last one first. -/
theorem Recording.runOn_keep {σ α : Type} {plan : Recording.Plan} {request : Request}
    {a : Action σ α} {r r' : Recording σ} {outcome : Outcome α}
    (h : (Recording.keep plan request a).runOn r = (outcome, r')) :
    r'.requests = request :: r.requests := by
  rw [Recording.keep, Action.runOn_bind_of_ok (Action.runOn_update _ _),
    Action.runOn_bind_of_ok (Action.runOn_state _)] at h
  split at h
  · cases h
    rfl
  · rw [Action.runOn_onPart, Prod.mk.injEq] at h
    rw [← h.2]

section Record

variable {σ : Type} {ds : Datastore σ} {plan : Recording.Plan} {chunks : List (List Write)}
  {r r' : Recording σ}

/-- Commits that succeed are all kept. -/
theorem Commits.requests_eq (h : Commits (ds.recording plan) chunks r r') :
    r'.requests = (chunks.map Request.commit).reverse ++ r.requests := by
  induction h with
  | none => rfl
  | next here _ ih => simp [ih, Recording.runOn_keep here]

/-- The commits that are kept are those that were sent. -/
theorem Delivery.requests_eq {sent : Nat} {outcome : Outcome Unit} {phase : Phase}
    (h : Delivery (ds.recording plan) chunks r sent outcome phase r') :
    r'.requests = ((chunks.take sent).map Request.commit).reverse ++ r.requests := by
  cases h with
  | complete applied => rw [List.take_length, applied.requests_eq]
  | @stopped before after chunk _ _ _ split applied failed =>
      have hsent : chunks.take (before.length + 1) = before ++ [chunk] := by
        rw [split, List.append_cons, List.take_left' (by simp)]
      rw [Recording.runOn_keep failed, applied.requests_eq, hsent]
      simp

end Record

namespace Batcher

variable {σ : Type}

/-! ## The chunking loop -/

/-- Going to a phase leaves the store alone. -/
theorem runOn_enter (phase : Phase) (b : Batcher σ) :
    ∃ b', (enter phase).runOn b = (.ok (), b') ∧
      b'.client.store = b.client.store ∧ b'.phase = phase :=
  ⟨_, rfl, rfl, rfl⟩

/-- The step of a chunk runs on the client; its failure gets the position. -/
theorem runOn_inChunk (position total : Nat) {a : Action (Client σ) Unit} {b : Batcher σ}
    {outcome : Outcome Unit} {c : Client σ} (h : a.runOn b.client = (outcome, c)) :
    ∃ b', (inChunk position total a).runOn b
        = (outcome.mapError (·.withChunk position total), b') ∧
      b'.client.store = c.store ∧ b'.phase = b.phase := by
  have hrun : (onClient a.attempt).runOn b = (.ok outcome, { b with client := c }) := by
    simp [onClient, h]
  cases outcome with
  | ok x => exact ⟨_, Action.runOn_bind_of_ok hrun, rfl, rfl⟩
  | error e => exact ⟨_, Action.runOn_bind_of_ok hrun, rfl, rfl⟩

/-- The step of a chunk: its commit. -/
def commitChunk (ds : Datastore σ) (total position : Nat) (chunk : List Write) :
    Action (Batcher σ) Unit :=
  inChunk position total (Client.onStore (ds.commit chunk))

/-- The chunks from a position on are all applied, or one of them fails and is the last that is
sent. -/
theorem runOn_eachChunk (ds : Datastore σ) (total position : Nat) (chunks : List (List Write))
    (b : Batcher σ) :
    (∃ b', (eachChunk total (commitChunk ds total) position chunks).runOn b = (.ok (), b') ∧
      Commits ds chunks b.client.store b'.client.store) ∨
    (∃ before chunk after t e b', chunks = before ++ chunk :: after ∧
      Commits ds before b.client.store t ∧
      (ds.commit chunk).runOn t = (.error e, b'.client.store) ∧
      (eachChunk total (commitChunk ds total) position chunks).runOn b
        = (.error (e.withChunk (position + before.length) total), b') ∧
      b'.phase = .committing (position + before.length) total) := by
  induction chunks generalizing position b with
  | nil => exact .inl ⟨b, rfl, .none _⟩
  | cons chunk rest ih =>
      obtain ⟨b₁, henter, hstore₁, hphase₁⟩ := runOn_enter (.committing position total) b
      have hrun : (eachChunk total (commitChunk ds total) position (chunk :: rest)).runOn b
          = (commitChunk ds total position chunk >>= fun _ =>
              eachChunk total (commitChunk ds total) (position + 1) rest).runOn b₁ :=
        Action.runOn_bind_of_ok henter
      rw [hrun]
      cases hcommit : (ds.commit chunk).runOn b₁.client.store with
      | mk outcome t =>
        cases outcome with
        | error e =>
            obtain ⟨b₂, hchunk, hstore₂, hphase₂⟩ := runOn_inChunk position total
              (Client.runOn_onStore hcommit)
            refine .inr ⟨[], chunk, rest, b.client.store, e, b₂, rfl, .none _, ?_, ?_, ?_⟩
            · rw [← hstore₁, hcommit, hstore₂]
            · exact Action.runOn_bind_of_error hchunk
            · rw [hphase₂, hphase₁]
              rfl
        | ok _ =>
            obtain ⟨b₂, hchunk, hstore₂, -⟩ := runOn_inChunk position total
              (Client.runOn_onStore hcommit)
            have hhere : (ds.commit chunk).runOn b.client.store = (.ok (), b₂.client.store) := by
              rw [← hstore₁, hcommit, hstore₂]
            rw [show (commitChunk ds total position chunk >>= fun _ => _).runOn b₁ = _ from
              Action.runOn_bind_of_ok hchunk]
            rcases ih (position + 1) b₂ with
              ⟨b', hrest, happlied⟩
              | ⟨before, bad, after, u, e, b', rfl, happlied, hbad, hrest, hphase⟩
            · exact .inl ⟨b', hrest, .next hhere happlied⟩
            · have hpos : position + 1 + before.length = position + (chunk :: before).length := by
                rw [List.length_cons]
                omega
              rw [hpos] at hrest hphase
              exact .inr ⟨chunk :: before, bad, after, u, e, b', rfl, .next hhere happlied, hbad,
                hrest, hphase⟩

/-- **Commits in chunks.**  The writes are delivered in their chunks. -/
theorem runOn_commitChunks (ds : Datastore σ) (size : Nat) (writes : List Write)
    (b : Batcher σ) :
    ∃ sent outcome b', (commitChunks ds size writes).runOn b = (outcome, b') ∧
      Delivery ds (chunksOf size writes) b.client.store sent outcome b'.phase
        b'.client.store := by
  obtain ⟨b₁, henter, hstore₁, -⟩ := runOn_enter .chunking b
  have hrun : (commitChunks ds size writes).runOn b
      = (eachChunk (chunksOf size writes).length
            (commitChunk ds (chunksOf size writes).length) 1 (chunksOf size writes) >>= fun _ =>
          enter .done).runOn b₁ :=
    Action.runOn_bind_of_ok henter
  rw [hrun]
  rcases runOn_eachChunk ds (chunksOf size writes).length 1 (chunksOf size writes) b₁ with
    ⟨b₂, hloop, happlied⟩ | ⟨before, chunk, after, t, e, b₂, hsplit, happlied, hbad, hloop, hphase⟩
  · obtain ⟨b₃, hdone, hstore₃, hphase₃⟩ := runOn_enter .done b₂
    refine ⟨(chunksOf size writes).length, .ok (), b₃, ?_, ?_⟩
    · rw [Action.runOn_bind_of_ok hloop, hdone]
    · rw [hphase₃, hstore₃, ← hstore₁]
      exact .complete happlied
  · refine ⟨before.length + 1, _, b₂, Action.runOn_bind_of_error hloop, ?_⟩
    rw [hphase, ← hstore₁, Nat.add_comm 1]
    exact .stopped hsplit happlied hbad

/-- Writes that fit into one chunk are committed at once. -/
theorem runOn_commitChunks_once (ds : Datastore σ) {size : Nat} {writes : List Write}
    (hne : writes ≠ []) (hfit : writes.length ≤ size) (b : Batcher σ) :
    (∃ b', (commitChunks ds size writes).runOn b = (.ok (), b') ∧
      (ds.commit writes).runOn b.client.store = (.ok (), b'.client.store)) ∨
    (∃ e e' b', (commitChunks ds size writes).runOn b = (.error e', b') ∧
      (ds.commit writes).runOn b.client.store = (.error e, b'.client.store)) := by
  have hsize : 0 < size := Nat.lt_of_lt_of_le (List.length_pos_iff.2 hne) hfit
  have hchunks : chunksOf size writes = [writes] := by
    rw [chunksOf_of_ne_nil hsize hne, List.take_of_length_le hfit,
      List.drop_eq_nil_of_le hfit, chunksOf_nil hsize]
  obtain ⟨sent, outcome, b', hrun, hdelivery⟩ := runOn_commitChunks ds size writes b
  rw [hchunks] at hdelivery
  generalize b'.phase = phase at hdelivery
  cases hdelivery with
  | complete applied =>
      cases applied with
      | next here later =>
          cases later
          exact .inl ⟨b', hrun, here⟩
  | @stopped before after chunk t _ e split applied failed =>
      obtain ⟨rfl, rfl, -⟩ : before = [] ∧ chunk = writes ∧ after = [] := by
        cases before with
        | nil => exact ⟨rfl, (List.cons.inj split).1.symm, (List.cons.inj split).2.symm⟩
        | cons first rest =>
            have hlength := congrArg List.length split
            simp at hlength
      cases applied
      exact .inr ⟨e, _, b', hrun, failed⟩

/-! ## The writes of an insertion -/

/-- A record can be inserted: the id that it names, if any, is one of a document, and a write
takes its data. -/
def insertable (record : Fields) : Bool :=
  (stripDocumentId record).2.all Value.isDocumentId &&
    Value.acceptedFields false (stripDocumentId record).1

/-- The write creates the document of a record in a collection, at the id that the record names
or at some other. -/
def Creates (collection : ResourcePath) (record : Fields) (write : Write) : Prop :=
  ∃ id encoded, (∀ v, (stripDocumentId record).2 = some v → documentIdOf v = .ok id) ∧
    encodeCreate (stripDocumentId record).1 = .ok encoded ∧
    write = .create ⟨collection.child [id]⟩ encoded.fields encoded.increments

/-- A name below a collection makes a key. -/
theorem ofPath_child {collection : ResourcePath} (hcol : collection.isCollection = true)
    (id : String) : DocumentKey.ofPath (collection.child [id]) = .ok ⟨collection.child [id]⟩ := by
  rw [DocumentKey.ofPath, if_pos (ResourcePath.isDocument_child hcol id)]
  rfl

/-- The step that finds the id of a record. -/
def findId (id? : Option Value) : Action (Batcher σ) String :=
  match id? with
  | some v => Action.ofOutcome (documentIdOf v)
  | none => onClient Client.nextId

/-- An id is found unless the record names a bad one; the store is not asked. -/
theorem runOn_findId (id? : Option Value) (b : Batcher σ) :
    (id?.all Value.isDocumentId = true ∧ ∃ id b', (findId id?).runOn b = (.ok id, b') ∧
      b'.client.store = b.client.store ∧ ∀ v, id? = some v → documentIdOf v = .ok id) ∨
    (id?.all Value.isDocumentId = false ∧ ∃ e, (findId id?).runOn b = (.error e, b)) := by
  cases id? with
  | none => exact .inl ⟨rfl, _, _, rfl, rfl, by simp⟩
  | some v =>
      cases hid : documentIdOf v with
      | ok id =>
          refine .inl ⟨?_, id, b, ?_, rfl, ?_⟩
          · simpa [Value.isDocumentId_iff] using ⟨id, hid⟩
          · rw [findId, hid, Action.runOn_ofOutcome]
          · intro _ heq
            cases heq
            exact hid
      | error e =>
          refine .inr ⟨?_, e, ?_⟩
          · rw [Option.all_some, Bool.eq_false_iff, Ne, Value.isDocumentId_iff]
            intro hboth
            obtain ⟨id, hok⟩ := hboth
            rw [hid] at hok
            cases hok
          · rw [findId, hid, Action.runOn_ofOutcome]

/-- The write of a record is made unless the record is invalid; the store is not asked. -/
theorem runOn_createWrite {collection : ResourcePath} (hcol : collection.isCollection = true)
    (record : Fields) (b : Batcher σ) :
    (insertable record = true ∧ ∃ write b', (createWrite collection record).runOn b
        = (.ok write, b') ∧ b'.client.store = b.client.store ∧
        Creates collection record write) ∨
    (insertable record = false ∧ ∃ e b', (createWrite collection record).runOn b
        = (.error e, b') ∧ b'.client.store = b.client.store) := by
  have hrun : (createWrite collection record : Action (Batcher σ) Write)
      = findId (stripDocumentId record).2 >>= fun id =>
          Action.ofOutcome (DocumentKey.ofPath (collection.child [id])) >>= fun key =>
            Action.ofOutcome (encodeCreate (stripDocumentId record).1) >>= fun encoded =>
              pure (.create key encoded.fields encoded.increments) := by
    unfold createWrite findId
    rcases stripDocumentId record with ⟨data, id?⟩
    cases id? <;> rfl
  rw [hrun]
  rcases runOn_findId (stripDocumentId record).2 b with
    ⟨hall, id, b', hid, hstore, hnamed⟩ | ⟨hall, e, hid⟩
  · rw [Action.runOn_bind_of_ok hid, ofPath_child hcol,
      Action.runOn_bind_of_ok (Action.runOn_ofOutcome _ _)]
    cases hencode : encodeCreate (stripDocumentId record).1 with
    | ok encoded =>
        have hdata := (encodeCreate_eq_ok.1 hencode).1
        exact .inl ⟨by simp [insertable, hall, hdata], _, b', rfl, hstore, id, encoded, hnamed,
          hencode, rfl⟩
    | error e =>
        refine .inr ⟨?_, e, b', rfl, hstore⟩
        have hdata : Value.acceptedFields false (stripDocumentId record).1 = false := by
          rw [Bool.eq_false_iff]
          intro hacc
          rw [encodeCreate_eq_ok.2 ⟨hacc, rfl⟩] at hencode
          cases hencode
        simp [insertable, hdata]
  · exact .inr ⟨by simp [insertable, hall], e, b, Action.runOn_bind_of_error hid, rfl⟩

/-- All records are checked before anything is sent. -/
theorem runOn_createWrites {collection : ResourcePath} (hcol : collection.isCollection = true)
    (records : List Fields) (b : Batcher σ) :
    (records.all insertable = true ∧ ∃ writes b', (records.mapM (createWrite collection)).runOn b
        = (.ok writes, b') ∧ b'.client.store = b.client.store ∧
        List.Forall₂ (Creates collection) records writes) ∨
    (records.all insertable = false ∧ ∃ e b', (records.mapM (createWrite collection)).runOn b
        = (.error e, b') ∧ b'.client.store = b.client.store) := by
  induction records generalizing b with
  | nil => exact .inl ⟨rfl, [], b, rfl, rfl, .nil⟩
  | cons record rest ih =>
      rw [List.mapM_cons]
      rcases runOn_createWrite hcol record b with
        ⟨hok, write, b₁, hwrite, hstore₁, hcreates⟩ | ⟨hbad, e, b₁, hwrite, hstore₁⟩
      · rw [Action.runOn_bind_of_ok hwrite]
        rcases ih b₁ with
          ⟨hall, writes, b₂, hwrites, hstore₂, hrest⟩ | ⟨hall, e, b₂, hwrites, hstore₂⟩
        · rw [Action.runOn_bind_of_ok hwrites]
          exact .inl ⟨by simp [hok, hall], write :: writes, b₂, rfl, hstore₂.trans hstore₁,
            .cons hcreates hrest⟩
        · exact .inr ⟨by simp [hall], e, b₂, Action.runOn_bind_of_error hwrites,
            hstore₂.trans hstore₁⟩
      · exact .inr ⟨by simp [hbad], e, b₁, Action.runOn_bind_of_error hwrite, hstore₁⟩

/-! ## Insertions and updates -/

/-- The writes of a mutation go out in chunks of some size: how the mutation ends, and which
commits the store has kept. -/
def DeliversInChunks (ds : Datastore (Recording σ)) (size : Nat) (writes : List Write)
    (b : Batcher (Recording σ)) (outcome : Outcome Unit) (b' : Batcher (Recording σ)) : Prop :=
  ∃ chunks sent, IsChunking size writes chunks ∧
    Delivery ds chunks b.client.store sent outcome b'.phase b'.client.store ∧
    b'.client.store.requests
      = ((chunks.take sent).map Request.commit).reverse ++ b.client.store.requests

/-- Committing in chunks delivers the writes. -/
theorem runOn_commitChunks_recording (plan : Recording.Plan) (ds : Datastore σ) (size : Nat)
    (hsize : 0 < size) (writes : List Write) (b : Batcher (Recording σ)) :
    ∃ outcome b', (commitChunks (ds.recording plan) size writes).runOn b = (outcome, b') ∧
      DeliversInChunks (ds.recording plan) size writes b outcome b' := by
  obtain ⟨sent, outcome, b', hrun, hdelivery⟩ :=
    runOn_commitChunks (ds.recording plan) size writes b
  exact ⟨outcome, b', hrun, chunksOf size writes, sent, chunksOf_isChunking hsize writes,
    hdelivery, hdelivery.requests_eq⟩

/-- Without writes nothing is sent. -/
theorem deliversInChunks_nil (ds : Datastore (Recording σ)) (size : Nat)
    {b b' : Batcher (Recording σ)} (hsize : 0 < size)
    (hstore : b'.client.store = b.client.store) (hphase : b'.phase = .done) :
    DeliversInChunks ds size [] b (.ok ()) b' := by
  refine ⟨[], 0, ?_, ?_, ?_⟩
  · simpa [hsize] using chunksOf_isChunking hsize ([] : List Write)
  · rw [hstore, hphase]
    exact .complete (.none _)
  · rw [hstore]
    rfl

/-- An insertion with an invalid record sends nothing. -/
theorem runOn_insert_of_invalid (ds : Datastore σ) {collection : ResourcePath}
    (hcol : collection.isCollection = true) {records : List Fields}
    (hbad : ∃ record ∈ records, insertable record = false) (b : Batcher σ) :
    ∃ e b', (insert ds collection records).runOn b = (.error e, b') ∧
      b'.client.store = b.client.store := by
  have hnot : ¬ records.all insertable = true := by simpa using hbad
  have hsome : records.isEmpty = false := by
    obtain ⟨record, hmem, -⟩ := hbad
    cases records with
    | nil => cases hmem
    | cons => rfl
  obtain ⟨b₁, hbuild, hstore₁, -⟩ := runOn_enter .building b
  obtain ⟨b₂, hcompile, hstore₂, -⟩ := runOn_enter .compiling b₁
  rcases runOn_createWrites hcol records b₂ with ⟨hall, -⟩ | ⟨-, e, b₃, hwrites, hstore₃⟩
  · exact absurd hall hnot
  · refine ⟨e, b₃, ?_, hstore₃.trans (hstore₂.trans hstore₁)⟩
    simp only [insert, hcol, hsome, Bool.not_true, Bool.false_eq_true, if_false]
    rw [Action.runOn_bind_of_ok hbuild, Action.runOn_bind_of_ok hcompile,
      Action.runOn_bind_of_error hwrites]

/-- An insertion of valid records delivers a write for each. -/
theorem runOn_insert_of_valid (plan : Recording.Plan) (ds : Datastore σ)
    {collection : ResourcePath} (hcol : collection.isCollection = true) {records : List Fields}
    (hall : ∀ record ∈ records, insertable record = true) (b : Batcher (Recording σ)) :
    ∃ writes outcome b', List.Forall₂ (Creates collection) records writes ∧
      DeliversInChunks (ds.recording plan) insertChunk writes b outcome b' ∧
      (insert (ds.recording plan) collection records).runOn b
        = (outcome.map fun _ => writes.map (·.key), b') := by
  obtain ⟨b₁, hbuild, hstore₁, -⟩ := runOn_enter .building b
  cases hempty : records.isEmpty with
  | true =>
      obtain ⟨b₂, hdone, hstore₂, hphase₂⟩ := runOn_enter .done b₁
      rw [List.isEmpty_iff.1 hempty]
      refine ⟨[], .ok (), b₂, .nil,
        deliversInChunks_nil _ _ (by decide) (hstore₂.trans hstore₁) hphase₂, ?_⟩
      simp only [insert, hcol, List.isEmpty_nil, Bool.not_true, Bool.false_eq_true, if_false,
        if_true]
      rw [Action.runOn_bind_of_ok hbuild, Action.runOn_bind_of_ok hdone]
      rfl
  | false =>
      obtain ⟨b₂, hcompile, hstore₂, -⟩ := runOn_enter .compiling b₁
      rcases runOn_createWrites hcol records b₂ with
        ⟨-, writes, b₃, hwrites, hstore₃, hcreates⟩ | ⟨hbad, -⟩
      · obtain ⟨outcome, b₄, hcommit, hdelivers⟩ :=
          runOn_commitChunks_recording plan ds insertChunk (by decide) writes b₃
        have hstore : b₃.client.store = b.client.store := hstore₃.trans (hstore₂.trans hstore₁)
        refine ⟨writes, outcome, b₄, hcreates, ?_, ?_⟩
        · unfold DeliversInChunks at hdelivers ⊢
          rwa [hstore] at hdelivers
        · simp only [insert, hcol, hempty, Bool.not_true, Bool.false_eq_true, if_false]
          rw [Action.runOn_bind_of_ok hbuild, Action.runOn_bind_of_ok hcompile,
            Action.runOn_bind_of_ok hwrites, Action.runOn_bind, hcommit]
          cases outcome <;> rfl
      · simp [List.all_eq_true.2 hall] at hbad

/-- An update delivers a write for each key. -/
theorem runOn_updateEncoded (plan : Recording.Plan) (ds : Datastore σ)
    (keys : List DocumentKey) (data : EncodedData) (b : Batcher (Recording σ)) :
    ∃ outcome b',
      DeliversInChunks (ds.recording plan) updateChunk
        (keys.map fun key => .set key data.fields data.mask data.increments) b outcome b' ∧
      (updateEncoded (ds.recording plan) keys data).runOn b
        = (outcome.map fun _ => keys.length, b') := by
  obtain ⟨b₁, hbuild, hstore₁, -⟩ := runOn_enter .building b
  cases hempty : keys.isEmpty with
  | true =>
      obtain ⟨b₂, hdone, hstore₂, hphase₂⟩ := runOn_enter .done b₁
      rw [List.isEmpty_iff.1 hempty]
      refine ⟨.ok (), b₂,
        deliversInChunks_nil _ _ (by decide) (hstore₂.trans hstore₁) hphase₂, ?_⟩
      simp only [updateEncoded, List.isEmpty_nil, if_true]
      rw [Action.runOn_bind_of_ok hbuild, Action.runOn_bind_of_ok hdone]
      rfl
  | false =>
      obtain ⟨outcome, b₂, hcommit, hdelivers⟩ :=
        runOn_commitChunks_recording plan ds updateChunk (by decide)
          (keys.map fun key => .set key data.fields data.mask data.increments) b₁
      refine ⟨outcome, b₂, ?_, ?_⟩
      · unfold DeliversInChunks at hdelivers ⊢
        rwa [hstore₁] at hdelivers
      · simp only [updateEncoded, hempty, Bool.false_eq_true, if_false]
        rw [Action.runOn_bind_of_ok hbuild, Action.runOn_bind, hcommit]
        cases outcome <;> rfl

/-- **Chunked mutations.**  Whatever the store does and whichever requests fail: an insertion of
records into a collection sends nothing if one of them is invalid; else it delivers one write for
each record, in chunks of a hundred, and gives the keys.  An update delivers one write for each
key in the same way. -/
theorem chunked_mutations_deliver (plan : Recording.Plan) (ds : Datastore σ)
    (b : Batcher (Recording σ)) :
    (∀ collection records, collection.isCollection = true →
      ((∃ record ∈ records, insertable record = false) →
        ∃ e b', (insert (ds.recording plan) collection records).runOn b = (.error e, b') ∧
          b'.client.store = b.client.store) ∧
      ((∀ record ∈ records, insertable record = true) →
        ∃ writes outcome b', List.Forall₂ (Creates collection) records writes ∧
          DeliversInChunks (ds.recording plan) 100 writes b outcome b' ∧
          (insert (ds.recording plan) collection records).runOn b
            = (outcome.map fun _ => writes.map (·.key), b'))) ∧
    ∀ (keys : List DocumentKey) (data : EncodedData),
      ∃ outcome b',
        DeliversInChunks (ds.recording plan) 100
          (keys.map fun key => .set key data.fields data.mask data.increments) b outcome b' ∧
        (updateEncoded (ds.recording plan) keys data).runOn b
          = (outcome.map fun _ => keys.length, b') := by
  refine ⟨fun collection records hcol => ⟨fun hbad => ?_, fun hall => ?_⟩, fun keys data => ?_⟩
  · exact runOn_insert_of_invalid (ds.recording plan) hcol hbad b
  · exact runOn_insert_of_valid plan ds hcol hall b
  · exact runOn_updateEncoded plan ds keys data b

/-- A mutation that has not begun, over a store that nobody has asked. -/
def unbegun (store : σ) : Batcher (Recording σ) where
  client := .fresh { store }

/-- A record with a marker that only a merge takes ends an insertion before it begins, and a
hundred and one records are delivered, here to a store in memory whose second commit fails. -/
theorem chunked_mutations_deliver_users :
    (∃ e b',
      (insert (Memory.datastore.recording fun _ => none) ⟨["users"]⟩
        [[], [("age", .deleteField)]]).runOn (unbegun ⟨[], { readings := fun _ => default }⟩)
        = (.error e, b') ∧
      b'.client.store = ⟨⟨[], { readings := fun _ => default }⟩, []⟩) ∧
    ∃ writes outcome b',
      List.Forall₂ (Creates ⟨["users"]⟩) (List.replicate 101 [("age", .integer 7)]) writes ∧
      DeliversInChunks
        (Memory.datastore.recording (.ofFailures [("commit", 2, .unavailable "down")])) 100 writes
        (unbegun ⟨[], { readings := fun _ => default }⟩) outcome b' ∧
      (insert (Memory.datastore.recording (.ofFailures [("commit", 2, .unavailable "down")]))
        ⟨["users"]⟩ (List.replicate 101 [("age", .integer 7)])).runOn
          (unbegun ⟨[], { readings := fun _ => default }⟩)
        = (outcome.map fun _ => writes.map (·.key), b') := by
  refine ⟨?_, ?_⟩
  · have hrun := (chunked_mutations_deliver (fun _ => none) Memory.datastore
      (unbegun ⟨[], { readings := fun _ => default }⟩)).1 ⟨["users"]⟩
      [[], [("age", .deleteField)]] (by decide)
    exact hrun.1 ⟨[("age", .deleteField)], by simp, by decide⟩
  · have hrun := (chunked_mutations_deliver (.ofFailures [("commit", 2, .unavailable "down")])
      Memory.datastore (unbegun ⟨[], { readings := fun _ => default }⟩)).1 ⟨["users"]⟩
      (List.replicate 101 [("age", .integer 7)]) (by decide)
    refine hrun.2 ?_
    intro record hmem
    rw [List.eq_of_mem_replicate hmem]
    decide

end Batcher

end DocStore
