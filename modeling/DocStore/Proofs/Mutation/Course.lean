import DocStore.Mutation.Batcher
import DocStore.Proofs.Mutation.Chunks
import DocStore.Proofs.Mutation.RecursiveDelete
import DocStore.Proofs.Store.Watched

/-!
# What a mutation asks of a store

Once a mutation has asked the store for something, it ends only with a failure of the store.  The
steps of a recursive deletion are like this (`Steady`): they fail by themselves only if the keys
they are given, or those in the answers of the store, are not the keys of documents (`Misled`).

A mutation in chunks adds to a failure the position of the chunk in which it has happened
(`InChunk`, `course_eachChunk`).  An insertion checks all records first, so it fails by itself only
before the first commit (`course_insert`).
-/

namespace DocStore

variable {σ α β : Type}

/-! ## Steps that fail only with the store -/

/-- Every document in the answers has the key of a document. -/
def HaveDocumentKeys (asked : List Exchange) : Prop := ∀ x ∈ asked, x.HasDocumentKeys

instance (asked : List Exchange) : Decidable (HaveDocumentKeys asked) :=
  inferInstanceAs (Decidable (∀ x ∈ asked, x.HasDocumentKeys))

/-- The keys that a step was given are not `sound`, or an answer has brought one that is not the key
of a document. -/
def Misled (sound : Prop) (asked : List Exchange) : Prop := sound → ¬ HaveDocumentKeys asked

theorem Misled.append {sound : Prop} {asked rest : List Exchange} (h : Misled sound rest) :
    Misled sound (asked ++ rest) := fun hsound hkeys =>
  h hsound fun x hx => hkeys x (List.mem_append_right _ hx)

/-- The documents of an answer are among the keys that a step is given. -/
theorem Misled.answered {sound : Prop} {x : Exchange} {rest : List Exchange}
    (h : Misled (sound ∧ x.HasDocumentKeys) rest) : Misled sound (x :: rest) := fun hsound hkeys =>
  h ⟨hsound, hkeys x List.mem_cons_self⟩ fun y hy => hkeys y (List.mem_cons_of_mem _ hy)

/-- Nothing has been asked yet, or an answer has brought a key that is not that of a document. -/
def Guarded (asked : List Exchange) : Prop := HaveDocumentKeys asked → asked = []

theorem Guarded.of_misled {asked : List Exchange} (h : Misled True asked) : Guarded asked :=
  fun hkeys => (h trivial hkeys).elim

/-- The step ends with the first failure of the store, which it gives as it is, and does not fail
otherwise unless it is misled. -/
def Steady (sound : Prop) (a : Action (Client (Watched σ)) α) : Prop :=
  ∀ c, Course Client.exchanges (Misled sound) (fun _ e e' => e' = e) a c

namespace Steady

variable {sound : Prop} {ds : Datastore σ} {a : Action (Client (Watched σ)) α}
  {f : α → Action (Client (Watched σ)) β}

theorem pure (x : α) : Steady (σ := σ) sound (pure x) := fun _ => .silent rfl rfl

theorem bind (ha : Steady sound a) (hf : ∀ x, Steady sound (f x)) : Steady sound (a >>= f) :=
  fun c => (ha c).bind fun x t _ _ _ _ => (hf x t).mono (fun _ => .append) fun _ _ _ => id

theorem log (level : Log.Level) (logger message : String) :
    Steady (σ := σ) sound (Client.log level logger message) := fun _ => .silent rfl rfl

/-- A query whose answer gives keys to the rest of a step. -/
theorem query_bind {q : StoreQuery} {f : List Snapshot → Action (Client (Watched σ)) β}
    (hf : ∀ documents,
      Steady (sound ∧ ∀ s ∈ documents, s.key.path.isDocument = true) (f documents)) :
    Steady sound (Client.onStore (ds.watched.query q) >>= f) := fun _ =>
  Course.keep_bind (fun _ => rfl) (fun _ => rfl) (fun _ => rfl) fun documents t =>
    (hf documents t).mono
      (fun _ => Misled.answered (x := .query q (.ok documents))) fun _ _ _ => id

/-- A question for collections. -/
theorem collections_bind {key : DocumentKey} {f : List String → Action (Client (Watched σ)) β}
    (hf : ∀ names, Steady sound (f names)) :
    Steady sound (Client.onStore (ds.watched.collections key) >>= f) := fun _ =>
  Course.keep_bind (fun _ => rfl) (fun _ => rfl) (fun _ => rfl) fun names t =>
    (hf names t).mono (fun _ => @Misled.append _ [_] _) fun _ _ _ => id

/-- A commit before the rest of a step. -/
theorem commit_bind {writes : List Write} {f : Unit → Action (Client (Watched σ)) β}
    (hf : ∀ x, Steady sound (f x)) :
    Steady sound (Client.onStore (ds.watched.commit writes) >>= f) := fun _ =>
  Course.keep_bind (fun _ => rfl) (fun _ => rfl) (fun _ => rfl) fun x t =>
    (hf x t).mono (fun _ => @Misled.append _ [_] _) fun _ _ _ => id

theorem commit (writes : List Write) :
    Steady sound (Client.onStore (ds.watched.commit writes)) := fun _ =>
  Course.keep (fun _ => rfl) (fun _ => rfl) fun _ => rfl

theorem mapM {g : β → Action (Client (Watched σ)) α} {items : List β}
    (hg : ∀ b ∈ items, Steady sound (g b)) : Steady sound (items.mapM g) := by
  induction items with
  | nil => exact pure _
  | cons b rest ih =>
      rw [List.mapM_cons]
      exact (hg b List.mem_cons_self).bind fun _ =>
        (ih fun b hb => hg b (List.mem_cons_of_mem _ hb)).bind fun _ => pure _

end Steady

/-! ## Recursive deletions -/

namespace RecursiveDelete

variable {sound : Prop} {ds : Datastore σ} {size : Nat}

theorem steady_sumOver {f : α → Action (Client (Watched σ)) Nat} {items : List α}
    (hf : ∀ a ∈ items, Steady sound (f a)) : Steady sound (sumOver f items) := by
  induction items with
  | nil => exact Steady.pure _
  | cons a rest ih =>
      exact (hf a List.mem_cons_self).bind fun _ =>
        (ih fun b hb => hf b (List.mem_cons_of_mem _ hb)).bind fun _ => Steady.pure _

/-- A collection is emptied with the store's failures alone if each tree in it is deleted so. -/
theorem steady_emptyCollection {deleteTree : DocumentKey → Action (Client (Watched σ)) Nat}
    (htree : ∀ {sound : Prop} {key : DocumentKey}, (sound → key.path.isDocument = true) →
      Steady sound (deleteTree key))
    {collection : ResourcePath} (hcollection : sound → collection.isCollection = true)
    (rounds : Nat) :
    Steady sound (emptyCollection ds.watched size deleteTree rounds collection) := by
  induction rounds generalizing sound with
  | zero => exact Steady.pure 0
  | succ rounds ih =>
      cases hpage : page size collection with
      | error e =>
          -- Only what is not a collection has no pages.
          have hnot : ¬ sound := fun hsound => by
            rw [page_eq (hcollection hsound)] at hpage
            cases hpage
          intro c
          refine .refused (t := c) (e := e) ?_ rfl fun hsound => (hnot hsound).elim
          unfold emptyCollection
          rw [hpage]
          exact Action.runOn_bind_of_error rfl
      | ok q =>
          intro c
          unfold emptyCollection
          rw [hpage]
          refine .silent_bind (Action.runOn_ofOutcome _ _) rfl ?_
          refine Steady.query_bind (fun documents => ?_) c
          split
          · exact Steady.pure 0
          · refine (steady_sumOver fun s hs => htree fun hboth => hboth.2 s hs).bind fun _ => ?_
            exact (ih fun hboth => hcollection hboth.1).bind fun _ => Steady.pure _

theorem steady_deleteAfter {descendants : DocumentKey → Action (Client (Watched σ)) Nat}
    {key : DocumentKey} (h : Steady sound (descendants key)) :
    Steady sound (deleteAfter ds.watched descendants key) := by
  unfold deleteAfter
  refine h.bind fun removed => ?_
  dsimp only
  split
  · exact (Steady.log _ _ _).bind fun _ => Steady.commit_bind fun _ => Steady.pure _
  · exact Steady.commit_bind fun _ => Steady.pure _

/-- The walk below a document. -/
theorem steady_descendantsIn (rounds : Nat) {key : DocumentKey}
    (hkey : sound → key.path.isDocument = true) :
    Steady sound (descendantsIn ds.watched size rounds key) := by
  induction rounds generalizing sound key with
  | zero => exact Steady.pure 0
  | succ rounds ih =>
      refine Steady.collections_bind fun names => steady_sumOver fun name _ => ?_
      refine steady_emptyCollection (fun hkey => steady_deleteAfter (ih hkey)) ?_ _
      exact fun hsound => DocumentKey.isCollection_childCollection (hkey hsound) name

theorem steady_descendants {key : DocumentKey} (hkey : sound → key.path.isDocument = true) :
    Steady sound (descendants ds.watched size key) := fun c =>
  .silent_bind (Action.runOn_state c) rfl (steady_descendantsIn _ hkey c)

end RecursiveDelete

/-! ## Chunks -/

/-- Among the exchanges in going through some chunks, the last one belongs to the chunk that has a
number of chunks before it. -/
inductive InChunk (step : List β → Action (Client (Watched σ)) Unit) :
    List (List β) → List Exchange → Nat → Prop
  /-- The step of the first chunk fails. -/
  | here {chunk : List β} {after : List (List β)} {c c' : Client (Watched σ)} {e : Error}
      {asked : List Exchange} (failed : (step chunk).runOn c = (.error e, c'))
      (h : c'.exchanges = c.exchanges ++ asked) : InChunk step (chunk :: after) asked 0
  /-- The step of the first chunk succeeds. -/
  | later {chunk : List β} {after : List (List β)} {c c' : Client (Watched σ)}
      {asked rest : List Exchange} {n : Nat} (granted : (step chunk).runOn c = (.ok (), c'))
      (h : c'.exchanges = c.exchanges ++ asked) (more : InChunk step after rest n) :
      InChunk step (chunk :: after) (asked ++ rest) (n + 1)

/-- The failure of a commit gets the position of its chunk: there is one commit for each chunk. -/
def AtCommit (total : Nat) (asked : List Exchange) (e e' : Error) : Prop :=
  (∀ x ∈ asked, x.isCommit = true) ∧ e' = e.withChunk asked.length total

/-- A chunk that is written at once is one commit. -/
theorem InChunk.commits {ds : Datastore σ} {chunks : List (List Write)} {asked : List Exchange}
    {n : Nat} (h : InChunk (fun chunk => Client.onStore (ds.watched.commit chunk)) chunks asked n) :
    (∀ x ∈ asked, x.isCommit = true) ∧ asked.length = n + 1 := by
  have hone : ∀ {chunk : List Write} {c c' : Client (Watched σ)} {outcome : Outcome Unit}
      {asked : List Exchange},
      (Client.onStore (ds.watched.commit chunk)).runOn c = (outcome, c') →
      c'.exchanges = c.exchanges ++ asked → ∃ answer, asked = [.commit chunk answer] := by
    intro chunk c c' outcome asked hrun hasked
    obtain ⟨answer, c'', hkeep, hseen⟩ := Watched.runOn_keep (.commit chunk) (ds.commit chunk) c
    obtain ⟨-, rfl⟩ := Prod.mk.inj (hkeep.symm.trans hrun)
    exact ⟨answer, List.append_cancel_left (hasked.symm.trans hseen)⟩
  induction h with
  | here failed h =>
      obtain ⟨answer, rfl⟩ := hone failed h
      simp [Exchange.isCommit]
  | later granted h _ ih =>
      obtain ⟨answer, rfl⟩ := hone granted h
      refine ⟨fun x hx => ?_, by simp [ih.2]⟩
      rcases List.mem_cons.1 hx with rfl | hx
      · rfl
      · exact ih.1 x hx

namespace Batcher

variable {sound : Prop} {ds : Datastore σ} {size : Nat}
  {step : List β → Action (Client (Watched σ)) Unit}

/-- The exchanges of a mutation with its store. -/
def exchanges (b : Batcher (Watched σ)) : List Exchange := b.client.exchanges

theorem exchanges_congr {b b' : Batcher (Watched σ)} (h : b'.client.store = b.client.store) :
    exchanges b' = exchanges b := congrArg Watched.exchanges h

/-- Going to a phase before the rest of a mutation. -/
theorem enter_bind {allowed : List Exchange → Prop}
    {shown : List Exchange → Error → Error → Prop} {phase : Phase}
    {f : Unit → Action (Batcher (Watched σ)) α} {b : Batcher (Watched σ)}
    (hf : ∀ b', Course exchanges allowed shown (f ()) b') :
    Course exchanges allowed shown (enter phase >>= f) b := by
  obtain ⟨b', henter, hstore, -⟩ := runOn_enter phase b
  exact .silent_bind henter (exchanges_congr hstore) (hf b')

/-- **Chunks one after the other.**  The failure of a chunk gets its position. -/
theorem course_eachChunk (total position : Nat) {chunks : List (List β)}
    (hstep : ∀ chunk ∈ chunks, Steady sound (step chunk)) (b : Batcher (Watched σ)) :
    Course exchanges (Misled sound)
      (fun asked e e' => ∃ n, InChunk step chunks asked n ∧ e' = e.withChunk (position + n) total)
      (eachChunk total (fun position chunk => inChunk position total (step chunk)) position chunks)
      b := by
  induction chunks generalizing position b with
  | nil => exact .silent rfl rfl
  | cons chunk after ih =>
      refine enter_bind fun b₁ => ?_
      obtain ⟨asked, hseen, hends⟩ := hstep chunk List.mem_cons_self b₁.client
      cases hrun : (step chunk).runOn b₁.client with
      | mk outcome c =>
        rw [hrun] at hseen hends
        obtain ⟨b₂, hchunk, hstore, -⟩ := runOn_inChunk position total hrun
        have hseen₂ : exchanges b₂ = exchanges b₁ ++ asked := by
          rw [exchanges, Client.exchanges, hstore]
          exact hseen
        have hown : Course exchanges (Misled sound)
            (fun asked e e' => ∃ n, InChunk step (chunk :: after) asked n ∧
              e' = e.withChunk (position + n) total)
            (inChunk position total (step chunk)) b₁ := by
          refine ⟨asked, by rw [hchunk, hseen₂], ?_⟩
          rw [hchunk]
          cases hends with
          | done granted => exact .done granted
          | refused granted h => exact .refused granted h
          | failed granted failure h =>
              subst h
              exact .failed granted failure ⟨0, .here hrun hseen, rfl⟩
        refine hown.bind fun x b₃ asked' hx ht _ => ?_
        obtain ⟨hok, rfl⟩ := Prod.mk.inj (hchunk.symm.trans hx)
        obtain rfl : outcome = .ok () := by
          cases outcome with
          | ok => rfl
          | error => cases hok
        obtain rfl := List.append_cancel_left (ht.symm.trans hseen₂)
        refine (ih (position + 1) (fun other hother =>
          hstep other (List.mem_cons_of_mem _ hother)) _).mono (fun _ => .append) ?_
        intro rest e e' hshown
        obtain ⟨n, hin, rfl⟩ := hshown
        exact ⟨n + 1, .later hrun hseen hin, by rw [Nat.add_right_comm, Nat.add_assoc]⟩

/-- The writes of a mutation go out in commits. -/
theorem course_commitChunks (writes : List Write) (b : Batcher (Watched σ)) :
    Course exchanges (Misled sound) (AtCommit (chunksOf size writes).length)
      (commitChunks ds.watched size writes) b := by
  refine enter_bind fun b₁ => ?_
  have hstep : ∀ chunk ∈ chunksOf size writes,
      Steady sound (Client.onStore (ds.watched.commit chunk)) := fun chunk _ => Steady.commit chunk
  have hloop := course_eachChunk (chunksOf size writes).length 1 hstep b₁
  refine (hloop.mono (fun _ => id) ?_).bind_silent fun _ b₂ => ?_
  · intro asked e e' hshown
    obtain ⟨n, hin, rfl⟩ := hshown
    obtain ⟨hcommits, hlength⟩ := hin.commits
    exact ⟨hcommits, by rw [hlength, Nat.add_comm]⟩
  · obtain ⟨b₃, henter, hstore, -⟩ := runOn_enter .done b₂
    exact ⟨(), b₃, henter, exchanges_congr hstore⟩

/-- Going to the last phase of a mutation. -/
theorem done_silent {x : α} (b : Batcher (Watched σ)) :
    ∃ y b', (enter .done >>= fun _ => pure x :
        Action (Batcher (Watched σ)) α).runOn b = (.ok y, b') ∧
      exchanges b' = exchanges b := by
  obtain ⟨b', henter, hstore, -⟩ := runOn_enter .done b
  exact ⟨x, b', Action.runOn_bind_of_ok henter, exchanges_congr hstore⟩

/-- **Insertions.**  All records are checked before the first commit. -/
theorem course_insert (collection : ResourcePath) (records : List Fields)
    (b : Batcher (Watched σ)) :
    Course exchanges Guarded (AtCommit (chunksOf insertChunk records).length)
      (insert ds.watched collection records) b := by
  refine enter_bind fun b₁ => ?_
  cases hcollection : collection.isCollection with
  | false => exact .refused rfl rfl fun _ => rfl
  | true =>
  simp only [Bool.not_true, Bool.false_eq_true, if_false]
  cases hempty : records.isEmpty with
  | true =>
      obtain ⟨_, b₂, hdone, hseen⟩ := done_silent (x := ([] : List DocumentKey)) b₁
      exact .silent hdone hseen
  | false =>
  simp only [Bool.false_eq_true, if_false]
  refine enter_bind fun b₂ => ?_
  rcases runOn_createWrites hcollection records b₂ with
    ⟨-, writes, b₃, hwrites, hstore, hcreates⟩ | ⟨-, e, b₃, hwrites, hstore⟩
  · have hcommits : Course exchanges (Misled True) (AtCommit (chunksOf insertChunk writes).length)
        (commitChunks ds.watched insertChunk writes) b₃ := course_commitChunks writes b₃
    rw [length_chunksOf_congr hcreates.length_eq.symm] at hcommits
    exact .silent_bind hwrites (exchanges_congr hstore)
      ((hcommits.mono (fun _ => Guarded.of_misled) fun _ _ _ => id).bind_silent
        fun _ b₄ => ⟨_, b₄, rfl, rfl⟩)
  · exact .refused (Action.runOn_bind_of_error hwrites) (exchanges_congr hstore) fun _ => rfl

/-- **Updates.** -/
theorem course_updateEncoded (keys : List DocumentKey) (data : EncodedData)
    (b : Batcher (Watched σ)) :
    Course exchanges (Misled sound) (AtCommit (chunksOf updateChunk keys).length)
      (updateEncoded ds.watched keys data) b := by
  refine enter_bind fun b₁ => ?_
  cases hempty : keys.isEmpty with
  | true =>
      obtain ⟨_, b₂, hdone, hseen⟩ := done_silent (x := 0) b₁
      exact .silent hdone hseen
  | false =>
  simp only [Bool.false_eq_true, if_false]
  let writes := keys.map fun key => Write.set key data.fields data.mask data.increments
  rw [length_chunksOf_congr (show keys.length = writes.length from (List.length_map _).symm)]
  exact (course_commitChunks writes b₁).bind_silent fun _ b₂ => ⟨_, b₂, rfl, rfl⟩

/-- The step of a chunk of deletions: what lies below its documents goes first. -/
def clearChunk (ds : Datastore σ) (pageSize : Nat) (chunk : List DocumentKey) :
    Action (Client σ) Unit := do
  let _ ← chunk.mapM (RecursiveDelete.descendants ds pageSize)
  Client.onStore (ds.commit (chunk.map .delete))

/-- **Deletions.** -/
theorem course_delete (pageSize : Nat) {keys : List DocumentKey}
    (hkeys : sound → ∀ key ∈ keys, key.path.isDocument = true) (b : Batcher (Watched σ)) :
    Course exchanges (Misled sound)
      (fun asked e e' => ∃ n,
        InChunk (clearChunk ds.watched pageSize) (chunksOf deleteChunk keys) asked n ∧
          e' = e.withChunk (n + 1) (chunksOf deleteChunk keys).length)
      (delete ds.watched pageSize keys) b := by
  refine enter_bind fun b₁ => ?_
  cases hempty : keys.isEmpty with
  | true =>
      obtain ⟨_, b₂, hdone, hseen⟩ := done_silent (x := 0) b₁
      exact .silent hdone hseen
  | false =>
  simp only [Bool.false_eq_true, if_false]
  refine enter_bind fun b₂ => enter_bind fun b₃ => ?_
  have hchunk : ∀ chunk ∈ chunksOf deleteChunk keys,
      Steady sound (clearChunk ds.watched pageSize chunk) := by
    intro chunk hchunk
    have hmem : ∀ key ∈ chunk, key ∈ keys := fun key hkey => by
      rw [← (chunksOf_isChunking (show 0 < deleteChunk by decide) keys).flatten_eq]
      exact List.mem_flatten.2 ⟨chunk, hchunk, hkey⟩
    exact (Steady.mapM fun key hkey =>
      RecursiveDelete.steady_descendants fun hsound => hkeys hsound key (hmem key hkey)).bind
        fun _ => Steady.commit _
  refine ((course_eachChunk _ 1 hchunk b₃).mono (fun _ => id) ?_).bind_silent fun _ b₄ =>
    done_silent b₄
  intro asked e e' hshown
  obtain ⟨n, hin, rfl⟩ := hshown
  exact ⟨n, hin, by rw [Nat.add_comm]⟩

end Batcher

end DocStore
