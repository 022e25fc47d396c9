import DocStore.Store.Memory
import DocStore.Proofs.Keyed
import DocStore.Proofs.Outcome
import DocStore.Proofs.Path.Resource
import DocStore.Proofs.Query.Evaluate
import Mathlib.Data.List.Nodup

/-!
# Tables of the store in memory

A table is well formed if it is sorted and holds documents alone (`Memory.WellFormed`).  Commits
of writes to documents keep it so, hence every table that they reach is (`Reachable.wellFormed`).
The requests to the store are described by the table: which documents a page of a collection
shows (`page_keys`), and which collections lie below a document (`mem_collectionsBelow`).
-/

namespace DocStore.Memory

/-! ## Tables -/

/-- The table is sorted and holds documents alone. -/
structure WellFormed (table : Table) : Prop where
  sorted : Keyed.Sorted table
  documents : ∀ e ∈ table, e.1.isDocument = true

/-- A document is in the table. -/
def IsStored (table : Table) (path : ResourcePath) : Prop := path ∈ table.map (·.1)

/-- The tables that commits of writes to documents lead to. -/
inductive Reachable : Table → Prop
  | empty : Reachable []
  | commit {table table' : Table} {now : Timestamp} {writes : List Write}
      (before : Reachable table) (keys : ∀ w ∈ writes, w.key.path.isDocument = true)
      (done : commitTable now table writes = .ok table') : Reachable table'

section Tables

variable {table table' : Table} {now : Timestamp}

theorem isStored_iff {path : ResourcePath} : IsStored table path ↔ ∃ e ∈ table, e.1 = path :=
  List.mem_map

theorem IsStored.of_mem {e : ResourcePath × Stored} (h : e ∈ table) : IsStored table e.1 :=
  List.mem_map_of_mem h

theorem IsStored.of_sublist (hsub : table'.Sublist table) {path : ResourcePath}
    (h : IsStored table' path) : IsStored table path :=
  (hsub.map _).subset h

namespace WellFormed

theorem isDocument (h : WellFormed table) {path : ResourcePath} (hpath : IsStored table path) :
    path.isDocument = true := by
  obtain ⟨e, he, rfl⟩ := isStored_iff.1 hpath
  exact h.documents e he

theorem sublist (h : WellFormed table) (hsub : table'.Sublist table) : WellFormed table' where
  sorted := h.sorted.sublist hsub
  documents e he := h.documents e (hsub.subset he)

theorem insert (h : WellFormed table) {path : ResourcePath} (hpath : path.isDocument = true)
    (stored : Stored) : WellFormed (Keyed.insert path stored table) where
  sorted := h.sorted.insert
  documents e he := by
    rcases (Keyed.mem_insert h.sorted).1 he with rfl | ⟨he, -⟩
    · exact hpath
    · exact h.documents e he

/-- A write to a document keeps a table well formed. -/
theorem applyWrite (h : WellFormed table) {write : Write}
    (hkey : write.key.path.isDocument = true)
    (hdone : applyWrite now table write = .ok table') : WellFormed table' := by
  cases write with
  | create key data increments =>
      rw [Memory.applyWrite] at hdone
      split at hdone
      · cases hdone
      · cases hdone
        exact h.insert hkey _
  | set key data mask increments =>
      cases hdone
      exact h.insert hkey _
  | delete key =>
      cases hdone
      exact h.sublist Keyed.erase_sublist

/-- A commit of writes to documents keeps a table well formed. -/
theorem commitTable {writes : List Write} (h : WellFormed table)
    (hkeys : ∀ w ∈ writes, w.key.path.isDocument = true)
    (hdone : commitTable now table writes = .ok table') : WellFormed table' := by
  induction writes generalizing table with
  | nil =>
      cases hdone
      exact h
  | cons write rest ih =>
      obtain ⟨next, hwrite, hrest⟩ := Outcome.bind_eq_ok.1 hdone
      refine ih (h.applyWrite (hkeys write List.mem_cons_self) hwrite) ?_ hrest
      exact fun w hw => hkeys w (List.mem_cons_of_mem _ hw)

end WellFormed

/-- Every table that commits lead to is well formed. -/
theorem Reachable.wellFormed (h : Reachable table) : WellFormed table := by
  induction h with
  | empty => exact ⟨.nil, by simp⟩
  | commit _ hkeys hdone ih => exact ih.commitTable hkeys hdone

/-- A document is created unless it is there. -/
theorem commitTable_create_eq_ok {key : DocumentKey}
    {data : Fields} {increments : List Increment} :
    commitTable now table [.create key data increments] = .ok table' ↔
      Keyed.get? key.path table = none ∧
        Keyed.insert key.path ⟨applyIncrements data increments, now, now⟩ table = table' := by
  rw [commitTable, List.foldlM_cons, applyWrite, Outcome.bind_eq_ok]
  cases Keyed.get? key.path table with
  | none => simp
  | some stored => simp

/-- A document is written over whether it is there or not. -/
theorem commitTable_set (now : Timestamp) (table : Table) (key : DocumentKey) (data : Fields)
    (mask : Option (List FieldPath)) (increments : List Increment) :
    ∃ stored, commitTable now table [.set key data mask increments]
      = .ok (Keyed.insert key.path stored table) :=
  ⟨_, rfl⟩

/-- A merge into a document takes the fields at its mask, and keeps the time of creation. -/
theorem commitTable_merge (now : Timestamp) (key : DocumentKey) {stored : Stored}
    (hstored : Keyed.get? key.path table = some stored) (data : Fields) (mask : List FieldPath) :
    commitTable now table [.set key data (some mask) []]
      = .ok (Keyed.insert key.path
          ⟨applyMask stored.fields data mask, stored.createTime, now⟩ table) := by
  rw [commitTable, List.foldlM_cons, applyWrite, hstored]
  rfl

/-- A commit of deletions takes the documents away that are there. -/
theorem commitTable_deletes (now : Timestamp) (hsorted : Keyed.Sorted table)
    (keys : List DocumentKey) :
    ∃ table', commitTable now table (keys.map .delete) = .ok table' ∧ table'.Sublist table ∧
      ∀ e, e ∈ table' ↔ e ∈ table ∧ ∀ key ∈ keys, e.1 ≠ key.path := by
  induction keys generalizing table with
  | nil => exact ⟨table, rfl, .refl _, by simp⟩
  | cons key rest ih =>
      obtain ⟨table', hrest, hsub, hmem⟩ := @ih (Keyed.erase key.path table) hsorted.erase
      refine ⟨table', hrest, hsub.trans Keyed.erase_sublist, fun e => ?_⟩
      rw [hmem, Keyed.mem_erase hsorted, List.forall_mem_cons, and_assoc]

/-! ## Reading -/

/-- The documents that can be read from a source. -/
theorem candidates_keys (source : Source) :
    (candidates now source table).map (·.key)
      = (table.map (·.1)).filterMap fun path =>
          if path.isDocument && source.contains ⟨path⟩ then some ⟨path⟩ else none := by
  rw [candidates, List.map_filterMap, List.filterMap_map]
  congr 1
  funext e
  by_cases h : (e.1.isDocument && source.contains ⟨e.1⟩) = true
  · show Option.map _ (if _ then _ else _) = if _ then _ else _
    rw [if_pos h, if_pos h]
    rfl
  · show Option.map _ (if _ then _ else _) = if _ then _ else _
    rw [if_neg h, if_neg h]
    rfl

theorem mem_candidates {source : Source} {s : Snapshot} :
    s ∈ candidates now source table ↔
      ∃ path stored, (path, stored) ∈ table ∧ path.isDocument = true ∧
        source.contains ⟨path⟩ = true ∧ s = stored.snapshot ⟨path⟩ now := by
  rw [candidates, List.mem_filterMap]
  constructor
  · intro hsome
    obtain ⟨⟨path, stored⟩, he, hs⟩ := hsome
    dsimp only at hs
    split at hs
    next hsource =>
      cases hs
      rw [Bool.and_eq_true] at hsource
      exact ⟨path, stored, he, hsource.1, hsource.2, rfl⟩
    · cases hs
  · intro hsome
    obtain ⟨path, stored, he, hdocument, hsource, rfl⟩ := hsome
    refine ⟨(path, stored), he, ?_⟩
    dsimp only
    rw [hdocument, hsource]
    rfl

/-- What can be read exists in the source. -/
theorem candidates_selected {source : Source} {s : Snapshot}
    (h : s ∈ candidates now source table) :
    (s.exists? && source.contains s.key) = true := by
  obtain ⟨path, stored, -, -, hsource, rfl⟩ := mem_candidates.1 h
  exact hsource

/-- Only stored documents are read. -/
theorem isStored_of_mem_candidates {source : Source} {key : DocumentKey}
    (h : key ∈ (candidates now source table).map (·.key)) : IsStored table key.path := by
  obtain ⟨s, hs, rfl⟩ := List.mem_map.1 h
  obtain ⟨path, stored, hstored, -, -, rfl⟩ := mem_candidates.1 hs
  exact List.mem_map_of_mem hstored

/-- No document is read twice. -/
theorem nodup_candidates_keys (now : Timestamp) (hwf : WellFormed table) (source : Source) :
    ((candidates now source table).map (·.key)).Nodup := by
  rw [candidates_keys]
  refine List.Nodup.filterMap ?_ hwf.sorted.nodup_keys
  intro a b key ha hb
  split at ha
  · split at hb
    · cases ha
      cases hb
      rfl
    · cases hb
  · cases ha

/-- The documents that can be read from a collection are those directly below it. -/
theorem mem_candidates_keys (hwf : WellFormed table) {collection : ResourcePath}
    {key : DocumentKey} :
    key ∈ (candidates now (.collection collection) table).map (·.key) ↔
      IsStored table key.path ∧ key.path.parent = collection := by
  rw [candidates_keys, List.mem_filterMap]
  constructor
  · intro hboth
    obtain ⟨path, hpath, hkey⟩ := hboth
    split at hkey
    next hsource =>
      cases hkey
      simp only [Source.contains, DocumentKey.collection, Bool.and_eq_true, beq_iff_eq]
        at hsource
      exact ⟨hpath, hsource.2⟩
    · cases hkey
  · intro hboth
    obtain ⟨hstored, hparent⟩ := hboth
    refine ⟨key.path, hstored, ?_⟩
    rw [if_pos]
    simp [Source.contains, DocumentKey.collection, hwf.isDocument hstored, hparent]

/-- A query without filters, offset and limit gives all the documents of its source that its cursors
leave. -/
theorem mem_found {q : StoreQuery} (hfilters : q.filters = []) (hoffset : q.offset = none)
    (hlimit : q.limit = none) {key : DocumentKey} :
    key ∈ (q.run (candidates now q.source table)).map (·.key) ↔
      ∃ stored, (key.path, stored) ∈ table ∧ key.path.isDocument = true ∧
        q.source.contains key = true ∧
        q.start.all (fun c => (c.normal q.source q.effectiveOrders).admitsFrom q.effectiveOrders
          (stored.snapshot key now)) = true ∧
        q.stop.all (fun c => (c.normal q.source q.effectiveOrders).admitsUpTo q.effectiveOrders
          (stored.snapshot key now)) = true := by
  rw [StoreQuery.mem_run_keys hoffset hlimit]
  constructor
  · intro hsome
    obtain ⟨s, hs, rfl, -, hcursors⟩ := hsome
    obtain ⟨path, stored, he, hdocument, hsource, rfl⟩ := mem_candidates.1 hs
    exact ⟨stored, he, hdocument, hsource, hcursors⟩
  · intro hsome
    obtain ⟨stored, he, hdocument, hsource, hcursors⟩ := hsome
    refine ⟨stored.snapshot key now, mem_candidates.2 ⟨_, stored, he, hdocument, hsource, rfl⟩, rfl,
      ?_, hcursors⟩
    unfold StoreQuery.selects
    rw [hfilters]
    simpa [Stored.snapshot, Snapshot.exists?] using hsource

/-- A page of a collection shows the first of its documents, in some order and each once. -/
theorem page_keys (now : Timestamp) (hwf : WellFormed table) (collection : ResourcePath)
    (projection : Option (List FieldPath)) (n : Nat) :
    ∃ all : List DocumentKey, all.Nodup ∧
      (∀ key, key ∈ all ↔ IsStored table key.path ∧ key.path.parent = collection) ∧
      (({ source := .collection collection, projection, limit := some n } : StoreQuery).run
        (candidates now (.collection collection) table)).map (·.key) = all.take n := by
  obtain ⟨all, hperm, hrun⟩ := StoreQuery.run_page (.collection collection) projection n
    (candidates now (.collection collection) table)
  rw [List.filter_eq_self.2 fun s hs => candidates_selected hs] at hperm
  exact ⟨all, hperm.nodup_iff.2 (nodup_candidates_keys now hwf _),
    fun key => hperm.mem_iff.trans (mem_candidates_keys hwf), hrun⟩

/-- The collections below a document are those of the documents beneath it. -/
theorem mem_collectionsBelow {key : DocumentKey} {name : String} :
    name ∈ collectionsBelow key table ↔
      ∃ path, IsStored table path ∧ key.path.isAncestorOf path = true ∧
        path.segments[key.path.size]? = some name := by
  rw [collectionsBelow, Keyed.mem_keys_ofList, List.map_filterMap, List.mem_filterMap]
  constructor
  · intro hboth
    obtain ⟨e, he, hname⟩ := hboth
    by_cases habove : key.path.isAncestorOf e.1 = true
    · exact ⟨e.1, .of_mem he, habove, by simpa [habove] using hname⟩
    · simp [habove] at hname
  · intro hboth
    obtain ⟨path, hstored, habove, hname⟩ := hboth
    obtain ⟨e, he, rfl⟩ := isStored_iff.1 hstored
    exact ⟨e, he, by simp [habove, hname]⟩

/-- No collection is listed twice. -/
theorem collectionsBelow_nodup (key : DocumentKey) (table : Table) :
    (collectionsBelow key table).Nodup :=
  (Keyed.sorted_ofList _).nodup_keys

end Tables

/-! ## Requests -/

theorem runOn_query (q : StoreQuery) (s : State) :
    (datastore.query q).runOn s
      = (.ok (q.run (candidates s.clock.now q.source s.table)),
          { s with clock := s.clock.tick }) := rfl

theorem runOn_get_of_stored {key : DocumentKey} {s : State} {stored : Stored}
    (hstored : Keyed.get? key.path s.table = some stored) :
    (datastore.get key).runOn s
      = (.ok (stored.snapshot key s.clock.now), { s with clock := s.clock.tick }) := by
  have hclock : readClock.runOn s = (.ok s.clock.now, { s with clock := s.clock.tick }) := rfl
  dsimp only [datastore]
  rw [Action.runOn_bind_of_ok hclock, Action.runOn_bind_of_ok (Action.runOn_state _)]
  dsimp only
  rw [hstored]
  rfl

theorem runOn_collections (key : DocumentKey) (s : State) :
    (datastore.collections key).runOn s = (.ok (collectionsBelow key s.table), s) := rfl

/-- A commit of the store: its outcome, the table if it succeeds, and one more reading of the
clock. -/
theorem runOn_commit (writes : List Write) (s : State) :
    (datastore.commit writes).runOn s =
      match commitTable s.clock.now s.table writes with
      | .ok table => (.ok (), { table, clock := s.clock.tick })
      | .error e => (.error e, { s with clock := s.clock.tick }) := by
  have hrun : (datastore.commit writes).runOn s
      = (Action.ofOutcome (commitTable s.clock.now s.table writes) >>= fun table =>
          Action.update fun s => { s with table }).runOn { s with clock := s.clock.tick } := rfl
  rw [hrun, Action.runOn_bind, Action.runOn_ofOutcome]
  cases commitTable s.clock.now s.table writes <;> rfl

theorem commitTable_of_runOn_commit {writes : List Write} {s s' : State}
    (h : (datastore.commit writes).runOn s = (.ok (), s')) :
    commitTable s.clock.now s.table writes = .ok s'.table := by
  rw [runOn_commit] at h
  split at h
  next hdone =>
    rw [hdone, ← (Prod.mk.inj h).2]
  next => cases (Prod.mk.inj h).1

/-- A commit that fails leaves the table as it was. -/
theorem table_of_runOn_commit {writes : List Write} {s s' : State} {e : Error}
    (h : (datastore.commit writes).runOn s = (.error e, s')) : s'.table = s.table := by
  rw [runOn_commit] at h
  split at h
  next => cases (Prod.mk.inj h).1
  next => rw [← (Prod.mk.inj h).2]

/-- A deletion always succeeds. -/
theorem runOn_delete (key : DocumentKey) (s : State) :
    (datastore.commit [.delete key]).runOn s
      = (.ok (), { table := Keyed.erase key.path s.table, clock := s.clock.tick }) := rfl

end DocStore.Memory
