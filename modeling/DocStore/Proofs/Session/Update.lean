import DocStore.Proofs.Session.Reading
import DocStore.Proofs.Store.History

/-!
# Updates of the documents of a query

An update merges data into the documents that its query gives, a chunk of a hundred after the other.
A merge into a table in memory never fails, and changes the document at its key alone.  A query
gives no document twice, so each document gets one merge, whatever the chunks are (`MergedInto`).

The main statement, `update_merges_into_matches`, is about every table and every query that can be
run: the update gives the number of the documents of the query, and merges into these and no others.
-/

namespace DocStore

namespace Memory

variable {table table' : Table} {keys : List DocumentKey} {data : EncodedData}

/-! ## Merges -/

/-- Encoded data is merged into the documents at some keys, and nothing else changes. -/
structure MergedInto (keys : List DocumentKey) (data : EncodedData) (mask : List FieldPath)
    (table table' : Table) : Prop where
  sorted : Keyed.Sorted table'
  /-- No other document is changed, and none is created. -/
  elsewhere : ∀ path, (∀ key ∈ keys, key.path ≠ path) →
    Keyed.get? path table' = Keyed.get? path table
  /-- A document has the fields of one merge, and keeps its time of creation. -/
  merged : ∀ key ∈ keys, ∃ stored now, Keyed.get? key.path table = some stored ∧
    Keyed.get? key.path table' = some
      ⟨applyIncrements (applyMask stored.fields data.fields mask) data.increments,
        stored.createTime, now⟩

/-- The write that merges data into a document. -/
def mergeWrite (data : EncodedData) (key : DocumentKey) : Write :=
  .set key data.fields data.mask data.increments

/-- Commits one after the other apply their writes, each at some time. -/
theorem applied_of_commits {chunks : List (List Write)} {s t : State}
    (h : Commits datastore chunks s t) (hsorted : Keyed.Sorted s.table) :
    ∃ written : List (Timestamp × Write), written.map (·.2) = chunks.flatten ∧
      Applied written s.table t.table := by
  induction h with
  | none s => exact ⟨[], rfl, hsorted, fun _ => rfl⟩
  | @next chunk rest s t u here _ ih =>
      have hdone := commitTable_of_runOn_commit here
      rcases commitTable_cases hsorted s.clock.now chunk with
        ⟨key, -, hfail⟩ | ⟨-, next, hok, happlied⟩
      · rw [hfail] at hdone
        cases hdone
      · rw [hok] at hdone
        cases hdone
        obtain ⟨later, hlater, hrest⟩ := ih happlied.sorted
        refine ⟨stamped s.clock.now chunk ++ later, ?_, happlied.append hrest⟩
        rw [List.map_append, hlater, List.flatten_cons, stamped, List.map_map]
        simp [Function.comp_def]

/-- Writes that create nothing are delivered. -/
theorem commits_of_delivery {chunks : List (List Write)} {s t : State} {sent : Nat}
    {outcome : Outcome Unit} {phase : Phase}
    (hwrites : ∀ chunk ∈ chunks, ∀ w ∈ chunk, ∀ key data increments,
      w ≠ .create key data increments)
    (hsorted : Keyed.Sorted s.table) (h : Delivery datastore chunks s sent outcome phase t) :
    outcome = .ok () ∧ Commits datastore chunks s t := by
  cases h with
  | complete applied => exact ⟨rfl, applied⟩
  | @stopped before after chunk u _ e split applied failed =>
      exfalso
      obtain ⟨_, -, happlied⟩ := applied_of_commits applied hsorted
      have hchunk := hwrites chunk (split ▸ List.mem_append_right _ List.mem_cons_self)
      rcases commitTable_cases happlied.sorted u.clock.now chunk with
        ⟨key, hclash, -⟩ | ⟨-, _, hok, -⟩
      · exact not_clashesAt_of_not_create hchunk key hclash
      · rw [runOn_commit, hok] at failed
        cases failed

/-- What one of some writes to different documents leaves at its key. -/
theorem heldAfter_of_nodup {written : List (Timestamp × Write)}
    (hnodup : (written.map (·.2.key.path)).Nodup) {held : Option Stored} {now : Timestamp}
    {w : Write} (hw : (now, w) ∈ written) :
    heldAfter w.key.path held written = effect now held w := by
  obtain ⟨earlier, later, rfl⟩ := List.append_of_mem hw
  rw [List.map_append, List.map_cons, List.nodup_append] at hnodup
  obtain ⟨-, hlater, hapart⟩ := hnodup
  have hbefore : heldAfter w.key.path held earlier = held :=
    heldAfter_of_not_written fun other hother =>
      hapart _ (List.mem_map_of_mem hother) _ List.mem_cons_self
  have hafter : heldAfter w.key.path (effect now held w) later = effect now held w :=
    heldAfter_of_not_written fun other hother heq =>
      (List.nodup_cons.1 hlater).1 (heq ▸ List.mem_map_of_mem hother)
  calc heldAfter w.key.path held (earlier ++ (now, w) :: later)
      = heldAfter w.key.path held ((now, w) :: later) := by rw [heldAfter_append, hbefore]
    _ = heldAfter w.key.path (effect now held w) later := by
        rw [heldAfter, List.foldl_cons, if_pos rfl, heldAfter]
    _ = effect now held w := hafter

/-- **Merges.**  Merges into different documents that are there change each of them once. -/
theorem mergedInto_of_applied {written : List (Timestamp × Write)} {mask : List FieldPath}
    (hmask : data.mask = some mask) (hwritten : written.map (·.2) = keys.map (mergeWrite data))
    (hnodup : keys.Nodup) (hstored : ∀ key ∈ keys, IsStored table key.path)
    (h : Applied written table table') : MergedInto keys data mask table table' := by
  have hpaths : written.map (·.2.key.path) = keys.map (·.path) := by
    have hmap := congrArg (List.map (·.key.path)) hwritten
    simpa [Function.comp_def, mergeWrite, Write.key] using hmap
  refine ⟨h.sorted, fun path hpath => ?_, fun key hkey => ?_⟩
  · rw [h.held]
    refine heldAfter_of_not_written fun w hw heq => ?_
    have hmem : path ∈ keys.map (·.path) := hpaths ▸ heq ▸ List.mem_map_of_mem hw
    obtain ⟨key, hkey, hsame⟩ := List.mem_map.1 hmem
    exact hpath key hkey hsame
  · obtain ⟨⟨now, w⟩, hw, hwrite⟩ : ∃ w ∈ written, w.2 = mergeWrite data key :=
      List.mem_map.1 (hwritten ▸ List.mem_map_of_mem hkey)
    obtain rfl : w = mergeWrite data key := hwrite
    obtain ⟨stored, hheld⟩ := Option.isSome_iff_exists.1 (Keyed.get?_isSome.2 (hstored key hkey))
    have hunique : (written.map (·.2.key.path)).Nodup := by
      rw [hpaths]
      refine hnodup.map fun a b hab => ?_
      cases a
      cases b
      cases hab
      rfl
    have hone : heldAfter key.path (some stored) written
        = effect now (some stored) (mergeWrite data key) := heldAfter_of_nodup hunique hw
    refine ⟨stored, now, hheld, ?_⟩
    rw [h.held, hheld, hone, mergeWrite, hmask]
    rfl

end Memory

/-! ## The documents of a query -/

namespace Batcher

/-- An update of documents that are there merges the data into each of them. -/
theorem runOn_updateEncoded_merges {keys : List DocumentKey} {data : EncodedData}
    {mask : List FieldPath} (hmask : data.mask = some mask) (hnodup : keys.Nodup)
    {b : Batcher Memory.State} (hsorted : Keyed.Sorted b.client.store.table)
    (hstored : ∀ key ∈ keys, Memory.IsStored b.client.store.table key.path) :
    ∃ b', (updateEncoded Memory.datastore keys data).runOn b = (.ok keys.length, b') ∧
      Memory.MergedInto keys data mask b.client.store.table b'.client.store.table := by
  obtain ⟨b₁, hbuild, hstore₁, -⟩ := runOn_enter .building b
  unfold updateEncoded
  rw [Action.runOn_bind_of_ok hbuild]
  cases hempty : keys.isEmpty with
  | true =>
      obtain rfl := List.isEmpty_iff.1 hempty
      obtain ⟨b₂, hdone, hstore₂, -⟩ := runOn_enter .done b₁
      refine ⟨b₂, Action.runOn_bind_of_ok hdone, ?_⟩
      rw [hstore₂, hstore₁]
      exact ⟨hsorted, fun _ _ => rfl, by simp⟩
  | false =>
      simp only [Bool.false_eq_true, if_false]
      let writes := keys.map (Memory.mergeWrite data)
      obtain ⟨sent, outcome, b₂, hcommits, hdelivery⟩ :=
        runOn_commitChunks Memory.datastore updateChunk writes b₁
      have hflatten := (chunksOf_isChunking (show 0 < updateChunk by decide) writes).flatten_eq
      have hmerges : ∀ chunk ∈ chunksOf updateChunk writes, ∀ w ∈ chunk, ∀ key data increments,
          w ≠ .create key data increments := by
        intro chunk hchunk w hw key data increments heq
        have hmem : w ∈ writes := hflatten ▸ List.mem_flatten.2 ⟨chunk, hchunk, hw⟩
        obtain ⟨_, -, rfl⟩ := List.mem_map.1 hmem
        cases heq
      rw [hstore₁] at hdelivery
      obtain ⟨rfl, happlied⟩ := Memory.commits_of_delivery hmerges hsorted hdelivery
      obtain ⟨written, hwritten, happlied⟩ := Memory.applied_of_commits happlied hsorted
      refine ⟨b₂, Action.runOn_bind_of_ok hcommits, ?_⟩
      exact Memory.mergedInto_of_applied hmask (hwritten.trans hflatten) hnodup hstored happlied

end Batcher

/-! ## The data of an update -/

/-- Data without fields besides the document id writes nothing. -/
theorem stripDocumentId_eq_nil_iff {data : Fields} (hsorted : Keyed.Sorted data) :
    (stripDocumentId data).1 = [] ↔ ∀ field ∈ data, field.1 = FieldPath.documentIdName := by
  unfold stripDocumentId
  cases hid : Keyed.get? FieldPath.documentIdName data with
  | some id =>
      rw [List.eq_nil_iff_forall_not_mem]
      simp only [Keyed.mem_erase hsorted, not_and, not_not]
  | none =>
      have hnone : ∀ field ∈ data, field.1 ≠ FieldPath.documentIdName := fun field hfield heq =>
        Keyed.get?_eq_none.1 hid (heq ▸ List.mem_map_of_mem hfield)
      rw [List.eq_nil_iff_forall_not_mem]
      exact forall_congr' fun field =>
        ⟨fun hnot hmem => absurd hmem hnot, fun hall hmem => hnone field hmem (hall hmem)⟩

/-- An update writes nothing if there is nothing besides the document id. -/
theorem encodeUpdate_none_iff {data : Fields} {encoded? : Option EncodedData}
    (h : encodeUpdate data = .ok encoded?) : encoded? = none ↔ (stripDocumentId data).1 = [] := by
  unfold encodeUpdate at h
  dsimp only at h
  split at h
  next hempty =>
    cases h
    exact ⟨fun _ => List.isEmpty_iff.1 hempty, fun _ => rfl⟩
  next hsome =>
    cases hset : encodeSet true (stripDocumentId data).1 with
    | error e =>
        rw [hset] at h
        cases h
    | ok encoded =>
        rw [hset] at h
        cases h
        exact ⟨(fun hnone => by cases hnone), fun hnil => absurd (List.isEmpty_iff.2 hnil) hsome⟩

/-- The data of an update has a mask, if there is any. -/
theorem mask_of_encodeUpdate {data : Fields} {encoded : EncodedData}
    (h : encodeUpdate data = .ok (some encoded)) : ∃ mask, encoded.mask = some mask := by
  unfold encodeUpdate at h
  dsimp only at h
  split at h
  · cases h
  · cases hset : encodeSet true (stripDocumentId data).1 with
    | error e =>
        rw [hset] at h
        cases h
    | ok encoded' =>
        rw [hset] at h
        cases h
        obtain ⟨parts, -, hparts⟩ := Outcome.bind_eq_ok.1 hset
        rw [if_pos rfl] at hparts
        dsimp only at hparts
        split at hparts
        · cases hparts
        · cases hparts
          exact ⟨_, rfl⟩

namespace Session

variable {database : DatabaseId} {pageSize : Nat} {s s₁ : Session Memory.State} {q : QueryState}
  {documents : List Snapshot}

/-- Where a query can be run and data has been encoded, an update comes down to its operation. -/
theorem update_eq (c : Connection Memory.State) {n : StoreQuery} (hquery : q.toStoreQuery = .ok n)
    {data : Fields} {encoded? : Option EncodedData} (hencode : encodeUpdate data = .ok encoded?) :
    ∃ statement, c.update q data = (do
      let count ← run statement 0 (match encoded? with
        | none => pure 0
        | some encoded => do
          let keys ← c.matchingKeys { n with projection := some [.documentId] }
          Client.mutate (Batcher.updateEncoded c.store keys encoded))
      Action.update (noteModified (0 < count))
      return count) := by
  obtain ⟨statement, hstatement⟩ := QueryState.mutationStatement_of_toStoreQuery hquery _
  refine ⟨statement, ?_⟩
  unfold Connection.update QueryState.updateStatement
  rw [hstatement, QueryState.identityQuery_of_toStoreQuery hquery, hencode]
  rfl

variable (database pageSize) in
/-- The update of a query that can be run does nothing where the data has nothing to write. -/
theorem update_of_nothing (hlistens : s.pretending = false) {n : StoreQuery}
    (hquery : q.toStoreQuery = .ok n) {data : Fields} (hencode : encodeUpdate data = .ok none) :
    ∃ s₂, ((Connection.inMemory database pageSize).update q data).runOn s = (.ok 0, s₂) ∧
      s₂.client.store.table = s.client.store.table := by
  obtain ⟨statement, hupdate⟩ := update_eq (.inMemory database pageSize) hquery hencode
  obtain ⟨s₂, hrun, hclient, -⟩ :=
    runOn_run_of_ok statement 0 hlistens (Action.runOn_pure (0 : Nat) s.client)
  refine ⟨s₂.noteModified false, ?_, by rw [noteModified_client, hclient]⟩
  rw [hupdate]
  exact Action.runOn_bind_of_ok hrun

variable (database pageSize) in
/-- The update of a query that can be run merges the data into the documents of the query. -/
theorem update_of_encoded (hlistens : s.pretending = false)
    (hwf : Memory.WellFormed s.client.store.table) {n : StoreQuery}
    (hquery : q.toStoreQuery = .ok n)
    (hdocuments : documents = n.run
      (Memory.candidates s.client.store.clock.now n.source s.client.store.table))
    {data : Fields} {encoded : EncodedData} {mask : List FieldPath}
    (hencode : encodeUpdate data = .ok (some encoded)) (hmask : encoded.mask = some mask) :
    ∃ s₂, ((Connection.inMemory database pageSize).update q data).runOn s
        = (.ok documents.length, s₂) ∧
      Memory.MergedInto (documents.map (·.key)) encoded mask s.client.store.table
        s₂.client.store.table := by
  obtain ⟨statement, hupdate⟩ := update_eq (.inMemory database pageSize) hquery hencode
  obtain ⟨client₁, hkeys, htable⟩ := Connection.runOn_matchingKeys_eq database pageSize
    { n with projection := some [.documentId] } s.client
  have hnodup : (documents.map (·.key)).Nodup := by
    rw [hdocuments]
    exact n.nodup_run_keys (Memory.nodup_candidates_keys _ hwf _)
  have hstored : ∀ key ∈ documents.map (·.key), Memory.IsStored client₁.store.table key.path := by
    intro key hkey
    rw [hdocuments] at hkey
    rw [htable]
    exact Memory.isStored_of_mem_candidates (StoreQuery.mem_keys_of_mem_run_keys hkey)
  obtain ⟨b, hmerges, hmerged⟩ := Batcher.runOn_updateEncoded_merges
    (b := { client := client₁ }) hmask hnodup (htable ▸ hwf.sorted) hstored
  rw [n.map_key_run_projection, ← hdocuments] at hkeys
  have hoperation : ((Connection.inMemory database pageSize).matchingKeys
        { n with projection := some [.documentId] } >>= fun keys =>
          Client.mutate (Batcher.updateEncoded Memory.datastore keys encoded)).runOn s.client
      = (.ok (documents.map (·.key)).length, b.client) :=
    (Action.runOn_bind_of_ok hkeys).trans (Client.runOn_mutate hmerges)
  obtain ⟨s₂, hrun, hclient, -⟩ := runOn_run_of_ok statement 0 hlistens hoperation
  rw [List.length_map] at hrun
  refine ⟨s₂.noteModified (0 < documents.length), ?_, ?_⟩
  · rw [hupdate]
    exact Action.runOn_bind_of_ok hrun
  · rw [noteModified_client, hclient, ← htable]
    exact hmerged

/-- **Updates.**  The update of a query that can be run gives the number of its documents and merges
the data into each of them once, and into no other document.  Data without fields besides the
document id changes nothing. -/
theorem update_merges_into_matches (hlistens : s.pretending = false)
    (hwf : Memory.WellFormed s.client.store.table)
    (hget : ((Connection.inMemory database pageSize).get q).runOn s = (.ok documents, s₁))
    {data : Fields} (hsorted : Keyed.Sorted data) {encoded? : Option EncodedData}
    (hencode : encodeUpdate data = .ok encoded?) :
    ∃ count s₂, ((Connection.inMemory database pageSize).update q data).runOn s = (.ok count, s₂) ∧
      ((∀ field ∈ data, field.1 = FieldPath.documentIdName) →
        count = 0 ∧ s₂.client.store.table = s.client.store.table) ∧
      ((∃ field ∈ data, field.1 ≠ FieldPath.documentIdName) →
        count = documents.length ∧ ∃ encoded mask, encoded? = some encoded ∧
          encoded.mask = some mask ∧
          Memory.MergedInto (documents.map (·.key)) encoded mask s.client.store.table
            s₂.client.store.table) := by
  obtain ⟨n, hquery, hdocuments⟩ := get_eq_ok hlistens hget
  have hnothing : encoded? = none ↔ ∀ field ∈ data, field.1 = FieldPath.documentIdName :=
    (encodeUpdate_none_iff hencode).trans (stripDocumentId_eq_nil_iff hsorted)
  cases encoded? with
  | none =>
      obtain ⟨s₂, hrun, htable⟩ := update_of_nothing database pageSize hlistens hquery hencode
      refine ⟨0, s₂, hrun, fun _ => ⟨rfl, htable⟩, fun hsome => ?_⟩
      obtain ⟨field, hfield, hne⟩ := hsome
      exact absurd (hnothing.1 rfl field hfield) hne
  | some encoded =>
      obtain ⟨mask, hmask⟩ := mask_of_encodeUpdate hencode
      obtain ⟨s₂, hrun, hmerged⟩ :=
        update_of_encoded database pageSize hlistens hwf hquery hdocuments hencode hmask
      refine ⟨documents.length, s₂, hrun, fun hall => ?_, fun _ => ⟨rfl, ?_⟩⟩
      · cases hnothing.2 hall
      · exact ⟨encoded, mask, rfl, hmask, hmerged⟩

/-- Three users, of whom two are of level 1. -/
def threeUsers : Session Memory.State where
  client := .fresh
    { table := [
        (⟨["users", "ann"]⟩, ⟨[("level", .integer 1)], default, default⟩),
        (⟨["users", "bob"]⟩, ⟨[("level", .integer 2)], default, default⟩),
        (⟨["users", "cem"]⟩, ⟨[("level", .integer 1), ("name", .string "Cem")], default, default⟩)]
      clock := { readings := fun _ => default } }

/-- The two users of level 1 are updated. -/
theorem update_merges_into_matches_level :
    let q := (QueryState.ofTable "users").addWhere "level" "=" (.integer 1)
    let data : Fields := [("level", .integer 7)]
    let encoded : EncodedData := ⟨data, some [⟨["level"]⟩], []⟩
    ∃ documents s₂,
      (((Connection.inMemory default 100).get q).runOn threeUsers).1 = .ok documents ∧
      documents.map (·.id) = ["ann", "cem"] ∧ encodeUpdate data = .ok (some encoded) ∧
      ((Connection.inMemory default 100).update q data).runOn threeUsers = (.ok 2, s₂) ∧
      Memory.MergedInto (documents.map (·.key)) encoded [⟨["level"]⟩]
        threeUsers.client.store.table s₂.client.store.table := by
  intro q data encoded
  have hwf : Memory.WellFormed threeUsers.client.store.table :=
    ⟨by rw [Keyed.Sorted]; decide, by decide⟩
  have hdata : Keyed.Sorted data := List.pairwise_singleton _ _
  have hencode : encodeUpdate data = .ok (some encoded) := rfl
  have hfound : (((Connection.inMemory default 100).get q).runOn threeUsers).1.toOption.map
      (·.map (·.id)) = some ["ann", "cem"] := by decide +kernel
  obtain ⟨documents, hdocuments, hids⟩ := Option.map_eq_some_iff.1 hfound
  rw [Outcome.toOption_eq_some] at hdocuments
  obtain ⟨count, s₂, hrun, -, hmerges⟩ :=
    update_merges_into_matches rfl hwf (Prod.ext hdocuments rfl) hdata hencode
  obtain ⟨hcount, encoded', mask, hsame, hmask, hmerged⟩ :=
    hmerges ⟨_, List.mem_cons_self, by decide⟩
  cases hsame
  cases hmask
  obtain rfl : count = 2 := by rw [hcount, ← List.length_map, hids]; rfl
  exact ⟨documents, s₂, hdocuments, hids, hencode, hrun, hmerged⟩

end Session

end DocStore
