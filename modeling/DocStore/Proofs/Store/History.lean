import DocStore.Proofs.Store.Memory

/-!
# What commits leave in the store

A commit fails if one of its writes creates a document that is there after the writes before it
(`ClashesAt`), and then nothing changes.  Every other commit applies its writes from left to right,
so that what is held at a path afterwards is found by going through the writes to that path
(`heldAfter`).

Over a run of commits only those that succeed count, with the writes of each at its time
(`history`).  A document was created at the time of the write that last found nothing there
(`CreatedAt`), and updated at the time of the last write to it (`UpdatedAt`).  The main statement,
`commits_atomic_and_timed`, holds for every run of commits from an empty store, whichever fail.
-/

namespace DocStore.Memory

/-! ## What is held at a path -/

/-- What a write at a time makes of what is held at its path. -/
def effect (now : Timestamp) (held : Option Stored) : Write → Option Stored
  | .create _ data increments => some ⟨applyIncrements data increments, now, now⟩
  | .set _ data mask increments =>
    let next :=
      match mask with
      | some mask => applyMask ((held.map (·.fields)).getD []) data mask
      | none => data
    some ⟨applyIncrements next increments, (held.map (·.createTime)).getD now, now⟩
  | .delete _ => none

/-- What is held at a path after some writes, each at its time. -/
def heldAfter (path : ResourcePath) (held : Option Stored) (writes : List (Timestamp × Write)) :
    Option Stored :=
  writes.foldl (fun held w => if w.2.key.path = path then effect w.1 held w.2 else held) held

/-- The writes of a commit at its time. -/
def stamped (now : Timestamp) (writes : List Write) : List (Timestamp × Write) :=
  writes.map fun w => (now, w)

/-- Among the writes one creates a document that is there after the writes before it. -/
def ClashesAt (now : Timestamp) (table : Table) (writes : List Write) (key : DocumentKey) : Prop :=
  ∃ before data increments later, writes = before ++ .create key data increments :: later ∧
    (heldAfter key.path (Keyed.get? key.path table) (stamped now before)).isSome = true

section Held

variable {path : ResourcePath} {held : Option Stored} {now : Timestamp} {w : Write}

theorem heldAfter_append (path : ResourcePath) (held : Option Stored)
    (earlier later : List (Timestamp × Write)) :
    heldAfter path held (earlier ++ later) = heldAfter path (heldAfter path held earlier) later :=
  List.foldl_append

/-- Writes elsewhere change nothing. -/
theorem heldAfter_of_not_written {writes : List (Timestamp × Write)}
    (h : ∀ w ∈ writes, w.2.key.path ≠ path) : heldAfter path held writes = held := by
  induction writes generalizing held with
  | nil => rfl
  | cons first rest ih =>
      rw [List.forall_mem_cons] at h
      rw [heldAfter, List.foldl_cons, if_neg h.1]
      exact ih h.2

end Held

/-! ## One write and one commit -/

section Commits

variable {now : Timestamp} {table table' : Table}

/-- The document of a write is there already. -/
def alreadyThere (key : DocumentKey) : Error :=
  .alreadyExists ("Document already exists: " ++ key.path.text)

/-- A table after some writes: still sorted, and changed at their paths alone. -/
structure Applied (writes : List (Timestamp × Write)) (table table' : Table) : Prop where
  sorted : Keyed.Sorted table'
  held : ∀ path, Keyed.get? path table' = heldAfter path (Keyed.get? path table) writes

theorem Applied.append {writes later : List (Timestamp × Write)} {table'' : Table}
    (h : Applied writes table table') (h' : Applied later table' table'') :
    Applied (writes ++ later) table table'' where
  sorted := h'.sorted
  held path := by rw [h'.held, h.held, heldAfter_append]

/-- A write creates a document that is there and fails, or it is applied. -/
theorem applyWrite_cases (h : Keyed.Sorted table) (now : Timestamp) (w : Write) :
    (∃ key data increments, w = .create key data increments ∧
      (Keyed.get? key.path table).isSome = true ∧
      applyWrite now table w = .error (alreadyThere key)) ∨
    ((∀ key data increments, w = .create key data increments → Keyed.get? key.path table = none) ∧
      ∃ table', applyWrite now table w = .ok table' ∧ Applied [(now, w)] table table') := by
  have inserted {key : DocumentKey} {stored : Stored}
      (hkey : w.key = key) (heffect : effect now (Keyed.get? key.path table) w = some stored) :
      Applied [(now, w)] table (Keyed.insert key.path stored table) := by
    refine ⟨h.insert, fun path => ?_⟩
    show _ = if w.key.path = path then _ else _
    split
    next hpath =>
      rw [← hpath, hkey, heffect, Keyed.get?_insert_self]
    next hpath =>
      rw [hkey] at hpath
      exact Keyed.get?_insert_of_ne (Ne.symm hpath)
  cases w with
  | create key data increments =>
      cases hheld : Keyed.get? key.path table with
      | some stored =>
          refine .inl ⟨key, data, increments, rfl, by rw [hheld]; rfl, ?_⟩
          rw [applyWrite, hheld]
          rfl
      | none =>
          refine .inr ⟨?_, _, by rw [applyWrite, hheld]; rfl, inserted rfl rfl⟩
          intro key' data' increments' heq
          cases heq
          exact hheld
  | set key data mask increments => exact .inr ⟨by simp, _, rfl, inserted rfl rfl⟩
  | delete key =>
      refine .inr ⟨by simp, _, rfl, h.erase, fun path => ?_⟩
      show _ = if key.path = path then none else _
      split
      next hpath =>
        rw [← hpath]
        exact Keyed.get?_erase_self h
      next hpath => exact Keyed.get?_erase_of_ne (Ne.symm hpath)

/-- Whether a write clashes is known after the write before it. -/
theorem clashesAt_cons {w : Write} {rest : List Write} {key : DocumentKey}
    (h : Applied [(now, w)] table table') :
    ClashesAt now table (w :: rest) key ↔
      (∃ data increments, w = .create key data increments ∧
        (Keyed.get? key.path table).isSome = true) ∨ ClashesAt now table' rest key := by
  constructor
  · intro hclash
    obtain ⟨before, data, increments, later, hsplit, hheld⟩ := hclash
    cases before with
    | nil =>
        rw [List.nil_append, List.cons.injEq] at hsplit
        exact .inl ⟨data, increments, hsplit.1, hheld⟩
    | cons first before =>
        rw [List.cons_append, List.cons.injEq] at hsplit
        obtain ⟨rfl, rfl⟩ := hsplit
        refine .inr ⟨before, data, increments, later, rfl, ?_⟩
        rw [h.held]
        exact hheld
  · intro hclash
    rcases hclash with ⟨data, increments, rfl, hheld⟩ | hclash
    · exact ⟨[], data, increments, rest, rfl, hheld⟩
    · obtain ⟨before, data, increments, later, rfl, hheld⟩ := hclash
      rw [h.held] at hheld
      exact ⟨w :: before, data, increments, later, rfl, hheld⟩

/-- **Commits.**  A commit fails at a document that one of its writes finds there, or all its writes
are applied. -/
theorem commitTable_cases (h : Keyed.Sorted table) (now : Timestamp) (writes : List Write) :
    (∃ key, ClashesAt now table writes key ∧
      commitTable now table writes = .error (alreadyThere key)) ∨
    ((∀ key, ¬ ClashesAt now table writes key) ∧
      ∃ table', commitTable now table writes = .ok table' ∧
        Applied (stamped now writes) table table') := by
  induction writes generalizing table with
  | nil =>
      refine .inr ⟨fun key hclash => ?_, table, rfl, h, fun _ => rfl⟩
      obtain ⟨before, _, _, _, hsplit, -⟩ := hclash
      cases before <;> cases hsplit
  | cons w rest ih =>
      have hrun : commitTable now table (w :: rest)
          = applyWrite now table w >>= fun table => commitTable now table rest := rfl
      rw [hrun]
      rcases applyWrite_cases h now w with
        ⟨key, data, increments, rfl, hheld, hfail⟩ | ⟨hnew, next, hnext, happlied⟩
      · rw [hfail]
        exact .inl ⟨key, ⟨[], data, increments, rest, rfl, hheld⟩, rfl⟩
      · rw [hnext, Outcome.ok_bind]
        rcases ih happlied.sorted with ⟨key, hclash, hfail⟩ | ⟨hfree, table', hdone, hrest⟩
        · exact .inl ⟨key, (clashesAt_cons happlied).2 (.inr hclash), hfail⟩
        · refine .inr ⟨fun key hclash => ?_, table', hdone, happlied.append hrest⟩
          rcases (clashesAt_cons happlied).1 hclash with ⟨data, increments, hw, hheld⟩ | hclash
          · rw [hnew key data increments hw] at hheld
            cases hheld
          · exact hfree key hclash

/-- A commit that creates nothing succeeds. -/
theorem not_clashesAt_of_not_create {now : Timestamp} {writes : List Write}
    (h : ∀ w ∈ writes, ∀ key data increments, w ≠ .create key data increments) (key : DocumentKey) :
    ¬ ClashesAt now table writes key := by
  intro hclash
  obtain ⟨before, data, increments, later, rfl, -⟩ := hclash
  exact h _ (List.mem_append_right _ List.mem_cons_self) key data increments rfl

end Commits

/-! ## Times -/

section Times

variable {path : ResourcePath} {history : List (Timestamp × Write)}

/-- The document at a path came into existence for the last time by a write of a time: nothing was
held there before, and no later write deletes it. -/
def CreatedAt (path : ResourcePath) (history : List (Timestamp × Write)) (time : Timestamp) :
    Prop :=
  ∃ earlier write later, history = earlier ++ (time, write) :: later ∧
    write.key.path = path ∧ write ≠ .delete ⟨path⟩ ∧ heldAfter path none earlier = none ∧
    ∀ w ∈ later, w.2 ≠ .delete ⟨path⟩

/-- The last write to a path is of a time. -/
def UpdatedAt (path : ResourcePath) (history : List (Timestamp × Write)) (time : Timestamp) :
    Prop :=
  ∃ earlier write later, history = earlier ++ (time, write) :: later ∧
    write.key.path = path ∧ ∀ w ∈ later, w.2.key.path ≠ path

theorem CreatedAt.concat {time : Timestamp} (h : CreatedAt path history time)
    {w : Timestamp × Write} (hw : w.2 ≠ .delete ⟨path⟩) : CreatedAt path (history ++ [w]) time := by
  obtain ⟨earlier, write, later, rfl, hpath, hkept, hnone, hlater⟩ := h
  refine ⟨earlier, write, later ++ [w], by simp, hpath, hkept, hnone, ?_⟩
  intro w' hw'
  rcases List.mem_append.1 hw' with hw' | hw'
  · exact hlater w' hw'
  · rw [List.mem_singleton.1 hw']
    exact hw

theorem UpdatedAt.concat {time : Timestamp} (h : UpdatedAt path history time)
    {w : Timestamp × Write} (hw : w.2.key.path ≠ path) : UpdatedAt path (history ++ [w]) time := by
  obtain ⟨earlier, write, later, rfl, hpath, hlater⟩ := h
  refine ⟨earlier, write, later ++ [w], by simp, hpath, ?_⟩
  intro w' hw'
  rcases List.mem_append.1 hw' with hw' | hw'
  · exact hlater w' hw'
  · rw [List.mem_singleton.1 hw']
    exact hw

/-- A table holds what a history of writes leaves, with the times of its documents. -/
structure Records (history : List (Timestamp × Write)) (table : Table) : Prop where
  sorted : Keyed.Sorted table
  held : ∀ path, Keyed.get? path table = heldAfter path none history
  times : ∀ path stored, Keyed.get? path table = some stored →
    CreatedAt path history stored.createTime ∧ UpdatedAt path history stored.updateTime

/-- What a write leaves at its path was updated by it, and was created by it if nothing was there
before. -/
theorem times_of_effect {now : Timestamp} {held : Option Stored} {w : Write} {stored : Stored}
    (h : effect now held w = some stored)
    (hnew : ∀ key data increments, w = .create key data increments → held = none) :
    stored.updateTime = now ∧
      ((held = none ∧ stored.createTime = now) ∨
        ∃ before, held = some before ∧ stored.createTime = before.createTime) := by
  cases w with
  | delete key => cases h
  | create key data increments =>
      cases h
      exact ⟨rfl, .inl ⟨hnew key data increments rfl, rfl⟩⟩
  | set key data mask increments =>
      cases h
      cases held with
      | none => exact ⟨rfl, .inl ⟨rfl, rfl⟩⟩
      | some before => exact ⟨rfl, .inr ⟨before, rfl, rfl⟩⟩

/-- A write that is applied goes into the history. -/
theorem Records.write {table table' : Table} {now : Timestamp} {w : Write}
    (h : Records history table) (happlied : Applied [(now, w)] table table')
    (hnew : ∀ key data increments, w = .create key data increments →
      Keyed.get? key.path table = none) : Records (history ++ [(now, w)]) table' where
  sorted := happlied.sorted
  held path := by rw [happlied.held, h.held, heldAfter_append]
  times path stored hstored := by
    have hheld : (if w.key.path = path then effect now (Keyed.get? path table) w
        else Keyed.get? path table) = some stored := (happlied.held path).symm.trans hstored
    by_cases hpath : w.key.path = path
    · rw [if_pos hpath] at hheld
      have hcreate : ∀ key data increments, w = .create key data increments →
          Keyed.get? path table = none := by
        intro key data increments hw
        have hnone := hnew key data increments hw
        rw [hw] at hpath
        exact hpath ▸ hnone
      have hkept : w ≠ .delete ⟨path⟩ := by
        intro hw
        rw [hw] at hheld
        cases hheld
      obtain ⟨hupdate, hcreated⟩ := times_of_effect hheld hcreate
      refine ⟨?_, ⟨history, w, [], by rw [hupdate], hpath, by simp⟩⟩
      rcases hcreated with ⟨hnone, htime⟩ | ⟨before, hbefore, htime⟩
      · rw [htime]
        exact ⟨history, w, [], rfl, hpath, hkept, (h.held path).symm.trans hnone, by simp⟩
      · rw [htime]
        exact (h.times path before hbefore).1.concat hkept
    · rw [if_neg hpath] at hheld
      have htimes := h.times path stored hheld
      refine ⟨htimes.1.concat ?_, htimes.2.concat hpath⟩
      intro hw
      exact hpath (congrArg (·.key.path) hw)

/-- A commit that succeeds goes into the history, write by write. -/
theorem Records.commit {table table' : Table} {now : Timestamp} {writes : List Write}
    (h : Records history table) (hdone : commitTable now table writes = .ok table') :
    Records (history ++ stamped now writes) table' := by
  induction writes generalizing history table with
  | nil =>
      cases hdone
      rwa [stamped, List.map_nil, List.append_nil]
  | cons w rest ih =>
      obtain ⟨next, hwrite, hrest⟩ := Outcome.bind_eq_ok.1 hdone
      rcases applyWrite_cases h.sorted now w with
        ⟨_, _, _, _, _, hfail⟩ | ⟨hnew, next', hnext, happlied⟩
      · rw [hfail] at hwrite
        cases hwrite
      · rw [hnext] at hwrite
        cases hwrite
        have hrecords := ih (h.write happlied hnew) hrest
        rwa [List.append_assoc] at hrecords

end Times

/-! ## Runs -/

/-- The state after some commits one after the other, whether they succeed or fail. -/
def afterCommits (s : State) (batches : List (List Write)) : State :=
  batches.foldl (fun s writes => ((datastore.commit writes).runOn s).2) s

/-- The writes of the commits that succeed, each at the time of its commit. -/
def history (s : State) : List (List Write) → List (Timestamp × Write)
  | [] => []
  | writes :: rest =>
    (match (datastore.commit writes).runOn s with
      | (.ok (), _) => stamped s.clock.now writes
      | (.error _, _) => [])
      ++ history ((datastore.commit writes).runOn s).2 rest

/-- A run of commits adds to the history the writes of those that succeed. -/
theorem Records.run {earlier : List (Timestamp × Write)} {s : State} (h : Records earlier s.table)
    (batches : List (List Write)) :
    Records (earlier ++ history s batches) (afterCommits s batches).table := by
  induction batches generalizing earlier s with
  | nil => rwa [history, List.append_nil]
  | cons writes rest ih =>
      rw [history, runOn_commit, ← List.append_assoc]
      have hafter : afterCommits s (writes :: rest)
          = afterCommits ((datastore.commit writes).runOn s).2 rest := rfl
      rw [hafter, runOn_commit]
      cases hdone : commitTable s.clock.now s.table writes with
      | ok table => exact ih (h.commit hdone)
      | error e =>
          rw [List.append_nil]
          exact ih h

/-- Commits that create nothing all succeed: the history is made of all their writes, and these are
applied. -/
theorem applied_run {s : State} (hsorted : Keyed.Sorted s.table) {batches : List (List Write)}
    (h : ∀ writes ∈ batches, ∀ w ∈ writes, ∀ key data increments, w ≠ .create key data increments) :
    (history s batches).map (·.2) = batches.flatten ∧
      Applied (history s batches) s.table (afterCommits s batches).table := by
  induction batches generalizing s with
  | nil => exact ⟨rfl, hsorted, fun _ => rfl⟩
  | cons writes rest ih =>
      rw [List.forall_mem_cons] at h
      rcases commitTable_cases hsorted s.clock.now writes with
        ⟨key, hclash, -⟩ | ⟨-, next, hdone, happlied⟩
      · exact absurd hclash (not_clashesAt_of_not_create h.1 key)
      · have hafter : afterCommits s (writes :: rest)
            = afterCommits ((datastore.commit writes).runOn s).2 rest := rfl
        rw [hafter, history, runOn_commit, hdone]
        obtain ⟨hwrites, hrest⟩ := @ih { table := next, clock := s.clock.tick } happlied.sorted h.2
        refine ⟨?_, happlied.append hrest⟩
        rw [List.map_append, hwrites, stamped, List.map_map, List.flatten_cons]
        simp [Function.comp_def]

/-- **Commits.**  After any run of commits from an empty store, a commit fails exactly if one of its
writes creates a document that is there after the writes before it, and then the table is as it
was, times included.  Else its writes are applied from left to right, and nothing changes at other
paths.  Each document in the table was created at the time of the commit that brought it into
existence last, and updated at the time of the last commit that wrote it. -/
theorem commits_atomic_and_timed (clock : Clock) (batches : List (List Write))
    (writes : List Write) :
    let s := afterCommits { clock } batches
    let now := s.clock.now
    ((∃ key, ClashesAt now s.table writes key ∧
        (datastore.commit writes).runOn s
          = (.error (alreadyThere key), { s with clock := s.clock.tick })) ∨
      ((∀ key, ¬ ClashesAt now s.table writes key) ∧
        ∃ table, (datastore.commit writes).runOn s
            = (.ok (), { table, clock := s.clock.tick }) ∧
          Keyed.Sorted table ∧
          (∀ path, Keyed.get? path table
            = heldAfter path (Keyed.get? path s.table) (stamped now writes)) ∧
          ∀ path, (∀ w ∈ writes, w.key.path ≠ path) →
            Keyed.get? path table = Keyed.get? path s.table)) ∧
    ∀ path stored, Keyed.get? path s.table = some stored →
      CreatedAt path (history { clock } batches) stored.createTime ∧
        UpdatedAt path (history { clock } batches) stored.updateTime := by
  intro s now
  have hempty : Records [] ({ clock } : State).table :=
    ⟨.nil, fun _ => rfl, fun _ _ h => nomatch h⟩
  have hrecords : Records (history { clock } batches) s.table := hempty.run batches
  refine ⟨?_, hrecords.times⟩
  rw [runOn_commit]
  rcases commitTable_cases hrecords.sorted now writes with
    ⟨key, hclash, hfail⟩ | ⟨hfree, table, hdone, happlied⟩
  · exact .inl ⟨key, hclash, by rw [hfail]⟩
  · refine .inr ⟨hfree, table, by rw [hdone], happlied.sorted, happlied.held, ?_⟩
    intro path hpath
    rw [happlied.held]
    refine heldAfter_of_not_written fun w hw => ?_
    obtain ⟨write, hwrite, rfl⟩ := List.mem_map.1 hw
    exact hpath write hwrite

end DocStore.Memory
