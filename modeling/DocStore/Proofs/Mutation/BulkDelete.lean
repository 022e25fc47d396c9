import DocStore.Proofs.Mutation.Walk

/-!
# Deletions in chunks

A bulk deletion goes through its targets chunk by chunk: it walks below each target of a chunk, and
then deletes the targets in one commit.  Here commits of the store in memory may fail, by any plan
(`Plan.FailsCommits`).  The first failure ends the deletion, and the store stays as it was left: the
chunks before are cleared (`Clears`), and of the chunk itself no target is gone unless it lies below
another one (`Stops`).

What is left follows from what the walks may reach, however they end (`KeptByWalk.watched`).  What
is gone follows from the walks that succeed: they take along all that is reached below what they
delete, so that no document is cut off by a deletion (`Sweeps`).

The main statement, `delete_chunk_by_chunk`, says what is gone and what is left in both cases.
-/

namespace DocStore

open Memory ResourcePath RecursiveDelete

/-! ## Commits that fail -/

namespace Recording

variable {σ α : Type} {plan : Plan} {request : Request} {a : Action σ α} {r : Recording σ}

/-- The plan lets commits fail, and no other request. -/
def Plan.FailsCommits (plan : Plan) : Prop :=
  ∀ requests e, plan requests = some e → ∃ writes before, requests = .commit writes :: before

theorem Plan.FailsCommits.eq_none (h : plan.FailsCommits) (before : List Request)
    (hrequest : ∀ writes, request ≠ .commit writes) : plan (request :: before) = none := by
  cases hplan : plan (request :: before) with
  | none => rfl
  | some e =>
      obtain ⟨writes, _, heq⟩ := h _ e hplan
      exact absurd (List.cons.inj heq).1 (hrequest writes)

/-- A request that does not fail goes to the store. -/
theorem runOn_keep_of_none (hplan : plan (request :: r.requests) = none) {outcome : Outcome α}
    {s : σ} (hrun : a.runOn r.store = (outcome, s)) :
    (keep plan request a).runOn r = (outcome, ⟨s, request :: r.requests⟩) := by
  rw [keep, Action.runOn_bind_of_ok (Action.runOn_update _ _),
    Action.runOn_bind_of_ok (Action.runOn_state _)]
  simp only [hplan, Action.runOn_onPart, hrun]

/-- The store does not see a request that fails. -/
theorem runOn_keep_of_some {e : Error} (hplan : plan (request :: r.requests) = some e) :
    (keep plan request a).runOn r = (.error e, ⟨r.store, request :: r.requests⟩) := by
  rw [keep, Action.runOn_bind_of_ok (Action.runOn_update _ _),
    Action.runOn_bind_of_ok (Action.runOn_state _)]
  simp only [hplan]
  rfl

/-- A store in memory whose commits may fail acts like its table. -/
theorem Plan.FailsCommits.actsOnTable (h : plan.FailsCommits) :
    ActsOnTable (Memory.datastore.recording plan) (fun table _ r => r.store.table = table)
      True where
  query := by
    intro _ deleted r heq q
    obtain rfl := heq
    have hplan : plan (.query q :: r.requests) = none := h.eq_none _ fun _ => nofun
    exact ⟨_, _, runOn_keep_of_none hplan (Memory.runOn_query q r.store), rfl⟩
  collections := by
    intro _ deleted r heq key
    obtain rfl := heq
    have hplan : plan (.collections key :: r.requests) = none := h.eq_none _ fun _ => nofun
    exact ⟨_, runOn_keep_of_none hplan (Memory.runOn_collections key r.store), rfl⟩
  delete := by
    intro _ deleted r heq key
    obtain rfl := heq
    cases hplan : plan (.commit [.delete key] :: r.requests) with
    | none => exact .inl ⟨_, runOn_keep_of_none hplan (Memory.runOn_delete key r.store), rfl⟩
    | some e => exact .inr ⟨trivial, e, _, runOn_keep_of_some hplan, rfl⟩
  rounds := by
    intro _ deleted r heq
    obtain rfl := heq
    rfl

/-- A commit of deletions either fails and changes nothing, or takes the documents away. -/
theorem runOn_commit_deletes (plan : Plan) (keys : List DocumentKey)
    {r : Recording Memory.State} (hsorted : Keyed.Sorted r.store.table) :
    ∃ r', (((Memory.datastore.recording plan).commit (keys.map .delete)).runOn r = (.ok (), r') ∧
        r'.store.table.Sublist r.store.table ∧
        ∀ e, e ∈ r'.store.table ↔ e ∈ r.store.table ∧ ∀ key ∈ keys, e.1 ≠ key.path) ∨
      ∃ e, ((Memory.datastore.recording plan).commit (keys.map .delete)).runOn r = (.error e, r') ∧
        r'.store.table = r.store.table := by
  cases hplan : plan (.commit (keys.map .delete) :: r.requests) with
  | some e => exact ⟨_, .inr ⟨e, runOn_keep_of_some hplan, rfl⟩⟩
  | none =>
      obtain ⟨table, hdone, hsub, hmem⟩ := commitTable_deletes r.store.clock.now hsorted keys
      have hcommit := Memory.runOn_commit (keys.map .delete) r.store
      rw [hdone] at hcommit
      exact ⟨_, .inl ⟨runOn_keep_of_none hplan hcommit, hsub, hmem⟩⟩

end Recording

/-! ## What a walk asks for -/

namespace RecursiveDelete

variable {σ : Type}

/-- A request of a walk, and its answer: the walk reads, and deletes one document that it may reach
at a time; no more than the deletions fail. -/
inductive Asks (reach : ResourcePath → Prop) : Exchange → Prop
  | query (q : StoreQuery) {documents : List Snapshot}
      (keys : ∀ d ∈ documents, d.key.path.isDocument = true) : Asks reach (.query q (.ok documents))
  | collections (key : DocumentKey) (names : List String) :
      Asks reach (.collections key (.ok names))
  | delete {key : DocumentKey} (answer : Outcome Unit) (reached : reach key.path) :
      Asks reach (.commit [.delete key] answer)

namespace Asks

variable {reach : ResourcePath → Prop}

theorem hasDocumentKeys {y : Exchange} (h : Asks reach y) : y.HasDocumentKeys := by
  cases h with
  | query q keys => exact keys
  | collections | delete => trivial

/-- What fails is a deletion. -/
theorem eq_of_failure {y : Exchange} {e : Error} (h : Asks reach y) (hfail : y.failure? = some e) :
    ∃ key, reach key.path ∧ y = .commit [.delete key] (.error e) := by
  cases h with
  | query | collections => cases hfail
  | @delete key answer reached =>
      cases answer with
      | ok x => cases hfail
      | error e' =>
          cases hfail
          exact ⟨key, reached, rfl⟩

/-- The commits of a walk are deletions of what it may reach. -/
theorem filterMap_sent {asked : List Exchange} (h : ∀ y ∈ asked, Asks reach y) :
    ∃ deleted : List DocumentKey, (∀ key ∈ deleted, reach key.path) ∧
      asked.filterMap Exchange.sent? = deleted.map fun key => [.delete key] := by
  induction asked with
  | nil => exact ⟨[], by simp, rfl⟩
  | cons y rest ih =>
      rw [List.forall_mem_cons] at h
      obtain ⟨deleted, hreach, hsent⟩ := ih h.2
      cases h.1 with
      | query | collections => exact ⟨deleted, hreach, hsent⟩
      | @delete key answer reached =>
          exact ⟨key :: deleted, List.forall_mem_cons.2 ⟨reached, hreach⟩, congrArg _ hsent⟩

end Asks

/-- The exchanges of a watched store since it had seen some are those of walks. -/
def AsksSince (reach : ResourcePath → Prop) (seen : List Exchange) (w : Watched σ) : Prop :=
  ∃ asked, w.exchanges = seen ++ asked ∧ ∀ y ∈ asked, Asks reach y

theorem AsksSince.concat {reach : ResourcePath → Prop} {seen : List Exchange} {w : Watched σ}
    (h : AsksSince reach seen w) {y : Exchange} (hy : Asks reach y) (s : σ) :
    AsksSince reach seen ⟨s, w.exchanges ++ [y]⟩ := by
  obtain ⟨asked, hasked, hall⟩ := h
  refine ⟨asked ++ [y], ?_, List.forall_mem_append.2 ⟨hall, List.forall_mem_singleton.2 hy⟩⟩
  rw [hasked, List.append_assoc]

/-- **Walks.**  What is kept of a store is kept when it is watched, and the walks ask for nothing
but what they may reach. -/
theorem KeptByWalk.watched {ds : Datastore σ} {reach : ResourcePath → Prop} {inv : σ → Prop}
    (h : KeptByWalk ds reach inv) (seen : List Exchange) :
    KeptByWalk ds.watched reach fun w => inv w.store ∧ AsksSince reach seen w where
  query := by
    intro w hw q
    obtain ⟨documents, s, hrun, hs, hfound⟩ := h.query hw.1 q
    have hasks : Asks reach (.query q (.ok documents)) := .query q fun d hd => (hfound d hd).1
    exact ⟨documents, _, runOn_keep hrun, ⟨hs, hw.2.concat hasks s⟩, hfound⟩
  collections := by
    intro w hw key
    obtain ⟨names, s, hrun, hs⟩ := h.collections hw.1 key
    exact ⟨names, _, runOn_keep hrun, hs, hw.2.concat (.collections key names) s⟩
  delete := by
    intro w hw key hreach
    obtain ⟨outcome, s, hrun, hs⟩ := h.delete hw.1 key hreach
    exact ⟨outcome, _, runOn_keep hrun, hs, hw.2.concat (.delete outcome hreach) s⟩

end RecursiveDelete

/-! ## What is reached below some documents -/

namespace RecursiveDelete

/-- A table loses documents, and with them all that is reached below them; and what is reached below
some roots. -/
structure Sweeps (roots : ResourcePath → Prop) (table table' : Table) : Prop where
  sublist : table'.Sublist table
  reached : ∀ {above path}, roots above ∨ IsStored table above ∧ ¬ IsStored table' above →
    Beneath table above path → ¬ IsStored table' path

namespace Sweeps

variable {roots more : ResourcePath → Prop} {table table₁ table₂ : Table}

theorem refl (table : Table) : Sweeps (fun _ => False) table table where
  sublist := .refl _
  reached := fun heither _ =>
    heither.elim False.elim fun hgone => absurd hgone.1 hgone.2

/-- What is left is reached as before. -/
theorem beneath (h : Sweeps roots table table₁) {above path : ResourcePath}
    (hbeneath : Beneath table above path) (hpath : IsStored table₁ path) :
    Beneath table₁ above path := by
  refine ⟨hbeneath.1, fun q hdoc hq hqp => ?_⟩
  by_contra hgone
  rcases eq_or_isAncestorOf hqp with rfl | hbelow
  · exact hgone hpath
  · refine h.reached (.inr ⟨hbeneath.2 q hdoc hq hqp, hgone⟩) ⟨hbelow, fun r hdoc hr => ?_⟩ hpath
    exact hbeneath.2 r hdoc
      (isAncestorOf_of_isBeginningOf hq (isBeginningOf_of_isAncestorOf hr))

theorem trans (h : Sweeps roots table table₁) (hmore : Sweeps more table₁ table₂) :
    Sweeps (fun path => roots path ∨ more path) table table₂ where
  sublist := hmore.sublist.trans h.sublist
  reached := by
    intro above path heither hbeneath hpath
    have hpath₁ : IsStored table₁ path := .of_sublist hmore.sublist hpath
    by_cases hfirst : roots above ∨ IsStored table above ∧ ¬ IsStored table₁ above
    · exact h.reached hfirst hbeneath hpath₁
    · rw [not_or, not_and_not_right] at hfirst
      refine hmore.reached ?_ (h.beneath hbeneath hpath₁) hpath
      rcases heither with (hroot | hroot) | ⟨hstored, hgone⟩
      · exact absurd hroot hfirst.1
      · exact .inl hroot
      · exact .inr ⟨hfirst.2 hstored, hgone⟩

theorem mono (h : Sweeps roots table table₁) (hroots : ∀ path, more path → roots path) :
    Sweeps more table table₁ where
  sublist := h.sublist
  reached := fun heither => h.reached (heither.imp_left (hroots _))

/-- After a walk its document may go as well. -/
theorem erase (h : Sweeps roots table table₁) (hsub : table₂.Sublist table₁)
    (hleft : ∀ path, IsStored table₁ path → ¬ roots path → IsStored table₂ path) :
    Sweeps roots table table₂ where
  sublist := hsub.trans h.sublist
  reached := by
    intro above path heither hbeneath hpath
    have hpath₁ : IsStored table₁ path := .of_sublist hsub hpath
    refine h.reached (heither.elim .inl fun hgone => ?_) hbeneath hpath₁
    by_cases hroot : roots above
    · exact .inl hroot
    · exact .inr ⟨hgone.1, fun hstored => hgone.2 (hleft above hstored hroot)⟩

/-- The walk below a document. -/
theorem of_removal {root : ResourcePath} {keys : List DocumentKey}
    (h : Removal table (Beneath table root) keys table₁) : Sweeps (· = root) table table₁ where
  sublist := h.sublist
  reached := by
    intro above path heither hbeneath hpath
    have hnot := (h.isStored_iff.1 hpath).2
    rcases heither with rfl | ⟨hstored, hgone⟩
    · exact hnot hbeneath
    · rw [h.isStored_iff, not_and_not_right] at hgone
      exact hnot ((hgone hstored).trans hbeneath)

end Sweeps

end RecursiveDelete

/-! ## Chunks -/

namespace Batcher

/-- The documents of a watched store in memory whose requests are kept. -/
def tableOf (w : Watched (Recording Memory.State)) : Table := w.store.store.table

/-- The path lies strictly below a target. -/
def LiesBelow (targets : List DocumentKey) (path : ResourcePath) : Prop :=
  ∃ target ∈ targets, target.path.isAncestorOf path = true

/-- The commits that clear some chunks: for each of them deletions below its targets, one by one,
and then the deletion of all its targets. -/
inductive ClearingCommits : List (List DocumentKey) → List (List Write) → Prop
  | none : ClearingCommits [] []
  | next {chunk beneath : List DocumentKey} {after : List (List DocumentKey)}
      {commits : List (List Write)} (below : ∀ key ∈ beneath, LiesBelow chunk key.path)
      (later : ClearingCommits after commits) :
      ClearingCommits (chunk :: after)
        ((beneath.map fun key => [.delete key]) ++ chunk.map .delete :: commits)

/-- The exchanges clear some chunks and end with the failure of a commit for the next one: for a
document below a target, or for the chunk itself. -/
def FailsAfter (before : List (List DocumentKey)) (chunk : List DocumentKey)
    (asked : List Exchange) (e : Error) : Prop :=
  ∃ (granted : List Exchange) (commits : List (List Write)) (beneath : List DocumentKey)
      (writes : List Write),
    asked = granted ++ [.commit writes (.error e)] ∧ (∀ y ∈ granted, y.failure? = none) ∧
    ClearingCommits before commits ∧
    granted.filterMap Exchange.sent? = commits ++ beneath.map (fun key => [.delete key]) ∧
    (∀ key ∈ beneath, LiesBelow chunk key.path) ∧
    (writes = chunk.map .delete ∨
      ∃ key : DocumentKey, LiesBelow chunk key.path ∧ writes = [.delete key])

/-- Some chunks are cleared by exchanges that all succeed: their targets are gone with all that is
reached below them, and what is not at or below one of them is left. -/
structure Clears (chunks : List (List DocumentKey)) (table : Table) (asked : List Exchange)
    (table' : Table) : Prop where
  sweeps : Sweeps (· ∈ chunks.flatten.map (·.path)) table table'
  granted : ∀ y ∈ asked, y.failure? = none
  commits : ClearingCommits chunks (asked.filterMap Exchange.sent?)
  gone : ∀ key ∈ chunks.flatten, ¬ IsStored table' key.path
  kept : ∀ e ∈ table, (∀ key ∈ chunks.flatten, ¬ key.path.isBeginningOf e.1 = true) → e ∈ table'

/-- A commit fails while a chunk is cleared.  What does not lie strictly below a target is left. -/
structure Stops (chunk : List DocumentKey) (table : Table) (asked : List Exchange) (e : Error)
    (table' : Table) : Prop where
  sublist : table'.Sublist table
  failed : FailsAfter [] chunk asked e
  kept : ∀ e ∈ table, ¬ LiesBelow chunk e.1 → e ∈ table'

/-- A commit fails while a chunk is cleared, after the chunks before it.  The targets before are
gone with all that is reached below them.  Those of the chunk are left unless they lie below another
target, and so is all that is not at or below one of these targets. -/
structure StopsAfter (before : List (List DocumentKey)) (chunk : List DocumentKey) (table : Table)
    (asked : List Exchange) (e : Error) (table' : Table) : Prop where
  sublist : table'.Sublist table
  failed : FailsAfter before chunk asked e
  gone : ∀ key ∈ before.flatten, ¬ IsStored table' key.path
  reached : ∀ key ∈ before.flatten, ∀ path, Beneath table key.path path → ¬ IsStored table' path
  standing : ∀ key ∈ chunk, IsStored table key.path →
    ¬ LiesBelow (before.flatten ++ chunk) key.path → IsStored table' key.path
  kept : ∀ e ∈ table, (∀ key ∈ before.flatten ++ chunk, ¬ key.path.isBeginningOf e.1 = true) →
    e ∈ table'

theorem ClearingCommits.append {chunks after : List (List DocumentKey)}
    {commits later : List (List Write)} (h : ClearingCommits chunks commits)
    (hlater : ClearingCommits after later) :
    ClearingCommits (chunks ++ after) (commits ++ later) := by
  induction h with
  | none => exact hlater
  | next below _ ih =>
      rw [List.append_assoc]
      exact .next below ih

namespace Clears

variable {chunks after : List (List DocumentKey)} {table table₁ table₂ : Table}
  {asked later : List Exchange}

theorem none (table : Table) : Clears [] table [] table where
  sweeps := (Sweeps.refl table).mono (by simp)
  granted := by simp
  commits := .none
  gone := by simp
  kept := fun _ he _ => he

theorem append (h : Clears chunks table asked table₁) (hlater : Clears after table₁ later table₂) :
    Clears (chunks ++ after) table (asked ++ later) table₂ where
  sweeps := (h.sweeps.trans hlater.sweeps).mono fun path hpath => by
    rwa [List.flatten_append, List.map_append, List.mem_append] at hpath
  granted := List.forall_mem_append.2 ⟨h.granted, hlater.granted⟩
  commits := by
    rw [List.filterMap_append]
    exact h.commits.append hlater.commits
  gone := by
    rw [List.flatten_append]
    exact List.forall_mem_append.2
      ⟨fun key hkey hstored => h.gone key hkey (.of_sublist hlater.sweeps.sublist hstored),
        hlater.gone⟩
  kept := by
    intro e he hout
    rw [List.flatten_append, List.forall_mem_append] at hout
    exact hlater.kept e (h.kept e he hout.1) hout.2

end Clears

/-- A chunk in which a commit fails, and those before it. -/
theorem Clears.stopsAfter {before : List (List DocumentKey)} {chunk : List DocumentKey}
    {table table₁ table₂ : Table} {cleared asked : List Exchange} {e : Error}
    (h : Clears before table cleared table₁) (hstops : Stops chunk table₁ asked e table₂)
    (hdistinct : (before.flatten ++ chunk).Nodup) :
    StopsAfter before chunk table (cleared ++ asked) e table₂ where
  sublist := hstops.sublist.trans h.sweeps.sublist
  failed := by
    obtain ⟨granted, commits, beneath, writes, rfl, hgranted, hcommits, hsent, hbelow, hwrites⟩ :=
      hstops.failed
    have hboth := h.commits.append hcommits
    rw [List.append_nil] at hboth
    refine ⟨cleared ++ granted, _, beneath, writes, (List.append_assoc ..).symm,
      List.forall_mem_append.2 ⟨h.granted, hgranted⟩, hboth, ?_, hbelow, hwrites⟩
    rw [List.filterMap_append, hsent, List.append_assoc]
  gone := fun key hkey hstored => h.gone key hkey (.of_sublist hstops.sublist hstored)
  reached := fun key hkey path hbeneath hstored =>
    h.sweeps.reached (.inl (List.mem_map_of_mem hkey)) hbeneath (.of_sublist hstops.sublist hstored)
  standing := by
    intro key hkey hstored hnot
    obtain ⟨e, he, hpath⟩ := isStored_iff.1 hstored
    have hout : ∀ other ∈ before.flatten, ¬ other.path.isBeginningOf e.1 = true := by
      intro other hother hbegin
      rcases eq_or_isAncestorOf hbegin with heq | habove
      · -- The targets are distinct.
        have hsame : other = key := congrArg DocumentKey.mk (heq.trans hpath)
        exact List.disjoint_of_nodup_append hdistinct hother (hsame ▸ hkey)
      · exact hnot ⟨other, List.mem_append_left _ hother, hpath ▸ habove⟩
    have hstanding : e ∈ table₂ := hstops.kept e (h.kept e he hout) fun hbelow => by
      obtain ⟨other, hother, habove⟩ := hbelow
      exact hnot ⟨other, List.mem_append_right _ hother, hpath ▸ habove⟩
    rw [← hpath]
    exact .of_mem hstanding
  kept := by
    intro e he hout
    rw [List.forall_mem_append] at hout
    refine hstops.kept e (h.kept e he hout.1) fun hbelow => ?_
    obtain ⟨key, hkey, habove⟩ := hbelow
    exact hout.2 key hkey (isBeginningOf_of_isAncestorOf habove)

/-- The walks below the targets of a chunk ask for no more than what lies there, and leave the rest
of a table. -/
structure Walks (chunk : List DocumentKey) (table : Table) (asked : List Exchange)
    (table' : Table) : Prop where
  sublist : table'.Sublist table
  asks : ∀ y ∈ asked, Asks (LiesBelow chunk) y
  kept : ∀ e ∈ table, ¬ LiesBelow chunk e.1 → e ∈ table'

section Chunk

variable {chunk : List DocumentKey} {table table₁ table' : Table} {asked : List Exchange}

/-- The walks of a chunk end with the failure of a deletion below a target. -/
theorem Walks.stops {last : Exchange} {e : Error} (h : Walks chunk table (asked ++ [last]) table')
    (granted : ∀ y ∈ asked, y.failure? = none) (failure : last.failure? = some e) :
    Stops chunk table (asked ++ [last]) e table' where
  sublist := h.sublist
  failed := by
    have hasks := h.asks
    rw [List.forall_mem_append, List.forall_mem_singleton] at hasks
    obtain ⟨beneath, hbelow, hsent⟩ := Asks.filterMap_sent hasks.1
    obtain ⟨key, hkey, rfl⟩ := hasks.2.eq_of_failure failure
    exact ⟨asked, [], beneath, _, rfl, granted, .none, hsent, hbelow, .inr ⟨key, hkey, rfl⟩⟩
  kept := h.kept

/-- The commit of a chunk fails after its walks. -/
theorem Walks.stops_at_commit (h : Walks chunk table asked table')
    (granted : ∀ y ∈ asked, y.failure? = none) (e : Error) :
    Stops chunk table (asked ++ [.commit (chunk.map .delete) (.error e)]) e table' where
  sublist := h.sublist
  failed := by
    obtain ⟨beneath, hbelow, hsent⟩ := Asks.filterMap_sent h.asks
    exact ⟨asked, [], beneath, _, rfl, granted, .none, hsent, hbelow, .inl rfl⟩
  kept := h.kept

/-- The commit of a chunk succeeds after its walks. -/
theorem Walks.clears (h : Walks chunk table asked table₁) (granted : ∀ y ∈ asked, y.failure? = none)
    (hsweeps : Sweeps (· ∈ chunk.map (·.path)) table table₁) (hsub : table'.Sublist table₁)
    (hmem : ∀ e, e ∈ table' ↔ e ∈ table₁ ∧ ∀ key ∈ chunk, e.1 ≠ key.path) :
    Clears [chunk] table (asked ++ [.commit (chunk.map .delete) (.ok ())]) table' where
  sweeps := by
    rw [List.flatten_singleton]
    refine hsweeps.erase hsub fun path hpath hnot => ?_
    obtain ⟨e, he, rfl⟩ := isStored_iff.1 hpath
    exact .of_mem ((hmem e).2 ⟨he, fun key hkey heq => hnot (heq ▸ List.mem_map_of_mem hkey)⟩)
  granted := List.forall_mem_append.2 ⟨granted, List.forall_mem_singleton.2 rfl⟩
  commits := by
    obtain ⟨beneath, hbelow, hsent⟩ := Asks.filterMap_sent h.asks
    rw [List.filterMap_append, hsent]
    exact .next hbelow .none
  gone := by
    intro key hkey hstored
    rw [List.flatten_singleton] at hkey
    obtain ⟨e, he, hpath⟩ := isStored_iff.1 hstored
    exact ((hmem e).1 he).2 key hkey hpath
  kept := by
    intro e he hout
    rw [List.flatten_singleton] at hout
    refine (hmem e).2 ⟨h.kept e he fun hbelow => ?_, fun key hkey hpath => ?_⟩
    · obtain ⟨key, hkey, habove⟩ := hbelow
      exact hout key hkey (isBeginningOf_of_isAncestorOf habove)
    · exact hout key hkey (by rw [hpath, isBeginningOf_self])

end Chunk

section Recorded

variable {plan : Recording.Plan} {chunk : List DocumentKey}
  {c : Client (Watched (Recording Memory.State))}

/-- The walks of a chunk succeed or end with the failure of a deletion. -/
theorem runOn_walks (hplan : plan.FailsCommits) (size : Nat) (hwf : WellFormed (tableOf c.store))
    (hkeys : ∀ key ∈ chunk, key.path.isDocument = true) :
    ∃ asked outcome c',
      (chunk.mapM (descendants (Memory.datastore.recording plan).watched size)).runOn c
        = (outcome, c') ∧
      c'.exchanges = c.exchanges ++ asked ∧
      Walks chunk (tableOf c.store) asked (tableOf c'.store) ∧
      Ending (fun _ => False) (fun _ e e' => e' = e) asked outcome := by
  have hkeeps : Keeps _ (chunk.mapM (descendants (Memory.datastore.recording plan).watched size)) :=
    .mapM fun key hkey =>
      ((hplan.actsOnTable.keptByWalk hwf).watched c.exchanges).descendants
        fun path hpath => (⟨key, hkey, hpath⟩ : LiesBelow chunk path)
  have hsteady : Steady True
      (chunk.mapM (descendants (Memory.datastore.recording plan).watched size)) :=
    .mapM fun key hkey => steady_descendants fun _ => hkeys key hkey
  have hleft := hkeeps c ⟨⟨_, [], .refl _, fun _ he _ => he, rfl⟩, [], (List.append_nil _).symm,
    by simp⟩
  obtain ⟨asked, hasked, hends⟩ := hsteady c
  cases hrun :
    (chunk.mapM (descendants (Memory.datastore.recording plan).watched size)).runOn c with
  | mk outcome c' =>
    rw [hrun] at hleft hasked hends
    obtain ⟨⟨table', deleted, hsub, hkept, rfl⟩, asked', hasked', hasks⟩ := hleft
    obtain rfl := List.append_cancel_left (hasked'.symm.trans hasked)
    refine ⟨asked', outcome, c', rfl, hasked, ⟨hsub, hasks, hkept⟩, ?_⟩
    cases hends with
    | done granted => exact .done granted
    | refused _ hmisled => exact (hmisled trivial fun y hy => (hasks y hy).hasDocumentKeys).elim
    | failed granted failure h => exact .failed granted failure h

/-- A walk that succeeds takes all that it reaches. -/
theorem sweeps_of_runOn_descendants (hplan : plan.FailsCommits) {size : Nat} (hsize : 0 < size)
    (hwf : WellFormed (tableOf c.store)) {key : DocumentKey} (hkey : key.path.isDocument = true)
    {removed : Nat} {c' : Client (Watched (Recording Memory.State))}
    (h : (descendants (Memory.datastore.recording plan).watched size key).runOn c
      = (.ok removed, c')) :
    Sweeps (· = key.path) (tableOf c.store) (tableOf c'.store) := by
  have hds := hplan.actsOnTable.watched c.exchanges
  rcases deletes_descendants hds hsize hwf hkey [] c ⟨rfl, [], (List.append_nil _).symm, .nil⟩ with
    ⟨keys, table, c₁, hrun, hremoval, htable, -⟩ | ⟨-, e, part, keys, table, c₁, hrun, -⟩
  · obtain ⟨-, rfl⟩ := Prod.mk.inj (hrun.symm.trans h)
    rw [show tableOf c₁.store = table from htable]
    exact .of_removal hremoval
  · cases (Prod.mk.inj (hrun.symm.trans h)).1

/-- Walks that succeed take all that they reach. -/
theorem sweeps_of_runOn_walks (hplan : plan.FailsCommits) {size : Nat} (hsize : 0 < size)
    (hwf : WellFormed (tableOf c.store)) (hkeys : ∀ key ∈ chunk, key.path.isDocument = true)
    {removed : List Nat} {c' : Client (Watched (Recording Memory.State))}
    (h : (chunk.mapM (descendants (Memory.datastore.recording plan).watched size)).runOn c
      = (.ok removed, c')) :
    Sweeps (· ∈ chunk.map (·.path)) (tableOf c.store) (tableOf c'.store) := by
  induction chunk generalizing c removed with
  | nil =>
      obtain ⟨-, rfl⟩ := Prod.mk.inj h
      exact (Sweeps.refl _).mono (by simp)
  | cons key rest ih =>
      rw [List.forall_mem_cons] at hkeys
      rw [List.mapM_cons] at h
      obtain ⟨here, c₁, hfirst, h⟩ := Action.runOn_bind_eq_ok.1 h
      obtain ⟨later, c₂, hrest, h⟩ := Action.runOn_bind_eq_ok.1 h
      obtain ⟨-, rfl⟩ := Prod.mk.inj h
      have hsweeps := sweeps_of_runOn_descendants hplan hsize hwf hkeys.1 hfirst
      refine (hsweeps.trans (ih (hwf.sublist hsweeps.sublist) hkeys.2 hrest)).mono
        fun path hpath => ?_
      rwa [List.map_cons, List.mem_cons] at hpath

/-- **One chunk.**  It is cleared, or a commit fails. -/
theorem runOn_clearChunk (hplan : plan.FailsCommits) {size : Nat} (hsize : 0 < size)
    (hwf : WellFormed (tableOf c.store)) (hkeys : ∀ key ∈ chunk, key.path.isDocument = true) :
    ∃ asked c', c'.exchanges = c.exchanges ++ asked ∧
      (((clearChunk (Memory.datastore.recording plan).watched size chunk).runOn c = (.ok (), c') ∧
          Clears [chunk] (tableOf c.store) asked (tableOf c'.store)) ∨
        ∃ e, (clearChunk (Memory.datastore.recording plan).watched size chunk).runOn c
            = (.error e, c') ∧
          Stops chunk (tableOf c.store) asked e (tableOf c'.store)) := by
  obtain ⟨asked, outcome, c₁, hrun, hasked, hwalks, hends⟩ := runOn_walks hplan size hwf hkeys
  cases hends with
  | refused _ h => exact h.elim
  | failed granted failure h =>
      subst h
      exact ⟨_, c₁, hasked, .inr ⟨_, Action.runOn_bind_of_error hrun, hwalks.stops granted failure⟩⟩
  | done granted =>
      -- The commit of the chunk itself is one more exchange.
      have hcommits : ∀ {answer : Outcome Unit} {r : Recording Memory.State},
          ((Memory.datastore.recording plan).commit (chunk.map .delete)).runOn c₁.store.store
            = (answer, r) →
          ∃ c' : Client (Watched (Recording Memory.State)), c'.store.store = r ∧
            c'.exchanges = c.exchanges ++ (asked ++ [.commit (chunk.map .delete) answer]) ∧
            (clearChunk (Memory.datastore.recording plan).watched size chunk).runOn c
              = (answer, c') := by
        intro answer r hcommit
        refine ⟨_, rfl, ?_, (Action.runOn_bind_of_ok hrun).trans
          (Client.runOn_onStore (RecursiveDelete.runOn_keep hcommit))⟩
        rw [← List.append_assoc, ← hasked]
        rfl
      obtain ⟨r, ⟨hcommit, hsub, hmem⟩ | ⟨e, hcommit, htable⟩⟩ :=
        Recording.runOn_commit_deletes plan chunk (hwf.sublist hwalks.sublist).sorted
      · obtain ⟨c', rfl, hasked', hrun'⟩ := hcommits hcommit
        exact ⟨_, c', hasked', .inl ⟨hrun', hwalks.clears granted
          (sweeps_of_runOn_walks hplan hsize hwf hkeys hrun) hsub hmem⟩⟩
      · obtain ⟨c', rfl, hasked', hrun'⟩ := hcommits hcommit
        refine ⟨_, c', hasked', .inr ⟨e, hrun', ?_⟩⟩
        rw [show tableOf c'.store = tableOf c₁.store from htable]
        exact hwalks.stops_at_commit granted e

/-- The step of a chunk: it is cleared. -/
def clearStep (plan : Recording.Plan) (size total position : Nat) (chunk : List DocumentKey) :
    Action (Batcher (Watched (Recording Memory.State))) Unit :=
  inChunk position total (clearChunk (Memory.datastore.recording plan).watched size chunk)

/-- **Chunk by chunk.**  All chunks from a position on are cleared, or a commit fails while one of
them is. -/
theorem runOn_eachChunk_clear (hplan : plan.FailsCommits) {size : Nat} (hsize : 0 < size)
    (total position : Nat)
    {chunks : List (List DocumentKey)} {b : Batcher (Watched (Recording Memory.State))}
    (hwf : WellFormed (tableOf b.client.store))
    (hkeys : ∀ chunk ∈ chunks, ∀ key ∈ chunk, key.path.isDocument = true) :
    (∃ asked b', (eachChunk total (clearStep plan size total) position chunks).runOn b
        = (.ok (), b') ∧
      exchanges b' = exchanges b ++ asked ∧
      Clears chunks (tableOf b.client.store) asked (tableOf b'.client.store)) ∨
    ∃ before chunk after cleared asked table e b', chunks = before ++ chunk :: after ∧
      Clears before (tableOf b.client.store) cleared table ∧
      Stops chunk table asked e (tableOf b'.client.store) ∧
      exchanges b' = exchanges b ++ (cleared ++ asked) ∧
      (eachChunk total (clearStep plan size total) position chunks).runOn b
        = (.error (e.withChunk (position + before.length) total), b') ∧
      b'.phase = .committing (position + before.length) total := by
  induction chunks generalizing position b with
  | nil => exact .inl ⟨[], b, rfl, (List.append_nil _).symm, .none _⟩
  | cons chunk after ih =>
      rw [List.forall_mem_cons] at hkeys
      obtain ⟨b₁, henter, hstore₁, hphase₁⟩ := runOn_enter (.committing position total) b
      have hrun : (eachChunk total (clearStep plan size total) position (chunk :: after)).runOn b
          = (clearStep plan size total position chunk >>= fun _ =>
              eachChunk total (clearStep plan size total) (position + 1) after).runOn b₁ :=
        Action.runOn_bind_of_ok henter
      rw [hrun, ← exchanges_congr hstore₁, ← hstore₁]
      rw [← hstore₁] at hwf
      obtain ⟨asked, c, hasked, ⟨hclear, hclears⟩ | ⟨e, hclear, hstops⟩⟩ :=
        runOn_clearChunk hplan hsize hwf hkeys.1
      · obtain ⟨b₂, hstep, hstore₂, -⟩ := runOn_inChunk position total hclear
        rw [show (clearStep plan size total position chunk >>= fun _ => _).runOn b₁ = _ from
          Action.runOn_bind_of_ok hstep]
        have hasked₂ : exchanges b₂ = exchanges b₁ ++ asked := by
          rw [exchanges, Client.exchanges, hstore₂]
          exact hasked
        rw [← hstore₂] at hclears
        rcases ih (position + 1) (hwf.sublist hclears.sweeps.sublist) hkeys.2 with
          ⟨later, b', hloop, hlater, hclears'⟩ |
          ⟨before, bad, rest, cleared, later, table, e, b', rfl, hclears', hstops, hlater, hloop,
            hphase⟩
        · refine .inl ⟨asked ++ later, b', hloop, ?_, hclears.append hclears'⟩
          rw [hlater, hasked₂, List.append_assoc]
        · have hpos : position + 1 + before.length = position + (chunk :: before).length := by
            rw [List.length_cons]
            omega
          rw [hpos] at hloop hphase
          refine .inr ⟨chunk :: before, bad, rest, asked ++ cleared, later, table, e, b', rfl,
            hclears.append hclears', hstops, ?_, hloop, hphase⟩
          rw [hlater, hasked₂, List.append_assoc, List.append_assoc]
      · obtain ⟨b₂, hstep, hstore₂, hphase₂⟩ := runOn_inChunk position total hclear
        rw [← hstore₂] at hstops
        refine .inr ⟨[], chunk, after, [], asked, _, e, b₂, rfl, .none _, hstops, ?_,
          Action.runOn_bind_of_error hstep, hphase₂.trans hphase₁⟩
        rw [exchanges, Client.exchanges, hstore₂]
        exact hasked

/-- With targets, a bulk deletion goes from chunk to chunk. -/
theorem runOn_delete (plan : Recording.Plan) (size : Nat) {keys : List DocumentKey}
    (hkeys : keys.isEmpty = false) (b : Batcher (Watched (Recording Memory.State))) :
    ∃ b', b'.client.store = b.client.store ∧
      (delete (Memory.datastore.recording plan).watched size keys).runOn b
        = (eachChunk (chunksOf 500 keys).length (clearStep plan size (chunksOf 500 keys).length) 1
              (chunksOf 500 keys) >>= fun _ =>
            enter .done >>= fun _ => pure keys.length).runOn b' := by
  obtain ⟨b₁, hbuild, hstore₁, -⟩ := runOn_enter .building b
  obtain ⟨b₂, hcompile, hstore₂, -⟩ := runOn_enter .compiling b₁
  obtain ⟨b₃, hchunk, hstore₃, -⟩ := runOn_enter .chunking b₂
  refine ⟨b₃, hstore₃.trans (hstore₂.trans hstore₁), ?_⟩
  simp only [delete, hkeys, Bool.false_eq_true, if_false]
  rw [Action.runOn_bind_of_ok hbuild, Action.runOn_bind_of_ok hcompile,
    Action.runOn_bind_of_ok hchunk]
  rfl

/-- **Bulk deletions.**  Whichever commits fail, and for every page size: the targets are worked
through in consecutive chunks of at most five hundred.  If no commit fails, their number is given,
all targets are gone with what is reached below them, and nothing else is touched than what is at or
below one of them.  Otherwise the failure tells the chunk in which it has happened and the phase
stays there.  The targets of the chunks before are gone, every stored target of the chunk itself is
left that lies below none of these or of the chunk, and nothing else is touched than what is at or
below one of them. -/
theorem delete_chunk_by_chunk (hplan : plan.FailsCommits) (n : Nat) {keys : List DocumentKey}
    (hkeys : ∀ key ∈ keys, key.path.isDocument = true) (hdistinct : keys.Nodup)
    {b : Batcher (Watched (Recording Memory.State))} (hwf : WellFormed (tableOf b.client.store)) :
    ∃ chunks asked outcome b', IsChunking 500 keys chunks ∧
      (delete (Memory.datastore.recording plan).watched (pageSizeOf n) keys).runOn b
        = (outcome, b') ∧
      exchanges b' = exchanges b ++ asked ∧
      ((outcome = .ok keys.length ∧ b'.phase = .done ∧
          Clears chunks (tableOf b.client.store) asked (tableOf b'.client.store)) ∨
        ∃ before chunk after e, chunks = before ++ chunk :: after ∧
          outcome = .error (e.withChunk (before.length + 1) chunks.length) ∧
          b'.phase = .committing (before.length + 1) chunks.length ∧
          StopsAfter before chunk (tableOf b.client.store) asked e (tableOf b'.client.store)) := by
  have hchunking := chunksOf_isChunking (show 0 < 500 by decide) keys
  refine ⟨chunksOf 500 keys, ?_⟩
  cases hempty : keys.isEmpty with
  | true =>
      obtain rfl := List.isEmpty_iff.1 hempty
      obtain ⟨b₁, hbuild, hstore₁, -⟩ := runOn_enter .building b
      obtain ⟨b₂, hdone, hstore₂, hphase₂⟩ := runOn_enter .done b₁
      have hstore := hstore₂.trans hstore₁
      refine ⟨[], .ok 0, b₂, hchunking, ?_, ?_, .inl ⟨rfl, hphase₂, ?_⟩⟩
      · simp only [delete, List.isEmpty_nil, if_true]
        rw [Action.runOn_bind_of_ok hbuild, Action.runOn_bind_of_ok hdone]
        rfl
      · rw [exchanges_congr hstore, List.append_nil]
      · rw [hstore, chunksOf_nil (by decide)]
        exact .none _
  | false =>
      obtain ⟨b₂, hstore, hdelete⟩ := runOn_delete plan (pageSizeOf n) hempty b
      rw [hdelete, ← exchanges_congr hstore, ← hstore]
      rw [← hstore] at hwf
      have hall : ∀ chunk ∈ chunksOf 500 keys, ∀ key ∈ chunk, key.path.isDocument = true :=
        fun chunk hchunk key hkey => hkeys key (by
          rw [← hchunking.flatten_eq]
          exact List.mem_flatten_of_mem hchunk hkey)
      have hloop := runOn_eachChunk_clear hplan (pageSizeOf_pos n) (chunksOf 500 keys).length 1 hwf
        hall
      rcases hloop with ⟨asked, b₃, hrun, hasked, hclears⟩ |
        ⟨before, chunk, after, cleared, asked, table, e, b₃, hsplit, hclears, hstops, hasked, hrun,
          hphase⟩
      · obtain ⟨b₄, hdone, hstore₄, hphase₄⟩ := runOn_enter .done b₃
        refine ⟨asked, .ok keys.length, b₄, hchunking, ?_, ?_, .inl ⟨rfl, hphase₄, ?_⟩⟩
        · rw [Action.runOn_bind_of_ok hrun, Action.runOn_bind_of_ok hdone, Action.runOn_pure]
        · rw [exchanges_congr hstore₄, hasked]
        · rw [hstore₄]
          exact hclears
      · have hnodup : (before.flatten ++ chunk).Nodup := by
          rw [← hchunking.flatten_eq, hsplit, List.flatten_append, List.flatten_cons,
            ← List.append_assoc] at hdistinct
          exact hdistinct.of_append_left
        rw [Nat.add_comm 1] at hrun hphase
        exact ⟨_, _, b₃, hchunking, Action.runOn_bind_of_error hrun, hasked,
          .inr ⟨before, chunk, after, e, hsplit, rfl, hphase, hclears.stopsAfter hstops hnodup⟩⟩

/-- A user and a post of that user are deleted with pages of one document, and the second commit
fails: the failure is one of the only chunk, and both that user and another one are left. -/
theorem delete_chunk_by_chunk_users :
    let plan : Recording.Plan := .ofFailures [("commit", 2, .unavailable "down")]
    let keys : List DocumentKey := [⟨⟨["users", "ann"]⟩⟩, ⟨⟨["users", "ann", "posts", "p1"]⟩⟩]
    let b : Batcher (Watched (Recording Memory.State)) :=
      { client := .fresh { store := { store := ⟨usersTable, ⟨fun _ => ⟨0, 0⟩, 0⟩⟩ } } }
    plan.FailsCommits ∧ WellFormed (tableOf b.client.store) ∧ ∃ e b',
      (delete (Memory.datastore.recording plan).watched (pageSizeOf 1) keys).runOn b
        = (.error (Error.withChunk e 1 1), b') ∧
      b'.phase = .committing 1 1 ∧ IsStored (tableOf b'.client.store) ⟨["users", "ann"]⟩ ∧
      IsStored (tableOf b'.client.store) ⟨["users", "bob"]⟩ := by
  intro plan keys b
  have hplan : plan.FailsCommits := by
    intro requests e hfail
    cases requests with
    | nil => cases hfail
    | cons last before =>
        cases last with
        | commit writes => exact ⟨writes, before, rfl⟩
        | get | query | collections => simp [plan, Recording.Plan.ofFailures, Request.name] at hfail
  have hwf : WellFormed (tableOf b.client.store) := usersTable_wellFormed
  have hfails : ((delete (Memory.datastore.recording plan).watched (pageSizeOf 1) keys).runOn
      b).1.toBool = false := by
    decide +kernel
  obtain ⟨chunks, asked, outcome, b', hchunking, hrun, -, hends⟩ :=
    @delete_chunk_by_chunk plan hplan 1 keys (by decide) (by decide) b hwf
  rw [hrun] at hfails
  rcases hends with ⟨rfl, -⟩ | ⟨before, chunk, after, e, rfl, rfl, hphase, hstops⟩
  · cases hfails
  · -- There is only one chunk.
    have hone : (before ++ chunk :: after).length = 1 := hchunking.length_eq.trans (by decide)
    rw [hone] at hrun hphase
    rw [List.length_append, List.length_cons] at hone
    obtain rfl : before = [] := List.length_eq_zero_iff.1 (by omega)
    obtain rfl : after = [] := List.length_eq_zero_iff.1 (by omega)
    obtain rfl : chunk = keys := by
      rw [← hchunking.flatten_eq]
      simp
    have hann : IsStored (tableOf b.client.store) ⟨["users", "ann"]⟩ := by
      show _ ∈ usersTable.map (·.1)
      decide
    have hbob : (⟨["users", "bob"]⟩, ⟨[], ⟨0, 0⟩, ⟨0, 0⟩⟩) ∈ tableOf b.client.store := by
      simp [tableOf, b, Client.fresh, usersTable]
    have hnone : ¬ LiesBelow keys ⟨["users", "ann"]⟩ := by
      intro hbelow
      obtain ⟨target, htarget, habove⟩ := hbelow
      revert target
      decide
    exact ⟨hplan, hwf, e, b', hrun, hphase,
      hstops.standing ⟨⟨["users", "ann"]⟩⟩ List.mem_cons_self hann hnone,
      .of_mem (hstops.kept _ hbob (by decide))⟩

end Recorded

end Batcher

end DocStore
