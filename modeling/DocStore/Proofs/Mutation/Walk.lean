import DocStore.Proofs.Mutation.Course

/-!
# The walk of a recursive deletion

A store that acts like a table still does so when it is watched (`ActsOnTable.watched`): the commits
that succeed are the deletions, one by one.  What the requests of a walk keep is kept by the whole
walk (`KeptByWalk.descendants`), as long as it deletes nothing but what lies below its document; so
is the part of a table that is out of reach (`ActsOnTable.keptByWalk`).

The walk is bounded by a number of rounds, but the bound does not end it: in any number of rounds
that is more than the documents below, its runs are the same (`runOn_descendantsIn_congr`), since
every page that is not empty loses a document.

The main statement, `document_walk`, describes all commits of the deletion of a document.
-/

namespace DocStore.RecursiveDelete

open Memory ResourcePath

variable {σ : Type}

/-! ## Watched tables -/

/-- The exchanges of a walk that has deleted some documents, the last one first: each deletion is a
commit of its own, and a request fails only if deletions can. -/
structure Logged (canFail : Prop) (deleted : List DocumentKey) (asked : List Exchange) : Prop where
  applied : asked.filterMap Exchange.applied? = deleted.reverse.map fun key => [Write.delete key]
  failing : ∀ y ∈ asked, y.failure? ≠ none → canFail

namespace Logged

variable {canFail : Prop} {deleted : List DocumentKey} {asked : List Exchange} {y : Exchange}

theorem nil : Logged canFail [] [] := ⟨rfl, by simp⟩

/-- One more exchange, which deletes some documents. -/
theorem concat (h : Logged canFail deleted asked) (more : List DocumentKey)
    (happlied : y.applied?.toList = more.reverse.map fun key => [Write.delete key])
    (hfailing : y.failure? ≠ none → canFail) : Logged canFail (more ++ deleted) (asked ++ [y]) where
  applied := by
    rw [List.filterMap_append, h.applied, List.reverse_append, List.map_append, ← happlied]
    cases hy : y.applied? <;> simp [hy]
  failing := List.forall_mem_append.2 ⟨h.failing, List.forall_mem_singleton.2 hfailing⟩

end Logged

/-- A watched store holds a table as the store does, and has logged the deletions since it had seen
some exchanges. -/
def HoldsLogged (holds : Table → List DocumentKey → σ → Prop) (canFail : Prop)
    (seen : List Exchange) (table : Table) (deleted : List DocumentKey) (w : Watched σ) : Prop :=
  holds table deleted w.store ∧
    ∃ asked, w.exchanges = seen ++ asked ∧ Logged canFail deleted asked

/-- A request whose answer is kept. -/
theorem runOn_keep {α : Type} {exchange : Outcome α → Exchange} {a : Action σ α} {w : Watched σ}
    {answer : Outcome α} {s : σ} (h : a.runOn w.store = (answer, s)) :
    (Watched.keep exchange a).runOn w
      = (answer, ⟨s, w.exchanges ++ [exchange answer]⟩) := by
  show ((a.runOn w.store).1, Watched.mk (a.runOn w.store).2
    (w.exchanges ++ [exchange (a.runOn w.store).1])) = _
  rw [h]

section Watching

variable {ds : Datastore σ} {holds : Table → List DocumentKey → σ → Prop} {canFail : Prop}

/-- One more exchange with a watched store. -/
theorem HoldsLogged.concat {seen : List Exchange} {table table' : Table}
    {deleted : List DocumentKey} {w : Watched σ} {s : σ} {y : Exchange}
    (h : HoldsLogged holds canFail seen table deleted w) (more : List DocumentKey)
    (hholds : holds table' (more ++ deleted) s)
    (happlied : y.applied?.toList = more.reverse.map fun key => [Write.delete key])
    (hfailing : y.failure? ≠ none → canFail) :
    HoldsLogged holds canFail seen table' (more ++ deleted) ⟨s, w.exchanges ++ [y]⟩ := by
  obtain ⟨-, asked, hasked, hlogged⟩ := h
  refine ⟨hholds, asked ++ [y], ?_, hlogged.concat more happlied hfailing⟩
  rw [hasked, List.append_assoc]

/-- **Watched tables.**  A store that acts like a table does so when it is watched, and its log
tells the deletions. -/
theorem ActsOnTable.watched (hds : ActsOnTable ds holds canFail) (seen : List Exchange) :
    ActsOnTable ds.watched (HoldsLogged holds canFail seen) canFail where
  query := by
    intro table deleted w h q
    obtain ⟨now, s, hrun, hholds⟩ := hds.query h.1 q
    exact ⟨now, _, runOn_keep hrun, h.concat [] hholds rfl fun hfail => absurd rfl hfail⟩
  collections := by
    intro table deleted w h key
    obtain ⟨s, hrun, hholds⟩ := hds.collections h.1 key
    exact ⟨_, runOn_keep hrun, h.concat [] hholds rfl fun hfail => absurd rfl hfail⟩
  delete := by
    intro table deleted w h key
    rcases hds.delete h.1 key with ⟨s, hrun, hholds⟩ | ⟨hfail, e, s, hrun, hholds⟩
    · exact .inl ⟨_, runOn_keep hrun,
        h.concat [key] hholds rfl fun hfailure => absurd rfl hfailure⟩
    · exact .inr ⟨hfail, e, _, runOn_keep hrun, h.concat [] hholds rfl fun _ => hfail⟩
  rounds := by
    intro table deleted w h
    exact hds.rounds h.1

end Watching

/-! ## What a walk keeps -/

section Kept

variable {α β : Type} {ds : Datastore σ} {reach : ResourcePath → Prop} {inv : σ → Prop} {size : Nat}

/-- The step keeps what holds of the store, whether it succeeds or fails. -/
def Keeps (inv : σ → Prop) (a : Action (Client σ) α) : Prop :=
  ∀ c, inv c.store → inv (a.runOn c).2.store

namespace Keeps

theorem pure (x : α) : Keeps inv (pure x) := fun _ hc => hc

theorem log (level : Log.Level) (logger message : String) :
    Keeps inv (Client.log level logger message) := fun _ hc => hc

theorem bind {a : Action (Client σ) α} {f : α → Action (Client σ) β} (ha : Keeps inv a)
    (hf : ∀ x, Keeps inv (f x)) : Keeps inv (a >>= f) := by
  intro c hc
  have hmiddle := ha c hc
  rw [Action.runOn_bind]
  cases hrun : a.runOn c with
  | mk outcome t =>
    rw [hrun] at hmiddle
    cases outcome with
    | ok x => exact hf x t hmiddle
    | error e => exact hmiddle

theorem sumOver {f : α → Action (Client σ) Nat} {xs : List α} (hf : ∀ x ∈ xs, Keeps inv (f x)) :
    Keeps inv (sumOver f xs) := by
  induction xs with
  | nil => exact pure 0
  | cons x rest ih =>
      exact (hf x List.mem_cons_self).bind fun _ =>
        (ih fun y hy => hf y (List.mem_cons_of_mem _ hy)).bind fun _ => pure _

theorem mapM {f : α → Action (Client σ) β} {xs : List α} (hf : ∀ x ∈ xs, Keeps inv (f x)) :
    Keeps inv (xs.mapM f) := by
  induction xs with
  | nil => exact pure _
  | cons x rest ih =>
      rw [List.mapM_cons]
      exact (hf x List.mem_cons_self).bind fun _ =>
        (ih fun y hy => hf y (List.mem_cons_of_mem _ hy)).bind fun _ => pure _

end Keeps

/-- A walk that deletes only what it may reach keeps what holds of the store, and nothing but a
deletion fails. -/
structure KeptByWalk (ds : Datastore σ) (reach : ResourcePath → Prop) (inv : σ → Prop) : Prop where
  query : ∀ {s}, inv s → ∀ q, ∃ documents s', (ds.query q).runOn s = (.ok documents, s') ∧ inv s' ∧
    ∀ d ∈ documents, d.key.path.isDocument = true ∧ q.source.contains d.key = true
  collections : ∀ {s}, inv s → ∀ key, ∃ names s',
    (ds.collections key).runOn s = (.ok names, s') ∧ inv s'
  delete : ∀ {s}, inv s → ∀ key, reach key.path →
    ∃ outcome s', (ds.commit [.delete key]).runOn s = (outcome, s') ∧ inv s'

namespace KeptByWalk

theorem emptyCollection (h : KeptByWalk ds reach inv)
    {deleteTree : DocumentKey → Action (Client σ) Nat} {collection : ResourcePath}
    (htree : ∀ d : DocumentKey, d.path.parent = collection → Keeps inv (deleteTree d))
    (rounds : Nat) : Keeps inv (emptyCollection ds size deleteTree rounds collection) := by
  induction rounds with
  | zero => exact .pure 0
  | succ rounds ih =>
      intro c hc
      cases hpage : page size collection with
      | error e =>
          -- Only what is not a collection has no pages.
          rw [RecursiveDelete.emptyCollection, hpage,
            Action.runOn_bind_of_error (Action.runOn_ofOutcome _ _)]
          exact hc
      | ok q =>
          have hcol : collection.isCollection = true := by
            by_contra hnot
            rw [page, StoreQuery.ofCollection, if_neg hnot] at hpage
            cases hpage
          obtain ⟨documents, s, hquery, hs, hfound⟩ := h.query hc
            { source := .collection collection, projection := some [.documentId],
              limit := some size }
          rw [runOn_emptyCollection hcol deleteTree rounds hquery]
          split
          · exact hs
          · have hpage : Keeps inv (sumOver (fun d : Snapshot => deleteTree d.key) documents) :=
              .sumOver fun d hd => htree d.key (beq_iff_eq.1 (hfound d hd).2)
            exact (hpage.bind fun _ => ih.bind fun _ => .pure _) _ hs

theorem deleteAfter (h : KeptByWalk ds reach inv)
    {descendants : DocumentKey → Action (Client σ) Nat} {key : DocumentKey} (hkey : reach key.path)
    (hdesc : Keeps inv (descendants key)) : Keeps inv (deleteAfter ds descendants key) := by
  have hcommit : Keeps inv (Client.onStore (ds.commit [.delete key])) := by
    intro c hc
    obtain ⟨outcome, s, hrun, hs⟩ := h.delete hc key hkey
    rw [Client.runOn_onStore hrun]
    exact hs
  unfold RecursiveDelete.deleteAfter
  refine hdesc.bind fun removed => ?_
  dsimp only
  split
  · exact (Keeps.log _ _ _).bind fun _ => hcommit.bind fun _ => .pure _
  · exact hcommit.bind fun _ => .pure _

/-- A walk that may reach all that lies below its document. -/
theorem descendantsIn (h : KeptByWalk ds reach inv) (rounds : Nat) {key : DocumentKey}
    (hbelow : ∀ path, key.path.isAncestorOf path = true → reach path) :
    Keeps inv (descendantsIn ds size rounds key) := by
  induction rounds generalizing key with
  | zero => exact .pure 0
  | succ rounds ih =>
      intro c hc
      obtain ⟨names, s, hcollections, hs⟩ := h.collections hc key
      rw [RecursiveDelete.descendantsIn,
        Action.runOn_bind_of_ok (Client.runOn_onStore hcollections)]
      refine Keeps.sumOver (fun name _ => ?_) _ hs
      refine h.emptyCollection (fun d hparent => ?_) _
      have habove : key.path.isAncestorOf d.path = true :=
        isAncestorOf_of_isBeginningOf (key.isAncestorOf_childCollection name)
          (isBeginningOf_of_parent_eq hparent)
      exact h.deleteAfter (hbelow d.path habove) (ih fun path hpath =>
        hbelow path (isAncestorOf_of_isBeginningOf habove (isBeginningOf_of_isAncestorOf hpath)))

theorem descendants (h : KeptByWalk ds reach inv) {key : DocumentKey}
    (hbelow : ∀ path, key.path.isAncestorOf path = true → reach path) :
    Keeps inv (descendants ds size key) := by
  intro c hc
  rw [RecursiveDelete.descendants, Action.runOn_bind_of_ok (Action.runOn_state c)]
  exact h.descendantsIn _ hbelow c hc

end KeptByWalk

/-- A query of a table gives documents of its source. -/
theorem contains_of_mem_run {now : Timestamp} {q : StoreQuery} {table : Table} {d : Snapshot}
    (hd : d ∈ q.run (candidates now q.source table)) :
    d.key.path.isDocument = true ∧ q.source.contains d.key = true := by
  have hkey := StoreQuery.mem_keys_of_mem_run_keys (List.mem_map_of_mem hd)
  obtain ⟨found, hfound, heq⟩ := List.mem_map.1 hkey
  obtain ⟨path, stored, -, hdocument, hsource, rfl⟩ := mem_candidates.1 hfound
  rw [← heq]
  exact ⟨hdocument, hsource⟩

/-- The store holds a part of a table, with all that is out of reach. -/
def Within (holds : Table → List DocumentKey → σ → Prop) (reach : ResourcePath → Prop)
    (table : Table) (s : σ) : Prop :=
  ∃ table₁ deleted, table₁.Sublist table ∧ (∀ e ∈ table, ¬ reach e.1 → e ∈ table₁) ∧
    holds table₁ deleted s

/-- Where a store acts like a table, a walk leaves a part of it. -/
theorem ActsOnTable.keptByWalk {holds : Table → List DocumentKey → σ → Prop} {canFail : Prop}
    (hds : ActsOnTable ds holds canFail) {table : Table} (hwf : WellFormed table) :
    KeptByWalk ds reach (Within holds reach table) where
  query := by
    intro s h q
    obtain ⟨table₁, deleted, hsub, hkept, hholds⟩ := h
    obtain ⟨now, s', hrun, hholds⟩ := hds.query hholds q
    exact ⟨_, s', hrun, ⟨table₁, deleted, hsub, hkept, hholds⟩, fun d => contains_of_mem_run⟩
  collections := by
    intro s h key
    obtain ⟨table₁, deleted, hsub, hkept, hholds⟩ := h
    obtain ⟨s', hrun, hholds⟩ := hds.collections hholds key
    exact ⟨_, s', hrun, table₁, deleted, hsub, hkept, hholds⟩
  delete := by
    intro s h key hreach
    obtain ⟨table₁, deleted, hsub, hkept, hholds⟩ := h
    rcases hds.delete hholds key with ⟨s', hrun, hholds⟩ | ⟨-, e, s', hrun, hholds⟩
    · refine ⟨_, s', hrun, _, _, Keyed.erase_sublist.trans hsub, fun e he hout => ?_, hholds⟩
      refine (Keyed.mem_erase (hwf.sublist hsub).sorted).2 ⟨hkept e he hout, fun hself => ?_⟩
      rw [hself] at hout
      exact hout hreach
    · exact ⟨_, s', hrun, table₁, deleted, hsub, hkept, hholds⟩

end Kept

/-! ## Rounds -/

section Rounds

variable {α β : Type} {ds : Datastore σ} {holds : Table → List DocumentKey → σ → Prop}
  {canFail : Prop} {table : Table} {size : Nat}

/-- The store holds a part of a table. -/
abbrev Part (holds : Table → List DocumentKey → σ → Prop) (table : Table) : σ → Prop :=
  Within holds (fun _ => True) table

theorem Part.of_sublist {table₁ : Table} {deleted : List DocumentKey} {s : σ}
    (hsub : table₁.Sublist table) (hholds : holds table₁ deleted s) : Part holds table s :=
  ⟨table₁, deleted, hsub, fun _ _ hout => absurd trivial hout, hholds⟩

/-- Steps with the same runs go on in the same way. -/
theorem runOn_bind_congr {a b : Action (Client σ) α} {f g : α → Action (Client σ) β}
    {c : Client σ} (h : a.runOn c = b.runOn c)
    (hlater : ∀ x t, a.runOn c = (.ok x, t) → (f x).runOn t = (g x).runOn t) :
    (a >>= f).runOn c = (b >>= g).runOn c := by
  rw [Action.runOn_bind, Action.runOn_bind, ← h]
  cases hrun : a.runOn c with
  | mk outcome t =>
    cases outcome with
    | ok x => exact hlater x t hrun
    | error e => rfl

theorem runOn_sumOver_congr {f g : α → Action (Client σ) Nat} {xs : List α}
    (hf : ∀ x ∈ xs, Keeps (Part holds table) (f x))
    (h : ∀ x ∈ xs, ∀ c, Part holds table c.store → (f x).runOn c = (g x).runOn c) {c : Client σ}
    (hc : Part holds table c.store) : (sumOver f xs).runOn c = (sumOver g xs).runOn c := by
  induction xs generalizing c with
  | nil => rfl
  | cons x rest ih =>
      rw [List.forall_mem_cons] at hf h
      refine runOn_bind_congr (h.1 c hc) fun here t hrun => ?_
      have ht := hf.1 c hc
      rw [hrun] at ht
      exact runOn_bind_congr (ih hf.2 h.2 ht) fun later u _ => rfl

/-- Two ways to delete the documents of a collection that agree do so in any number of rounds that
is more than the documents below: each round but the last takes some of them away. -/
theorem runOn_emptyCollection_congr (hds : ActsOnTable ds holds canFail) (hsize : 0 < size)
    {collection : ResourcePath} (hcol : collection.isCollection = true)
    {f g : DocumentKey → Action (Client σ) Nat}
    (hf : ∀ {table : Table}, WellFormed table → ∀ d, Keeps (Part holds table) (f d))
    (hwf : WellFormed table)
    (htree : ∀ (table₁ : Table) (d : DocumentKey), table₁.Sublist table →
      IsStored table₁ d.path → d.path.parent = collection →
        Deletes holds canFail (f d) table₁ (InTree table₁ d.path))
    (hsame : ∀ d : DocumentKey, IsStored table d.path → d.path.parent = collection →
      ∀ c, Part holds table c.store → (f d).runOn c = (g d).runOn c)
    {m n : Nat} (hm : (below table collection).length < m)
    (hn : (below table collection).length < n) {deleted : List DocumentKey} {c : Client σ}
    (hc : holds table deleted c.store) :
    (emptyCollection ds size f m collection).runOn c
      = (emptyCollection ds size g n collection).runOn c := by
  induction m generalizing n table deleted c with
  | zero => omega
  | succ m ih =>
      obtain ⟨n, rfl⟩ : ∃ n', n = n' + 1 := ⟨n - 1, by omega⟩
      obtain ⟨documents, s, hquery, hs, hnodup, hstored, -⟩ :=
        runOn_page hds hwf hsize collection hc
      rw [runOn_emptyCollection hcol f m hquery, runOn_emptyCollection hcol g n hquery]
      cases documents with
      | nil => rw [List.isEmpty_nil, if_pos rfl, if_pos rfl]
      | cons first others =>
          have hfirst := hstored first List.mem_cons_self
          rw [List.isEmpty_cons, if_neg Bool.false_ne_true, if_neg Bool.false_ne_true]
          refine runOn_bind_congr (runOn_sumOver_congr (fun d _ => hf hwf d.key)
            (fun d hd => hsame d.key (hstored d hd).1 (hstored d hd).2)
            (Part.of_sublist (.refl _) hs)) fun here t hrun => ?_
          rcases deletes_page hstored hwf hnodup htree deleted { c with store := s } hs with
            ⟨keys, table₁, c₁, hpage, hremoval, hholds⟩ | ⟨-, e, part, keys, table₁, c₁, hpage, -⟩
          · obtain ⟨-, rfl⟩ := Prod.mk.inj (hpage.symm.trans hrun)
            have hless := hremoval.length_below_lt hfirst.1
              (isAncestorOf_of_parent_eq hwf hfirst.1 hfirst.2)
              ⟨first, List.mem_cons_self, (inTree_iff hfirst.1).2 (.inr rfl)⟩
            have hsub := hremoval.sublist
            refine runOn_bind_congr (ih (hwf.sublist hsub)
              (fun table₂ d h₂ => htree table₂ d (h₂.trans hsub)) ?_ (by omega) (by omega) hholds)
              fun later u _ => rfl
            intro d hd hparent c hwithin
            obtain ⟨table₂, deleted₂, h₂, -, hc⟩ := hwithin
            exact hsame d (.of_sublist hsub hd) hparent c (Part.of_sublist (h₂.trans hsub) hc)
          · obtain ⟨hfailed, -⟩ := Prod.mk.inj (hpage.symm.trans hrun)
            cases hfailed

/-- **Rounds.**  The walk comes to an end by itself: in any two numbers of rounds that are more than
the documents below, its runs are the same. -/
theorem runOn_descendantsIn_congr (hds : ActsOnTable ds holds canFail) (hsize : 0 < size)
    (hwf : WellFormed table) {key : DocumentKey} (hkey : key.path.isDocument = true) {m n : Nat}
    (hm : (below table key.path).length < m) (hn : (below table key.path).length < n)
    {c : Client σ} (hc : Part holds table c.store) :
    (descendantsIn ds size m key).runOn c = (descendantsIn ds size n key).runOn c := by
  induction m generalizing n table key c with
  | zero => omega
  | succ m ih =>
      obtain ⟨n, rfl⟩ : ∃ n', n = n' + 1 := ⟨n - 1, by omega⟩
      obtain ⟨table₁, deleted, hsub, -, hholds⟩ := hc
      obtain ⟨s, hcollections, hs⟩ := hds.collections hholds key
      rw [descendantsIn, descendantsIn,
        Action.runOn_bind_of_ok (Client.runOn_onStore hcollections),
        Action.runOn_bind_of_ok (Client.runOn_onStore hcollections)]
      have hkeeps : ∀ {table : Table}, WellFormed table → ∀ d,
          Keeps (Part holds table) (deleteAfter ds (descendantsIn ds size m) d) := fun hwf d =>
        (hds.keptByWalk hwf).deleteAfter trivial
          ((hds.keptByWalk hwf).descendantsIn m fun _ _ => trivial)
      refine runOn_sumOver_congr
        (fun name _ => (hds.keptByWalk hwf).emptyCollection (fun d _ => hkeeps hwf d) _)
        (fun name _ c hwithin => ?_) (Part.of_sublist hsub hs)
      obtain ⟨table₂, deleted₂, h₂, -, hc⟩ := hwithin
      have hwf₂ := hwf.sublist h₂
      have hcollection := length_below_childCollection_le table₂ key name
      have hle := length_below_le h₂ key.path
      refine runOn_emptyCollection_congr hds hsize
        (DocumentKey.isCollection_childCollection hkey name) hkeeps hwf₂ ?_ ?_ (by omega)
        (by omega) hc
      · intro table₃ d h₃ hd hparent
        have hwf₃ := hwf₂.sublist h₃
        have hlt := length_below_lt_of_parent hd hparent
        have hle₃ := length_below_le h₃ key.path
        exact deletes_deleteAfter hds hwf₃ hd
          (deletes_descendantsIn hds hsize hwf₃ (hwf₃.isDocument hd) (by omega))
      · intro d hd hparent c hwithin
        have hlt := length_below_lt_of_parent hd hparent
        exact runOn_bind_congr (ih hwf₂ (hwf₂.isDocument hd) (by omega) (by omega) hwithin)
          fun removed t _ => rfl

/-- The deletion of a document comes to an end by itself. -/
theorem runOn_document_congr (hds : ActsOnTable ds holds canFail) (hsize : 0 < size)
    (hwf : WellFormed table) {key : DocumentKey} (hkey : key.path.isDocument = true) {rounds : Nat}
    (hrounds : (below table key.path).length < rounds) {deleted : List DocumentKey} {c : Client σ}
    (hc : holds table deleted c.store) :
    (deleteAfter ds (descendantsIn ds size rounds) key).runOn c
      = (document ds size key).runOn c := by
  have hless : (below table key.path).length < table.length + 1 :=
    Nat.lt_succ_of_le (List.length_filter_le _ _)
  have hwalk : (descendantsIn ds size rounds key).runOn c = (descendants ds size key).runOn c := by
    rw [descendants, Action.runOn_bind_of_ok (Action.runOn_state c), hds.rounds hc]
    exact runOn_descendantsIn_congr hds hsize hwf hkey hrounds hless (Part.of_sublist (.refl _) hc)
  exact runOn_bind_congr hwalk fun removed t _ => rfl

end Rounds

/-! ## The store in memory -/

/-- The targets of a removal, in the order in which they were deleted, and at last the document that
they lie below: none of them twice, and each after what lies below it. -/
theorem Removal.targets {table table' : Table} {key : DocumentKey} {keys : List DocumentKey}
    (h : Removal table (Beneath table key.path) keys table') :
    (∀ target ∈ keys.reverse, IsStored table target.path ∧
        key.path.isAncestorOf target.path = true) ∧
      (keys.reverse ++ [key]).Nodup ∧
      (keys.reverse ++ [key]).Pairwise fun earlier later =>
        ¬ earlier.path.isAncestorOf later.path = true := by
  have hbelow : ∀ target ∈ keys.reverse, IsStored table target.path ∧
      key.path.isAncestorOf target.path = true := by
    intro target htarget
    obtain ⟨hstored, hbeneath⟩ := (h.keys_iff target).1 (List.mem_reverse.1 htarget)
    exact ⟨hstored, hbeneath.1⟩
  refine ⟨hbelow, ?_, ?_⟩
  · refine List.nodup_append.2 ⟨List.nodup_reverse.2 h.nodup, List.nodup_singleton _, ?_⟩
    intro target htarget last hlast heq
    have habove := (hbelow target htarget).2
    rw [heq, List.mem_singleton.1 hlast, not_isAncestorOf_self] at habove
    cases habove
  · refine List.pairwise_append.2
      ⟨List.pairwise_reverse.2 h.deepestFirst, List.pairwise_singleton _ _, ?_⟩
    intro target htarget last hlast habove
    obtain rfl := List.mem_singleton.1 hlast
    have hself := isAncestorOf_of_isBeginningOf (hbelow target htarget).2
      (isBeginningOf_of_isAncestorOf habove)
    rw [not_isAncestorOf_self] at hself
    cases hself

/-- **The walk.**  In every table of documents, whatever is missing in it, and for every page size,
the deletion of a document comes to an end by itself: more rounds change nothing.  No request
fails, and each commit is a single deletion.  The last commit deletes the document itself; the
others delete documents that were stored strictly below it at the start, none of them twice and
each after what lies below it.  What is not deleted stays as it was, and the number that is given
is that of the commits. -/
theorem document_walk {c : Client (Watched Memory.State)}
    (hwf : WellFormed c.store.store.table) {key : DocumentKey}
    (hkey : key.path.isDocument = true) (n : Nat) :
    ∃ targets asked c',
      (document Memory.datastore.watched (pageSizeOf n) key).runOn c
        = (.ok (asked.filterMap Exchange.sent?).length, c') ∧
      c'.exchanges = c.exchanges ++ asked ∧ (∀ y ∈ asked, y.failure? = none) ∧
      asked.filterMap Exchange.sent? = (targets ++ [key]).map (fun target => [.delete target]) ∧
      (∀ target ∈ targets, IsStored c.store.store.table target.path ∧
        key.path.isAncestorOf target.path = true) ∧
      (targets ++ [key]).Nodup ∧
      (targets ++ [key]).Pairwise (fun earlier later =>
        ¬ earlier.path.isAncestorOf later.path = true) ∧
      (∀ e, e ∈ c'.store.store.table ↔
        e ∈ c.store.store.table ∧ ∀ target ∈ targets ++ [key], e.1 ≠ target.path) ∧
      ∀ rounds, (below c.store.store.table key.path).length < rounds →
        (deleteAfter Memory.datastore.watched
            (descendantsIn Memory.datastore.watched (pageSizeOf n) rounds) key).runOn c
          = (document Memory.datastore.watched (pageSizeOf n) key).runOn c := by
  have hds := memory_actsOnTable.watched c.exchanges
  have hc : HoldsLogged (fun table _ s => s.table = table) False c.exchanges
      c.store.store.table [] c.store := ⟨rfl, [], (List.append_nil _).symm, .nil⟩
  have hdesc := deletes_descendants hds (pageSizeOf_pos n) hwf hkey
  rcases runOn_deleteAfter hds hdesc [] c hc with
    ⟨keys, table₁, c', hrun, hremoval, htable, asked, hasked, hlogged⟩ | ⟨hfail, -⟩
  · obtain ⟨hbelow, hnodup, hdeepest⟩ := hremoval.targets
    have hgranted : ∀ y ∈ asked, y.failure? = none := fun y hy =>
      by_contra fun hfailure => hlogged.failing y hy hfailure
    have hsent : asked.filterMap Exchange.sent?
        = (keys.reverse ++ [key]).map fun target => [.delete target] := by
      rw [Exchange.filterMap_sent_eq hgranted, hlogged.applied, List.append_nil,
        List.reverse_cons]
    refine ⟨keys.reverse, asked, c', ?_, hasked, hgranted, hsent, hbelow, hnodup, hdeepest, ?_, ?_⟩
    · rw [hsent, List.length_map, List.length_append, List.length_reverse]
      exact hrun
    · intro e
      rw [htable, Keyed.mem_erase (hwf.sublist hremoval.sublist).sorted, hremoval.mem_iff,
        and_assoc, List.forall_mem_append, List.forall_mem_singleton]
      refine and_congr_right fun he => and_congr_left fun _ => ?_
      constructor
      · intro hkept target htarget hpath
        rw [hpath] at hkept
        exact hkept ((hremoval.keys_iff target).1 (List.mem_reverse.1 htarget)).2
      · intro hall hbeneath
        exact hall ⟨e.1⟩ (List.mem_reverse.2 ((hremoval.keys_iff ⟨e.1⟩).2 ⟨.of_mem he, hbeneath⟩))
          rfl
    · intro rounds hrounds
      exact runOn_document_congr hds (pageSizeOf_pos n) hwf hkey hrounds hc
  · exact hfail.elim

/-- Two users; a draft of the first one is missing, but a note on it is there. -/
def usersTable : Table :=
  [["users", "ann"], ["users", "ann", "drafts", "d1", "notes", "n1"],
    ["users", "ann", "posts", "p1"], ["users", "ann", "posts", "p1", "comments", "c1"],
    ["users", "ann", "posts", "p2"], ["users", "bob"]].map fun names =>
      (⟨names⟩, ⟨[], ⟨0, 0⟩, ⟨0, 0⟩⟩)

theorem usersTable_wellFormed : WellFormed usersTable where
  sorted := by
    unfold Keyed.Sorted
    decide
  documents := by decide

/-- The first user is deleted with pages of one document, and the second one stays. -/
theorem document_walk_users :
    let c : Client (Watched Memory.State) :=
      .fresh { store := { table := usersTable, clock := ⟨fun _ => ⟨0, 0⟩, 0⟩ } }
    WellFormed usersTable ∧ ∃ (targets : List DocumentKey) (asked : List Exchange)
      (c' : Client (Watched Memory.State)),
      (document Memory.datastore.watched (pageSizeOf 1) ⟨⟨["users", "ann"]⟩⟩).runOn c
        = (.ok (asked.filterMap Exchange.sent?).length, c') ∧
      asked.filterMap Exchange.sent?
        = (targets ++ [(⟨⟨["users", "ann"]⟩⟩ : DocumentKey)]).map (fun target => [.delete target]) ∧
      IsStored c'.store.store.table ⟨["users", "bob"]⟩ := by
  intro c
  have hwf : WellFormed usersTable := usersTable_wellFormed
  obtain ⟨targets, asked, c', hrun, -, -, hsent, hbelow, -, -, hmem, -⟩ :=
    @document_walk c hwf ⟨⟨["users", "ann"]⟩⟩ (by decide) 1
  refine ⟨hwf, targets, asked, c', hrun, hsent, ?_⟩
  have hbob : IsStored c.store.store.table ⟨["users", "bob"]⟩ := by
    show _ ∈ usersTable.map (·.1)
    decide
  obtain ⟨e, he, hpath⟩ := Memory.isStored_iff.1 hbob
  rw [← hpath]
  refine .of_mem ((hmem e).2 ⟨he, List.forall_mem_append.2 ⟨fun target htarget heq => ?_, ?_⟩⟩)
  · have habove := (hbelow target htarget).2
    rw [← heq, hpath] at habove
    exact absurd habove (by decide)
  · rw [List.forall_mem_singleton, hpath]
    decide

end DocStore.RecursiveDelete
