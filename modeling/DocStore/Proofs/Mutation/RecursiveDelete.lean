import DocStore.Mutation.RecursiveDelete
import DocStore.Proofs.Client
import DocStore.Proofs.Store.Memory

/-!
# What a recursive deletion removes

The walk goes down from a document through its collections, and in a collection from one stored
document to the next.  It therefore reaches a document exactly if every document on the way is
stored as well (`Beneath`, `InTree`): below a gap, a document path at which nothing is stored,
everything stays.

The walk is proved over any store that acts like a table (`ActsOnTable`), whose deletions may
fail.  `Removal` says how a table loses the documents of a set and in which order; `Deletes` says
that a step removes a set, or a part of it when a deletion fails.  Each step of the walk has such
a lemma, up to `deletes_descendants`.

The main statement, `document_complete_iff`, says which documents stay in a table that commits
have led to, and that the deletion is complete exactly when no document lies below a gap.
-/

namespace DocStore.RecursiveDelete

open Memory ResourcePath

/-! ## What the walk reaches -/

/-- The path lies at or below another one, and every document on the way is stored. -/
def InTree (table : Table) (above path : ResourcePath) : Prop :=
  above.isBeginningOf path = true ∧
    ∀ q : ResourcePath, q.isDocument = true → above.isBeginningOf q = true →
      q.isBeginningOf path = true → IsStored table q

/-- The path lies strictly below another one, and every document on the way is stored. -/
def Beneath (table : Table) (above path : ResourcePath) : Prop :=
  above.isAncestorOf path = true ∧
    ∀ q : ResourcePath, q.isDocument = true → above.isAncestorOf q = true →
      q.isBeginningOf path = true → IsStored table q

section Reached

variable {table table' : Table} {a b p q : ResourcePath}

/-- What lies at or below a stored document is that document or lies strictly below it. -/
theorem inTree_iff (ha : IsStored table a) : InTree table a p ↔ Beneath table a p ∨ p = a := by
  constructor
  · intro hboth
    obtain ⟨hbegin, hall⟩ := hboth
    rcases eq_or_isAncestorOf hbegin with rfl | habove
    · exact .inr rfl
    · exact .inl ⟨habove, fun q hdoc hq => hall q hdoc (isBeginningOf_of_isAncestorOf hq)⟩
  · intro heither
    rcases heither with ⟨habove, hall⟩ | rfl
    · refine ⟨isBeginningOf_of_isAncestorOf habove, fun q hdoc haq hqp => ?_⟩
      rcases eq_or_isAncestorOf haq with rfl | haq
      · exact ha
      · exact hall q hdoc haq hqp
    · refine ⟨isBeginningOf_self _, fun q _ hpq hqp => ?_⟩
      rwa [← eq_of_isBeginningOf hpq (size_le_of_isBeginningOf hqp)]

/-- A tree is the same in two tables that agree at and below its root. -/
theorem inTree_congr (hsub : table'.Sublist table)
    (hkept : ∀ e ∈ table, a.isBeginningOf e.1 = true → e ∈ table') :
    InTree table' a p ↔ InTree table a p := by
  refine and_congr_right fun _ => forall_congr' fun q => ?_
  refine imp_congr_right fun _ => imp_congr_right fun haq => imp_congr_right fun _ => ?_
  constructor
  · exact .of_sublist hsub
  · intro hq
    obtain ⟨e, he, rfl⟩ := isStored_iff.1 hq
    exact .of_mem (hkept e he haq)

/-- Within a tree, what lies at or below a document of it is a tree. -/
theorem InTree.of_isBeginningOf (h : InTree table a p) (hab : a.isBeginningOf b = true)
    (hbp : b.isBeginningOf p = true) : InTree table b p :=
  ⟨hbp, fun q hdoc hbq hqp => h.2 q hdoc (isBeginningOf_trans hab hbq) hqp⟩

/-- Trees of two documents of a tree are put together. -/
theorem InTree.trans (hab : InTree table a b) (hbp : InTree table b p) : InTree table a p := by
  refine ⟨isBeginningOf_trans hab.1 hbp.1, fun q hdoc haq hqp => ?_⟩
  by_cases hsize : b.size ≤ q.size
  · exact hbp.2 q hdoc (isBeginningOf_of_size_le hbp.1 hqp hsize) hqp
  · exact hab.2 q hdoc haq (isBeginningOf_of_size_le hqp hbp.1 (by omega))

/-- What is reached below a document that is itself reached. -/
theorem Beneath.trans (hab : Beneath table a b) (hbp : Beneath table b p) : Beneath table a p := by
  refine ⟨isAncestorOf_of_isBeginningOf hab.1 (isBeginningOf_of_isAncestorOf hbp.1),
    fun q hdoc haq hqp => ?_⟩
  have hbegin := isBeginningOf_of_isAncestorOf hbp.1
  by_cases hsize : q.size ≤ b.size
  · exact hab.2 q hdoc haq (isBeginningOf_of_size_le hqp hbegin hsize)
  · have hbq := isBeginningOf_of_size_le hbegin hqp (by omega)
    rcases eq_or_isAncestorOf hbq with heq | hbq
    · rw [heq] at hsize
      exact absurd (Nat.le_refl _) hsize
    · exact hbp.2 q hdoc hbq hqp

end Reached

/-! ## Removals from a table -/

/-- The table loses the stored documents of a set: the keys that were deleted, the last one
first, each once, and no document before one that lies below it. -/
structure Removal (table : Table) (gone : ResourcePath → Prop) (keys : List DocumentKey)
    (table' : Table) : Prop where
  sublist : table'.Sublist table
  mem_iff : ∀ e, e ∈ table' ↔ e ∈ table ∧ ¬ gone e.1
  keys_iff : ∀ key, key ∈ keys ↔ IsStored table key.path ∧ gone key.path
  nodup : keys.Nodup
  deepestFirst : keys.Pairwise fun later earlier => ¬ earlier.path.isAncestorOf later.path = true

namespace Removal

variable {table table₁ table₂ : Table} {gone gone₁ gone₂ : ResourcePath → Prop}
  {keys keys₁ keys₂ : List DocumentKey}

theorem isStored_iff (h : Removal table gone keys table₁) {path : ResourcePath} :
    IsStored table₁ path ↔ IsStored table path ∧ ¬ gone path := by
  constructor
  · intro hstored
    obtain ⟨e, he, rfl⟩ := Memory.isStored_iff.1 hstored
    obtain ⟨he, hgone⟩ := (h.mem_iff e).1 he
    exact ⟨.of_mem he, hgone⟩
  · intro hboth
    obtain ⟨hstored, hgone⟩ := hboth
    obtain ⟨e, he, rfl⟩ := Memory.isStored_iff.1 hstored
    exact .of_mem ((h.mem_iff e).2 ⟨he, hgone⟩)

/-- Only the stored documents of the set matter. -/
theorem congr (h : Removal table gone₁ keys table₁)
    (hiff : ∀ path, IsStored table path → (gone₁ path ↔ gone₂ path)) :
    Removal table gone₂ keys table₁ where
  sublist := h.sublist
  mem_iff e := by
    rw [h.mem_iff]
    exact and_congr_right fun he => not_congr (hiff e.1 (.of_mem he))
  keys_iff key := by
    rw [h.keys_iff]
    exact and_congr_right fun hkey => hiff key.path hkey
  nodup := h.nodup
  deepestFirst := h.deepestFirst

/-- Nothing is removed if nothing of the set is stored. -/
theorem nothing (hnone : ∀ path, IsStored table path → ¬ gone path) :
    Removal table gone [] table where
  sublist := .refl _
  mem_iff e := ⟨fun he => ⟨he, hnone e.1 (.of_mem he)⟩, And.left⟩
  keys_iff key := by
    rw [List.mem_nil_iff, false_iff]
    intro hboth
    obtain ⟨hkey, hgone⟩ := hboth
    exact hnone _ hkey hgone
  nodup := .nil
  deepestFirst := .nil

/-- One stored document is removed. -/
theorem single (hwf : WellFormed table) {key : DocumentKey} (hkey : IsStored table key.path) :
    Removal table (· = key.path) [key] (Keyed.erase key.path table) where
  sublist := Keyed.erase_sublist
  mem_iff e := Keyed.mem_erase hwf.sorted
  keys_iff other := by
    rw [List.mem_singleton]
    constructor
    · intro heq
      obtain rfl := heq
      exact ⟨hkey, rfl⟩
    · intro hboth
      obtain ⟨-, hpath⟩ := hboth
      cases other
      cases hpath
      rfl
  nodup := List.nodup_singleton _
  deepestFirst := List.pairwise_singleton _ _

/-- Two removals after each other; the second removes nothing below what the first did. -/
theorem trans (h₁ : Removal table gone₁ keys₁ table₁) (h₂ : Removal table₁ gone₂ keys₂ table₂)
    (hbelow : ∀ p q, IsStored table p → IsStored table q → gone₁ p → gone₂ q →
      ¬ p.isAncestorOf q = true) :
    Removal table (fun path => gone₁ path ∨ gone₂ path) (keys₂ ++ keys₁) table₂ where
  sublist := h₂.sublist.trans h₁.sublist
  mem_iff e := by
    rw [h₂.mem_iff, h₁.mem_iff, not_or, and_assoc]
  keys_iff key := by
    rw [List.mem_append, h₁.keys_iff, h₂.keys_iff, h₁.isStored_iff]
    constructor
    · intro heither
      rcases heither with ⟨⟨hkey, -⟩, hgone⟩ | ⟨hkey, hgone⟩
      · exact ⟨hkey, .inr hgone⟩
      · exact ⟨hkey, .inl hgone⟩
    · intro hboth
      obtain ⟨hkey, hgone⟩ := hboth
      by_cases hgone₁ : gone₁ key.path
      · exact .inr ⟨hkey, hgone₁⟩
      · exact .inl ⟨⟨hkey, hgone₁⟩, hgone.resolve_left hgone₁⟩
  nodup := by
    refine List.nodup_append.2 ⟨h₂.nodup, h₁.nodup, ?_⟩
    intro key hkey₂ _ hkey₁ heq
    obtain rfl := heq
    have hkept := h₁.isStored_iff.1 ((h₂.keys_iff key).1 hkey₂).1
    exact hkept.2 ((h₁.keys_iff key).1 hkey₁).2
  deepestFirst := by
    refine List.pairwise_append.2 ⟨h₂.deepestFirst, h₁.deepestFirst, ?_⟩
    intro later hlater earlier hearlier
    obtain ⟨hstored₂, hgone₂⟩ := (h₂.keys_iff later).1 hlater
    obtain ⟨hstored₁, hgone₁⟩ := (h₁.keys_iff earlier).1 hearlier
    exact hbelow _ _ hstored₁ (.of_sublist h₁.sublist hstored₂) hgone₁ hgone₂

end Removal

/-! ## Steps that remove documents -/

variable {σ : Type}

/-- The store acts like a table: `holds table deleted s` relates a state to the table in it and to
the deletions so far, the last one first.  A deletion fails only if deletions can fail, and then
changes nothing. -/
structure ActsOnTable (ds : Datastore σ) (holds : Table → List DocumentKey → σ → Prop)
    (canFail : Prop) : Prop where
  query : ∀ {table deleted s}, holds table deleted s → ∀ q, ∃ now s',
    (ds.query q).runOn s = (.ok (q.run (candidates now q.source table)), s') ∧
      holds table deleted s'
  collections : ∀ {table deleted s}, holds table deleted s → ∀ key, ∃ s',
    (ds.collections key).runOn s = (.ok (collectionsBelow key table), s') ∧
      holds table deleted s'
  delete : ∀ {table deleted s}, holds table deleted s → ∀ key,
    (∃ s', (ds.commit [.delete key]).runOn s = (.ok (), s') ∧
      holds (Keyed.erase key.path table) (key :: deleted) s') ∨
    (canFail ∧ ∃ e s', (ds.commit [.delete key]).runOn s = (.error e, s') ∧
      holds table deleted s')
  rounds : ∀ {table deleted s}, holds table deleted s → ds.rounds s = table.length + 1

/-- The step removes the stored documents of a set and gives their number, or a deletion fails
and a part of the set is removed. -/
def Deletes (holds : Table → List DocumentKey → σ → Prop) (canFail : Prop)
    (a : Action (Client σ) Nat) (table : Table) (gone : ResourcePath → Prop) : Prop :=
  ∀ deleted (c : Client σ), holds table deleted c.store →
    (∃ keys table' c', a.runOn c = (.ok keys.length, c') ∧ Removal table gone keys table' ∧
      holds table' (keys ++ deleted) c'.store) ∨
    (canFail ∧ ∃ e part keys table' c', a.runOn c = (.error e, c') ∧
      (∀ path, part path → gone path) ∧ Removal table part keys table' ∧
      holds table' (keys ++ deleted) c'.store)

section Steps

variable {holds : Table → List DocumentKey → σ → Prop} {canFail : Prop} {table : Table}
  {gone gone₁ gone₂ : ResourcePath → Prop} {a b : Action (Client σ) Nat}

/-- Only the stored documents of the set matter. -/
theorem Deletes.congr (h : Deletes holds canFail a table gone₁)
    (hiff : ∀ path, IsStored table path → (gone₁ path ↔ gone₂ path)) :
    Deletes holds canFail a table gone₂ := by
  intro deleted c hc
  rcases h deleted c hc with
    ⟨keys, table', c', hrun, hremoval, hholds⟩ |
    ⟨hfail, e, part, keys, table', c', hrun, hpart, hremoval, hholds⟩
  · exact .inl ⟨keys, table', c', hrun, hremoval.congr hiff, hholds⟩
  · -- A part of the one set is, as far as it is stored, a part of the other.
    refine .inr ⟨hfail, e, fun path => part path ∧ gone₂ path, keys, table', c', hrun,
      fun path => And.right, hremoval.congr fun path hstored => ?_, hholds⟩
    exact ⟨fun hp => ⟨hp, (hiff path hstored).1 (hpart path hp)⟩, And.left⟩

/-- Doing nothing removes a set of which nothing is stored. -/
theorem deletes_pure (hnone : ∀ path, IsStored table path → ¬ gone path) :
    Deletes holds canFail (pure 0) table gone := by
  intro deleted c hc
  exact .inl ⟨[], table, c, rfl, .nothing hnone, hc⟩

/-- Two steps after each other remove both sets and add up their numbers. -/
theorem Deletes.add (ha : Deletes holds canFail a table gone₁)
    (hb : ∀ table₁ keys, Removal table gone₁ keys table₁ →
      Deletes holds canFail b table₁ gone₂)
    (hbelow : ∀ p q, IsStored table p → IsStored table q → gone₁ p → gone₂ q →
      ¬ p.isAncestorOf q = true) :
    Deletes holds canFail (a >>= fun here => b >>= fun later => pure (here + later)) table
      fun path => gone₁ path ∨ gone₂ path := by
  intro deleted c hc
  rcases ha deleted c hc with
    ⟨keys₁, table₁, c₁, hrun₁, hremoval₁, hholds₁⟩ |
    ⟨hfail, e, part, keys₁, table₁, c₁, hrun₁, hpart, hremoval₁, hholds₁⟩
  · rcases hb table₁ keys₁ hremoval₁ (keys₁ ++ deleted) c₁ hholds₁ with
      ⟨keys₂, table₂, c₂, hrun₂, hremoval₂, hholds₂⟩ |
      ⟨hfail, e, part, keys₂, table₂, c₂, hrun₂, hpart, hremoval₂, hholds₂⟩
    · refine .inl ⟨keys₂ ++ keys₁, table₂, c₂, ?_, hremoval₁.trans hremoval₂ hbelow, ?_⟩
      · rw [Action.runOn_bind_of_ok hrun₁, Action.runOn_bind_of_ok hrun₂, Action.runOn_pure,
          List.length_append, Nat.add_comm]
      · rwa [List.append_assoc]
    · refine .inr ⟨hfail, e, fun path => gone₁ path ∨ part path, keys₂ ++ keys₁, table₂, c₂, ?_,
        ?_, ?_, ?_⟩
      · rw [Action.runOn_bind_of_ok hrun₁, Action.runOn_bind_of_error hrun₂]
      · exact fun path => Or.imp_right (hpart path)
      · exact hremoval₁.trans hremoval₂ fun p q hp hq hgone hq' =>
          hbelow p q hp hq hgone (hpart q hq')
      · rwa [List.append_assoc]
  · exact .inr ⟨hfail, e, part, keys₁, table₁, c₁, Action.runOn_bind_of_error hrun₁,
      fun path hp => .inl (hpart path hp), hremoval₁, hholds₁⟩

/-- Steps that each empty the tree at a root, one after the other, empty all the trees, if no
root begins another one. -/
theorem deletes_sumOver {α : Type} {f : α → Action (Client σ) Nat} (root : α → ResourcePath)
    {xs : List α}
    (hroots : xs.Pairwise fun x y => ¬ (root x).isBeginningOf (root y) = true ∧
      ¬ (root y).isBeginningOf (root x) = true)
    (hf : ∀ x ∈ xs, ∀ table₁ : Table, table₁.Sublist table →
      (∀ e ∈ table, (root x).isBeginningOf e.1 = true → e ∈ table₁) →
        Deletes holds canFail (f x) table₁ (InTree table₁ (root x))) :
    Deletes holds canFail (sumOver f xs) table
      fun path => ∃ x ∈ xs, InTree table (root x) path := by
  induction xs generalizing table with
  | nil => exact deletes_pure (by simp)
  | cons x rest ih =>
      obtain ⟨hx, hrest⟩ := List.pairwise_cons.1 hroots
      -- A path at or below one root is not at or below another one.
      have hapart (y : α) (hy : y ∈ rest) (path : ResourcePath)
          (hxp : (root x).isBeginningOf path = true) :
          ¬ (root y).isBeginningOf path = true := by
        intro hyp
        rcases Nat.le_total (root x).size (root y).size with hle | hle
        · exact (hx y hy).1 (isBeginningOf_of_size_le hxp hyp hle)
        · exact (hx y hy).2 (isBeginningOf_of_size_le hyp hxp hle)
      have hlater (table₁ : Table) (keys : List DocumentKey)
          (hremoval : Removal table (InTree table (root x)) keys table₁) :
          Deletes holds canFail (sumOver f rest) table₁
            fun path => ∃ y ∈ rest, InTree table (root y) path := by
        have hkept (y : α) (hy : y ∈ rest) (e : ResourcePath × Stored) (he : e ∈ table)
            (hbegin : (root y).isBeginningOf e.1 = true) : e ∈ table₁ :=
          (hremoval.mem_iff e).2 ⟨he, fun hin => hapart y hy e.1 hin.1 hbegin⟩
        have hsum := @ih table₁ hrest fun y hy table₂ hsub hall =>
          hf y (List.mem_cons_of_mem _ hy) table₂ (hsub.trans hremoval.sublist)
            fun e he hbegin => hall e (hkept y hy e he hbegin) hbegin
        refine hsum.congr fun path _ => ?_
        refine exists_congr fun y => and_congr_right fun hy => ?_
        exact inTree_congr hremoval.sublist (hkept y hy)
      have hfirst := hf x List.mem_cons_self table (.refl _) fun e he _ => he
      have hboth := hfirst.add hlater (by
        intro p q _ _ hp hboth habove
        obtain ⟨y, hy, hq⟩ := hboth
        exact hapart y hy q (isBeginningOf_trans hp.1 (isBeginningOf_of_isAncestorOf habove)) hq.1)
      exact hboth.congr fun path _ => by simp

end Steps

/-! ## The walk -/

/-- The documents strictly below a path, whether they are reached or not. -/
def below (table : Table) (path : ResourcePath) : Table :=
  table.filter fun e => path.isAncestorOf e.1

section Walk

variable {ds : Datastore σ} {holds : Table → List DocumentKey → σ → Prop} {canFail : Prop}
  {table table' : Table}

theorem length_below_le (hsub : table'.Sublist table) (path : ResourcePath) :
    (below table' path).length ≤ (below table path).length :=
  (hsub.filter _).length_le

/-- Fewer documents lie below a document than below what it lies below. -/
theorem length_below_lt {a b : ResourcePath} (hb : IsStored table b)
    (hab : a.isAncestorOf b = true) : (below table b).length < (below table a).length := by
  have hsub : (below table b).Sublist (below table a) :=
    List.monotone_filter_right table fun e hbe =>
      isAncestorOf_of_isBeginningOf hab (isBeginningOf_of_isAncestorOf hbe)
  refine Nat.lt_of_le_of_ne hsub.length_le fun hlen => ?_
  obtain ⟨e, he, rfl⟩ := isStored_iff.1 hb
  have hmem : e ∈ below table e.1 := by
    rw [hsub.eq_of_length hlen]
    exact List.mem_filter.2 ⟨he, hab⟩
  simpa using (List.mem_filter.1 hmem).2

/-- A document is deleted after what lies below it; it need not be stored. -/
theorem runOn_deleteAfter (hds : ActsOnTable ds holds canFail)
    {descendants : DocumentKey → Action (Client σ) Nat} {key : DocumentKey}
    {gone : ResourcePath → Prop} (hdesc : Deletes holds canFail (descendants key) table gone)
    (deleted : List DocumentKey) (c : Client σ) (hc : holds table deleted c.store) :
    (∃ keys table' c', (deleteAfter ds descendants key).runOn c = (.ok (keys.length + 1), c') ∧
      Removal table gone keys table' ∧
      holds (Keyed.erase key.path table') (key :: keys ++ deleted) c'.store) ∨
    (canFail ∧ ∃ e part keys table' c', (deleteAfter ds descendants key).runOn c = (.error e, c') ∧
      (∀ path, part path → gone path) ∧ Removal table part keys table' ∧
      holds table' (keys ++ deleted) c'.store) := by
  rcases hdesc deleted c hc with
    ⟨keys, table₁, c₁, hrun, hremoval, hholds⟩ |
    ⟨hfail, e, part, keys, table₁, c₁, hrun, hpart, hremoval, hholds⟩
  · -- The line that is logged changes nothing in the store.
    obtain ⟨c₂, hstore, hrest⟩ : ∃ c₂ : Client σ, c₂.store = c₁.store ∧
        (deleteAfter ds descendants key).runOn c
          = (Client.onStore (ds.commit [.delete key]) >>= fun _ =>
              pure (keys.length + 1)).runOn c₂ := by
      rw [deleteAfter, Action.runOn_bind_of_ok hrun]
      by_cases hpos : 0 < keys.length
      · obtain ⟨c₂, hlog, hstore⟩ := Client.runOn_log .debug logger
          ("removed " ++ toString keys.length ++ " descendant document(s) of " ++ key.text) c₁
        simp only [if_pos hpos]
        exact ⟨c₂, hstore, Action.runOn_bind_of_ok hlog⟩
      · simp only [if_neg hpos]
        exact ⟨c₁, rfl, rfl⟩
    rw [hrest]
    rw [← hstore] at hholds
    rcases hds.delete hholds key with ⟨s, hcommit, hafter⟩ | ⟨hfail, e, s, hcommit, hafter⟩
    · refine .inl ⟨keys, table₁, { c₂ with store := s }, ?_, hremoval, hafter⟩
      rw [Action.runOn_bind_of_ok (Client.runOn_onStore hcommit), Action.runOn_pure]
    · exact .inr ⟨hfail, e, gone, keys, table₁, { c₂ with store := s },
        Action.runOn_bind_of_error (Client.runOn_onStore hcommit), fun _ => id, hremoval, hafter⟩
  · exact .inr ⟨hfail, e, part, keys, table₁, c₁, Action.runOn_bind_of_error hrun, hpart, hremoval,
      hholds⟩

/-- A stored document goes with what is reached below it. -/
theorem deletes_deleteAfter (hds : ActsOnTable ds holds canFail) (hwf : WellFormed table)
    {descendants : DocumentKey → Action (Client σ) Nat} {key : DocumentKey}
    (hkey : IsStored table key.path)
    (hdesc : Deletes holds canFail (descendants key) table (Beneath table key.path)) :
    Deletes holds canFail (deleteAfter ds descendants key) table (InTree table key.path) := by
  intro deleted c hc
  rcases runOn_deleteAfter hds hdesc deleted c hc with
    ⟨keys, table₁, c₁, hrun, hremoval, hholds⟩ |
    ⟨hfail, e, part, keys, table₁, c₁, hrun, hpart, hremoval, hholds⟩
  · have hkept : IsStored table₁ key.path := by
      refine hremoval.isStored_iff.2 ⟨hkey, fun hbeneath => ?_⟩
      simpa using hbeneath.1
    have hboth := hremoval.trans (.single (hwf.sublist hremoval.sublist) hkept) (by
      intro p _ _ _ hp heq habove
      obtain rfl := heq
      -- What lies below the document is not above it.
      have hself := isAncestorOf_of_isBeginningOf habove (isBeginningOf_of_isAncestorOf hp.1)
      simp at hself)
    exact .inl ⟨key :: keys, _, c₁, hrun, hboth.congr fun path _ => (inTree_iff hkey).symm,
      hholds⟩
  · exact .inr ⟨hfail, e, part, keys, table₁, c₁, hrun,
      fun path hp => (inTree_iff hkey).2 (.inl (hpart path hp)), hremoval, hholds⟩

/-- The query for a page of a collection. -/
theorem page_eq {collection : ResourcePath} (hcol : collection.isCollection = true) (size : Nat) :
    page size collection
      = .ok { source := .collection collection, projection := some [.documentId],
              limit := some size } := by
  rw [page, StoreQuery.ofCollection, if_pos hcol]
  rfl

/-- The first page of a collection: documents of it, each once, and some if there are any. -/
theorem runOn_page (hds : ActsOnTable ds holds canFail) (hwf : WellFormed table)
    {size : Nat} (hsize : 0 < size) (collection : ResourcePath) {deleted : List DocumentKey}
    {c : Client σ} (hc : holds table deleted c.store) :
    ∃ documents s,
      (ds.query { source := .collection collection, projection := some [.documentId],
                  limit := some size }).runOn c.store = (.ok documents, s) ∧
      holds table deleted s ∧ (documents.map (·.key)).Nodup ∧
      (∀ d ∈ documents, IsStored table d.key.path ∧ d.key.path.parent = collection) ∧
      (documents = [] → ∀ path, IsStored table path → path.parent ≠ collection) := by
  obtain ⟨now, s, hrun, hholds⟩ := hds.query hc
    { source := .collection collection, projection := some [.documentId], limit := some size }
  obtain ⟨all, hnodup, hmem, hkeys⟩ := page_keys now hwf collection
    (some [.documentId]) size
  refine ⟨_, s, hrun, hholds, ?_, fun d hd => ?_, fun hnone path hstored hparent => ?_⟩
  · rw [hkeys]
    exact hnodup.sublist (List.take_sublist _ _)
  · have hkey : d.key ∈ all.take size := by
      rw [← hkeys]
      exact List.mem_map_of_mem hd
    exact (hmem d.key).1 (List.mem_of_mem_take hkey)
  · rw [hnone, List.map_nil] at hkeys
    have hpath : (⟨path⟩ : DocumentKey) ∈ all := (hmem ⟨path⟩).2 ⟨hstored, hparent⟩
    rcases List.take_eq_nil_iff.1 hkeys.symm with hzero | hempty
    · omega
    · rw [hempty] at hpath
      cases hpath

/-- The document through which the walk reaches a path of a collection. -/
theorem InTree.document {collection path : ResourcePath} (hwf : WellFormed table)
    (hcol : collection.isCollection = true) (h : InTree table collection path)
    (hpath : IsStored table path) :
    ∃ d, IsStored table d ∧ d.parent = collection ∧ InTree table d path := by
  have hdoc := hwf.isDocument hpath
  have hodd : collection.size % 2 = 1 := by
    simpa [isCollection] using hcol
  have heven : path.size % 2 = 0 := by
    simp only [isDocument, Bool.and_eq_true, beq_iff_eq] at hdoc
    exact hdoc.2
  have hle := size_le_of_isBeginningOf h.1
  have hupTo : (path.upTo (collection.size + 1)).size = collection.size + 1 :=
    size_upTo (by omega)
  have hbegin : (path.upTo (collection.size + 1)).isBeginningOf path = true :=
    isBeginningOf_upTo _ _
  have habove : collection.isBeginningOf (path.upTo (collection.size + 1)) = true :=
    isBeginningOf_of_size_le h.1 hbegin (by omega)
  have hdocument : (path.upTo (collection.size + 1)).isDocument = true := by
    have hne : (path.upTo (collection.size + 1)).segments ≠ [] := by
      intro hnil
      rw [size, hnil, List.length_nil] at hupTo
      omega
    simp only [isDocument, isRoot, Bool.and_eq_true, Bool.not_eq_true', beq_iff_eq,
      List.isEmpty_eq_false_iff]
    exact ⟨hne, by omega⟩
  exact ⟨_, h.2 _ hdocument habove hbegin, parent_eq_of_isBeginningOf habove hupTo,
    h.of_isBeginningOf habove hbegin⟩

/-- A stored document of a collection is reached in it. -/
theorem inTree_of_parent_eq {collection d : ResourcePath} (hwf : WellFormed table)
    (hcol : collection.isCollection = true) (hd : IsStored table d)
    (hparent : d.parent = collection) : InTree table collection d := by
  refine ⟨isBeginningOf_of_parent_eq hparent, fun q hdoc hcq hqd => ?_⟩
  -- No document lies between a collection and a document in it.
  have hsize := size_of_parent_eq (hwf.isDocument hd) hparent
  have hle := size_le_of_isBeginningOf hcq
  have hodd : collection.size % 2 = 1 := by
    simpa [isCollection] using hcol
  have heven : q.size % 2 = 0 := by
    simp only [isDocument, Bool.and_eq_true, beq_iff_eq] at hdoc
    exact hdoc.2
  rwa [eq_of_isBeginningOf hqd (by omega)]

/-- Fewer documents lie below a path after one of them is removed. -/
theorem Removal.length_below_lt {gone : ResourcePath → Prop} {keys : List DocumentKey}
    {above d : ResourcePath} (h : Removal table gone keys table') (hd : IsStored table d)
    (habove : above.isAncestorOf d = true) (hgone : gone d) :
    (below table' above).length < (below table above).length := by
  have hsub : (below table' above).Sublist (below table above) := h.sublist.filter _
  refine Nat.lt_of_le_of_ne hsub.length_le fun hlen => ?_
  obtain ⟨e, he, rfl⟩ := Memory.isStored_iff.1 hd
  have hmem : e ∈ below table' above := by
    rw [hsub.eq_of_length hlen]
    exact List.mem_filter.2 ⟨he, habove⟩
  exact ((h.mem_iff e).1 (List.mem_filter.1 hmem).1).2 hgone

/-- The documents shown on a page, with all that is reached below them. -/
def Shown (table : Table) (documents : List Snapshot) (path : ResourcePath) : Prop :=
  ∃ d ∈ documents, InTree table d.key.path path

section Page

variable {collection : ResourcePath} {documents : List Snapshot}
  (hstored : ∀ d ∈ documents, IsStored table d.key.path ∧ d.key.path.parent = collection)

include hstored

theorem Shown.of_isBeginningOf {p q : ResourcePath} (hp : InTree table collection p)
    (hq : Shown table documents q) (hqp : q.isBeginningOf p = true) : Shown table documents p := by
  obtain ⟨d, hd, hin⟩ := hq
  exact ⟨d, hd, hp.of_isBeginningOf (isBeginningOf_of_parent_eq (hstored d hd).2)
    (isBeginningOf_trans hin.1 hqp)⟩

theorem Shown.inTree (hwf : WellFormed table) (hcol : collection.isCollection = true)
    {path : ResourcePath} (h : Shown table documents path) : InTree table collection path := by
  obtain ⟨d, hd, hin⟩ := h
  exact (inTree_of_parent_eq hwf hcol (hstored d hd).1 (hstored d hd).2).trans hin

/-- After the documents of a page are gone, the walk reaches what it reached before and is left. -/
theorem inTree_iff_of_removal {keys : List DocumentKey}
    (hremoval : Removal table (Shown table documents) keys table') {path : ResourcePath}
    (hpath : IsStored table' path) :
    InTree table' collection path ↔
      InTree table collection path ∧ ¬ Shown table documents path := by
  obtain ⟨-, hnot⟩ := hremoval.isStored_iff.1 hpath
  constructor
  · intro hboth
    obtain ⟨hbegin, hall⟩ := hboth
    refine ⟨⟨hbegin, fun q hdoc hcq hqp => ?_⟩, hnot⟩
    exact (hremoval.isStored_iff.1 (hall q hdoc hcq hqp)).1
  · intro hboth
    obtain ⟨hin, -⟩ := hboth
    refine ⟨hin.1, fun q hdoc hcq hqp => ?_⟩
    exact hremoval.isStored_iff.2 ⟨hin.2 q hdoc hcq hqp,
      fun hq => hnot (hq.of_isBeginningOf hstored hin hqp)⟩

/-- Deleting the documents of a page one after the other removes them with all that is reached
below them. -/
theorem deletes_page (hwf : WellFormed table) (hnodup : (documents.map (·.key)).Nodup)
    {deleteTree : DocumentKey → Action (Client σ) Nat}
    (htree : ∀ (table₁ : Table) (d : DocumentKey), table₁.Sublist table →
      IsStored table₁ d.path → d.path.parent = collection →
        Deletes holds canFail (deleteTree d) table₁ (InTree table₁ d.path)) :
    Deletes holds canFail (sumOver (fun d : Snapshot => deleteTree d.key) documents) table
      (Shown table documents) := by
  refine deletes_sumOver (fun d : Snapshot => d.key.path) ?_ ?_
  · refine (List.pairwise_map.1 hnodup).imp_of_mem fun {d d'} hd hd' hne => ?_
    have hsizes : d.key.path.size = d'.key.path.size := by
      rw [size_of_parent_eq (hwf.isDocument (hstored d hd).1) (hstored d hd).2,
        size_of_parent_eq (hwf.isDocument (hstored d' hd').1) (hstored d' hd').2]
    refine ⟨fun hbegin => hne ?_, fun hbegin => hne ?_⟩
    · exact congrArg DocumentKey.mk (eq_of_isBeginningOf hbegin (Nat.le_of_eq hsizes.symm))
    · exact congrArg DocumentKey.mk (eq_of_isBeginningOf hbegin (Nat.le_of_eq hsizes)).symm
  · intro d hd table₁ hsub hkept
    refine htree table₁ d.key hsub ?_ (hstored d hd).2
    obtain ⟨e, he, hpath⟩ := Memory.isStored_iff.1 (hstored d hd).1
    rw [← hpath]
    exact .of_mem (hkept e he (by simp [hpath]))

end Page

/-- A round on a collection: the documents of a page are deleted, unless there are none. -/
theorem runOn_emptyCollection {size : Nat} {collection : ResourcePath}
    (hcol : collection.isCollection = true) (deleteTree : DocumentKey → Action (Client σ) Nat)
    (rounds : Nat) {documents : List Snapshot} {c : Client σ} {s : σ}
    (hquery : (ds.query { source := .collection collection, projection := some [.documentId],
                          limit := some size }).runOn c.store = (.ok documents, s)) :
    (emptyCollection ds size deleteTree (rounds + 1) collection).runOn c
      = (if documents.isEmpty then pure 0
          else sumOver (fun d : Snapshot => deleteTree d.key) documents >>= fun here =>
            emptyCollection ds size deleteTree rounds collection >>= fun later =>
              pure (here + later)).runOn { c with store := s } := by
  rw [emptyCollection, page_eq hcol, Action.runOn_bind_of_ok (Action.runOn_ofOutcome _ _),
    Action.runOn_bind_of_ok (Client.runOn_onStore hquery)]

/-- A document that a page shows lies below its collection. -/
theorem isAncestorOf_of_parent_eq {collection d : ResourcePath} (hwf : WellFormed table)
    (hd : IsStored table d) (hparent : d.parent = collection) :
    collection.isAncestorOf d = true := by
  refine isAncestorOf_iff.2 ⟨?_, isBeginningOf_of_parent_eq hparent⟩
  rw [size_of_parent_eq (hwf.isDocument hd) hparent]
  omega

/-- A collection is emptied of all that the walk reaches in it, if each of its documents is and
the rounds are more than the documents below. -/
theorem deletes_emptyCollection (hds : ActsOnTable ds holds canFail) {size : Nat}
    (hsize : 0 < size) {collection : ResourcePath} (hcol : collection.isCollection = true)
    {deleteTree : DocumentKey → Action (Client σ) Nat} {rounds : Nat} (hwf : WellFormed table)
    (hrounds : (below table collection).length < rounds)
    (htree : ∀ (table₁ : Table) (d : DocumentKey), table₁.Sublist table →
      IsStored table₁ d.path → d.path.parent = collection →
        Deletes holds canFail (deleteTree d) table₁ (InTree table₁ d.path)) :
    Deletes holds canFail (emptyCollection ds size deleteTree rounds collection) table
      (InTree table collection) := by
  induction rounds generalizing table with
  | zero => omega
  | succ rounds ih =>
      intro deleted c hc
      obtain ⟨documents, s, hquery, hs, hnodup, hstored, hempty⟩ :=
        runOn_page hds hwf hsize collection hc
      rw [runOn_emptyCollection hcol deleteTree rounds hquery]
      cases documents with
      | nil =>
          -- A path in the tree would be reached through a document that is not on the page.
          refine deletes_pure (fun path hpath hin => ?_) deleted { c with store := s } hs
          obtain ⟨d, hd, hparent, -⟩ := hin.document hwf hcol hpath
          exact hempty rfl d hd hparent
      | cons first others =>
          have hfirst := hstored first List.mem_cons_self
          have habove := isAncestorOf_of_parent_eq hwf hfirst.1 hfirst.2
          have hpage := deletes_page hstored hwf hnodup htree
          have hlater : ∀ table₁ keys, Removal table (Shown table (first :: others)) keys table₁ →
              Deletes holds canFail (emptyCollection ds size deleteTree rounds collection) table₁
                fun path => InTree table collection path ∧
                  ¬ Shown table (first :: others) path := by
            intro table₁ keys hremoval
            have hless := hremoval.length_below_lt hfirst.1 habove
              ⟨first, List.mem_cons_self, (inTree_iff hfirst.1).2 (.inr rfl)⟩
            have hrest := @ih table₁ (hwf.sublist hremoval.sublist) (by omega)
              fun table₂ d hsub => htree table₂ d (hsub.trans hremoval.sublist)
            exact hrest.congr fun path hpath => inTree_iff_of_removal hstored hremoval hpath
          have hboth := hpage.add hlater (by
            intro p q _ _ hp hq hpq
            exact hq.2 (hp.of_isBeginningOf hstored hq.1 (isBeginningOf_of_isAncestorOf hpq)))
          refine hboth.congr (fun path _ => ?_) deleted { c with store := s } hs
          constructor
          · intro heither
            rcases heither with hp | ⟨hp, -⟩
            · exact hp.inTree hstored hwf hcol
            · exact hp
          · intro hp
            by_cases hshown : Shown table (first :: others) path
            · exact .inl hshown
            · exact .inr ⟨hp, hshown⟩

/-- The collections below a document hold all that the walk reaches below it. -/
theorem beneath_iff (key : DocumentKey) {path : ResourcePath} (hpath : IsStored table path) :
    Beneath table key.path path ↔
      ∃ name ∈ collectionsBelow key table, InTree table (key.childCollection name) path := by
  have hchild (name : String) {q : ResourcePath} (hq : q.isBeginningOf path = true)
      (habove : key.path.isAncestorOf q = true)
      (hname : (key.childCollection name).isBeginningOf path = true) :
      (key.childCollection name).isBeginningOf q = true := by
    refine isBeginningOf_of_size_le hname hq ?_
    have hlt := (isAncestorOf_iff.1 habove).1
    rw [DocumentKey.size_childCollection]
    omega
  constructor
  · intro hboth
    obtain ⟨habove, hall⟩ := hboth
    have hlt : key.path.size < path.segments.length := (isAncestorOf_iff.1 habove).1
    have hname : path.segments[key.path.size]? = some path.segments[key.path.size] :=
      List.getElem?_eq_getElem hlt
    have hin : (key.childCollection path.segments[key.path.size]).isBeginningOf path = true :=
      child_isBeginningOf_iff.2 ⟨isBeginningOf_of_isAncestorOf habove, hname⟩
    refine ⟨_, mem_collectionsBelow.2 ⟨path, hpath, habove, hname⟩, hin, fun q hdoc hcq hqp => ?_⟩
    exact hall q hdoc
      (isAncestorOf_of_isBeginningOf (key.isAncestorOf_childCollection _) hcq) hqp
  · intro hboth
    obtain ⟨name, -, hbegin, hall⟩ := hboth
    have hbelow := key.isAncestorOf_childCollection name
    refine ⟨isAncestorOf_of_isBeginningOf hbelow hbegin, fun q hdoc hkq hqp => ?_⟩
    exact hall q hdoc (hchild name hqp hkq hbegin) hqp

/-- No more documents lie below a collection than below its document. -/
theorem length_below_childCollection_le (table : Table) (key : DocumentKey) (name : String) :
    (below table (key.childCollection name)).length ≤ (below table key.path).length :=
  (List.monotone_filter_right table fun _ he =>
    isAncestorOf_of_isBeginningOf (key.isAncestorOf_childCollection name)
      (isBeginningOf_of_isAncestorOf he)).length_le

/-- Fewer documents lie below a document of a collection than below the document above it. -/
theorem length_below_lt_of_parent {key d : DocumentKey} {name : String}
    (hd : IsStored table d.path) (hparent : d.path.parent = key.childCollection name) :
    (below table d.path).length < (below table key.path).length :=
  length_below_lt hd (isAncestorOf_of_isBeginningOf (key.isAncestorOf_childCollection name)
    (isBeginningOf_of_parent_eq hparent))

/-- In more rounds than there are documents below, the walk removes all that it reaches. -/
theorem deletes_descendantsIn (hds : ActsOnTable ds holds canFail) {size : Nat}
    (hsize : 0 < size) (hwf : WellFormed table) {key : DocumentKey}
    (hkey : key.path.isDocument = true) {rounds : Nat}
    (hrounds : (below table key.path).length < rounds) :
    Deletes holds canFail (descendantsIn ds size rounds key) table (Beneath table key.path) := by
  induction rounds generalizing table key with
  | zero => omega
  | succ rounds ih =>
      intro deleted c hc
      obtain ⟨s, hcollections, hs⟩ := hds.collections hc key
      rw [descendantsIn, Action.runOn_bind_of_ok (Client.runOn_onStore hcollections)]
      have hsum : Deletes holds canFail
          (sumOver (fun name => emptyCollection ds size
            (deleteAfter ds (descendantsIn ds size rounds)) (rounds + 1)
              (key.childCollection name)) (collectionsBelow key table)) table
          fun path => ∃ name ∈ collectionsBelow key table,
            InTree table (key.childCollection name) path := by
        refine deletes_sumOver (fun name => key.childCollection name) ?_ ?_
        · refine (collectionsBelow_nodup key table).imp fun {name name'} hne => ?_
          have hinj (h : key.childCollection name = key.childCollection name') :
              name = name' := by
            simpa [DocumentKey.childCollection, child] using h
          refine ⟨fun hbegin => hne (hinj ?_), fun hbegin => hne (hinj ?_)⟩
          · exact eq_of_isBeginningOf hbegin (by simp)
          · exact (eq_of_isBeginningOf hbegin (by simp)).symm
        · intro name _ table₁ hsub _
          have hless : (below table₁ (key.childCollection name)).length < rounds + 1 := by
            have hle := length_below_le hsub (key.childCollection name)
            have hmore := length_below_childCollection_le table key name
            omega
          refine deletes_emptyCollection hds hsize
            (DocumentKey.isCollection_childCollection hkey name) (hwf.sublist hsub) hless
            fun table₂ d hsub₂ hd hparent => ?_
          have hwf₂ := hwf.sublist (hsub₂.trans hsub)
          refine deletes_deleteAfter hds hwf₂ hd (ih hwf₂ (hwf₂.isDocument hd) ?_)
          have hlt := length_below_lt_of_parent hd hparent
          have hle := length_below_le (hsub₂.trans hsub) key.path
          omega
      refine hsum.congr (fun path hpath => (beneath_iff key hpath).symm) deleted
        { c with store := s } hs

/-- **Descendants.**  The rounds that the store allows for are enough. -/
theorem deletes_descendants (hds : ActsOnTable ds holds canFail) {size : Nat}
    (hsize : 0 < size) (hwf : WellFormed table) {key : DocumentKey}
    (hkey : key.path.isDocument = true) :
    Deletes holds canFail (descendants ds size key) table (Beneath table key.path) := by
  intro deleted c hc
  have hrounds : (below table key.path).length < table.length + 1 := by
    have hle := List.length_filter_le (fun e => key.path.isAncestorOf e.1) table
    unfold below
    omega
  rw [descendants, Action.runOn_bind_of_ok (Action.runOn_state c), hds.rounds hc]
  exact deletes_descendantsIn hds hsize hwf hkey hrounds deleted c hc

end Walk

/-! ## The store in memory -/

theorem pageSizeOf_pos (n : Nat) : 0 < pageSizeOf n := by
  unfold pageSizeOf
  split
  · decide
  · omega

/-- The store in memory acts like its table, and its deletions never fail. -/
theorem memory_actsOnTable :
    ActsOnTable Memory.datastore (fun table _ s => s.table = table) False where
  query := by
    intro _ deleted s heq q
    obtain rfl := heq
    exact ⟨_, _, Memory.runOn_query q s, rfl⟩
  collections := by
    intro _ deleted s heq key
    obtain rfl := heq
    exact ⟨_, Memory.runOn_collections key s, rfl⟩
  delete := by
    intro _ deleted s heq key
    obtain rfl := heq
    exact .inl ⟨_, Memory.runOn_delete key s, rfl⟩
  rounds := by
    intro _ deleted s heq
    obtain rfl := heq
    rfl

/-- **What a recursive deletion removes.**  In a table that commits have led to, for every page
size, the deletion of a document succeeds and removes it and every document strictly below that
is reached through stored documents.  Nothing at or below the document is left exactly if every
document below was reached so, that is, if none lies below a gap; and the same holds strictly
below the document for the deletion of its descendants. -/
theorem document_complete_iff {c : Client Memory.State} (hreach : Reachable c.store.table)
    {key : DocumentKey} (hkey : key.path.isDocument = true) (n : Nat) :
    (∃ removed c', (document Memory.datastore (pageSizeOf n) key).runOn c = (.ok removed, c') ∧
      (∀ e, e ∈ c'.store.table ↔
        e ∈ c.store.table ∧ e.1 ≠ key.path ∧ ¬ Beneath c.store.table key.path e.1) ∧
      ((∀ path, IsStored c'.store.table path → ¬ key.path.isBeginningOf path = true) ↔
        ∀ path, IsStored c.store.table path → key.path.isAncestorOf path = true →
          Beneath c.store.table key.path path)) ∧
    ∃ removed c', (descendants Memory.datastore (pageSizeOf n) key).runOn c = (.ok removed, c') ∧
      (∀ e, e ∈ c'.store.table ↔
        e ∈ c.store.table ∧ ¬ Beneath c.store.table key.path e.1) ∧
      ((∀ path, IsStored c'.store.table path → ¬ key.path.isAncestorOf path = true) ↔
        ∀ path, IsStored c.store.table path → key.path.isAncestorOf path = true →
          Beneath c.store.table key.path path) := by
  have hwf := hreach.wellFormed
  have hdesc := deletes_descendants memory_actsOnTable (pageSizeOf_pos n) hwf hkey
  refine ⟨?_, ?_⟩
  · rcases runOn_deleteAfter memory_actsOnTable hdesc [] c rfl with
      ⟨keys, table₁, c', hrun, hremoval, htable⟩ | ⟨hfail, -⟩
    · have hmem (e : ResourcePath × Stored) : e ∈ c'.store.table ↔
          e ∈ c.store.table ∧ e.1 ≠ key.path ∧ ¬ Beneath c.store.table key.path e.1 := by
        rw [htable, Keyed.mem_erase (hwf.sublist hremoval.sublist).sorted, hremoval.mem_iff,
          and_assoc, and_comm (b := e.1 ≠ key.path)]
      refine ⟨keys.length + 1, c', hrun, hmem, ?_⟩
      constructor
      · intro hnone path hstored habove
        obtain ⟨e, he, rfl⟩ := isStored_iff.1 hstored
        by_contra hbeneath
        refine hnone e.1 (.of_mem ((hmem e).2 ⟨he, ?_, hbeneath⟩))
          (isBeginningOf_of_isAncestorOf habove)
        intro hself
        simp [hself] at habove
      · intro hall path hstored hbegin
        obtain ⟨e, he, rfl⟩ := isStored_iff.1 hstored
        obtain ⟨he, hne, hbeneath⟩ := (hmem e).1 he
        rcases eq_or_isAncestorOf hbegin with hself | habove
        · exact hne hself.symm
        · exact hbeneath (hall e.1 (.of_mem he) habove)
    · exact hfail.elim
  · rcases hdesc [] c rfl with ⟨keys, table₁, c', hrun, hremoval, htable⟩ | ⟨hfail, -⟩
    · have hmem (e : ResourcePath × Stored) : e ∈ c'.store.table ↔
          e ∈ c.store.table ∧ ¬ Beneath c.store.table key.path e.1 := by
        rw [htable, hremoval.mem_iff]
      refine ⟨keys.length, c', hrun, hmem, ?_⟩
      constructor
      · intro hnone path hstored habove
        obtain ⟨e, he, rfl⟩ := isStored_iff.1 hstored
        by_contra hbeneath
        exact hnone e.1 (.of_mem ((hmem e).2 ⟨he, hbeneath⟩)) habove
      · intro hall path hstored habove
        obtain ⟨e, he, rfl⟩ := isStored_iff.1 hstored
        obtain ⟨he, hbeneath⟩ := (hmem e).1 he
        exact hbeneath (hall e.1 (.of_mem he) habove)
    · exact hfail.elim

/-- A table with a document at some depth and nothing on the way to it. -/
def gapTable (stored : Stored) : Table :=
  [(⟨["users", "ann", "posts", "p1", "comments", "c1"]⟩, stored)]

theorem gapTable_reachable (now : Timestamp) : Reachable (gapTable ⟨[], now, now⟩) :=
  @Reachable.commit [] _ now
    [.create ⟨⟨["users", "ann", "posts", "p1", "comments", "c1"]⟩⟩ [] []] .empty (by decide) rfl

/-- A comment below a post that was never created survives the deletion of its user. -/
theorem document_complete_not_below_gap :
    ¬ ∀ (c : Client Memory.State) (key : DocumentKey) (n : Nat), Reachable c.store.table →
      key.path.isDocument = true →
        ∀ removed c', (document Memory.datastore (pageSizeOf n) key).runOn c = (.ok removed, c') →
          ∀ path, IsStored c'.store.table path → ¬ key.path.isBeginningOf path = true := by
  intro hall
  let store : Memory.State := ⟨gapTable ⟨[], default, default⟩, { readings := fun _ => default }⟩
  obtain ⟨c', hrun, htable⟩ : ∃ c' : Client Memory.State,
      (document Memory.datastore (pageSizeOf 0) ⟨⟨["users", "ann"]⟩⟩).runOn (.fresh store)
        = (.ok 1, c') ∧ c'.store.table = store.table := ⟨_, rfl, rfl⟩
  have hstored : IsStored c'.store.table
      ⟨["users", "ann", "posts", "p1", "comments", "c1"]⟩ := by
    rw [htable]
    exact List.mem_singleton_self _
  exact hall (.fresh store) ⟨⟨["users", "ann"]⟩⟩ 0 (gapTable_reachable default) (by decide) 1 c'
    hrun _ hstored (by decide)

/-- The general statement at a user whose posts are stored and whose comments are below a gap. -/
theorem document_complete_iff_gap :
    ∃ removed c',
      (document Memory.datastore (pageSizeOf 1) ⟨⟨["users", "ann"]⟩⟩).runOn
        (.fresh ⟨gapTable ⟨[], default, default⟩, { readings := fun _ => default }⟩)
        = (.ok removed, c') ∧
      ∀ e, e ∈ c'.store.table ↔
        e ∈ gapTable ⟨[], default, default⟩ ∧ e.1 ≠ ⟨["users", "ann"]⟩ ∧
          ¬ Beneath (gapTable ⟨[], default, default⟩) ⟨["users", "ann"]⟩ e.1 := by
  let store : Memory.State := ⟨gapTable ⟨[], default, default⟩, { readings := fun _ => default }⟩
  have hall := @document_complete_iff (.fresh store) (gapTable_reachable default)
    ⟨⟨["users", "ann"]⟩⟩ (by decide) 1
  obtain ⟨removed, c', hrun, hmem, -⟩ := hall.1
  exact ⟨removed, c', hrun, hmem⟩

end DocStore.RecursiveDelete
