import DocStore.Proofs.Sorting
import DocStore.Query.Evaluate

/-!
# What a query gives

The result of a query holds chosen documents alone, each as often as it was there: sorting only
permutes (`ordered_perm`, `mem_ordered`), and cursors, offset and limit only take away.  The query
for a page of a collection (`run_page`) takes the first documents of a permutation of all.

Which documents a query gives depends on their keys and fields alone, and not on the time at which
they are read (`run_readAt`).
-/

namespace DocStore

/-- A document as it is read at another time. -/
def Snapshot.readAt (now : Timestamp) (s : Snapshot) : Snapshot := { s with readTime := some now }

namespace FieldOrder

theorem compareBy_readAt (now : Timestamp) (orders : List FieldOrder) (a b : Snapshot) :
    compareBy orders (a.readAt now) (b.readAt now) = compareBy orders a b := by
  induction orders with
  | nil => rfl
  | cons o rest ih =>
      rw [compareBy, compareBy, ih]
      rfl

theorem compareTo_readAt (now : Timestamp) (orders : List FieldOrder) (values : List Value)
    (s : Snapshot) : compareTo orders values (s.readAt now) = compareTo orders values s := by
  induction orders generalizing values with
  | nil => rfl
  | cons o rest ih =>
      cases values with
      | nil => rfl
      | cons v vs =>
          rw [compareTo, compareTo, ih]
          rfl

end FieldOrder

namespace StoreQuery

/-- The documents in order are the chosen ones. -/
theorem ordered_perm (q : StoreQuery) (documents : List Snapshot) :
    (q.ordered documents).Perm (documents.filter q.selects) :=
  Sorting.sorted_perm _ _

/-- A document is chosen if it exists, belongs to the source and passes all filters. -/
theorem selects_iff {q : StoreQuery} {s : Snapshot} :
    q.selects s = true ↔ s.exists? = true ∧ q.source.contains s.key = true ∧
      ∀ f ∈ q.filters, (f.normal q.source).holds s = true := by
  rw [selects, Bool.and_eq_true, Bool.and_eq_true, List.all_eq_true, and_assoc]

/-- The documents in order are those that are there and chosen. -/
theorem mem_ordered {q : StoreQuery} {documents : List Snapshot} {s : Snapshot} :
    s ∈ q.ordered documents ↔ s ∈ documents ∧ s.exists? = true ∧
      q.source.contains s.key = true ∧ ∀ f ∈ q.filters, (f.normal q.source).holds s = true := by
  rw [(q.ordered_perm documents).mem_iff, List.mem_filter, selects_iff]

/-- What the cursors leave is chosen document by document. -/
theorem betweenCursors_eq (q : StoreQuery) (documents : List Snapshot) :
    q.betweenCursors documents = documents.filter fun s =>
      q.start.all (fun c => (c.normal q.source q.effectiveOrders).admitsFrom q.effectiveOrders s)
        && q.stop.all fun c =>
          (c.normal q.source q.effectiveOrders).admitsUpTo q.effectiveOrders s := by
  unfold betweenCursors
  cases q.start with
  | none =>
      cases q.stop with
      | none => exact (List.filter_eq_self.2 fun _ _ => rfl).symm
      | some c => simp
  | some c =>
      cases q.stop with
      | none => simp
      | some c' => simp [List.filter_filter, Bool.and_comm]

@[simp] theorem project_key (q : StoreQuery) (s : Snapshot) : (q.project s).key = s.key := by
  unfold project
  split <;> rfl

/-- The documents that a query gives are those that its window leaves. -/
theorem map_key_run (q : StoreQuery) (documents : List Snapshot) :
    (q.run documents).map (·.key)
      = (q.window (q.betweenCursors (q.ordered documents))).map (·.key) := by
  rw [run, List.map_map]
  exact List.map_congr_left fun s _ => q.project_key s

/-- Offset and limit only take away. -/
theorem window_sublist (q : StoreQuery) (documents : List Snapshot) :
    (q.window documents).Sublist documents := by
  unfold window
  dsimp only
  split
  · exact (List.drop_sublist _ _).trans (List.take_sublist _ _)
  · exact (List.take_sublist _ _).trans (List.drop_sublist _ _)
  · exact List.drop_sublist _ _

/-- The documents that a query gives are chosen ones, in the order of the query. -/
theorem map_key_run_sublist (q : StoreQuery) (documents : List Snapshot) :
    ((q.run documents).map (·.key)).Sublist ((q.ordered documents).map (·.key)) := by
  rw [map_key_run, betweenCursors_eq]
  exact ((q.window_sublist _).trans List.filter_sublist).map _

/-- A query gives no document twice. -/
theorem nodup_run_keys (q : StoreQuery) {documents : List Snapshot}
    (h : (documents.map (·.key)).Nodup) : ((q.run documents).map (·.key)).Nodup := by
  refine (q.map_key_run_sublist documents).nodup ?_
  rw [((q.ordered_perm documents).map (·.key)).nodup_iff]
  exact (List.filter_sublist.map _).nodup h

/-- A query gives documents that are there. -/
theorem mem_keys_of_mem_run_keys {q : StoreQuery} {documents : List Snapshot} {key : DocumentKey}
    (h : key ∈ (q.run documents).map (·.key)) : key ∈ documents.map (·.key) := by
  have hordered := (q.map_key_run_sublist documents).subset h
  rw [((q.ordered_perm documents).map (·.key)).mem_iff] at hordered
  exact (List.filter_sublist.map _).subset hordered

/-- Without offset and limit, a query gives all the chosen documents that its cursors leave. -/
theorem mem_run_keys {q : StoreQuery} (hoffset : q.offset = none) (hlimit : q.limit = none)
    {documents : List Snapshot} {key : DocumentKey} :
    key ∈ (q.run documents).map (·.key) ↔
      ∃ s ∈ documents, s.key = key ∧ q.selects s = true ∧
        q.start.all (fun c =>
          (c.normal q.source q.effectiveOrders).admitsFrom q.effectiveOrders s) = true ∧
        q.stop.all (fun c =>
          (c.normal q.source q.effectiveOrders).admitsUpTo q.effectiveOrders s) = true := by
  have hwindow (all : List Snapshot) : q.window all = all := by
    unfold window
    rw [hoffset, hlimit]
    rfl
  rw [map_key_run, hwindow, betweenCursors_eq, List.mem_map]
  simp only [List.mem_filter, (q.ordered_perm documents).mem_iff, Bool.and_eq_true]
  constructor
  · intro hsome
    obtain ⟨s, ⟨⟨hs, hselects⟩, hstart, hstop⟩, hkey⟩ := hsome
    exact ⟨s, hs, hkey, hselects, hstart, hstop⟩
  · intro hsome
    obtain ⟨s, hs, hkey, hselects, hstart, hstop⟩ := hsome
    exact ⟨s, ⟨⟨hs, hselects⟩, hstart, hstop⟩, hkey⟩

/-- A query without filters, cursors and offset gives the first of the documents that exist in
its source, in some order. -/
theorem run_page (source : Source) (projection : Option (List FieldPath)) (n : Nat)
    (documents : List Snapshot) :
    ∃ all : List DocumentKey,
      all.Perm ((documents.filter fun s => s.exists? && source.contains s.key).map (·.key)) ∧
        (({ source, projection, limit := some n } : StoreQuery).run documents).map (·.key)
          = all.take n := by
  let q : StoreQuery := { source, projection, limit := some n }
  have hselects : q.selects = fun s => s.exists? && source.contains s.key := by
    funext s
    simp [q, selects]
  refine ⟨(q.ordered documents).map (·.key), ?_, ?_⟩
  · rw [← hselects]
    exact (q.ordered_perm documents).map _
  · show (q.run documents).map (·.key) = ((q.ordered documents).map (·.key)).take n
    exact (q.map_key_run documents).trans List.map_take

theorem window_map (q : StoreQuery) (f : Snapshot → Snapshot) (documents : List Snapshot) :
    q.window (documents.map f) = (q.window documents).map f := by
  unfold window
  dsimp only
  split <;> simp only [List.map_drop, List.map_take, List.length_map, List.length_take]

/-- The time at which documents are read plays no part in what a query gives. -/
theorem run_readAt (q : StoreQuery) (now : Timestamp) (documents : List Snapshot) :
    q.run (documents.map (·.readAt now)) = (q.run documents).map (·.readAt now) := by
  have hordered : q.ordered (documents.map (·.readAt now))
      = (q.ordered documents).map (·.readAt now) := by
    unfold ordered
    dsimp only
    rw [List.filter_map, Sorting.sorted_map]
    simp only [FieldOrder.compareBy_readAt]
    rfl
  have hbetween : q.betweenCursors ((q.ordered documents).map (·.readAt now))
      = (q.betweenCursors (q.ordered documents)).map (·.readAt now) := by
    rw [betweenCursors_eq, betweenCursors_eq, List.filter_map]
    simp only [Function.comp_def, Cursor.admitsFrom, Cursor.admitsUpTo, FieldOrder.compareTo_readAt]
  have hproject : ∀ s : Snapshot, q.project (s.readAt now) = (q.project s).readAt now := by
    intro s
    unfold project
    split <;> rfl
  rw [run, hordered, hbetween, window_map, List.map_map, run, List.map_map]
  exact List.map_congr_left fun s _ => hproject s

end StoreQuery

end DocStore
