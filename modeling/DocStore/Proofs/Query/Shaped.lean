import DocStore.Proofs.Query.Parts

/-!
# Queries for a collection group

A query for a collection group that has orderings, fields and cursors, and nothing else
(`QueryState.IsShaped`), has just these parts in the store (`IsShaped.toStoreQuery_eq_ok`), and is
executed exactly if each of them can be read.
-/

namespace DocStore

namespace QueryState

variable {q : QueryState}

/-- A query for a collection group with orderings, fields and the cursors that keep the documents at
them, and with nothing else. -/
structure IsShaped (q : QueryState) : Prop where
  group : q.isGroup = true
  predicates : q.predicates = []
  startAfter : q.startAfter = []
  endBefore : q.endBefore = []
  offset : q.offset = none
  limit : q.limit = none
  limitToLast : q.limitToLast = none

theorem compileSource_eq_ok {id : String} {call : Call} (hsource : q.source = some id)
    (hgroup : q.isGroup = true) :
    q.compileSource = .ok call ↔
      (Text.isAllBlank id = false ∧ Text.hasChar '/' id = false) ∧
        ∃ below, q.scope.mapM ResourcePath.ofText = .ok below ∧ call = .group id below := by
  unfold compileSource
  rw [hsource, hgroup]
  cases hblank : Text.isAllBlank id with
  | true => simp [Option.filter, hblank]
  | false =>
      cases hslash : Text.hasChar '/' id with
      | true => simp [Option.filter, hblank, hslash]
      | false =>
          simp only [Option.filter, hblank, Bool.not_false, if_true, Bool.not_true,
            Bool.false_eq_true, if_false, hslash, and_self, true_and, Outcome.bind_eq_ok,
            Outcome.pure_eq_ok]
          exact exists_congr fun _ => and_congr_right fun _ => eq_comm

/-- The name of a group that is read is not refused by the store, but what it is below may be. -/
theorem isRefused_read {id : String} {below : Option ResourcePath}
    (hid : Text.isAllBlank id = false ∧ Text.hasChar '/' id = false) :
    (Source.group id below).IsRefused ↔ ¬ ∀ document ∈ below, document.isDocument = true := by
  have hsome : id.isEmpty = false := by
    rw [Bool.eq_false_iff]
    intro hempty
    rw [String.isEmpty_iff.1 hempty] at hid
    exact absurd hid.1 (by decide)
  simp [Source.isRefused_group, hsome, hid.2]

/-- A query of this kind has no filters, and only the cursors that keep the documents at them. -/
theorem IsShaped.storeQuery_eq (h : q.IsShaped) (source : Source)
    (projection : Option (List FieldPath)) (orders : List FieldOrder) :
    q.storeQuery ⟨source, projection, [], orders⟩
      = { source, projection, orders, start := cursorAt q.startAt, stop := cursorAt q.endAt } := by
  unfold storeQuery
  rw [h.startAfter, h.endBefore, h.offset, h.limit, h.limitToLast]
  rfl

/-- **Compiled group queries.**  The query of the store has the parts as they are read.  It is there
exactly if the name of the group is one, and fields, scope and orderings can be read. -/
theorem IsShaped.toStoreQuery_eq_ok (h : q.IsShaped) {id : String} (hsource : q.source = some id)
    {out : StoreQuery} :
    q.toStoreQuery = .ok out ↔
      (Text.isAllBlank id = false ∧ Text.hasChar '/' id = false) ∧
        ∃ projection below orders, q.readProjection = .ok projection ∧
          q.scope.mapM ResourcePath.ofText = .ok below ∧
          (∀ document ∈ below, document.isDocument = true) ∧
          q.orders.mapM Order.read = .ok orders ∧
          out = { source := .group id below, projection, orders, start := cursorAt q.startAt,
                  stop := cursorAt q.endAt } := by
  have hnone : Predicate.compileAll q.isScopedGroup q.predicates = .ok [] := by
    rw [h.predicates]
    rfl
  rw [QueryState.toStoreQuery_eq_ok]
  constructor
  · intro hok
    obtain ⟨⟨source, projection, filters, orders⟩, hreads, ⟨haccepted, -⟩, rfl⟩ := hok
    obtain ⟨hid, below, hbelow, hcall⟩ := (compileSource_eq_ok hsource h.group).1 hreads.source
    obtain rfl : filters = [] := by
      simpa using hreads.filters.symm.trans hnone
    obtain rfl : source = .group id below := by
      cases source <;> cases hcall
      rfl
    rw [isRefused_read hid, not_not] at haccepted
    exact ⟨hid, projection, below, orders, hreads.projection, hbelow, haccepted, hreads.orders,
      h.storeQuery_eq _ _ _⟩
  · intro hparts
    obtain ⟨hid, projection, below, orders, hprojection, hbelow, hdocument, horders, rfl⟩ := hparts
    have hcall := (compileSource_eq_ok hsource h.group).2 ⟨hid, below, hbelow, rfl⟩
    have haccepted : ¬ (Source.group id below).IsRefused := by
      rw [isRefused_read hid, not_not]
      exact hdocument
    exact ⟨⟨.group id below, projection, [], orders⟩, ⟨hcall, hprojection, hnone, horders⟩,
      ⟨haccepted, by simp⟩, (h.storeQuery_eq _ _ _).symm⟩

/-- There is a query of the store exactly if the parts can be read. -/
theorem IsShaped.toStoreQuery_succeeds_iff (h : q.IsShaped) {id : String}
    (hsource : q.source = some id) :
    (∃ out, q.toStoreQuery = .ok out) ↔
      (Text.isAllBlank id = false ∧ Text.hasChar '/' id = false) ∧
        ("*" ∈ q.columns ∨ ∀ column ∈ q.columns, ∃ path, FieldPath.ofText column = .ok path) ∧
        (∃ below, q.scope.mapM ResourcePath.ofText = .ok below ∧
          ∀ document ∈ below, document.isDocument = true) ∧
        ∀ o ∈ q.orders, ∃ path, FieldPath.ofText o.field = .ok path := by
  rw [← readProjection_succeeds_iff, ← readOrders_succeeds_iff]
  simp only [h.toStoreQuery_eq_ok hsource]
  constructor
  · intro hsome
    obtain ⟨out, hid, projection, below, orders, hprojection, hbelow, hdocument, horders, -⟩ :=
      hsome
    exact ⟨hid, ⟨projection, hprojection⟩, ⟨below, hbelow, hdocument⟩, orders, horders⟩
  · intro hparts
    obtain ⟨hid, ⟨projection, hprojection⟩, ⟨below, hbelow, hdocument⟩, orders, horders⟩ := hparts
    exact ⟨_, hid, projection, below, orders, hprojection, hbelow, hdocument, horders, rfl⟩

end QueryState

end DocStore
