import DocStore.Proofs.Query.Order

/-!
# Reading a query page by page

A query is read in pages by asking for its first documents, and then again and again for the first
ones after the last document of the page before (`StoreQuery.Pages`).  The cursor holds the values
of that document for all effective orderings, so a document lies after it exactly if it comes later
in the order of the query (`compareTo_cursorValues`).  The order is strict, so what comes later than
a document of the sorted list is what follows it there (`filter_later`): every page starts where the
page before ended.

The main statement is `pages_flatten`.
-/

namespace DocStore

namespace FieldOrder

/-- A document against the values of another one is a comparison of the two. -/
theorem compareTo_valuesOf (orders : List FieldOrder) (last s : Snapshot) :
    compareTo orders (orders.map fun o => valueOf o.field last) s = compareBy orders s last := by
  induction orders with
  | nil => rfl
  | cons o rest ih =>
      rw [List.map_cons, compareTo, ih]
      rfl

end FieldOrder

namespace Cursor

/-- The values of a document are compared as they are: its name is a reference already. -/
theorem align_valuesOf (source : Source) (orders : List FieldOrder) (s : Snapshot) :
    normal.align source orders (orders.map fun o => FieldOrder.valueOf o.field s)
      = orders.map fun o => FieldOrder.valueOf o.field s := by
  induction orders with
  | nil => rfl
  | cons o rest ih =>
      rw [List.map_cons, normal.align, ih]
      congr 1
      split
      next hid =>
        rw [FieldOrder.valueOf, Snapshot.field?, if_pos hid]
        rfl
      next => rfl

end Cursor

namespace Sorting

variable {α : Type} {cmp : α → α → Ordering} [Std.OrientedCmp cmp]

/-- What comes later than an item of a strictly sorted list is what follows it. -/
theorem filter_later {before after : List α} {x : α}
    (h : (before ++ x :: after).Pairwise fun a b => cmp a b = .lt) :
    (before ++ x :: after).filter (fun y => cmp y x == .gt) = after := by
  obtain ⟨-, hafter, hbefore⟩ := List.pairwise_append.1 h
  have hearlier : before.filter (fun y => cmp y x == .gt) = [] := by
    refine List.filter_eq_nil_iff.2 fun y hy => ?_
    rw [hbefore y hy x List.mem_cons_self]
    decide
  have hlater : after.filter (fun y => cmp y x == .gt) = after := by
    refine List.filter_eq_self.2 fun y hy => ?_
    rw [Std.OrientedCmp.gt_of_lt ((List.pairwise_cons.1 hafter).1 y hy)]
    rfl
  have hlevel : cmp x x = .eq := Std.ReflCmp.compare_self
  rw [List.filter_append, hearlier, List.filter_cons_of_neg (by simp [hlevel]), hlater,
    List.nil_append]

end Sorting

namespace StoreQuery

/-- The query leaves out nothing that it selects: it has no cursor, offset, limit or projection. -/
structure IsUncut (q : StoreQuery) : Prop where
  projection : q.projection = none
  start : q.start = none
  stop : q.stop = none
  offset : q.offset = none
  limit : q.limit = none
  keepsLast : q.keepsLast = false

/-- The values of a document for the effective orderings: null for a missing field, a reference to
the document for its name. -/
def cursorValues (q : StoreQuery) (s : Snapshot) : List Value :=
  q.effectiveOrders.map fun o => FieldOrder.valueOf o.field s

/-- The query for the page after a document. -/
def pageAfter (q : StoreQuery) (n : Nat) (last : Snapshot) : StoreQuery :=
  (q.startAfter (q.cursorValues last)).limitTo n

/-- The pages that are read from a request on, each after the last document of the page before,
until one is empty. -/
inductive Pages (q : StoreQuery) (n : Nat) (documents : List Snapshot) :
    StoreQuery → List (List Snapshot) → Prop
  | done {request : StoreQuery} (empty : request.run documents = []) :
      Pages q n documents request []
  | more {request : StoreQuery} {last : Snapshot} {rest : List (List Snapshot)}
      (page : (request.run documents).getLast? = some last)
      (later : Pages q n documents (q.pageAfter n last) rest) :
      Pages q n documents request (request.run documents :: rest)

variable {q : StoreQuery} {n : Nat} {documents : List Snapshot}

/-- The documents decide what pages are read. -/
theorem Pages.unique {request : StoreQuery} {pages pages' : List (List Snapshot)}
    (h : q.Pages n documents request pages) (h' : q.Pages n documents request pages') :
    pages = pages' := by
  induction h generalizing pages' with
  | done hempty =>
      cases h' with
      | done => rfl
      | more hpage =>
          rw [hempty] at hpage
          cases hpage
  | more hpage _ ih =>
      cases h' with
      | done hempty =>
          rw [hempty] at hpage
          cases hpage
      | more hpage' hlater' =>
          rw [hpage] at hpage'
          cases hpage'
          rw [ih hlater']

namespace IsUncut

/-- An uncut query gives all its documents in order. -/
theorem run_eq (hq : q.IsUncut) (documents : List Snapshot) :
    q.run documents = q.ordered documents := by
  have hproject : q.project = id := by
    funext s
    rw [project, hq.projection]
    rfl
  have hbetween : q.betweenCursors (q.ordered documents) = q.ordered documents := by
    rw [betweenCursors, hq.start, hq.stop]
  rw [run, hbetween, hproject, List.map_id, window, hq.limit, hq.offset]
  rfl

/-- The first page holds the first documents. -/
theorem run_limitTo (hq : q.IsUncut) (n : Nat) (documents : List Snapshot) :
    (q.limitTo n).run documents = (q.ordered documents).take n := by
  have hproject : (q.limitTo n).project = id := by
    funext s
    rw [project, limitTo, hq.projection]
    rfl
  have hbetween : (q.limitTo n).betweenCursors ((q.limitTo n).ordered documents)
      = q.ordered documents := by
    rw [betweenCursors, limitTo, hq.start, hq.stop]
    rfl
  rw [run, hbetween, hproject, List.map_id, window, limitTo, hq.offset]
  rfl

/-- A later page holds the first of the documents that come after the last one. -/
theorem run_pageAfter (hq : q.IsUncut) (n : Nat) (last : Snapshot) (documents : List Snapshot) :
    (q.pageAfter n last).run documents =
      ((q.ordered documents).filter fun s =>
        FieldOrder.compareBy q.effectiveOrders s last == .gt).take n := by
  have hproject : (q.pageAfter n last).project = id := by
    funext s
    rw [project, pageAfter, limitTo, startAfter, hq.projection]
    rfl
  have hcursor (s : Snapshot) :
      ((⟨q.cursorValues last, false⟩ : Cursor).normal q.source q.effectiveOrders).admitsFrom
        q.effectiveOrders s = (FieldOrder.compareBy q.effectiveOrders s last == .gt) := by
    rw [Cursor.admitsFrom, Cursor.normal, cursorValues, Cursor.align_valuesOf,
      FieldOrder.compareTo_valuesOf]
    rfl
  have hbetween : (q.pageAfter n last).betweenCursors ((q.pageAfter n last).ordered documents)
      = (q.ordered documents).filter fun s =>
          FieldOrder.compareBy q.effectiveOrders s last == .gt := by
    rw [betweenCursors, pageAfter, limitTo, startAfter, hq.stop]
    exact List.filter_congr fun s _ => hcursor s
  rw [run, hbetween, hproject, List.map_id, window, pageAfter, limitTo, startAfter, hq.offset]
  rfl

/-- From a request for the first of the documents from some place on, the pages hold just these
documents. -/
theorem pages_from (hq : q.IsUncut) (hn : 0 < n)
    (hstrict : (q.ordered documents).Pairwise fun a b =>
      FieldOrder.compareBy q.effectiveOrders a b = .lt)
    {request : StoreQuery} {before rest : List Snapshot}
    (hsplit : q.ordered documents = before ++ rest)
    (hrequest : request.run documents = rest.take n) :
    ∃ pages, q.Pages n documents request pages ∧ pages.flatten = rest := by
  induction hlen : rest.length using Nat.strongRecOn generalizing request before rest with
  | _ size ih =>
    rcases List.eq_nil_or_concat (rest.take n) with hnil | ⟨init, last, hpage⟩
    · have hrest : rest = [] := by
        rcases List.take_eq_nil_iff.1 hnil with hzero | hrest
        · omega
        · exact hrest
      exact ⟨[], .done (hrequest.trans hnil), hrest.symm⟩
    · have hrest : rest = init ++ last :: rest.drop n := by
        conv => lhs; rw [← List.take_append_drop n rest, hpage]
        simp
      have hnext : q.ordered documents = (before ++ init) ++ last :: rest.drop n := by
        rw [hsplit, List.append_assoc, ← hrest]
      -- The cursor after the last document leaves what the page did not take.
      have hlater : (q.pageAfter n last).run documents = (rest.drop n).take n := by
        rw [hq.run_pageAfter, hnext, Sorting.filter_later]
        rwa [← hnext]
      have hshorter : (rest.drop n).length < size := by
        have hlength := congrArg List.length hrest
        rw [List.length_append, List.length_cons] at hlength
        omega
      obtain ⟨pages, hpages, hflatten⟩ := ih _ hshorter
        (hnext.trans (List.append_cons (before ++ init) last _)) hlater rfl
      refine ⟨request.run documents :: pages, .more ?_ hpages, ?_⟩
      · rw [hrequest, hpage, List.concat_eq_append, List.getLast?_concat]
      · rw [List.flatten_cons, hflatten, hrequest, List.take_append_drop]

end IsUncut

/-- **Pages.**  Reading a query in pages comes to an end, and what has been read is the result of
the query: every document once, in order. -/
theorem pages_flatten (hq : q.IsUncut) (hn : 0 < n) (hdocs : Snapshot.AreDistinct documents)
    (htrans : FieldOrder.TransitiveOn q.effectiveOrders documents) :
    ∃ pages, q.Pages n documents (q.limitTo n) pages ∧ pages.flatten = q.run documents ∧
      ∀ pages', q.Pages n documents (q.limitTo n) pages' → pages' = pages := by
  obtain ⟨pages, hpages, hflatten⟩ := hq.pages_from hn (ordered_strict hdocs htrans)
    (List.nil_append _).symm (hq.run_limitTo n documents)
  refine ⟨pages, hpages, ?_, fun pages' hpages' => hpages'.unique hpages⟩
  rw [hflatten, hq.run_eq]

/-- The users by age in pages of two: the cursor stands between two level ages. -/
theorem pages_flatten_level_ages :
    let q := ({ source := .collection ⟨["users"]⟩ } : StoreQuery).orderBy ⟨["age"]⟩ .descending
    q.IsUncut ∧ Snapshot.AreDistinct Snapshot.fourUsers ∧
      FieldOrder.TransitiveOn q.effectiveOrders Snapshot.fourUsers ∧
      (q.run Snapshot.fourUsers).map (·.id) = ["dan", "bob", "ann", "cem"] ∧
      ∃ pages, q.Pages 2 Snapshot.fourUsers (q.limitTo 2) pages ∧
        pages.flatten = q.run Snapshot.fourUsers := by
  intro q
  have hq : q.IsUncut := ⟨rfl, rfl, rfl, rfl, rfl, rfl⟩
  have hdistinct : Snapshot.AreDistinct Snapshot.fourUsers := by decide
  have htrans : FieldOrder.TransitiveOn q.effectiveOrders Snapshot.fourUsers := by decide
  obtain ⟨pages, hpages, hflatten, -⟩ := pages_flatten (n := 2) hq (by decide) hdistinct htrans
  exact ⟨hq, hdistinct, htrans, by decide, pages, hpages, hflatten⟩

end StoreQuery

end DocStore
