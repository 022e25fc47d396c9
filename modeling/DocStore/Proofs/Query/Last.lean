import DocStore.Proofs.Query.Built
import DocStore.Proofs.Query.Order

/-!
# The last documents of a query

A server keeps the first documents only.  A query for the last ones is therefore sent with its
orderings reversed and its cursors swapped (`StoreQuery.toFirst`), and what comes back is turned
round.  Each part of the evaluation commutes with turning round: the reversed orderings give the
opposite comparison, so the sorted list backwards; a cursor at the other end admits the same
documents; and the window at the end of a list is the window at the start of its reverse.

The main statement is `run_toFirst`.
-/

namespace DocStore

namespace Cursor

variable {orders : List FieldOrder}

/-- The values of a cursor are read alike in both directions. -/
theorem normal_reversed (source : Source) (orders : List FieldOrder) (c : Cursor) :
    c.normal source (orders.map FieldOrder.reversed) = c.normal source orders := by
  have halign (values : List Value) :
      normal.align source (orders.map FieldOrder.reversed) values
        = normal.align source orders values := by
    induction orders generalizing values with
    | nil => rfl
    | cons o rest ih =>
        cases values with
        | nil => rfl
        | cons v vs => exact congrArg _ (ih vs)
  exact congrArg (fun values => ({ c with values } : Cursor)) (halign c.values)

/-- A start of the reversed orderings is an end of the orderings. -/
theorem admitsFrom_reversed (c : Cursor) (s : Snapshot) :
    c.admitsFrom (orders.map FieldOrder.reversed) s = c.admitsUpTo orders s := by
  unfold admitsFrom admitsUpTo
  rw [FieldOrder.compareTo_reversed]
  cases FieldOrder.compareTo orders c.values s <;> rfl

/-- An end of the reversed orderings is a start of the orderings. -/
theorem admitsUpTo_reversed (c : Cursor) (s : Snapshot) :
    c.admitsUpTo (orders.map FieldOrder.reversed) s = c.admitsFrom orders s := by
  unfold admitsFrom admitsUpTo
  rw [FieldOrder.compareTo_reversed]
  cases FieldOrder.compareTo orders c.values s <;> rfl

end Cursor

namespace StoreQuery

variable {q : StoreQuery} {documents : List Snapshot}

/-! ## The rewritten query -/

theorem toFirst_of_last (hlast : q.keepsLast = true) :
    q.toFirst =
      { q with
        orders := q.effectiveOrders.map (·.reversed)
        start := q.stop
        stop := q.start
        keepsLast := false } :=
  if_pos hlast

theorem toFirst_keepsLast (q : StoreQuery) : q.toFirst.keepsLast = false := by
  cases hlast : q.keepsLast with
  | true => rw [toFirst_of_last hlast]
  | false =>
      rw [toFirst, hlast, if_neg Bool.false_ne_true]
      exact hlast

/-- A query for the first documents is left alone, so rewriting twice is rewriting once. -/
theorem toFirst_toFirst (q : StoreQuery) : q.toFirst.toFirst = q.toFirst := by
  rw [toFirst, toFirst_keepsLast, if_neg Bool.false_ne_true]

/-- The orderings that are sent are the effective ones, since the name is among them. -/
theorem effectiveOrders_toFirst (hlast : q.keepsLast = true) :
    q.toFirst.effectiveOrders = q.effectiveOrders.map (·.reversed) := by
  rw [toFirst_of_last hlast]
  refine effectiveOrders_of_any ?_
  rw [List.any_map]
  exact q.effectiveOrders_any

theorem selects_toFirst (hlast : q.keepsLast = true) : q.toFirst.selects = q.selects := by
  rw [toFirst_of_last hlast]
  rfl

theorem project_toFirst (hlast : q.keepsLast = true) : q.toFirst.project = q.project := by
  rw [toFirst_of_last hlast]
  rfl

/-! ## Turning round what is evaluated -/

/-- The documents come in the opposite order. -/
theorem ordered_toFirst (hlast : q.keepsLast = true) (hdocs : Snapshot.AreDistinct documents)
    (htrans : FieldOrder.TransitiveOn q.effectiveOrders documents) :
    q.toFirst.ordered documents = (q.ordered documents).reverse := by
  have hsub := List.filter_sublist (p := q.selects) (l := documents)
  have hchosen := (htrans.mono fun s hs => hsub.subset hs).compareBy
  have hapart := FieldOrder.apart_of_distinct (hdocs.sublist hsub)
    (List.any_eq_true.1 q.effectiveOrders_any)
  have hless : (fun a b => FieldOrder.compareBy q.toFirst.effectiveOrders a b == .lt)
      = fun a b => FieldOrder.compareBy q.effectiveOrders b a == .lt := by
    funext a b
    rw [effectiveOrders_toFirst hlast, FieldOrder.compareBy_reversed, FieldOrder.compareBy_swap]
  rw [ordered, selects_toFirst hlast, hless]
  exact Sorting.sorted_opposite hchosen hapart

/-- The swapped cursors admit the same documents. -/
theorem betweenCursors_toFirst (hlast : q.keepsLast = true) :
    q.toFirst.betweenCursors documents = q.betweenCursors documents := by
  rw [betweenCursors_eq, betweenCursors_eq, effectiveOrders_toFirst hlast]
  refine List.filter_congr fun s _ => ?_
  rw [toFirst_of_last hlast]
  dsimp only
  simp only [Cursor.normal_reversed, Cursor.admitsFrom_reversed, Cursor.admitsUpTo_reversed]
  exact Bool.and_comm ..

theorem betweenCursors_reverse (q : StoreQuery) (documents : List Snapshot) :
    q.betweenCursors documents.reverse = (q.betweenCursors documents).reverse := by
  rw [betweenCursors_eq, betweenCursors_eq, List.filter_reverse]

/-- The last documents before an offset are the first ones behind it, backwards. -/
theorem window_toFirst (hlast : q.keepsLast = true) (hlimit : q.limit.isSome = true)
    (documents : List Snapshot) :
    q.toFirst.window documents.reverse = (q.window documents).reverse := by
  obtain ⟨n, hn⟩ := Option.isSome_iff_exists.1 hlimit
  rw [toFirst_of_last hlast]
  unfold window
  dsimp only
  rw [hn, hlast]
  dsimp only
  rw [List.drop_reverse, List.take_reverse]

/-- **The last documents.**  A query for the last documents gives what its rewriting for the first
ones gives, turned round; and rewriting twice is rewriting once. -/
theorem run_toFirst (hq : q.IsBuilt) (hlast : q.keepsLast = true)
    (hdocs : Snapshot.AreDistinct documents)
    (htrans : FieldOrder.TransitiveOn q.effectiveOrders documents) :
    q.run documents = (q.toFirst.run documents).reverse ∧
      ∀ p : StoreQuery, p.toFirst.toFirst = p.toFirst := by
  refine ⟨?_, toFirst_toFirst⟩
  have hlimit := hq.limit_isSome hlast
  calc q.run documents
      = (q.window (q.betweenCursors (q.ordered documents))).map q.project := rfl
    _ = ((q.window (q.betweenCursors (q.ordered documents))).reverse.map q.project).reverse := by
        rw [List.map_reverse, List.reverse_reverse]
    _ = ((q.toFirst.window (q.betweenCursors (q.ordered documents)).reverse).map
          q.project).reverse := by
        rw [window_toFirst hlast hlimit]
    _ = ((q.toFirst.window (q.toFirst.betweenCursors (q.toFirst.ordered documents))).map
          q.toFirst.project).reverse := by
        rw [ordered_toFirst hlast hdocs htrans, betweenCursors_toFirst hlast,
          betweenCursors_reverse, project_toFirst hlast]
    _ = (q.toFirst.run documents).reverse := rfl

/-- The last two but one of the users by age, up to an age that is left out. -/
def lastButOne : StoreQuery :=
  (((({ source := .collection ⟨["users"]⟩ : StoreQuery }.orderBy ⟨["age"]⟩ .ascending).startAt
    [.null]).endBefore [.integer 41]).limitToLast 2).skip 1

/-- The two ways at users without an age and with level ages. -/
theorem run_toFirst_lastButOne :
    lastButOne.IsBuilt ∧ lastButOne.keepsLast = true ∧
      Snapshot.AreDistinct Snapshot.fourUsers ∧
      FieldOrder.TransitiveOn lastButOne.effectiveOrders Snapshot.fourUsers ∧
      (lastButOne.run Snapshot.fourUsers).map (·.id) = ["cem", "ann"] ∧
      (lastButOne.toFirst.run Snapshot.fourUsers).map (·.id) = ["ann", "cem"] ∧
      lastButOne.run Snapshot.fourUsers = (lastButOne.toFirst.run Snapshot.fourUsers).reverse := by
  have hbuilt : lastButOne.IsBuilt :=
    ⟨⟨.collection ⟨["users"]⟩, [.orderBy ⟨["age"]⟩ .ascending, .startAt [.null],
      .endBefore [.integer 41], .limitToLast 2, .offset 1]⟩, rfl⟩
  have hdistinct : Snapshot.AreDistinct Snapshot.fourUsers := by decide
  have htrans : FieldOrder.TransitiveOn lastButOne.effectiveOrders Snapshot.fourUsers := by decide
  exact ⟨hbuilt, rfl, hdistinct, htrans, by decide, by decide,
    (run_toFirst hbuilt rfl hdistinct htrans).1⟩

end StoreQuery

end DocStore
