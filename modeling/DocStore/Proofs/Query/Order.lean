import DocStore.Proofs.Path.Names
import DocStore.Proofs.Query.Evaluate
import DocStore.Proofs.Value.Order

/-!
# The order of the documents of a query

The orderings of a query compare documents one ordering after the other.  Documents compare the
other way round in the opposite order (`compareBy_swap`), and so they do when every ordering is
reversed (`compareBy_reversed`).  The comparison is transitive where the values of each ordering are
(`TransitiveOn.compareBy`).

The effective orderings hold the name of the document, so they tell documents with proper keys apart
(`apart_of_distinct`), and a query puts them in the one order that is strict (`ordered_strict`).
-/

namespace DocStore

open Std

namespace Direction

theorem apply_swap (d : Direction) (o : Ordering) : (d.apply o).swap = d.apply o.swap := by
  cases d <;> rfl

theorem apply_reversed (d : Direction) (o : Ordering) : d.reversed.apply o = (d.apply o).swap := by
  cases d
  · rfl
  · exact Ordering.swap_swap.symm

@[simp] theorem apply_eq_eq {d : Direction} {o : Ordering} : d.apply o = .eq ↔ o = .eq := by
  cases d <;> cases o <;> decide

@[simp] theorem reversed_reversed (d : Direction) : d.reversed.reversed = d := by
  cases d <;> rfl

end Direction

namespace Sorting.TransitiveOn

variable {α : Type} {cmp cmp₁ cmp₂ : α → α → Ordering} {xs : List α}

/-- The comparison is transitive on the type of the items. -/
theorem transCmp [OrientedCmp cmp] (h : TransitiveOn cmp xs) :
    TransCmp fun a b : { x // x ∈ xs } => cmp a b where
  eq_swap := OrientedCmp.eq_swap
  isLE_trans := fun hab hbc => h _ (Subtype.property _) _ (Subtype.property _) _
    (Subtype.property _) hab hbc

/-- One comparison after another. -/
theorem andThen [OrientedCmp cmp₁] [OrientedCmp cmp₂] (h₁ : TransitiveOn cmp₁ xs)
    (h₂ : TransitiveOn cmp₂ xs) : TransitiveOn (fun a b => (cmp₁ a b).then (cmp₂ a b)) xs := by
  have := h₁.transCmp
  have := h₂.transCmp
  have hboth : TransCmp (compareLex (fun a b : { x // x ∈ xs } => cmp₁ a b)
    (fun a b : { x // x ∈ xs } => cmp₂ a b)) := inferInstance
  intro a ha b hb c hc hab hbc
  exact hboth.isLE_trans (a := ⟨a, ha⟩) (b := ⟨b, hb⟩) (c := ⟨c, hc⟩) hab hbc

end Sorting.TransitiveOn

namespace FieldOrder

variable {orders : List FieldOrder}

/-- The comparison of documents by the field of one ordering. -/
def compareAt (o : FieldOrder) (a b : Snapshot) : Ordering :=
  (valueOf o.field a).compare (valueOf o.field b)

theorem compareAt_swap (o : FieldOrder) (a b : Snapshot) :
    (o.compareAt a b).swap = o.compareAt b a :=
  Value.compare_swap _ _

theorem compareBy_cons (o : FieldOrder) (rest : List FieldOrder) (a b : Snapshot) :
    compareBy (o :: rest) a b
      = (o.direction.apply (o.compareAt a b)).then (compareBy rest a b) := rfl

/-- Documents compare the other way round in the opposite order. -/
theorem compareBy_swap (orders : List FieldOrder) (a b : Snapshot) :
    (compareBy orders a b).swap = compareBy orders b a := by
  induction orders with
  | nil => rfl
  | cons o rest ih =>
      rw [compareBy_cons, compareBy_cons, Ordering.swap_then, Direction.apply_swap, compareAt_swap,
        ih]

instance (orders : List FieldOrder) : OrientedCmp (compareBy orders) where
  eq_swap := by
    intro a b
    exact (compareBy_swap orders b a).symm

instance (o : FieldOrder) : OrientedCmp fun a b => o.direction.apply (o.compareAt a b) where
  eq_swap := by
    intro a b
    rw [Direction.apply_swap, compareAt_swap]

/-- With every ordering reversed, documents come in the opposite order. -/
theorem compareBy_reversed (orders : List FieldOrder) (a b : Snapshot) :
    compareBy (orders.map reversed) a b = (compareBy orders a b).swap := by
  induction orders with
  | nil => rfl
  | cons o rest ih =>
      rw [List.map_cons, compareBy_cons, compareBy_cons, Ordering.swap_then, ih]
      exact congrArg (Ordering.then · _) (Direction.apply_reversed _ _)

/-- With every ordering reversed, a document lies on the other side of a cursor. -/
theorem compareTo_reversed (orders : List FieldOrder) (values : List Value) (s : Snapshot) :
    compareTo (orders.map reversed) values s = (compareTo orders values s).swap := by
  induction orders generalizing values with
  | nil => rfl
  | cons o rest ih =>
      cases values with
      | nil => rfl
      | cons v vs =>
          rw [List.map_cons, compareTo, compareTo, Ordering.swap_then, ih]
          exact congrArg (Ordering.then · _) (Direction.apply_reversed _ _)

/-- On the values that the orderings see in some documents the order of values is transitive. -/
def TransitiveOn (orders : List FieldOrder) (documents : List Snapshot) : Prop :=
  ∀ o ∈ orders, Sorting.TransitiveOn o.compareAt documents

instance (orders : List FieldOrder) (documents : List Snapshot) :
    Decidable (TransitiveOn orders documents) :=
  inferInstanceAs (Decidable (∀ o ∈ orders, _))

namespace TransitiveOn

theorem mono {documents more : List Snapshot} (h : TransitiveOn orders more)
    (hsub : ∀ s ∈ documents, s ∈ more) : TransitiveOn orders documents := by
  intro o ho
  exact (h o ho).mono hsub

/-- Documents are compared transitively where the values of every ordering are. -/
theorem compareBy {documents : List Snapshot} (h : TransitiveOn orders documents) :
    Sorting.TransitiveOn (compareBy orders) documents := by
  induction orders with
  | nil => exact fun _ _ _ _ _ _ _ _ => rfl
  | cons o rest ih =>
      have ho :
          Sorting.TransitiveOn (fun a b => o.direction.apply (o.compareAt a b)) documents := by
        have hvalues := h o List.mem_cons_self
        have hoppositeValues := hvalues.opposite
        cases hd : o.direction with
        | ascending => exact hvalues
        | descending =>
            intro a ha b hb c hc hab hbc
            simp only [Direction.apply, compareAt_swap] at hab hbc ⊢
            exact hoppositeValues a ha b hb c hc hab hbc
      have hrest := ih fun o' ho' => h o' (List.mem_cons_of_mem _ ho')
      exact ho.andThen hrest

end TransitiveOn

end FieldOrder

/-! ## Documents that are told apart -/

/-- Candidates for a query: each document once, under a proper key. -/
structure Snapshot.AreDistinct (documents : List Snapshot) : Prop where
  nodup : (documents.map (·.key)).Nodup
  proper : ∀ s ∈ documents, s.key.IsProper

instance (documents : List Snapshot) : Decidable (Snapshot.AreDistinct documents) :=
  decidable_of_iff ((documents.map (·.key)).Nodup ∧ ∀ s ∈ documents, s.key.IsProper)
    ⟨fun h => ⟨h.1, h.2⟩, fun h => ⟨h.nodup, h.proper⟩⟩

theorem Snapshot.AreDistinct.sublist {documents more : List Snapshot}
    (h : Snapshot.AreDistinct more) (hsub : documents.Sublist more) :
    Snapshot.AreDistinct documents where
  nodup := h.nodup.sublist (hsub.map _)
  proper s hs := h.proper s (hsub.subset hs)

namespace FieldOrder

variable {orders : List FieldOrder}

/-- Documents that are level in orderings with the document name are one document. -/
theorem key_eq_of_level {a b : Snapshot} (ha : a.key.IsProper) (hb : b.key.IsProper)
    (hname : ∃ o ∈ orders, o.field.isDocumentId = true) (h : compareBy orders a b = .eq) :
    a.key = b.key := by
  obtain ⟨o, ho, hid⟩ := hname
  induction orders with
  | nil => cases ho
  | cons first rest ih =>
      rw [compareBy_cons, Ordering.then_eq_eq, Direction.apply_eq_eq] at h
      rcases List.mem_cons.1 ho with rfl | hlater
      · have hsplit : compare (Text.split '/' a.key.text) (Text.split '/' b.key.text) = .eq := by
          have hlevel := h.1
          rw [compareAt, valueOf, valueOf, Snapshot.field?, Snapshot.field?, if_pos hid,
            if_pos hid] at hlevel
          exact hlevel
        have hpath := ResourcePath.eq_of_split_text ha.slashFree hb.slashFree
          (DocumentKey.segments_ne_nil ha.document) (DocumentKey.segments_ne_nil hb.document)
          (LawfulEqCmp.eq_of_compare hsplit)
        cases hkeya : a.key
        cases hkeyb : b.key
        rw [hkeya, hkeyb] at hpath
        exact congrArg _ hpath
      · exact ih h.2 hlater

/-- Orderings with the document name leave no two documents level. -/
theorem apart_of_distinct {documents : List Snapshot} (h : Snapshot.AreDistinct documents)
    (hname : ∃ o ∈ orders, o.field.isDocumentId = true) :
    Sorting.Apart (compareBy orders) documents := by
  have hkeys := List.pairwise_map.1 h.nodup
  refine hkeys.imp_of_mem fun {a b} ha hb hne hlevel => hne ?_
  exact key_eq_of_level (h.proper a ha) (h.proper b hb) hname hlevel

end FieldOrder

namespace StoreQuery

/-- The orderings without the one by name that is added: those asked for, or the field of the first
inequality. -/
def leadingOrders (q : StoreQuery) : List FieldOrder :=
  if q.orders.isEmpty then
    match q.filters.find? (·.operator.isInequality) with
    | some f => [⟨f.field, .ascending⟩]
    | none => []
  else q.orders

theorem effectiveOrders_eq (q : StoreQuery) :
    q.effectiveOrders =
      if q.leadingOrders.any (·.field.isDocumentId) then q.leadingOrders
      else q.leadingOrders ++
        [⟨.documentId, (q.leadingOrders.getLast?.map (·.direction)).getD .ascending⟩] := rfl

/-- The name of the document is among the effective orderings. -/
theorem effectiveOrders_any (q : StoreQuery) :
    q.effectiveOrders.any (·.field.isDocumentId) = true := by
  rw [effectiveOrders_eq]
  split
  next hany => exact hany
  next => simp [FieldPath.isDocumentId, FieldPath.documentId]

/-- Orderings with the name of the document among them are the effective ones. -/
theorem effectiveOrders_of_any {q : StoreQuery} (h : q.orders.any (·.field.isDocumentId) = true) :
    q.effectiveOrders = q.orders := by
  have hleading : q.leadingOrders = q.orders := by
    unfold leadingOrders
    rw [if_neg]
    intro hempty
    rw [List.isEmpty_iff.1 hempty] at h
    cases h
  rw [effectiveOrders_eq, hleading, if_pos h]

/-- **One order.**  A query puts its documents in strict order. -/
theorem ordered_strict {q : StoreQuery} {documents : List Snapshot}
    (hdocs : Snapshot.AreDistinct documents)
    (htrans : FieldOrder.TransitiveOn q.effectiveOrders documents) :
    (q.ordered documents).Pairwise fun a b =>
      FieldOrder.compareBy q.effectiveOrders a b = .lt := by
  have hsub := List.filter_sublist (p := q.selects) (l := documents)
  have hchosen := (htrans.mono fun s hs => hsub.subset hs).compareBy
  exact Sorting.sorted_strict hchosen
    (FieldOrder.apart_of_distinct (hdocs.sublist hsub) (List.any_eq_true.1 q.effectiveOrders_any))

end StoreQuery

/-- Four users: two with level ages, one without an age. -/
def Snapshot.fourUsers : List Snapshot :=
  [ { key := ⟨⟨["users", "ann"]⟩⟩, fields := some [("age", .integer 30)] },
    { key := ⟨⟨["users", "bob"]⟩⟩, fields := some [("age", .double ⟨0x403e000000000000⟩)] },
    { key := ⟨⟨["users", "cem"]⟩⟩, fields := some [] },
    { key := ⟨⟨["users", "dan"]⟩⟩, fields := some [("age", .integer 41)] } ]

end DocStore
