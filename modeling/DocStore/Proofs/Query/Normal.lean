import DocStore.Proofs.Query.Order

/-!
# The form in which a query is compared

Ids of documents are compared as references, by the orderings that count.  The query in that form
(`StoreQuery.normal`) gives what the query gives (`run_normal`), since references are left alone:
queries of one form give the same.
-/

namespace DocStore

namespace Value

variable (source : Source)

mutual

/-- What stands for documents is a reference afterwards, and stays one. -/
theorem asDocument_asDocument (v : Value) :
    (v.asDocument source).asDocument source = v.asDocument source := by
  match v with
  | .string s =>
      simp only [asDocument]
      split
      · rfl
      · cases source <;> rfl
  | .array items => exact congrArg array (itemsAsDocuments_itemsAsDocuments items)
  | .null | .boolean _ | .integer _ | .double _ | .timestamp _ | .bytes _ | .reference _ | .map _
  | .increment _ | .deleteField => rfl

theorem itemsAsDocuments_itemsAsDocuments (items : List Value) :
    asDocument.itemsAsDocuments source (asDocument.itemsAsDocuments source items)
      = asDocument.itemsAsDocuments source items := by
  match items with
  | [] => rfl
  | v :: rest =>
      rw [asDocument.itemsAsDocuments, asDocument.itemsAsDocuments, asDocument_asDocument v,
        itemsAsDocuments_itemsAsDocuments rest]

end

end Value

namespace Filter

variable (source : Source) (f : Filter)

@[simp] theorem normal_field : (f.normal source).field = f.field := by
  unfold normal
  split <;> rfl

@[simp] theorem normal_operator : (f.normal source).operator = f.operator := by
  unfold normal
  split <;> rfl

@[simp] theorem normal_normal : (f.normal source).normal source = f.normal source := by
  by_cases hid : f.field.isDocumentId = true
  · simp only [normal, hid, if_true, Value.asDocument_asDocument]
  · simp only [normal, hid, if_false, Bool.false_eq_true]

end Filter

namespace Cursor

@[simp] theorem normal_normal (source : Source) (orders : List FieldOrder) (c : Cursor) :
    (c.normal source orders).normal source orders = c.normal source orders := by
  have halign (values : List Value) :
      normal.align source orders (normal.align source orders values)
        = normal.align source orders values := by
    induction orders generalizing values with
    | nil => cases values <;> rfl
    | cons o rest ih =>
        cases values with
        | nil => rfl
        | cons v vs =>
            simp only [normal.align, ih]
            split
            · rw [Value.asDocument_asDocument]
            · rfl
  exact congrArg (fun values => ({ c with values } : Cursor)) (halign c.values)

end Cursor

namespace StoreQuery

/-- The query with its operands and cursors as they are compared, and the orderings that count. -/
def normal (q : StoreQuery) : StoreQuery :=
  { q with
    filters := q.filters.map (·.normal q.source)
    orders := q.effectiveOrders
    start := q.start.map (·.normal q.source q.effectiveOrders)
    stop := q.stop.map (·.normal q.source q.effectiveOrders) }

/-- The name is among the orderings that count, so they are all that count. -/
theorem effectiveOrders_normal (q : StoreQuery) : q.normal.effectiveOrders = q.effectiveOrders :=
  effectiveOrders_of_any q.effectiveOrders_any

/-- **Normal form.**  The query gives what its normal form gives. -/
theorem run_normal (q : StoreQuery) (documents : List Snapshot) :
    q.normal.run documents = q.run documents := by
  have hselects : q.normal.selects = q.selects := by
    funext s
    simp [selects, normal, Function.comp_def]
  have hordered : q.normal.ordered documents = q.ordered documents := by
    rw [ordered, ordered, effectiveOrders_normal, hselects]
  have hcursors (all : List Snapshot) : q.normal.betweenCursors all = q.betweenCursors all := by
    rw [betweenCursors, betweenCursors, effectiveOrders_normal]
    cases hstart : q.start <;> cases hstop : q.stop <;> simp [normal, hstart, hstop]
  rw [run, run, hordered, hcursors]
  rfl

/-- The orderings that count are known from those asked for and from the fields of the filters. -/
theorem effectiveOrders_congr {q q' : StoreQuery} (horders : q.orders = q'.orders)
    (hfilters : q.normal.filters = q'.normal.filters) :
    q.effectiveOrders = q'.effectiveOrders := by
  have hfield (q : StoreQuery) :
      (q.normal.filters.find? (·.operator.isInequality)).map (·.field)
        = (q.filters.find? (·.operator.isInequality)).map (·.field) := by
    simp [normal, List.find?_map, Function.comp_def]
  have hinequality : (q.filters.find? (·.operator.isInequality)).map (·.field)
      = (q'.filters.find? (·.operator.isInequality)).map (·.field) := by
    rw [← hfield q, hfilters, hfield q']
  have hleading : q.leadingOrders = q'.leadingOrders := by
    unfold leadingOrders
    rw [horders]
    split
    · cases hq : q.filters.find? (·.operator.isInequality) with
      | none =>
          rw [hq] at hinequality
          rw [Option.map_eq_none_iff.1 hinequality.symm]
      | some f =>
          rw [hq] at hinequality
          obtain ⟨f', hf', hsame⟩ := Option.map_eq_some_iff.1 hinequality.symm
          rw [hf']
          dsimp only
          rw [hsame]
    · rfl
  rw [effectiveOrders_eq, effectiveOrders_eq, hleading]

end StoreQuery

end DocStore
