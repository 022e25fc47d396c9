import DocStore.Proofs.Query.Built
import DocStore.Query.Compile

/-!
# The parts of a compiled query

Each part of a query is read on its own, and gives the calls that add it.  The columns come first,
and nothing else depends on them (`QueryState.compileCalls_eq`).  The source stands among the calls
of the other parts (`compile_of_calls`).
-/

namespace DocStore

/-- An ordering as it was written, read. -/
def Order.read (o : Order) : Outcome FieldOrder := do
  return ⟨← FieldPath.ofText o.field, o.direction⟩

/-- The call that adds an ordering. -/
def FieldOrder.call (o : FieldOrder) : Call := .orderBy o.field o.direction

/-- Calls that are never idle are all kept. -/
theorem Call.filter_busy {α : Type} {f : α → Call} (h : ∀ a, (f a).isIdle = false) (xs : List α) :
    (xs.map f).filter (!·.isIdle) = xs.map f := by
  refine List.filter_eq_self.2 fun call hcall => ?_
  obtain ⟨a, -, rfl⟩ := List.mem_map.1 hcall
  rw [h, Bool.not_false]

namespace QueryState

variable {q : QueryState}

/-! ## The parts -/

/-- The fields that are asked for, read: none for all of them. -/
def readProjection (q : QueryState) : Outcome (Option (List FieldPath)) :=
  if q.asksForAll then pure none else do return some (← q.columns.mapM FieldPath.ofText)

theorem compile_columns (q : QueryState) :
    q.compileComponent .columns = do
      return ((← q.readProjection).map Call.select).toList := by
  unfold compileComponent compilePart readProjection
  cases hall : q.asksForAll with
  | true => rfl
  | false =>
      cases hcolumns : q.columns with
      | nil => simp [asksForAll, hcolumns] at hall
      | cons column rest =>
          rw [List.mapM_cons]
          cases FieldPath.ofText column with
          | error e => rfl
          | ok first => cases rest.mapM FieldPath.ofText <;> rfl

theorem compile_orders (q : QueryState) :
    q.compileComponent .orders = do return (← q.orders.mapM Order.read).map FieldOrder.call := by
  have hmap : (q.orders.mapM fun o => do
      return Call.orderBy (← FieldPath.ofText o.field) o.direction)
        = do return (← q.orders.mapM Order.read).map FieldOrder.call := by
    induction q.orders with
    | nil => rfl
    | cons o rest ih =>
        rw [List.mapM_cons, List.mapM_cons, ih, Order.read]
        cases FieldPath.ofText o.field with
        | error e => rfl
        | ok path => cases rest.mapM Order.read <;> rfl
  unfold compileComponent compilePart
  dsimp only
  rw [hmap]
  cases q.orders.mapM Order.read with
  | error e => rfl
  | ok orders =>
      exact congrArg Except.ok (Call.filter_busy (f := FieldOrder.call) (fun _ => rfl) orders)

theorem readProjection_succeeds_iff :
    (∃ projection, q.readProjection = .ok projection) ↔
      "*" ∈ q.columns ∨ ∀ column ∈ q.columns, ∃ path, FieldPath.ofText column = .ok path := by
  unfold readProjection
  rw [← Outcome.mapM_succeeds_iff]
  by_cases hall : q.asksForAll = true
  · have hcolumns : q.columns = [] ∨ "*" ∈ q.columns := by
      simpa [asksForAll] using hall
    rw [if_pos hall]
    refine iff_of_true ⟨none, rfl⟩ ?_
    rcases hcolumns with hnil | hstar
    · exact .inr ⟨[], by rw [hnil]; rfl⟩
    · exact .inl hstar
  · have hstar : "*" ∉ q.columns := fun hmem => hall (by simp [asksForAll, hmem])
    rw [if_neg hall, bind_pure_comp, Outcome.map_succeeds_iff]
    simp [hstar]

theorem readOrders_succeeds_iff {orders : List Order} :
    (∃ parsed, orders.mapM Order.read = .ok parsed) ↔
      ∀ o ∈ orders, ∃ path, FieldPath.ofText o.field = .ok path := by
  rw [Outcome.mapM_succeeds_iff]
  refine forall_congr' fun o => imp_congr_right fun _ => ?_
  rw [Order.read, bind_pure_comp, Outcome.map_succeeds_iff]

/-! ## The calls -/

/-- The calls that come before the source. -/
def callsBefore (projection : Option (List FieldPath)) : List Call :=
  (projection.map Call.select).toList

/-- The calls of all parts but the columns. -/
def otherCalls (q : QueryState) : Outcome (List Call) := do
  return (← Component.all.tail.mapM q.compileComponent).flatten

/-- The columns come first, and the other parts do not depend on them. -/
theorem compileCalls_eq (q : QueryState) :
    q.compileCalls = do
      let projection ← q.readProjection
      return callsBefore projection ++ (← q.otherCalls) := by
  unfold compileCalls otherCalls callsBefore
  rw [Component.all, List.mapM_cons, compile_columns]
  simp only [bind_assoc, pure_bind, List.flatten_cons, List.tail_cons]

/-- A query is compiled to its source and the calls around it. -/
theorem compile_of_calls {before after : List Call} {call : Call} {source : Source}
    (hcalls : q.compileCalls = .ok (before ++ call :: after)) (hcall : call.source? = some source)
    (hadd : ∀ call ∈ before ++ after, call.source? = none) :
    q.compile = .ok ⟨source, before ++ after⟩ := by
  have hbefore : before.filterMap Call.source? = [] :=
    List.filterMap_eq_nil_iff.2 fun c hc => hadd c (List.mem_append_left _ hc)
  have hafter : after.filterMap Call.source? = [] :=
    List.filterMap_eq_nil_iff.2 fun c hc => hadd c (List.mem_append_right _ hc)
  have hkept : (before ++ call :: after).filter (·.source?.isNone) = before ++ after := by
    rw [List.filter_append, List.filter_cons_of_neg (by simp [hcall]), ← List.filter_append]
    exact List.filter_eq_self.2 fun c hc => by simp [hadd c hc]
  unfold compile
  rw [hcalls, Outcome.ok_bind, List.filterMap_append, hbefore,
    List.filterMap_cons_some hcall, hafter, hkept]
  rfl

/-- The calls of orderings are put one behind the other. -/
theorem foldlM_orders (orders : List FieldOrder) (q : StoreQuery) :
    (orders.map FieldOrder.call).foldlM Call.apply q
      = .ok { q with orders := q.orders ++ orders } := by
  induction orders generalizing q with
  | nil => simp
  | cons o rest ih =>
      rw [List.map_cons, List.foldlM_cons]
      show (rest.map FieldOrder.call).foldlM Call.apply (q.orderBy o.field o.direction) = _
      rw [ih]
      simp [StoreQuery.orderBy]

end QueryState

end DocStore
