import DocStore.Proofs.Query.Parts
import DocStore.Query.Statement

/-!
# The statement of a query

A query has a statement exactly if it can be compiled, and where it cannot, both fail alike.  The
statement is put together call by call: conditions and orderings wait, and the calls that follow
close them.  In the calls of a query the conditions stand next to each other, then the orderings,
then the cursors and numbers; so nothing is left waiting or closed twice, and each call is in one
clause (`Clauses.ofCalls_eq`).

The main statement is `QueryState.statement_renders`.
-/

namespace DocStore

namespace Clauses

/-! ## Clauses of several calls -/

/-- The clause that chooses the fields. -/
def selectClause : Option (List FieldPath) → String
  | none => "select *"
  | some fields => "select " ++ String.intercalate ", " (fields.map (·.text))

/-- The clause of some conditions: none if there are none. -/
def whereClause (filters : List Filter) : List String :=
  if filters.isEmpty then [] else ["where " ++ String.intercalate " and " (filters.map Filter.text)]

/-- The clause of some orderings: none if there are none. -/
def orderClause (orders : List FieldOrder) : List String :=
  if orders.isEmpty then []
  else ["order by " ++ String.intercalate ", " (orders.map FieldOrder.text)]

variable {c : Clauses} {filters : List Filter} {orders : List FieldOrder}

theorem closeConditions_eq (h : c.conditions = filters.map Filter.text) :
    c.closeConditions = { c with rest := c.rest ++ whereClause filters, conditions := [] } := by
  obtain ⟨selection, source, rest, _, orderings⟩ := c
  obtain rfl := h
  cases filters with
  | nil => simp [closeConditions, whereClause]
  | cons f later => simp [closeConditions, whereClause]

theorem closeOrderings_eq (h : c.orderings = orders.map FieldOrder.text) :
    c.closeOrderings = { c with rest := c.rest ++ orderClause orders, orderings := [] } := by
  obtain ⟨selection, source, rest, conditions, _⟩ := c
  obtain rfl := h
  cases orders with
  | nil => simp [closeOrderings, orderClause]
  | cons o later => simp [closeOrderings, orderClause]

/-! ## Nothing is closed twice -/

theorem closeConditions_of_nil (h : c.conditions = []) : c.closeConditions = c := by
  simp [closeConditions, h]

theorem conditions_closeConditions (c : Clauses) : c.closeConditions.conditions = [] := by
  unfold closeConditions
  split
  next h => exact List.isEmpty_iff.1 h
  next => rfl

theorem orderings_closeConditions (c : Clauses) : c.closeConditions.orderings = c.orderings := by
  unfold closeConditions
  split <;> rfl

theorem close_of_nil (hconditions : c.conditions = []) (horderings : c.orderings = []) :
    c.close = c := by
  simp [close, closeConditions_of_nil hconditions, closeOrderings, horderings]

/-- After closing nothing waits. -/
theorem waiting_close (c : Clauses) : c.close.conditions = [] ∧ c.close.orderings = [] := by
  unfold close closeOrderings
  split
  next h => exact ⟨c.conditions_closeConditions, List.isEmpty_iff.1 h⟩
  next => exact ⟨c.conditions_closeConditions, rfl⟩

/-! ## Stretches of calls of one kind -/

theorem foldl_filters (c : Clauses) (filters : List Filter) :
    (filters.map Filter.call).foldl add c
      = { c with conditions := c.conditions ++ filters.map Filter.text } := by
  induction filters generalizing c with
  | nil => simp
  | cons f rest ih => simp [ih, Filter.call, add]

/-- The first of some orderings closes the conditions before it. -/
theorem foldl_orders (c : Clauses) (orders : List FieldOrder) :
    ((orders.map FieldOrder.call).foldl add c).closeConditions
      = { c.closeConditions with orderings := c.orderings ++ orders.map FieldOrder.text } := by
  induction orders generalizing c with
  | nil => simp [← c.orderings_closeConditions]
  | cons o rest ih =>
      have hadd : add c o.call
          = { c.closeConditions with orderings := c.orderings ++ [o.text] } := by
        rw [← c.orderings_closeConditions]
        rfl
      have hnone : (add c o.call).conditions = [] := by
        rw [hadd]
        exact c.conditions_closeConditions
      rw [List.map_cons, List.foldl_cons, ih, closeConditions_of_nil hnone, hadd]
      simp

/-- Conditions and orderings are closed one after the other. -/
theorem close_foldl (hconditions : c.conditions = []) (horderings : c.orderings = []) :
    ((filters.map Filter.call ++ orders.map FieldOrder.call).foldl add c).close
      = { c with rest := c.rest ++ whereClause filters ++ orderClause orders } := by
  have hfilters : (filters.map Filter.call).foldl add c
      = { c with conditions := filters.map Filter.text } := by
    rw [foldl_filters, hconditions, List.nil_append]
  have hwhere : ({ c with conditions := filters.map Filter.text } : Clauses).closeConditions
      = { c with rest := c.rest ++ whereClause filters } := by
    rw [closeConditions_eq rfl, ← hconditions]
  rw [List.foldl_append, hfilters, close, foldl_orders, hwhere, horderings, List.nil_append,
    closeOrderings_eq rfl, ← horderings]

theorem add_of_isClosing {call : Call} (h : call.isClosing = true) :
    add c call = { c.close with rest := c.close.rest ++ [call.clause] } := by
  cases call <;> first | rfl | cases h

/-- The first of some closing calls closes all that waits. -/
theorem foldl_closing {calls : List Call} (h : ∀ call ∈ calls, call.isClosing = true)
    (c : Clauses) :
    (calls.foldl add c).close
      = { c.close with rest := c.close.rest ++ calls.map Call.clause } := by
  induction calls generalizing c with
  | nil => simp
  | cons call rest ih =>
      rw [List.forall_mem_cons] at h
      have hadd := add_of_isClosing (c := c) h.1
      have hclosed : (add c call).close = add c call := by
        rw [hadd]
        exact close_of_nil c.waiting_close.1 c.waiting_close.2
      rw [List.foldl_cons, ih h.2, hclosed, hadd]
      simp

/-! ## The calls of a query -/

/-- The fields and the source have their own places. -/
theorem foldl_head (selected : Option (List FieldPath)) (source : Source) :
    (QueryState.callsBefore selected ++ [source.call]).foldl add {}
      = { selection := selected.map fun fields => selectClause (some fields)
          source := source.text } := by
  cases selected <;> cases source <;> rfl

/-- **Clauses.**  In the order of the parts of a query, each call is in one clause. -/
theorem ofCalls_eq (selected : Option (List FieldPath)) (source : Source) {closing : List Call}
    (h : ∀ call ∈ closing, call.isClosing = true) :
    ofCalls (QueryState.callsBefore selected ++ source.call ::
        (filters.map Filter.call ++ (orders.map FieldOrder.call ++ closing)))
      = { selection := selected.map fun fields => selectClause (some fields)
          source := source.text
          rest := whereClause filters ++ orderClause orders ++ closing.map Call.clause } := by
  rw [ofCalls, List.append_cons, List.foldl_append, foldl_head, ← List.append_assoc,
    List.foldl_append, foldl_closing h, close_foldl rfl rfl, List.nil_append]

end Clauses

namespace QueryState

variable {q : QueryState}

/-- Compiling a query and giving its text fail alike. -/
theorem statement_eq_error {e : Error} : q.statement = .error e ↔ q.compile = .error e := by
  cases hcalls : q.compileCalls with
  | error e' => rw [statement, compile, hcalls, Outcome.error_bind, Outcome.error_bind]; simp
  | ok calls =>
      obtain ⟨p, hreads⟩ := exists_reads hcalls
      rw [statement, hcalls, hreads.compile]
      exact iff_of_false (fun h => nomatch h) (fun h => nomatch h)

/-- **Statements.**  A query has a statement exactly if it can be compiled; else both fail with the
same error.  The statement chooses the fields and names the source; then come one clause with the
conditions of all filters, one with all orderings, and one for each other call.  The calls of the
compiled query are these, in this order: each of them is in one clause, and none is left out. -/
theorem statement_renders (q : QueryState) :
    (∀ e, q.statement = .error e ↔ q.compile = .error e) ∧
      ∀ c, q.compile = .ok c → ∃ selected filters orders closing,
        c.calls = (selected.map Call.select).toList ++ (filters.map Filter.call ++
          (orders.map FieldOrder.call ++ closing)) ∧
        (∀ call ∈ closing, call.isClosing = true) ∧
        q.statement = .ok (String.intercalate " "
          (Clauses.selectClause selected :: ("from " ++ c.source.text) ::
            (Clauses.whereClause filters ++ Clauses.orderClause orders
              ++ closing.map Call.clause))) := by
  refine ⟨fun e => statement_eq_error, fun c hc => ?_⟩
  obtain ⟨p, hreads, rfl⟩ := compile_eq_ok.1 hc
  have hclosing : ∀ call ∈ q.closingCalls, call.isClosing = true := fun _ => isClosing_of_mem
  refine ⟨p.projection, p.filters, p.orders, q.closingCalls, rfl, hclosing, ?_⟩
  rw [statement, hreads.compileCalls, Outcome.ok_bind, Clauses.ofCalls_eq _ _ hclosing]
  cases p.projection <;> rfl

/-- A statement with all clauses; the offset of zero adds none. -/
theorem statement_renders_allParts :
    ∃ c selected filters orders closing, allParts.compile = .ok c ∧
      c.calls = (selected.map Call.select).toList ++ (filters.map Filter.call ++
        (orders.map FieldOrder.call ++ closing)) ∧
      allParts.statement = .ok (String.intercalate " "
        (Clauses.selectClause selected :: ("from " ++ c.source.text) ::
          (Clauses.whereClause filters ++ Clauses.orderClause orders
            ++ closing.map Call.clause))) ∧
      allParts.statement = .ok ("select name, address.city from users where age >= 18 "
        ++ "order by age desc start at (30) end at (20) start after (40) limit 5 "
        ++ "limit to last 2") := by
  obtain ⟨selected, filters, orders, closing, hcalls, -, hstatement⟩ :=
    (statement_renders allParts).2 _ rfl
  exact ⟨_, selected, filters, orders, closing, rfl, hcalls, hstatement, by rfl⟩

end QueryState

end DocStore
