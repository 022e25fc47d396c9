import DocStore.Proofs.Session.Update

/-!
# Reductions of a query

The first document of a query, whether there is one, how many there are and the aggregates of a
field: each is asked for with a query of its own, which has other columns or another limit.  Columns
and limits do not change what is reduced (`StoreQuery.map_key_run_projection`,
`StoreQuery.fieldValues_run`, `StoreQuery.head?_run_firstOnly`), and neither does the time at which
the documents are read (`StoreQuery.run_readAt`).  So all reductions agree with the documents that
the query gives, as long as the table is the same (`Session.reductions_agree`).

What the smallest and the largest value, the sum and the mean of some values are is stated where
they are defined: see `Value.smallest?_eq_some_iff`, `Aggregate.total_exact_iff` and
`Aggregate.mean?_integers`.
-/

namespace DocStore

theorem Aggregate.fieldValues_readAt (now : Timestamp) (documents : List Snapshot)
    (path : FieldPath) :
    fieldValues (documents.map (·.readAt now)) path = fieldValues documents path := by
  unfold fieldValues
  rw [List.filterMap_map]
  rfl

/-- The documents of a table are the same at any time. -/
theorem Memory.candidates_readAt (now now' : Timestamp) (source : Source) (table : Table) :
    candidates now' source table = (candidates now source table).map (·.readAt now') := by
  unfold candidates
  rw [List.map_filterMap]
  congr 1
  funext ⟨path, stored⟩
  dsimp only
  split <;> rfl

/-- One column is read as its field, or as all fields. -/
theorem QueryState.readProjection_select {q : QueryState} {field : String} {path : FieldPath}
    (hfield : FieldPath.ofText field = .ok path) :
    ∃ projection, (q.select [field]).readProjection = .ok projection ∧
      (projection = none ∨ projection = some [path]) := by
  unfold readProjection
  split
  · exact ⟨none, rfl, .inl rfl⟩
  · refine ⟨some [path], ?_, .inr rfl⟩
    show (do return some (← [field].mapM FieldPath.ofText)) = _
    rw [List.mapM_cons, hfield]
    rfl

namespace Session

/-! ## The reductions one by one -/

section Reductions

variable (database : DatabaseId) (pageSize : Nat) {s : Session Memory.State} {q : QueryState}
  {table : Memory.Table} {n : StoreQuery}

theorem runOn_first (hover : s.IsOver table) (h : q.toStoreQuery = .ok n) :
    (((Connection.inMemory database pageSize).first q).runOn s).1
      = .ok (n.run (Memory.candidates s.client.store.clock.now n.source table)).head? := by
  obtain ⟨s', hrun, -⟩ := runOn_get database pageSize hover (QueryState.toStoreQuery_limit h)
  unfold Connection.first
  rw [Action.runOn_bind_of_ok hrun]
  exact congrArg Except.ok (n.head?_run_firstOnly (QueryState.limit_ne_zero h) _)

theorem runOn_exists? (hover : s.IsOver table) (h : q.toStoreQuery = .ok n) :
    (((Connection.inMemory database pageSize).exists? q).runOn s).1
      = .ok (!(n.run (Memory.candidates s.client.store.clock.now n.source table)).isEmpty) := by
  have hids : (q.select []).toStoreQuery = .ok { n with projection := some [.documentId] } :=
    QueryState.toStoreQuery_columns h rfl
  obtain ⟨s', hrun, -⟩ := runOn_get database pageSize hover (QueryState.toStoreQuery_limit hids)
  unfold Connection.exists?
  rw [Action.runOn_bind_of_ok hrun]
  refine congrArg (fun isEmpty => Except.ok (!isEmpty)) ?_
  exact (StoreQuery.isEmpty_run_firstOnly _ (QueryState.limit_ne_zero hids) _).trans
    (n.isEmpty_run_projection _ _)

theorem runOn_count (hover : s.IsOver table) (h : q.toStoreQuery = .ok n) :
    (((Connection.inMemory database pageSize).count q).runOn s).1
      = .ok (n.run (Memory.candidates s.client.store.clock.now n.source table)).length := by
  have hids : (q.select []).readProjection = .ok (some [.documentId]) := rfl
  obtain ⟨s', hrun, -⟩ := runOn_fetchFor database pageSize hover h .count "*" hids
  unfold Connection.count
  rw [Action.runOn_bind_of_ok hrun]
  exact congrArg Except.ok (n.length_run_projection _ _)

/-- An aggregate reduces the values that its field has in the documents with all their fields. -/
theorem runOn_aggregate {α : Type} (hover : s.IsOver table) (h : q.toStoreQuery = .ok n)
    (aggregate : Aggregate) (reduce : List Value → α) {field : String} {path : FieldPath}
    (hfield : FieldPath.ofText field = .ok path) :
    ((do return reduce (← (Connection.inMemory database pageSize).columnValues q aggregate field)
      : Action _ _).runOn s).1
      = .ok (reduce (Aggregate.fieldValues (({ n with projection := none } : StoreQuery).run
          (Memory.candidates s.client.store.clock.now n.source table)) path)) := by
  obtain ⟨projection, hcolumns, hprojection⟩ := QueryState.readProjection_select hfield
  obtain ⟨s', hrun, -⟩ := runOn_fetchFor database pageSize hover h aggregate field hcolumns
  have hvalues : ((Connection.inMemory database pageSize).columnValues q aggregate field).runOn s
      = (.ok (Aggregate.fieldValues (({ n with projection } : StoreQuery).run
          (Memory.candidates s.client.store.clock.now n.source table)) path), s') := by
    unfold Connection.columnValues
    rw [hfield, Action.runOn_bind_of_ok (Action.runOn_ofOutcome _ _),
      Action.runOn_bind_of_ok hrun]
    rfl
  rw [Action.runOn_bind_of_ok hvalues, n.fieldValues_run path hprojection]
  rfl

end Reductions

/-! ## Agreement -/

/-- What the reductions of a query answer in a session, by the documents of the query and by those
documents with all their fields. -/
structure Reduces (c : Connection Memory.State) (q : QueryState) (s : Session Memory.State)
    (documents all : List Snapshot) : Prop where
  first : ((c.first q).runOn s).1
    = .ok (documents.head?.map (·.readAt s.client.store.clock.now))
  exists? : ((c.exists? q).runOn s).1 = .ok (!documents.isEmpty)
  count : ((c.count q).runOn s).1 = .ok documents.length
  min {field : String} {path : FieldPath} (h : FieldPath.ofText field = .ok path) :
    ((c.min q field).runOn s).1 = .ok (Value.smallest? (Aggregate.fieldValues all path))
  max {field : String} {path : FieldPath} (h : FieldPath.ofText field = .ok path) :
    ((c.max q field).runOn s).1 = .ok (Value.largest? (Aggregate.fieldValues all path))
  sum {field : String} {path : FieldPath} (h : FieldPath.ofText field = .ok path) :
    ((c.sum q field).runOn s).1 = .ok (Aggregate.total (Aggregate.fieldValues all path))
  mean {field : String} {path : FieldPath} (h : FieldPath.ofText field = .ok path) :
    ((c.mean q field).runOn s).1 = .ok (Aggregate.mean? (Aggregate.fieldValues all path))

variable {database : DatabaseId} {pageSize : Nat} {s s₁ : Session Memory.State} {q : QueryState}
  {documents : List Snapshot} {table : Memory.Table}

/-- **Reductions.**  Where a query gives its documents, it gives the same ones with all their
fields, and in every session that listens, on the same table, its reductions are those of these
documents: the first one, as it is read then, whether there is one, their number, and the smallest,
the largest, the sum and the mean of the values that a field has in them. -/
theorem reductions_agree (hover : s.IsOver table)
    (hget : ((Connection.inMemory database pageSize).get q).runOn s = (.ok documents, s₁)) :
    s₁.IsOver table ∧
      (((Connection.inMemory database pageSize).first q).runOn s).1 = .ok documents.head? ∧
      ∃ all, (((Connection.inMemory database pageSize).get q.selectAll).runOn s).1 = .ok all ∧
        all.map (·.key) = documents.map (·.key) ∧
        ∀ s', s'.IsOver table →
          Reduces (Connection.inMemory database pageSize) q s' documents all := by
  obtain ⟨n, hquery, hdocuments⟩ := get_eq_ok hover.listens hget
  rw [hover.table_eq] at hdocuments
  obtain ⟨s₂, hrun, hover₁⟩ := runOn_get database pageSize hover hquery
  obtain rfl : s₂ = s₁ := (Prod.mk.inj (hrun.symm.trans hget)).2
  have hfirst := runOn_first database pageSize hover hquery
  rw [← hdocuments] at hfirst
  have hselectAll : q.selectAll.toStoreQuery = .ok { n with projection := none } :=
    QueryState.toStoreQuery_columns hquery rfl
  obtain ⟨_, hall, -⟩ := runOn_get database pageSize hover hselectAll
  have hkeys := n.map_key_run_projection none
    (Memory.candidates s.client.store.clock.now n.source table)
  rw [← hdocuments] at hkeys
  refine ⟨hover₁, hfirst, _, congrArg Prod.fst hall, hkeys, ?_⟩
  intro s' hover'
  -- The other session finds the same documents, at its own time.
  have hread := Memory.candidates_readAt s.client.store.clock.now s'.client.store.clock.now
    n.source table
  have hreduce {α : Type} (aggregate : Aggregate) (reduce : List Value → α) {field : String}
      {path : FieldPath} (hfield : FieldPath.ofText field = .ok path) :=
    runOn_aggregate database pageSize hover' hquery aggregate reduce hfield
  simp only [hread, StoreQuery.run_readAt, Aggregate.fieldValues_readAt] at hreduce
  exact {
    first := by
      rw [runOn_first database pageSize hover' hquery, hread, StoreQuery.run_readAt,
        List.head?_map, hdocuments]
    exists? := by
      rw [runOn_exists? database pageSize hover' hquery, hread, StoreQuery.run_readAt,
        List.isEmpty_map, hdocuments]
    count := by
      rw [runOn_count database pageSize hover' hquery, hread, StoreQuery.run_readAt,
        List.length_map, hdocuments]
    min := hreduce .min Value.smallest?
    max := hreduce .max Value.largest?
    sum := hreduce .sum Aggregate.total
    mean := hreduce .avg Aggregate.mean? }

/-- The names of the last two of three users by level. -/
def lastNames : QueryState :=
  { (QueryState.ofTable "users").orderBy "level" .ascending with
    columns := ["name"]
    limitToLast := some 2 }

/-- The names are asked for, but levels can be reduced. -/
theorem reductions_agree_lastNames :
    ∃ documents s₁ all,
      ((Connection.inMemory default 100).get lastNames).runOn threeUsers = (.ok documents, s₁) ∧
      documents.map (·.id) = ["cem", "bob"] ∧
      Reduces (Connection.inMemory default 100) lastNames s₁ documents all ∧
      (Aggregate.fieldValues all ⟨["level"]⟩).map (·.asInteger?) = [some 1, some 2] := by
  have hover : threeUsers.IsOver threeUsers.client.store.table := ⟨rfl, rfl⟩
  have hfound : (((Connection.inMemory default 100).get lastNames).runOn threeUsers).1.toOption.map
      (·.map (·.id)) = some ["cem", "bob"] := by decide +kernel
  obtain ⟨documents, hdocuments, hids⟩ := Option.map_eq_some_iff.1 hfound
  rw [Outcome.toOption_eq_some] at hdocuments
  obtain ⟨hover₁, -, all, hall, -, hreduces⟩ := reductions_agree hover (Prod.ext hdocuments rfl)
  have hlevels : (((Connection.inMemory default 100).get lastNames.selectAll).runOn
      threeUsers).1.toOption.map
        (fun all => (Aggregate.fieldValues all ⟨["level"]⟩).map (·.asInteger?))
      = some [some 1, some 2] := by decide +kernel
  rw [Outcome.toOption_eq_some.2 hall] at hlevels
  exact ⟨documents, _, all, Prod.ext hdocuments rfl, hids, hreduces _ hover₁,
    Option.some.inj hlevels⟩

end Session

end DocStore
