import DocStore.Proofs.Query.Columns
import DocStore.Proofs.Session.Statement
import DocStore.Session.Query

/-!
# Statements that read

A query that is read in a session gives what its query of the store gives over the documents of the
table, and leaves the table as it is.  It is read only if there is a query of the store
(`Session.get_eq_ok`).
-/

namespace DocStore.Session

variable (database : DatabaseId) (pageSize : Nat) {s : Session Memory.State} {q : QueryState}
  {table : Memory.Table} {n : StoreQuery}

/-- A query of the store is run on the table. -/
theorem runOn_fetch (hover : s.IsOver table) (statement : String) (n : StoreQuery) :
    ∃ s', ((Connection.inMemory database pageSize).fetch statement n).runOn s
        = (.ok (n.run (Memory.candidates s.client.store.clock.now n.source table)), s') ∧
      s'.IsOver table := by
  obtain ⟨s', hrun, hclient, hlistens⟩ := runOn_run_of_ok statement [] hover.listens
    (Client.runOn_onStore (Memory.runOn_query n s.client.store))
  rw [hover.table_eq] at hrun
  have htable : s'.client.store.table = table := by
    rw [hclient]
    exact hover.table_eq
  exact ⟨s', hrun, hlistens, htable⟩

/-- The documents of a query are those that its query of the store gives. -/
theorem runOn_get (hover : s.IsOver table) (h : q.toStoreQuery = .ok n) :
    ∃ s', ((Connection.inMemory database pageSize).get q).runOn s
        = (.ok (n.run (Memory.candidates s.client.store.clock.now n.source table)), s') ∧
      s'.IsOver table := by
  obtain ⟨statement, hstatement⟩ := QueryState.statement_of_toStoreQuery h
  have hget : (Connection.inMemory database pageSize).get q
      = (Connection.inMemory database pageSize).fetch statement n := by
    unfold Connection.get
    rw [hstatement, h]
    rfl
  rw [hget]
  exact runOn_fetch database pageSize hover statement n

/-- A reduction fetches the same documents with other fields. -/
theorem runOn_fetchFor (hover : s.IsOver table) (h : q.toStoreQuery = .ok n)
    (aggregate : Aggregate) (field : String) {columns : List String}
    {projection : Option (List FieldPath)}
    (hcolumns : (q.select columns).readProjection = .ok projection) :
    ∃ s', ((Connection.inMemory database pageSize).fetchFor q aggregate field columns).runOn s
        = (.ok (({ n with projection } : StoreQuery).run
            (Memory.candidates s.client.store.clock.now n.source table)), s') ∧
      s'.IsOver table := by
  obtain ⟨statement, hstatement⟩ :=
    QueryState.reductionStatement_of_toStoreQuery h aggregate.name field
  have hquery : (q.select columns).toStoreQuery = .ok { n with projection } :=
    QueryState.toStoreQuery_columns h hcolumns
  have hfetch : (Connection.inMemory database pageSize).fetchFor q aggregate field columns
      = (Connection.inMemory database pageSize).fetch statement { n with projection } := by
    unfold Connection.fetchFor
    rw [hstatement, hquery]
    rfl
  rw [hfetch]
  exact runOn_fetch database pageSize hover statement _

variable {database pageSize} {s₁ : Session Memory.State} {documents : List Snapshot}

/-- The documents of a query in memory. -/
theorem get_eq_ok (hlistens : s.pretending = false)
    (h : ((Connection.inMemory database pageSize).get q).runOn s = (.ok documents, s₁)) :
    ∃ n, q.toStoreQuery = .ok n ∧
      documents = n.run
        (Memory.candidates s.client.store.clock.now n.source s.client.store.table) := by
  obtain ⟨n, hquery⟩ : ∃ n, q.toStoreQuery = .ok n := by
    obtain ⟨_, _, hstatement, hrest⟩ := Action.runOn_bind_eq_ok.1 h
    obtain ⟨-, rfl⟩ := Prod.mk.inj hstatement
    obtain ⟨n, _, hcompiled, -⟩ := Action.runOn_bind_eq_ok.1 hrest
    exact ⟨n, (Prod.mk.inj hcompiled).1⟩
  obtain ⟨_, hrun, -⟩ := runOn_get database pageSize ⟨hlistens, rfl⟩ hquery
  exact ⟨n, hquery, Except.ok.inj (Prod.mk.inj (h.symm.trans hrun)).1⟩

end DocStore.Session
