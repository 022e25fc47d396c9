import DocStore.Document.Aggregate
import DocStore.Proofs.Query.Evaluate
import DocStore.Proofs.Query.Parts
import DocStore.Proofs.Value.Assign
import DocStore.Session.Mutation

/-!
# The columns and the limit of a query

The columns of a query choose the fields that the store gives, and nothing else: with other columns
the same query of the store comes out, with the other fields (`toStoreQuery_columns`).  It gives the
same documents (`map_key_run_projection`).  The query for the documents of a mutation is the query
for their ids (`identityQuery_of_toStoreQuery`), and the query for one field gives the values that
the field has in these documents (`fieldValues_run`).

A limit of one document is put in the place of another limit, but a limit to the last documents
stays (`toStoreQuery_limit`).  Either way the first document is the same (`head?_run_firstOnly`).
-/

namespace DocStore

/-- The query for the first document, where it does not ask for the last ones. -/
def StoreQuery.firstOnly (q : StoreQuery) : StoreQuery :=
  { q with limit := if q.keepsLast then q.limit else some 1 }

namespace QueryState

variable {q : QueryState}

/-- **Columns.**  With other columns the same query comes out, with the fields that they name. -/
theorem toStoreQuery_columns {n : StoreQuery} (h : q.toStoreQuery = .ok n) {columns : List String}
    {projection : Option (List FieldPath)}
    (hcolumns : ({ q with columns } : QueryState).readProjection = .ok projection) :
    ({ q with columns } : QueryState).toStoreQuery = .ok { n with projection } := by
  obtain ⟨p, hreads, haccepted, rfl⟩ := toStoreQuery_eq_ok.1 h
  have hother : ({ q with columns } : QueryState).Reads { p with projection } :=
    ⟨hreads.source, hcolumns, hreads.filters, hreads.orders⟩
  exact toStoreQuery_eq_ok.2 ⟨_, hother, haccepted, rfl⟩

/-- The query for the documents of a mutation is the query for their ids. -/
theorem identityQuery_of_toStoreQuery {n : StoreQuery} (h : q.toStoreQuery = .ok n) :
    q.identityQuery = .ok { n with projection := some [.documentId] } :=
  toStoreQuery_columns h rfl

/-- A query that can be executed is compiled without its columns too, which gives it its text. -/
theorem compileCalls_withoutColumns {n : StoreQuery} (h : q.toStoreQuery = .ok n) :
    ∃ calls, q.withoutColumns.compileCalls = .ok calls := by
  obtain ⟨p, hreads, -⟩ := toStoreQuery_eq_ok.1 h
  have hother : q.withoutColumns.Reads { p with projection := none } :=
    ⟨hreads.source, rfl, hreads.filters, hreads.orders⟩
  exact ⟨_, hother.compileCalls⟩

/-- A query that can be executed has a text. -/
theorem statement_of_toStoreQuery {n : StoreQuery} (h : q.toStoreQuery = .ok n) :
    ∃ statement, q.statement = .ok statement := by
  obtain ⟨p, hreads, -⟩ := toStoreQuery_eq_ok.1 h
  exact ⟨_, by rw [statement, hreads.compileCalls]; rfl⟩

theorem reductionStatement_of_toStoreQuery {n : StoreQuery} (h : q.toStoreQuery = .ok n)
    (reduction field : String) :
    ∃ statement, q.reductionStatement reduction field = .ok statement := by
  obtain ⟨calls, hcalls⟩ := compileCalls_withoutColumns h
  exact ⟨_, by rw [reductionStatement, hcalls]; rfl⟩

/-- A query that can be run has a text as a mutation. -/
theorem mutationStatement_of_toStoreQuery {n : StoreQuery} (h : q.toStoreQuery = .ok n)
    (head : String → List String) : ∃ statement, q.mutationStatement head = .ok statement := by
  obtain ⟨calls, hcalls⟩ := compileCalls_withoutColumns h
  exact ⟨_, by rw [mutationStatement, hcalls]; rfl⟩

/-- A limit of one document takes the place of another limit, but not of one that keeps the last
documents. -/
theorem toStoreQuery_limit {n : StoreQuery} (h : q.toStoreQuery = .ok n) :
    ({ q with limit := some 1 } : QueryState).toStoreQuery = .ok n.firstOnly := by
  obtain ⟨p, hreads, haccepted, rfl⟩ := toStoreQuery_eq_ok.1 h
  have hother : ({ q with limit := some 1 } : QueryState).Reads p :=
    ⟨hreads.source, hreads.projection, hreads.filters, hreads.orders⟩
  refine toStoreQuery_eq_ok.2 ⟨p, hother, haccepted, ?_⟩
  unfold StoreQuery.firstOnly storeQuery
  cases nonzero q.limitToLast <;> rfl

/-- A limit that a query keeps is not zero. -/
theorem limit_ne_zero {n : StoreQuery} (h : q.toStoreQuery = .ok n) : n.limit ≠ some 0 := by
  obtain ⟨p, -, -, rfl⟩ := toStoreQuery_eq_ok.1 h
  have hnonzero : ∀ limit : Option Nat, nonzero limit ≠ some 0 := by
    intro limit hzero
    have hkept := (Option.filter_eq_some_iff.1 hzero).2
    exact absurd hkept (by decide)
  intro hzero
  rcases Option.or_eq_some_iff.1 hzero with hlast | ⟨-, hfirst⟩
  · exact hnonzero _ hlast
  · exact hnonzero _ hfirst

end QueryState

namespace StoreQuery

variable (q : StoreQuery)

/-- The fields that a query gives do not matter for the documents that it gives. -/
theorem map_key_run_projection (projection : Option (List FieldPath))
    (documents : List Snapshot) :
    (({ q with projection } : StoreQuery).run documents).map (·.key)
      = (q.run documents).map (·.key) := by
  rw [map_key_run, map_key_run]
  rfl

theorem length_run_projection (projection : Option (List FieldPath)) (documents : List Snapshot) :
    (({ q with projection } : StoreQuery).run documents).length = (q.run documents).length := by
  simpa using congrArg List.length (q.map_key_run_projection projection documents)

theorem isEmpty_run_projection (projection : Option (List FieldPath)) (documents : List Snapshot) :
    (({ q with projection } : StoreQuery).run documents).isEmpty = (q.run documents).isEmpty := by
  simpa using congrArg List.isEmpty (q.map_key_run_projection projection documents)

/-- A query for some fields gives those of the documents that the query for all fields gives. -/
theorem run_projection (projection : Option (List FieldPath)) (documents : List Snapshot) :
    ({ q with projection } : StoreQuery).run documents
      = (({ q with projection := none } : StoreQuery).run documents).map
          ({ q with projection } : StoreQuery).project := by
  have hall : ({ q with projection := none } : StoreQuery).project = id := by
    funext s
    rfl
  rw [run, run, hall, List.map_id]
  rfl

/-- A field that is asked for is found in what a query leaves of a document. -/
theorem field?_project (path : FieldPath) (s : Snapshot) :
    (({ q with projection := some [path] } : StoreQuery).project s).field? path
      = s.field? path := by
  unfold Snapshot.field?
  rw [project_key]
  by_cases hid : path.isDocumentId = true
  · rw [if_pos hid, if_pos hid]
  · rw [if_neg hid, if_neg hid]
    have hfields : (({ q with projection := some [path] } : StoreQuery).project s).fields
        = some (Snapshot.selectPaths (s.fields.getD []) [path]) := by
      simp [project, hid]
    have hheld : s.fields.bind (Fields.get? · path) = Fields.get? (s.fields.getD []) path := by
      cases s.fields with
      | none => exact (Merge.getIn_nil _).symm
      | some fields => rfl
    rw [hfields, hheld]
    show Fields.get? (Snapshot.selectPaths _ [path]) path = _
    unfold Snapshot.selectPaths
    rw [List.foldl_cons, List.foldl_nil]
    cases hfound : Fields.get? (s.fields.getD []) path with
    | none => exact Merge.getIn_nil _
    | some v =>
        apply Fields.getIn_setIn_self
        intro hnil
        rw [Fields.get?, hnil] at hfound
        cases hfound

/-- The values of a field are the same whether a query gives the field alone or all fields. -/
theorem fieldValues_run (path : FieldPath) {projection : Option (List FieldPath)}
    (hprojection : projection = none ∨ projection = some [path]) (documents : List Snapshot) :
    Aggregate.fieldValues (({ q with projection } : StoreQuery).run documents) path
      = Aggregate.fieldValues (({ q with projection := none } : StoreQuery).run documents)
          path := by
  rcases hprojection with rfl | rfl
  · rfl
  · unfold Aggregate.fieldValues
    rw [q.run_projection (some [path]), List.filterMap_map]
    simp only [Function.comp_def, field?_project]

theorem head?_window_firstOnly (hlimit : q.limit ≠ some 0) (documents : List Snapshot) :
    (q.firstOnly.window documents).head? = (q.window documents).head? := by
  unfold window firstOnly
  cases hlast : q.keepsLast with
  | true => rfl
  | false =>
      cases hsome : q.limit with
      | none => simp [List.head?_take]
      | some k =>
          have hk : k ≠ 0 := by
            intro hzero
            exact hlimit (by rw [hsome, hzero])
          simp [List.head?_take, hk]

/-- A limit of one document leaves the first of the documents that a query gives. -/
theorem head?_run_firstOnly (hlimit : q.limit ≠ some 0) (documents : List Snapshot) :
    (q.firstOnly.run documents).head? = (q.run documents).head? := by
  have hwindow := q.head?_window_firstOnly hlimit (q.betweenCursors (q.ordered documents))
  rw [run, run, List.head?_map, List.head?_map]
  exact congrArg (Option.map q.project) hwindow

theorem isEmpty_run_firstOnly (hlimit : q.limit ≠ some 0) (documents : List Snapshot) :
    (q.firstOnly.run documents).isEmpty = (q.run documents).isEmpty := by
  rw [Bool.eq_iff_iff, List.isEmpty_iff, List.isEmpty_iff, ← List.head?_eq_none_iff,
    ← List.head?_eq_none_iff, q.head?_run_firstOnly hlimit]

end StoreQuery

end DocStore
