import DocStore.Proofs.Outcome
import DocStore.Query.Call

/-!
# Queries that are built step by step

A query of a store is built from a checked source by calls that each add one part
(`StoreQuery.IsBuilt`).  What every call keeps holds of all such queries (`IsBuilt.induction`):
their source has been checked, and a limit that keeps the last documents is a limit.
-/

namespace DocStore

/-- The query comes out of the steps that build queries. -/
def StoreQuery.IsBuilt (q : StoreQuery) : Prop := ∃ c : CompiledQuery, c.toStoreQuery = .ok q

namespace Call

variable {q q' : StoreQuery} {call : Call}

/-- A filter is put behind the others, and changes nothing else. -/
theorem filter_eq_ok {field : FieldPath} {operator : Operator} {operand : Value}
    (h : q.filter field operator operand = .ok q') :
    q' = { q with filters := q.filters ++ [⟨field, operator, operand⟩] } := by
  unfold StoreQuery.filter at h
  split at h
  · cases h
  · split at h
    · cases h
    · exact (Except.ok.inj h).symm

/-- No call changes the source. -/
theorem apply_source (h : call.apply q = .ok q') : q'.source = q.source := by
  cases call with
  | filter field operator operand => rw [filter_eq_ok h]
  | _ =>
      cases h
      rfl

/-- A call that sets a limit says from which end it counts. -/
theorem apply_limited (hq : q.keepsLast = true → q.limit.isSome = true)
    (h : call.apply q = .ok q') : q'.keepsLast = true → q'.limit.isSome = true := by
  cases call with
  | filter field operator operand => rwa [filter_eq_ok h]
  | limit n =>
      cases h
      exact fun hlast => absurd hlast (by simp [StoreQuery.limitTo])
  | limitToLast n =>
      cases h
      exact fun _ => rfl
  | _ =>
      cases h
      exact hq

end Call

namespace StoreQuery

variable {q : StoreQuery} {source : Source}

theorem ofCollection_eq_ok {path : ResourcePath} :
    ofCollection path = .ok q ↔ path.isCollection = true ∧ q = { source := .collection path } := by
  unfold ofCollection
  split
  next hpath =>
    rw [Outcome.pure_eq_ok, eq_comm]
    simp [hpath]
  next hpath => simp [hpath]

/-- The name of a collection group is one name, and the group lies below a document. -/
theorem ofGroup_eq_ok {collectionId : String} {below : Option ResourcePath} :
    ofGroup collectionId below = .ok q ↔
      (collectionId.isEmpty = false ∧ Text.hasChar '/' collectionId = false ∧
        ∀ document ∈ below, document.isDocument = true) ∧
      q = { source := .group collectionId below } := by
  unfold ofGroup
  split
  next hempty => simp [hempty]
  next hempty =>
    split
    next hslash => simp [hslash]
    next hslash =>
      rw [Bool.not_eq_true] at hempty hslash
      cases below with
      | none =>
          rw [Outcome.pure_eq_ok, eq_comm]
          simp [hempty, hslash]
      | some document =>
          dsimp only
          split
          next hdocument =>
            rw [Outcome.pure_eq_ok, eq_comm]
            simp [hempty, hslash, hdocument]
          next hdocument => simp [hdocument]

/-- A query that is accepted for a source asks for all its documents. -/
theorem ofSource_eq_ok (h : ofSource source = .ok q) : q = { source } := by
  cases source with
  | collection path => exact (ofCollection_eq_ok.1 h).2
  | group collectionId below => exact (ofGroup_eq_ok.1 h).2

namespace IsBuilt

/-- What holds of a query for a checked source, and is kept by every call, holds of every query
that is built. -/
theorem induction {motive : StoreQuery → Prop}
    (source : ∀ {source : Source}, ofSource source = .ok { source } → motive { source })
    (call : ∀ {q q' : StoreQuery} {call : Call}, motive q → call.apply q = .ok q' → motive q')
    (h : q.IsBuilt) : motive q := by
  obtain ⟨c, hc⟩ := h
  obtain ⟨first, hfirst, hcalls⟩ := Outcome.bind_eq_ok.1 hc
  have hstart : motive first := by
    have heq := ofSource_eq_ok hfirst
    rw [heq] at hfirst ⊢
    exact source hfirst
  clear hfirst hc
  generalize c.calls = calls at hcalls
  induction calls generalizing first with
  | nil =>
      cases hcalls
      exact hstart
  | cons step rest ih =>
      obtain ⟨next, hstep, hrest⟩ := Outcome.bind_eq_ok.1 hcalls
      exact ih next (call hstart hstep) hrest

/-- The source of a query that is built has been checked. -/
theorem source_accepted (h : q.IsBuilt) : ofSource q.source = .ok { source := q.source } := by
  refine h.induction (motive := fun q => ofSource q.source = .ok { source := q.source }) ?_ ?_
  · intro source hsource
    exact hsource
  · intro q q' call hq hcall
    rw [Call.apply_source hcall]
    exact hq

/-- A limit that keeps the last documents is a limit. -/
theorem limit_isSome (h : q.IsBuilt) : q.keepsLast = true → q.limit.isSome = true := by
  refine h.induction (motive := fun q => q.keepsLast = true → q.limit.isSome = true) ?_ ?_
  · intro source _ hlast
    cases hlast
  · intro q q' call hq hcall
    exact Call.apply_limited hq hcall

end IsBuilt

end StoreQuery

end DocStore
