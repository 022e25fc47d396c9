import DocStore.Document.Snapshot
import DocStore.Proofs.Value.Access
import DocStore.Query.Evaluate

/-!
# Selecting fields

A selection is made one listed path after the other, and later paths may be below, above or beside
earlier ones.  Nothing that was taken is damaged: what has been kept is at every moment part of the
document (`Within`), so a path that reads as in the document goes on to do so
(`get?_keep_of_eq`); and a removal brings nothing in, so a path that reads nothing goes on to do so.
Each step does its part at its own path, so in the end all is done (`foldl_brings`).

A selection therefore has the listed fields and nothing beside them (`Selects`), and what is left of
a document without the listed fields has all that lies beside them (`Drops`).
-/

namespace DocStore

namespace Fields

/-- The fields as they read at the listed paths, and nothing apart from these. -/
structure Selects (paths : List FieldPath) (fields selected : Fields) : Prop where
  get?_listed : ∀ path ∈ paths, get? selected path = get? fields path
  get?_apart : ∀ path, (∀ p ∈ paths, FieldPath.Apart p path) → get? selected path = none

/-- The fields as they read apart from the listed paths, and nothing at these. -/
structure Drops (paths : List FieldPath) (fields left : Fields) : Prop where
  get?_listed : ∀ path ∈ paths, get? left path = none
  get?_apart : ∀ path, (∀ p ∈ paths, FieldPath.Apart p path) → get? left path = get? fields path

variable {fields kept : Fields} {path other : FieldPath} {paths : List FieldPath}

/-! ## One path after the other -/

section Steps

variable (step : Fields → FieldPath → Fields) {inv : Fields → Prop} (good : Fields → Prop)

/-- What the step at a listed path brings about, and no step undoes, holds in the end. -/
theorem foldl_brings (hinv : ∀ fields p, inv fields → inv (step fields p))
    (hself : ∀ fields, inv fields → good (step fields path))
    (hkeeps : ∀ fields p, inv fields → good fields → good (step fields p))
    (h : inv fields) (hlisted : path ∈ paths ∨ good fields) : good (paths.foldl step fields) := by
  induction paths generalizing fields with
  | nil => exact hlisted.resolve_left List.not_mem_nil
  | cons first rest ih =>
      refine ih (hinv fields first h) ?_
      rcases hlisted with hmem | hgood
      · rcases List.mem_cons.1 hmem with rfl | hlater
        · exact .inr (hself fields h)
        · exact .inl hlater
      · exact .inr (hkeeps fields first h hgood)

/-- Where every step leaves alone what is apart from its path, all of them do. -/
theorem get?_foldl_of_apart
    (hstep : ∀ fields p, FieldPath.Apart p path → get? (step fields p) path = get? fields path)
    (h : ∀ p ∈ paths, FieldPath.Apart p path) :
    get? (paths.foldl step fields) path = get? fields path := by
  induction paths generalizing fields with
  | nil => rfl
  | cons first rest ih =>
      rw [List.forall_mem_cons] at h
      exact (ih h.2).trans (hstep fields first h.1)

end Steps

/-! ## Keeping the listed fields -/

/-- What is kept with the field at one path more. -/
def keep (fields kept : Fields) (path : FieldPath) : Fields :=
  match get? fields path with
  | some v => set kept path v
  | none => kept

/-- The fields that are kept are in order, and nothing is found in them that is not in the
document. -/
structure Within (fields kept : Fields) : Prop where
  ordered : Value.orderedFields kept = true
  none_of_none : ∀ path, get? fields path = none → get? kept path = none

theorem within_nil (fields : Fields) : Within fields [] :=
  ⟨rfl, fun path _ => Merge.getIn_nil path.segments⟩

/-- Apart from the path nothing more is found. -/
theorem get?_keep_of_apart (h : FieldPath.Apart path other) :
    get? (keep fields kept path) other = get? kept other := by
  unfold keep
  split
  · exact get?_set_of_apart h
  · rfl

/-- At the path and below it the document is read. -/
theorem get?_keep_append (h : Within fields kept) (hne : path.segments ≠ []) (rest : List String) :
    get? (keep fields kept path) ⟨path.segments ++ rest⟩
      = get? fields ⟨path.segments ++ rest⟩ := by
  unfold keep
  split
  next v hv =>
    rw [get?, set, getIn_setIn_append hne, get?, getIn_append hne]
    exact congrArg (Merge.getFrom · rest) hv.symm
  next hnone =>
    have hbelow : get? fields ⟨path.segments ++ rest⟩ = none := by
      rw [get?, getIn_append hne]
      exact (congrArg (Merge.getFrom · rest) hnone).trans (Merge.getFrom_none rest)
    rw [hbelow, h.none_of_none _ hbelow]

/-- A path that is kept reads as in the document. -/
theorem get?_keep_self (h : Within fields kept) :
    get? (keep fields kept path) path = get? fields path := by
  by_cases hne : path.segments = []
  · rw [get?, get?, hne]
    rfl
  · have hread := get?_keep_append h hne []
    rwa [List.append_nil] at hread

/-- Keeping what reads as in the document changes nothing. -/
theorem keep_eq_self (h : Within fields kept) (hread : get? kept path = get? fields path) :
    keep fields kept path = kept := by
  unfold keep
  split
  next v hv => exact setIn_of_getIn h.ordered (hread.trans hv)
  next => rfl

/-- What reads as in the document goes on to do so. -/
theorem get?_keep_of_eq (h : Within fields kept) (hread : get? kept other = get? fields other) :
    get? (keep fields kept path) other = get? fields other := by
  obtain ⟨names⟩ := path
  obtain ⟨names'⟩ := other
  rcases FieldPath.apart_or names names' with hapart | ⟨rest, rfl⟩ | ⟨rest, rfl⟩
  · rwa [get?_keep_of_apart hapart]
  · by_cases hne : names = []
    · subst hne
      exact hread
    · exact get?_keep_append h hne rest
  · -- The path lies below the other one, so what is kept there is what the document has.
    by_cases hne : names' = []
    · rw [hne]
      rfl
    · have hbelow : get? kept ⟨names' ++ rest⟩ = get? fields ⟨names' ++ rest⟩ := by
        rw [get?, getIn_append hne, get?, getIn_append hne]
        exact congrArg (Merge.getFrom · rest) hread
      rw [keep_eq_self h hbelow, hread]

/-- What is kept stays within the document, in which everything is in order. -/
theorem Within.keep (h : Within fields kept) (hfields : Value.orderedFields fields = true)
    (path : FieldPath) : Within fields (Fields.keep fields kept path) := by
  constructor
  · unfold Fields.keep
    split
    next v hv => exact orderedFields_set h.ordered (isOrdered_of_getIn hfields hv)
    next => exact h.ordered
  · intro other hnone
    rw [get?_keep_of_eq h ((h.none_of_none other hnone).trans hnone.symm), hnone]

/-- The fields at some paths are a selection. -/
theorem selects_selectPaths (hfields : Value.orderedFields fields = true)
    (paths : List FieldPath) : Selects paths fields (Snapshot.selectPaths fields paths) where
  get?_listed path hpath :=
    foldl_brings (keep fields) (fun kept => get? kept path = get? fields path)
      (fun _ p h => Within.keep h hfields p) (fun _ h => get?_keep_self h)
      (fun _ _ h hread => get?_keep_of_eq h hread) (within_nil fields) (.inl hpath)
  get?_apart path hpath :=
    (get?_foldl_of_apart (keep fields) (fun _ _ hapart => get?_keep_of_apart hapart) hpath).trans
      (Merge.getIn_nil path.segments)

/-! ## Removing the listed fields -/

/-- What is left without the listed fields. -/
theorem drops_foldl_remove (hfields : Value.orderedFields fields = true)
    (paths : List FieldPath) : Drops paths fields (paths.foldl remove fields) where
  get?_listed path hpath :=
    foldl_brings remove (fun left => get? left path = none) (fun _ _ h => orderedFields_remove h)
      (fun _ h => get?_remove_self h) (fun _ _ h hnone => getIn_assign_none_of_none h hnone)
      hfields (.inl hpath)
  get?_apart _ hpath :=
    get?_foldl_of_apart remove (fun _ _ hapart => get?_remove_of_apart hapart) hpath

end Fields

/-! ## Selections of a document -/

namespace Snapshot

open Fields

/-- **Selecting fields.**  Of a document, whose maps are in order, `only` selects the listed fields,
`except` drops them, and the projection of a query selects those that it lists, the id apart; key
and times stay. -/
theorem selection_faithful {s : Snapshot}
    (hs : Value.orderedFields (s.fields.getD []) = true) :
    (∀ listed : List String,
      Selects (pathsOf listed) (s.fields.getD []) (s.only listed) ∧
        Drops (pathsOf listed) (s.fields.getD []) (s.except listed)) ∧
    ∀ (q : StoreQuery) (listed : List FieldPath),
      ∃ selected,
        { q with projection := some listed }.project s = { s with fields := some selected } ∧
        Selects (listed.filter (!·.isDocumentId)) (s.fields.getD []) selected :=
  ⟨fun listed => ⟨selects_selectPaths hs (pathsOf listed), drops_foldl_remove hs (pathsOf listed)⟩,
    fun _ listed => ⟨_, rfl, selects_selectPaths hs (listed.filter (!·.isDocumentId))⟩⟩

/-- The city of an address and the address, in this order, kept and taken away. -/
theorem selection_faithful_address :
    let address : Value := .map [("city", .string "Oslo"), ("zip", .string "0150")]
    let ann : Snapshot :=
      { key := ⟨⟨["users", "ann"]⟩⟩,
        fields := some [("address", address), ("age", .integer 30), ("name", .string "Ann")] }
    let listed : List String := ["address.city", "address", "name.first"]
    let q : StoreQuery := { source := .collection ⟨["users"]⟩ }
    Value.orderedFields (ann.fields.getD []) = true ∧
      Fields.get? (ann.only listed) ⟨["address"]⟩ = some address ∧
      Fields.get? (ann.only listed) ⟨["age"]⟩ = none ∧
      Fields.get? (ann.except listed) ⟨["address", "city"]⟩ = none ∧
      Fields.get? (ann.except listed) ⟨["age"]⟩ = some (.integer 30) ∧
      ∃ selected,
        { q with projection := some [⟨["address", "zip"]⟩, .documentId] }.project ann
          = { ann with fields := some selected } ∧
        Fields.get? selected ⟨["address", "zip"]⟩ = some (.string "0150") ∧
        Fields.get? selected ⟨["address", "city"]⟩ = none := by
  intro address ann listed q
  have hann : Value.orderedFields (ann.fields.getD []) = true := by decide
  obtain ⟨hlisted, hproject⟩ := selection_faithful hann
  obtain ⟨honly, hexcept⟩ := hlisted listed
  obtain ⟨selected, heq, hselected⟩ := hproject q [⟨["address", "zip"]⟩, .documentId]
  exact ⟨hann, honly.get?_listed ⟨["address"]⟩ (by decide),
    honly.get?_apart ⟨["age"]⟩ (by decide), hexcept.get?_listed ⟨["address", "city"]⟩ (by decide),
    hexcept.get?_apart ⟨["age"]⟩ (by decide), selected, heq,
    hselected.get?_listed ⟨["address", "zip"]⟩ (by decide),
    hselected.get?_apart ⟨["address", "city"]⟩ (by decide)⟩

end Snapshot

end DocStore
