import DocStore.Proofs.Query.Negation
import DocStore.Proofs.Value.Preorder

/-!
# Filters on lists

A filter that takes a list of values says what filters on the single values say together: `in` and
`array-contains-any` that one of them holds, `not-in` that all of them do.  The two ways are not
the same code.  A list is searched for the value of the field, so each item is compared with that
value and not the value with the operand, and ids are read as references inside the list.  What
makes them agree is that the equality of the store is symmetric on all values (`storeEquals_comm`),
whatever the mix of integers and doubles inside.

An empty list is the exception: `not-in` fails where the field is missing or null, and there is no
single filter to say so (`passes_notIn_iff`).
-/

namespace DocStore

namespace Value

theorem itemsAsDocuments_eq_map (source : Source) (items : List Value) :
    asDocument.itemsAsDocuments source items = items.map (asDocument source) := by
  induction items with
  | nil => rfl
  | cons v rest ih => rw [asDocument.itemsAsDocuments, ih, List.map_cons]

/-- A value is in a list if it equals an item; the search compares the other way round. -/
theorem containedIn_iff {v : Value} {items : List Value} :
    v.containedIn items = true ↔ ∃ w ∈ items, v.storeEquals w = true := by
  simp only [containedIn, List.any_eq_true, storeEquals_comm v]

end Value

namespace Filter

variable (source : Source) (s : Snapshot) (field : FieldPath)

/-- An operand as it is compared with the values of a field. -/
def operandFor (v : Value) : Value := if field.isDocumentId then v.asDocument source else v

theorem normal_eq_operandFor (f : Filter) :
    f.normal source = { f with operand := operandFor source f.field f.operand } := by
  unfold normal operandFor
  split <;> rfl

/-- A list is compared item by item as the single values are. -/
theorem operandFor_array (items : List Value) :
    operandFor source field (.array items) = .array (items.map (operandFor source field)) := by
  unfold operandFor
  split
  · rw [Value.asDocument, Value.itemsAsDocuments_eq_map]
  · rw [List.map_id']

variable {source s field}

/-- A filter passes if its operator holds of a value that is there. -/
theorem passes_iff {operator : Operator} {operand : Value} :
    (⟨field, operator, operand⟩ : Filter).passes source s = true ↔
      ∃ v, s.field? field = some v ∧
        relates operator v (operandFor source field operand) = true := by
  rw [passes, normal_eq_operandFor, holds]
  cases s.field? field <;> simp

/-! ## The operators on lists -/

/-- `in` is equality with some item. -/
theorem relates_isIn_iff {v : Value} {items : List Value} :
    relates .isIn v (.array items) = true ↔ ∃ w ∈ items, relates .equal v w = true :=
  Value.containedIn_iff

/-- `not-in` is inequality with every item, of a value that is not null. -/
theorem relates_notIn_iff {v : Value} {items : List Value} :
    relates .notIn v (.array items) = true ↔
      v.isNull = false ∧ ∀ w ∈ items, relates .notEqual v w = true := by
  have hnotIn : v.containedIn items = false ↔ ∀ w ∈ items, v.storeEquals w = false := by
    rw [← Bool.not_eq_true, Value.containedIn_iff]
    simp
  simp only [relates, Bool.and_eq_true, Bool.not_eq_true', hnotIn]
  constructor
  · rintro ⟨hnull, hall⟩
    exact ⟨hnull, fun w hw => ⟨hnull, hall w hw⟩⟩
  · rintro ⟨hnull, hall⟩
    exact ⟨hnull, fun w hw => (hall w hw).2⟩

/-- `array-contains-any` is `array-contains` of some item. -/
theorem relates_arrayContainsAny_iff {v : Value} {items : List Value} :
    relates .arrayContainsAny v (.array items) = true ↔
      ∃ w ∈ items, relates .arrayContains v w = true := by
  cases v with
  | array held => exact List.any_eq_true
  | _ => simp [relates]

/-- An operator on a list that holds where one on single values holds of some item: a filter with
it passes if a filter on some item does. -/
theorem passes_any_iff {operator single : Operator}
    (hrelates : ∀ {v : Value} {items : List Value},
      relates operator v (.array items) = true ↔ ∃ w ∈ items, relates single v w = true)
    {items : List Value} :
    (⟨field, operator, .array items⟩ : Filter).passes source s = true ↔
      ∃ w ∈ items, (⟨field, single, w⟩ : Filter).passes source s = true := by
  simp only [passes_iff, operandFor_array, hrelates, List.mem_map, exists_exists_and_eq_and]
  constructor
  · rintro ⟨v, hv, w, hw, hsingle⟩
    exact ⟨w, hw, v, hv, hsingle⟩
  · rintro ⟨w, hw, v, hv, hsingle⟩
    exact ⟨v, hv, w, hw, hsingle⟩

/-- A filter with `not-in` passes if the value is there and not null, and the filters with
inequality pass for all items. -/
theorem passes_notIn_iff {items : List Value} :
    (⟨field, .notIn, .array items⟩ : Filter).passes source s = true ↔
      (∃ v, s.field? field = some v ∧ v.isNull = false) ∧
        ∀ w ∈ items, (⟨field, .notEqual, w⟩ : Filter).passes source s = true := by
  simp only [passes_iff, operandFor_array, relates_notIn_iff, List.forall_mem_map]
  cases s.field? field with
  | none => simp
  | some v => simp

/-- **Lists and single values.**  Over a list that is not empty, a document passes `in` if it
passes equality with some item, `not-in` if it passes inequality with every item, and
`array-contains-any` if it passes `array-contains` of some item; ids included. -/
theorem list_filters_agree (source : Source) (s : Snapshot) (field : FieldPath)
    {items : List Value} (hitems : items ≠ []) :
    ((⟨field, .isIn, .array items⟩ : Filter).passes source s = true ↔
      ∃ v ∈ items, (⟨field, .equal, v⟩ : Filter).passes source s = true) ∧
    ((⟨field, .notIn, .array items⟩ : Filter).passes source s = true ↔
      ∀ v ∈ items, (⟨field, .notEqual, v⟩ : Filter).passes source s = true) ∧
    ((⟨field, .arrayContainsAny, .array items⟩ : Filter).passes source s = true ↔
      ∃ v ∈ items, (⟨field, .arrayContains, v⟩ : Filter).passes source s = true) := by
  refine ⟨passes_any_iff relates_isIn_iff, ?_, passes_any_iff relates_arrayContainsAny_iff⟩
  rw [passes_notIn_iff]
  refine ⟨And.right, fun hall => ⟨?_, hall⟩⟩
  -- One inequality that passes shows that the value is there and not null.
  obtain ⟨w, hw⟩ := List.exists_mem_of_ne_nil items hitems
  obtain ⟨v, hv, hrelates⟩ := passes_iff.1 (hall w hw)
  rw [relates, Bool.and_eq_true, Bool.not_eq_true'] at hrelates
  exact ⟨v, hv, hrelates.1⟩

/-- A document found by its id, and by a double in a map where it holds an integer. -/
theorem list_filters_agree_users :
    let users : Source := .collection ⟨["users"]⟩
    let ann : Snapshot :=
      { key := ⟨⟨["users", "ann"]⟩⟩,
        fields := some [("visits", .array [.map [("count", .integer 1)]])] }
    let ids : List Value := [.string "bob", .string "ann"]
    let visits : List Value := [.null, .map [("count", .double ⟨0x3ff0000000000000⟩)]]
    (ids ≠ [] ∧ visits ≠ []) ∧
      (⟨.documentId, .isIn, .array ids⟩ : Filter).passes users ann = true ∧
      (⟨.documentId, .notIn, .array ids⟩ : Filter).passes users ann = false ∧
      (⟨⟨["visits"]⟩, .arrayContainsAny, .array visits⟩ : Filter).passes users ann = true := by
  intro users ann ids visits
  have hids : ids ≠ [] := List.cons_ne_nil _ _
  have hvisits : visits ≠ [] := List.cons_ne_nil _ _
  obtain ⟨hin, hnotIn, -⟩ := list_filters_agree users ann .documentId hids
  obtain ⟨-, -, hany⟩ := list_filters_agree users ann ⟨["visits"]⟩ hvisits
  have hann : .string "ann" ∈ ids := List.mem_cons_of_mem _ (List.mem_singleton_self _)
  have hcount : .map [("count", .double ⟨0x3ff0000000000000⟩)] ∈ visits :=
    List.mem_cons_of_mem _ (List.mem_singleton_self _)
  refine ⟨⟨hids, hvisits⟩, hin.2 ⟨_, hann, by decide⟩, ?_, hany.2 ⟨_, hcount, by decide +kernel⟩⟩
  rw [← Bool.not_eq_true, hnotIn]
  exact fun hall => absurd (hall _ hann) (by decide)

end Filter

end DocStore
