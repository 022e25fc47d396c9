import DocStore.Proofs.Path.Names
import DocStore.Proofs.Query.Normal
import DocStore.Proofs.Wire.Value

/-!
# Operands that can be sent

The operands of a query and the values of its cursors are compared, and sent, with references in
place of the ids that stand for documents.  They can be sent if they have forms on the wire
(`StoreQuery.IsRepresentable`).  A query whose operands can be sent as they are written can be sent
as it is compared (`StoreQuery.IsRepresentable.normal`), provided that no id is empty
(`StoreQuery.HasIds`) and that the collection it asks does not start with a slash
(`Source.StartsWithName`): otherwise a reference that an id stands for would lose a slash on the
way.
-/

namespace DocStore

/-- The operands and the values of the cursors have forms on the wire. -/
structure StoreQuery.IsRepresentable (q : StoreQuery) : Prop where
  filters : ∀ f ∈ q.filters, f.operand.IsRepresentable
  cursors : ∀ c, c ∈ q.start ∨ c ∈ q.stop → Value.ItemsRepresentable c.values

/-- The first name of the path has a first character, which is not a slash. -/
def ResourcePath.StartsWithName (path : ResourcePath) : Prop :=
  ∀ name ∈ path.segments.head?, ∃ c ∈ name.toList.head?, c ≠ '/'

/-- The path of a collection starts with a name, as one does that has been read from a text. -/
def Source.StartsWithName (source : Source) : Prop :=
  ∀ path, source = .collection path → path.StartsWithName

/-- A path with names starts with one. -/
theorem ResourcePath.HasNames.startsWithName {path : ResourcePath} (h : path.HasNames) :
    path.StartsWithName := by
  intro name hname
  obtain ⟨hempty, hslash⟩ := h name (List.mem_of_mem_head? hname)
  obtain ⟨c, rest, hlist⟩ := List.exists_cons_of_ne_nil (Text.toList_ne_nil hempty)
  have hc := Text.hasChar_eq_false_iff.1 hslash c (hlist ▸ List.mem_cons_self)
  exact ⟨c, by rw [hlist]; rfl, beq_eq_false_iff_ne.1 hc⟩

namespace Value

mutual

/-- No string in the value is empty: each of them can be an id or a path. -/
def HasIds : Value → Prop
  | string s => s.isEmpty = false
  | array items => ItemsHaveIds items
  | _ => True

def ItemsHaveIds : List Value → Prop
  | [] => True
  | v :: rest => v.HasIds ∧ ItemsHaveIds rest

end

/-- A text without slashes has none at its ends. -/
theorem isStripped_of_hasChar {s : String} (h : Text.hasChar '/' s = false) : IsStripped s := by
  have hslash := Text.hasChar_eq_false_iff.1 h
  exact Text.strip_eq_self_iff.2
    ⟨fun c hc => hslash c (List.mem_of_head? hc), fun c hc => hslash c (List.mem_of_getLast? hc)⟩

/-- The text of a document has no slashes at its ends, if its path starts with a name and its id is
one. -/
theorem isStripped_text_child {path : ResourcePath} (hpath : path.StartsWithName) {id : String}
    (hempty : id.isEmpty = false) (hslash : Text.hasChar '/' id = false) :
    IsStripped (path.child [id]).text := by
  cases hsegments : path.segments with
  | nil =>
      have htext : (path.child [id]).text = id := by
        rw [ResourcePath.child, hsegments]
        rfl
      rw [htext]
      exact isStripped_of_hasChar hslash
  | cons name rest =>
      obtain ⟨c, hc, hne⟩ := hpath name (by rw [hsegments]; rfl)
      have hhead : (path.child [id]).text.toList.head? = some c := by
        rw [ResourcePath.toList_text, ResourcePath.child, hsegments, List.cons_append,
          List.map_cons, Text.intercalate_cons_eq, List.head?_append, Option.mem_def.1 hc,
          Option.some_or]
      have hlast : (path.child [id]).text.toList.getLast? = id.toList.getLast? := by
        have hid : (⟨[id]⟩ : ResourcePath).text = id := rfl
        rw [ResourcePath.toList_text_child (hsegments ▸ List.cons_ne_nil _ _)
          (List.cons_ne_nil _ _), hid, List.append_cons,
          List.getLast?_append_of_ne_nil _ (Text.toList_ne_nil hempty)]
      refine Text.strip_eq_self_iff.2 ⟨fun d hd => ?_, fun d hd => ?_⟩
      · rw [hhead] at hd
        cases hd
        exact beq_eq_false_iff_ne.2 hne
      · rw [hlast] at hd
        exact Text.hasChar_eq_false_iff.1 hslash d (List.mem_of_getLast? hd)

section Documents

variable {source : Source}

mutual

/-- The reference that an id or a path stands for has no slashes at its ends. -/
theorem isRepresentable_asDocument (hsource : source.StartsWithName) (v : Value)
    (h : v.IsRepresentable) (hids : v.HasIds) : (v.asDocument source).IsRepresentable := by
  match v, h, hids with
  | .string s, _, hids =>
      unfold asDocument
      split
      next => exact Text.strip_strip _ s
      next hslash =>
        rw [Bool.not_eq_true] at hslash
        cases source with
        | collection path => exact isStripped_text_child (hsource path rfl) hids hslash
        | group collectionId below => exact isStripped_of_hasChar hslash
  | .array items, h, hids => exact itemsRepresentable_itemsAsDocuments hsource items h hids
  | .null, h, _ | .boolean _, h, _ | .integer _, h, _ | .double _, h, _ | .timestamp _, h, _
  | .bytes _, h, _ | .reference _, h, _ | .map _, h, _ | .increment _, h, _
  | .deleteField, h, _ => exact h

theorem itemsRepresentable_itemsAsDocuments (hsource : source.StartsWithName) (items : List Value)
    (h : ItemsRepresentable items) (hids : ItemsHaveIds items) :
    ItemsRepresentable (asDocument.itemsAsDocuments source items) := by
  match items, h, hids with
  | [], _, _ => trivial
  | v :: rest, h, hids =>
      exact ⟨isRepresentable_asDocument hsource v h.1 hids.1,
        itemsRepresentable_itemsAsDocuments hsource rest h.2 hids.2⟩

end

/-- Values of a cursor are sent as values of the orderings that they belong to. -/
theorem itemsRepresentable_align (hsource : source.StartsWithName) {orders : List FieldOrder}
    {values : List Value} (h : ItemsRepresentable values)
    (hids : ∀ pair ∈ orders.zip values, pair.1.field.isDocumentId = true → pair.2.HasIds) :
    ItemsRepresentable (Cursor.normal.align source orders values) := by
  induction orders generalizing values with
  | nil => cases values <;> exact h
  | cons o rest ih =>
      cases values with
      | nil => trivial
      | cons v vs =>
          rw [List.zip_cons_cons, List.forall_mem_cons] at hids
          refine ⟨?_, ih h.2 hids.2⟩
          split
          next hid => exact isRepresentable_asDocument hsource v h.1 (hids.1 hid)
          next => exact h.1

end Documents

end Value

/-- No id of a document that a filter or a cursor asks for is empty. -/
structure StoreQuery.HasIds (q : StoreQuery) : Prop where
  filters : ∀ f ∈ q.filters, f.field.isDocumentId = true → f.operand.HasIds
  cursors : ∀ c, c ∈ q.start ∨ c ∈ q.stop → ∀ pair ∈ q.effectiveOrders.zip c.values,
    pair.1.field.isDocumentId = true → pair.2.HasIds

/-- Operands that have forms as they are written have forms as they are compared. -/
theorem StoreQuery.IsRepresentable.normal {q : StoreQuery} (h : q.IsRepresentable)
    (hsource : q.source.StartsWithName) (hids : q.HasIds) : q.normal.IsRepresentable := by
  have hcursor {c : Cursor} (hc : c ∈ q.start ∨ c ∈ q.stop) :
      Value.ItemsRepresentable (c.normal q.source q.effectiveOrders).values :=
    Value.itemsRepresentable_align hsource (h.cursors c hc) (hids.cursors c hc)
  constructor
  · intro f hf
    obtain ⟨f, hmem, rfl⟩ := List.mem_map.1 hf
    unfold Filter.normal
    split
    next hid =>
      exact Value.isRepresentable_asDocument hsource f.operand (h.filters f hmem)
        (hids.filters f hmem hid)
    next => exact h.filters f hmem
  · rintro c (hc | hc)
    · obtain ⟨c, hmem, rfl⟩ := Option.map_eq_some_iff.1 hc
      exact hcursor (.inl hmem)
    · obtain ⟨c, hmem, rfl⟩ := Option.map_eq_some_iff.1 hc
      exact hcursor (.inr hmem)

end DocStore
