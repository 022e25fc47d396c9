import DocStore.Proofs.Keyed
import DocStore.Proofs.Query.Built
import DocStore.Proofs.Wire.FieldPath
import DocStore.Proofs.Wire.Operands
import DocStore.Wire.Query

/-!
# Queries known from their text

A request for the first documents of a query loses nothing: where two queries are sent to the same
parent with the same text, they give the same documents (`run_eq_of_render_eq`).  The queries need
not be the same.  An id and the reference that it stands for are sent alike, and so are orderings
that are asked for and ones that are added; but what is sent tells the normal form of the query
(`normal_eq_of_ofQuery_eq`), and with it what the query gives.

The path of a collection has to start with a name, as every path does that is read from a text.  A
path that starts with a slash loses it in the references that ids stand for, so that a query for a
document of the collection is sent like one for a document elsewhere
(`render_eq_and_run_ne`).
-/

namespace DocStore

theorem Operator.wireName_injective {a b : Operator} (h : a.wireName = b.wireName) : a = b := by
  cases a <;> cases b <;> first | rfl | exact absurd h (by decide)

theorem Direction.wireName_injective {a b : Direction} (h : a.wireName = b.wireName) : a = b := by
  cases a <;> cases b <;> first | rfl | exact absurd h (by decide)

namespace Wire

variable (db : DatabaseId)

/-! ## Parts -/

theorem single_injective {key : String} {j j' : Json} (h : single key j = single key j') :
    j = j' := by
  cases h
  rfl

theorem ofField_injective {path path' : FieldPath} (h : ofField path = ofField path') :
    path = path' :=
  FieldPath.wireText_injective (Json.string.inj (single_injective h))

theorem ofOrder_injective {o o' : FieldOrder} (h : ofOrder o = ofOrder o') : o = o' := by
  obtain ⟨field, direction⟩ := o
  obtain ⟨field', direction'⟩ := o'
  simp only [ofOrder, Json.object.injEq, List.cons.injEq, Prod.mk.injEq, Json.string.injEq,
    true_and, and_true] at h
  rw [Direction.wireName_injective h.1, ofField_injective h.2]

/-! ## Filters -/

section Filters

variable {source : Source} {f g : Filter}

theorem normal_eq (f : Filter) (source : Source) :
    f.normal source = ⟨f.field, f.operator, (f.normal source).operand⟩ := by
  unfold Filter.normal
  split <;> rfl

/-- An operand that stands for no documents is compared as it is. -/
theorem normal_operand (h : f.operand.asDocument source = f.operand) :
    (f.normal source).operand = f.operand := by
  unfold Filter.normal
  split
  · exact h
  · rfl

/-- A filter is sent without its operand where that is null; no finite double is sent so. -/
theorem unaryName?_eq_some (hf : (f.normal source).operand.IsRepresentable) {name : String}
    (h : unaryName? f = some name) :
    (f.normal source).operand = .null ∧
      f.operator = if name = "IS_NULL" then .equal else .notEqual := by
  have hnull (hoperand : f.operand = .null) : (f.normal source).operand = .null := by
    rw [← hoperand]
    exact normal_operand (by rw [hoperand]; rfl)
  have hnumber {d : Double} (hoperand : f.operand = .double d) : d.isNaN = false := by
    rw [normal_operand (by rw [hoperand]; rfl), hoperand] at hf
    have hfinite : d.magnitude < Double.infinityBits := of_decide_eq_true hf
    exact decide_eq_false (Nat.lt_asymm hfinite)
  unfold unaryName? at h
  split at h
  next hoperator hoperand =>
    cases h
    exact ⟨hnull hoperand, hoperator⟩
  next hoperator hoperand =>
    cases h
    exact ⟨hnull hoperand, hoperator⟩
  next hoperand =>
    rw [hnumber hoperand] at h
    cases h
  next hoperand =>
    rw [hnumber hoperand] at h
    cases h
  next => cases h

/-- Filters with the same form are compared in the same way. -/
theorem ofFilter_injective (hf : (f.normal source).operand.IsRepresentable)
    (hg : (g.normal source).operand.IsRepresentable)
    (h : ofFilter db source f = ofFilter db source g) : f.normal source = g.normal source := by
  unfold ofFilter at h
  cases hname : unaryName? f with
  | some name =>
      cases hname' : unaryName? g with
      | some name' =>
          rw [hname, hname'] at h
          simp only [single, Json.object.injEq, List.cons.injEq, Prod.mk.injEq, Json.string.injEq,
            true_and, and_true] at h
          obtain ⟨hfield, rfl⟩ := h
          obtain ⟨hnull, hoperator⟩ := unaryName?_eq_some hf hname
          obtain ⟨hnull', hoperator'⟩ := unaryName?_eq_some hg hname'
          rw [normal_eq f, normal_eq g, ofField_injective hfield, hoperator, hoperator', hnull,
            hnull']
      | none =>
          rw [hname, hname'] at h
          simp [single] at h
  | none =>
      cases hname' : unaryName? g with
      | some name' =>
          rw [hname, hname'] at h
          simp [single] at h
      | none =>
          rw [hname, hname'] at h
          simp only [single, Json.object.injEq, List.cons.injEq, Prod.mk.injEq, Json.string.injEq,
            true_and, and_true] at h
          obtain ⟨hfield, hoperator, hoperand⟩ := h
          rw [normal_eq f, normal_eq g, ofField_injective hfield,
            Operator.wireName_injective hoperator, ofValue_injective db hf hg hoperand]

/-- One filter is not sent as several are. -/
theorem ofFilter_ne_compositeFilter (j : Json) :
    ofFilter db source f ≠ single "compositeFilter" j := by
  intro h
  unfold ofFilter at h
  split at h <;> simp [single] at h

theorem map_eq_map_of {α β γ : Type} {f : α → β} {g : α → γ} {xs ys : List α}
    (hinj : ∀ x ∈ xs, ∀ y ∈ ys, f x = f y → g x = g y) (h : xs.map f = ys.map f) :
    xs.map g = ys.map g := by
  induction xs generalizing ys with
  | nil =>
      cases ys with
      | nil => rfl
      | cons y ys => cases h
  | cons x xs ih =>
      cases ys with
      | nil => cases h
      | cons y ys =>
          rw [List.map_cons, List.map_cons, List.cons.injEq] at h
          rw [List.map_cons, List.map_cons, hinj x List.mem_cons_self y List.mem_cons_self h.1,
            ih (fun x hx y hy =>
              hinj x (List.mem_cons_of_mem _ hx) y (List.mem_cons_of_mem _ hy)) h.2]

/-- Filters that are sent alike, alone or joined, are compared in the same way. -/
theorem ofFilters_injective {fs gs : List Filter}
    (hfs : ∀ f ∈ fs, (f.normal source).operand.IsRepresentable)
    (hgs : ∀ g ∈ gs, (g.normal source).operand.IsRepresentable)
    (h : ofFilters db source fs = ofFilters db source gs) :
    fs.map (·.normal source) = gs.map (·.normal source) := by
  have hsame : fs.map (ofFilter db source) = gs.map (ofFilter db source) := by
    unfold ofFilters at h
    split at h
    next f =>
      split at h
      next g => rw [List.map_singleton, List.map_singleton, h]
      next => exact absurd h (ofFilter_ne_compositeFilter db _)
    next =>
      split at h
      next g => exact absurd h.symm (ofFilter_ne_compositeFilter db _)
      next =>
        have hfilters := single_injective h
        simp only [Json.object.injEq, List.cons.injEq, Prod.mk.injEq, Json.array.injEq, true_and,
          and_true] at hfilters
        exact hfilters
  exact map_eq_map_of (fun f hf g hg => ofFilter_injective db (hfs f hf) (hgs g hg)) hsame

end Filters

/-! ## The fields of a request -/

theorem get?_optional (key name : String) (j : Option Json) :
    Keyed.get? key (optional name j) = if key = name then j else none := by
  cases j with
  | none => simp [optional, Keyed.get?]
  | some j =>
      by_cases hname : key = name
      · subst hname
        simp [optional]
      · rw [optional, Keyed.get?_cons_of_ne hname, if_neg hname]
        rfl

theorem optional_eq (name : String) (absent : Bool) (j : Json) :
    (if absent then [] else [(name, j)]) = optional name (if absent then none else some j) := by
  cases absent <;> rfl

theorem map_integer (n : Option Nat) :
    ((n : Option Int).map fun n => Json.integer n) = n.map fun n : Nat => Json.integer n := by
  cases n <;> rfl

/-- The source of a query on the wire. -/
def ofSource (source : Source) : Json :=
  .array [.object [("allDescendants", .bool source.isGroup),
    ("collectionId", .string source.collectionId)]]

theorem ofQuery_eq (q : StoreQuery) :
    ofQuery db q = .object
      (optional "endAt" (q.stop.map fun c => ofCursor db q c (!c.inclusive))
        ++ optional "from" (some (ofSource q.source))
        ++ optional "limit" (q.limit.map fun n : Nat => .integer n)
        ++ optional "offset" (q.offset.map fun n : Nat => .integer n)
        ++ optional "orderBy"
          (if (sentOrders q).isEmpty then none else some (.array ((sentOrders q).map ofOrder)))
        ++ optional "select" (q.projection.map fun paths =>
          single "fields" (.array (paths.map ofField)))
        ++ optional "startAt" (q.start.map fun c => ofCursor db q c c.inclusive)
        ++ optional "where"
          (if q.filters.isEmpty then none else some (ofFilters db q.source q.filters))) := by
  rw [ofQuery, optional_eq, optional_eq, map_integer, map_integer]
  rfl

/-- Each part of a query is a field of its own. -/
theorem field_ofQuery (q : StoreQuery) :
    ((ofQuery db q).field? "endAt" = q.stop.map fun c => ofCursor db q c (!c.inclusive)) ∧
      (ofQuery db q).field? "from" = some (ofSource q.source) ∧
      ((ofQuery db q).field? "limit" = q.limit.map fun n : Nat => .integer n) ∧
      ((ofQuery db q).field? "offset" = q.offset.map fun n : Nat => .integer n) ∧
      ((ofQuery db q).field? "orderBy" =
        if (sentOrders q).isEmpty then none else some (.array ((sentOrders q).map ofOrder))) ∧
      ((ofQuery db q).field? "select" =
        q.projection.map fun paths => single "fields" (.array (paths.map ofField))) ∧
      ((ofQuery db q).field? "startAt" = q.start.map fun c => ofCursor db q c c.inclusive) ∧
      ((ofQuery db q).field? "where" =
        if q.filters.isEmpty then none else some (ofFilters db q.source q.filters)) := by
  simp only [ofQuery_eq, Json.field?, Keyed.get?_append, get?_optional]
  simp

/-! ## Normal forms -/

/-- A checked source is known from the parent that requests for it are sent to, and from what is
sent of it. -/
theorem source_eq {s s' : Source} (hs : StoreQuery.ofSource s = .ok { source := s })
    (hs' : StoreQuery.ofSource s' = .ok { source := s' }) (hparent : s.parent = s'.parent)
    (h : ofSource s = ofSource s') : s = s' := by
  simp only [ofSource, Json.array.injEq, Json.object.injEq, List.cons.injEq, Prod.mk.injEq,
    Json.bool.injEq, Json.string.injEq, true_and, and_true] at h
  obtain ⟨hgroup, hid⟩ := h
  cases s with
  | collection path =>
      cases s' with
      | collection path' =>
          have hlast {path : ResourcePath}
              (hpath :
                StoreQuery.ofSource (.collection path) = .ok { source := .collection path }) :
              path.segments = path.parent.segments ++ [path.last?.getD ""] := by
            have hne : path.segments ≠ [] := by
              intro hnil
              have hodd := (StoreQuery.ofCollection_eq_ok.1 hpath).1
              simp [ResourcePath.isCollection, ResourcePath.size, hnil] at hodd
            rw [ResourcePath.last?, List.getLast?_eq_some_getLast hne, Option.getD_some]
            exact (List.dropLast_append_getLast hne).symm
          refine congrArg Source.collection (ResourcePath.ext_segments ?_)
          rw [hlast hs, hlast hs', show path.parent = path'.parent from hparent,
            show path.last?.getD "" = path'.last?.getD "" from hid]
      | group collectionId below => cases hgroup
  | group collectionId below =>
      cases s' with
      | collection path => cases hgroup
      | group collectionId' below' =>
          have hroot {collectionId : String} {document : ResourcePath}
              (hbelow : StoreQuery.ofSource (.group collectionId (some document))
                = .ok { source := .group collectionId (some document) }) : document ≠ .root := by
            rintro rfl
            have haccepted : StoreQuery.ofGroup collectionId (some .root) = .ok _ := hbelow
            exact absurd ((StoreQuery.ofGroup_eq_ok.1 haccepted).1.2.2 .root rfl) (by decide)
          cases (show collectionId = collectionId' from hid)
          cases below with
          | none =>
              cases below' with
              | none => rfl
              | some document' => exact absurd hparent.symm (hroot hs')
          | some document =>
              cases below' with
              | none => exact absurd hparent (hroot hs)
              | some document' => exact congrArg _ (congrArg some hparent)

/-- With a cursor, the orderings that count are sent. -/
theorem sentOrders_eq {q : StoreQuery} (h : q.start.isSome = true ∨ q.stop.isSome = true) :
    sentOrders q = q.effectiveOrders :=
  if_pos (by simpa using h)

/-- Cursors that are sent alike are compared in the same way. -/
theorem cursor_eq {q q' : StoreQuery} (before : Bool → Bool) (hbefore : Function.Injective before)
    {cursor cursor' : Option Cursor}
    (horders : cursor.isSome = true → sentOrders q = q.effectiveOrders)
    (horders' : cursor'.isSome = true → sentOrders q' = q'.effectiveOrders)
    (hvalues : ∀ c ∈ cursor.map (·.normal q.source q.effectiveOrders),
      Value.ItemsRepresentable c.values)
    (hvalues' : ∀ c ∈ cursor'.map (·.normal q'.source q'.effectiveOrders),
      Value.ItemsRepresentable c.values)
    (h : (cursor.map fun c => ofCursor db q c (before c.inclusive))
      = cursor'.map fun c => ofCursor db q' c (before c.inclusive)) :
    cursor.map (·.normal q.source q.effectiveOrders)
      = cursor'.map (·.normal q'.source q'.effectiveOrders) := by
  cases cursor with
  | none =>
      cases cursor' with
      | none => rfl
      | some c' => cases h
  | some c =>
      cases cursor' with
      | none => cases h
      | some c' =>
          simp only [Option.map_some, Option.some.injEq, ofCursor, horders rfl, horders' rfl,
            Json.object.injEq, List.cons.injEq, Prod.mk.injEq, Json.bool.injEq, Json.array.injEq,
            true_and, and_true] at h
          obtain ⟨hinclusive, hitems⟩ := h
          have hsame := ofItems_injective db (hvalues _ rfl) (hvalues' _ rfl) hitems
          have hcursor {q : StoreQuery} (c : Cursor) : c.normal q.source q.effectiveOrders
              = ⟨(c.normal q.source q.effectiveOrders).values, c.inclusive⟩ := rfl
          rw [Option.map_some, Option.map_some, hcursor c, hcursor c', hsame, hbefore hinclusive]

/-- A part that is left out where a list is empty. -/
theorem eq_of_unless_empty {α : Type} {xs ys : List α} {j k : Json}
    (h : (if xs.isEmpty then none else some j) = if ys.isEmpty then none else some k) :
    xs = [] ∧ ys = [] ∨ j = k := by
  cases xs with
  | nil =>
      cases ys with
      | nil => exact .inl ⟨rfl, rfl⟩
      | cons y ys => cases h
  | cons x xs =>
      cases ys with
      | nil => cases h
      | cons y ys => exact .inr (Option.some.inj h)

/-- **Requests.**  Queries that are sent to the same parent in the same form have the same normal
form. -/
theorem normal_eq_of_ofQuery_eq {q q' : StoreQuery} (hq : q.IsBuilt) (hq' : q'.IsBuilt)
    (hfirst : q.keepsLast = false) (hfirst' : q'.keepsLast = false)
    (hrep : q.normal.IsRepresentable) (hrep' : q'.normal.IsRepresentable)
    (hparent : q.source.parent = q'.source.parent) (h : ofQuery db q = ofQuery db q') :
    q.normal = q'.normal := by
  obtain ⟨hstop, hfrom, hlimit, hoffset, horders, hselect, hstart, hwhere⟩ := field_ofQuery db q
  obtain ⟨hstop', hfrom', hlimit', hoffset', horders', hselect', hstart', hwhere'⟩ :=
    field_ofQuery db q'
  rw [h] at hstop hfrom hlimit hoffset horders hselect hstart hwhere
  have hsource : q.source = q'.source :=
    source_eq hq.source_accepted hq'.source_accepted hparent
      (Option.some.inj (hfrom.symm.trans hfrom'))
  have hinteger : Function.Injective fun n : Nat => Json.integer n := fun m n hmn =>
    Int.ofNat.inj (Json.integer.inj hmn)
  have hlimit : q.limit = q'.limit := Option.map_injective hinteger (hlimit.symm.trans hlimit')
  have hoffset : q.offset = q'.offset := Option.map_injective hinteger (hoffset.symm.trans hoffset')
  have hprojection : q.projection = q'.projection := by
    refine Option.map_injective (fun paths paths' hpaths => ?_) (hselect.symm.trans hselect')
    exact List.map_injective_iff.2 (fun _ _ => ofField_injective)
      (Json.array.inj (single_injective hpaths))
  have hfilters : q.normal.filters = q'.normal.filters := by
    have hoperands {q : StoreQuery} (hrep : q.normal.IsRepresentable) :
        ∀ f ∈ q.filters, (f.normal q.source).operand.IsRepresentable := fun f hf =>
      hrep.filters _ (List.mem_map_of_mem hf)
    rcases eq_of_unless_empty (hwhere.symm.trans hwhere') with ⟨hnone, hnone'⟩ | hsame
    · rw [StoreQuery.normal, StoreQuery.normal, hnone, hnone']
      rfl
    · have hfs := hoperands hrep
      rw [hsource] at hsame hfs
      show q.filters.map (·.normal q.source) = q'.filters.map (·.normal q'.source)
      rw [hsource]
      exact ofFilters_injective db hfs (hoperands hrep') hsame
  have hsent : sentOrders q = sentOrders q' := by
    rcases eq_of_unless_empty (horders.symm.trans horders') with ⟨hnone, hnone'⟩ | hsame
    · rw [hnone, hnone']
    · exact List.map_injective_iff.2 (fun _ _ => ofOrder_injective) (Json.array.inj hsame)
  have hcursors : q.start.isSome = q'.start.isSome ∧ q.stop.isSome = q'.stop.isSome := by
    have hstarts := congrArg Option.isSome (hstart.symm.trans hstart')
    have hstops := congrArg Option.isSome (hstop.symm.trans hstop')
    rw [Option.isSome_map, Option.isSome_map] at hstarts hstops
    exact ⟨hstarts, hstops⟩
  have heffective : q.effectiveOrders = q'.effectiveOrders := by
    by_cases hcursor : q.start.isSome = true ∨ q.stop.isSome = true
    · have hcursor' := hcursor
      rw [hcursors.1, hcursors.2] at hcursor'
      rw [← sentOrders_eq hcursor, hsent, sentOrders_eq hcursor']
    · have hcursor' := hcursor
      rw [hcursors.1, hcursors.2] at hcursor'
      have horders {q : StoreQuery} (h : ¬ (q.start.isSome = true ∨ q.stop.isSome = true)) :
          sentOrders q = q.orders := if_neg (by simpa using h)
      rw [horders hcursor, horders hcursor'] at hsent
      exact StoreQuery.effectiveOrders_congr hsent hfilters
  have hstart : q.normal.start = q'.normal.start :=
    cursor_eq db (fun inclusive => inclusive) (fun _ _ h => h) (fun h => sentOrders_eq (.inl h))
      (fun h => sentOrders_eq (.inl h)) (fun c hc => hrep.cursors c (.inl hc))
      (fun c hc => hrep'.cursors c (.inl hc)) (hstart.symm.trans hstart')
  have hstop : q.normal.stop = q'.normal.stop :=
    cursor_eq db (fun inclusive => !inclusive) (fun _ _ => Bool.not_inj)
      (fun h => sentOrders_eq (.inr h)) (fun h => sentOrders_eq (.inr h))
      (fun c hc => hrep.cursors c (.inr hc)) (fun c hc => hrep'.cursors c (.inr hc))
      (hstop.symm.trans hstop')
  have hparts (q : StoreQuery) : q.normal = ⟨q.source, q.projection, q.normal.filters,
      q.effectiveOrders, q.normal.start, q.normal.stop, q.offset, q.limit, q.keepsLast⟩ := rfl
  rw [hparts q, hparts q', hsource, hprojection, hfilters, heffective, hstart, hstop, hoffset,
    hlimit, hfirst, hfirst']

/-! ## Finite doubles -/

theorem isFinite_single {key : String} {j : Json} (h : j.IsFinite) : (single key j).IsFinite :=
  ⟨h, trivial⟩

theorem isFinite_ofFilter (source : Source) (f : Filter) : (ofFilter db source f).IsFinite := by
  have hfield : (ofField f.field).IsFinite := isFinite_single trivial
  unfold ofFilter
  split
  · exact isFinite_single ⟨hfield, trivial, trivial⟩
  · exact isFinite_single ⟨hfield, trivial, isFinite_ofValue db _, trivial⟩

theorem isFinite_ofFilters (source : Source) (fs : List Filter) :
    (ofFilters db source fs).IsFinite := by
  unfold ofFilters
  split
  · exact isFinite_ofFilter db source _
  · exact isFinite_single ⟨Json.itemsFinite_iff.2 (List.forall_mem_map.2 fun f _ =>
      isFinite_ofFilter db source f), trivial, trivial⟩

theorem fieldsFinite_optional {key : String} {j : Option Json} :
    Json.FieldsFinite (optional key j) ↔ ∀ j' ∈ j, j'.IsFinite := by
  cases j with
  | none => exact ⟨fun _ _ hmem => absurd hmem (Option.not_mem_none _), fun _ => trivial⟩
  | some j =>
      refine ⟨fun h j' hj' => ?_, fun h => ⟨h j rfl, trivial⟩⟩
      cases hj'
      exact h.1

/-- A request has finite doubles only. -/
theorem isFinite_ofQuery (q : StoreQuery) : (ofQuery db q).IsFinite := by
  have hmap {α : Type} {form : α → Json} (h : ∀ a, (form a).IsFinite) (o : Option α) :
      ∀ j ∈ o.map form, j.IsFinite := by
    intro j hj
    obtain ⟨a, -, rfl⟩ := Option.map_eq_some_iff.1 hj
    exact h a
  have hunless {absent : Bool} {j : Json} (h : j.IsFinite) :
      ∀ j' ∈ (if absent then none else some j), j'.IsFinite := by
    intro j' hj'
    cases absent <;> cases hj'
    exact h
  have hitems {α : Type} {form : α → Json} (h : ∀ a, (form a).IsFinite) (as : List α) :
      (Json.array (as.map form)).IsFinite :=
    Json.itemsFinite_iff.2 (List.forall_mem_map.2 fun a _ => h a)
  have hcursor (c : Cursor) (before : Bool) : (ofCursor db q c before).IsFinite :=
    ⟨trivial, isFinite_ofItems db _, trivial⟩
  have hfield (path : FieldPath) : (ofField path).IsFinite := isFinite_single trivial
  rw [ofQuery_eq, Json.IsFinite]
  simp only [Json.fieldsFinite_append, fieldsFinite_optional, and_assoc]
  refine ⟨hmap (fun c => hcursor c _) _, ?_, hmap (fun n => ?_) _, hmap (fun n => ?_) _,
    hunless (hitems (fun o => ?_) _), hmap (fun paths => isFinite_single (hitems hfield paths)) _,
    hmap (fun c => hcursor c _) _, hunless (isFinite_ofFilters db q.source q.filters)⟩
  · intro j hj
    cases hj
    exact ⟨⟨trivial, trivial, trivial⟩, trivial⟩
  · exact trivial
  · exact trivial
  · exact ⟨trivial, hfield o.field, trivial⟩

/-- **Nothing is lost on the wire.**  Queries for the first documents that are sent to the same
parent with the same text give the same documents, if their operands have forms on the wire, no id
among them is empty and their collections have paths that start with a name. -/
theorem run_eq_of_render_eq {q q' : StoreQuery} (hq : q.IsBuilt) (hq' : q'.IsBuilt)
    (hfirst : q.keepsLast = false) (hfirst' : q'.keepsLast = false)
    (hsource : q.source.StartsWithName) (hsource' : q'.source.StartsWithName)
    (hrep : q.IsRepresentable) (hrep' : q'.IsRepresentable) (hids : q.HasIds) (hids' : q'.HasIds)
    (hparent : q.source.parent = q'.source.parent)
    (h : (ofQuery db q).render = (ofQuery db q').render) (documents : List Snapshot) :
    q.run documents = q'.run documents := by
  have hform := Json.render_injective (isFinite_ofQuery db q) (isFinite_ofQuery db q') h
  have hnormal := normal_eq_of_ofQuery_eq db hq hq' hfirst hfirst' (hrep.normal hsource hids)
    (hrep'.normal hsource' hids') hparent hform
  rw [← q.run_normal, hnormal, q'.run_normal]

/-- The users from `ann` on without `bob`, by their ids alone. -/
def otherUsers : StoreQuery where
  source := .collection ⟨["users"]⟩
  filters := [⟨.documentId, .notEqual, .string "bob"⟩]
  start := some ⟨[.string "ann"], true⟩

/-- The same with references, and with the ordering that is added otherwise. -/
def otherUsersByReference : StoreQuery where
  source := .collection ⟨["users"]⟩
  filters := [⟨.documentId, .notEqual, .reference "users/bob"⟩]
  orders := [⟨.documentId, .ascending⟩]
  start := some ⟨[.reference "users/ann"], true⟩

/-- Two ways to write a query that are sent as one. -/
theorem run_eq_of_render_eq_otherUsers :
    let db : DatabaseId := ⟨"demo", "(default)"⟩
    otherUsers.IsBuilt ∧ otherUsersByReference.IsBuilt ∧ otherUsers.keepsLast = false ∧
      otherUsersByReference.keepsLast = false ∧ otherUsers.source.StartsWithName ∧
      otherUsersByReference.source.StartsWithName ∧ otherUsers.IsRepresentable ∧
      otherUsersByReference.IsRepresentable ∧ otherUsers.HasIds ∧ otherUsersByReference.HasIds ∧
      otherUsers.source.parent = otherUsersByReference.source.parent ∧
      (ofQuery db otherUsers).render = (ofQuery db otherUsersByReference).render ∧
      otherUsers.orders ≠ otherUsersByReference.orders ∧
      ∀ documents, otherUsers.run documents = otherUsersByReference.run documents := by
  intro db
  have hbuilt : otherUsers.IsBuilt :=
    ⟨⟨.collection ⟨["users"]⟩, [.filter .documentId .notEqual (.string "bob"),
      .startAt [.string "ann"]]⟩, rfl⟩
  have hbuilt' : otherUsersByReference.IsBuilt :=
    ⟨⟨.collection ⟨["users"]⟩, [.filter .documentId .notEqual (.reference "users/bob"),
      .orderBy .documentId .ascending, .startAt [.reference "users/ann"]]⟩, rfl⟩
  have husers : Source.StartsWithName (.collection ⟨["users"]⟩) := by
    intro path hpath
    cases hpath
    exact ResourcePath.HasNames.startsWithName (List.forall_mem_singleton.2 ⟨rfl, rfl⟩)
  have hrep : otherUsers.IsRepresentable := by
    refine ⟨List.forall_mem_singleton.2 trivial, fun c hc => ?_⟩
    rcases hc with hc | hc <;> cases hc
    exact ⟨trivial, trivial⟩
  have hrep' : otherUsersByReference.IsRepresentable := by
    refine ⟨List.forall_mem_singleton.2 (show Value.IsStripped "users/bob" by decide),
      fun c hc => ?_⟩
    rcases hc with hc | hc <;> cases hc
    exact ⟨show Value.IsStripped "users/ann" by decide, trivial⟩
  have hids : otherUsers.HasIds := by
    refine ⟨List.forall_mem_singleton.2 fun _ => rfl, fun c hc => ?_⟩
    rcases hc with hc | hc <;> cases hc
    exact List.forall_mem_singleton.2 fun _ => rfl
  have hids' : otherUsersByReference.HasIds := by
    refine ⟨List.forall_mem_singleton.2 fun _ => trivial, fun c hc => ?_⟩
    rcases hc with hc | hc <;> cases hc
    exact List.forall_mem_singleton.2 fun _ => trivial
  have htext : (ofQuery db otherUsers).render = (ofQuery db otherUsersByReference).render :=
    congrArg Json.render rfl
  exact ⟨hbuilt, hbuilt', rfl, rfl, husers, husers, hrep, hrep', hids, hids', rfl, htext,
    by decide, run_eq_of_render_eq db hbuilt hbuilt' rfl rfl husers husers hrep hrep' hids hids'
      rfl htext⟩

/-- The document of an operand, in a collection whose name starts with a slash. -/
def slashed (operand : Value) : StoreQuery where
  source := .collection ⟨["/u"]⟩
  filters := [⟨.documentId, .equal, operand⟩]

/-- In a collection whose name starts with a slash, an id is sent like the reference to a document
of another collection, and finds another document. -/
theorem render_eq_and_run_ne :
    let db : DatabaseId := ⟨"demo", "(default)"⟩
    let byId := slashed (.string "ann")
    let byReference := slashed (.reference "u/ann")
    let ann : Snapshot := ⟨⟨⟨["/u", "ann"]⟩⟩, some [], none, none, none⟩
    byId.IsBuilt ∧ byReference.IsBuilt ∧ byId.keepsLast = false ∧ byReference.keepsLast = false ∧
      byId.IsRepresentable ∧ byReference.IsRepresentable ∧ byId.HasIds ∧ byReference.HasIds ∧
      byId.source.parent = byReference.source.parent ∧
      (ofQuery db byId).render = (ofQuery db byReference).render ∧
      (byId.run [ann]).length = 1 ∧ byReference.run [ann] = [] := by
  intro db byId byReference ann
  have hbuilt : byId.IsBuilt :=
    ⟨⟨.collection ⟨["/u"]⟩, [.filter .documentId .equal (.string "ann")]⟩, rfl⟩
  have hbuilt' : byReference.IsBuilt :=
    ⟨⟨.collection ⟨["/u"]⟩, [.filter .documentId .equal (.reference "u/ann")]⟩, rfl⟩
  have hcursors {operand : Value} {c : Cursor}
      (hc : c ∈ (slashed operand).start ∨ c ∈ (slashed operand).stop) : False := by
    rcases hc with hc | hc <;> cases hc
  have hrep : byId.IsRepresentable :=
    ⟨List.forall_mem_singleton.2 trivial, fun _ hc => (hcursors hc).elim⟩
  have hrep' : byReference.IsRepresentable :=
    ⟨List.forall_mem_singleton.2 (show Value.IsStripped "u/ann" by decide),
      fun _ hc => (hcursors hc).elim⟩
  have hids : byId.HasIds :=
    ⟨List.forall_mem_singleton.2 fun _ => rfl, fun _ hc => (hcursors hc).elim⟩
  have hids' : byReference.HasIds :=
    ⟨List.forall_mem_singleton.2 fun _ => trivial, fun _ hc => (hcursors hc).elim⟩
  exact ⟨hbuilt, hbuilt', rfl, rfl, hrep, hrep', hids, hids', rfl, congrArg Json.render rfl,
    by decide, List.eq_nil_of_length_eq_zero (by decide)⟩

end Wire

end DocStore
