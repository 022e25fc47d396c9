import DocStore.Proofs.Path.Range
import DocStore.Proofs.Query.Shaped
import DocStore.Proofs.Store.Memory
import DocStore.Proofs.Value.Order

/-!
# Queries below a document

A query can look below a document in two ways.  `inDocument` makes the document a part of the
source, and such a query gives exactly the stored documents of the group that lie beneath it.
`ofScope` adds an ordering by name and a range of names.  The range is a cursor, so it is read
against the first ordering of the query, and where that is the ordering by name it holds more than
what lies beneath the document: the document itself, and all that lies at or below documents beside
it whose ids continue its id (`DocumentKey.InNameRange`).

The main statement, `ofScope_found`, says what the two give for every chain of orderings and choices
of fields around the step that scopes them, and when they give the same documents.
-/

namespace DocStore

open Std

/-! ## The range of names as a cursor -/

namespace DocumentKey

variable {document : DocumentKey} {o : FieldOrder} {s : Snapshot}

/-- The document lies in the range of names of another one, as an ordering reads it: the ordering
ascends, and its value is a reference in the range. -/
def InRange (document : DocumentKey) (o : FieldOrder) (s : Snapshot) : Prop :=
  o.direction = .ascending ∧ ∃ text, FieldOrder.valueOf o.field s = .reference text ∧
    document.InNameRange (Text.split '/' text)

/-- The ordering by name reads the range against the name of the document. -/
theorem inRange_byName_iff :
    document.InRange ⟨.documentId, .ascending⟩ s ↔
      document.InNameRange (Text.split '/' s.key.text) := by
  constructor
  · intro hrange
    obtain ⟨-, text, htext, hnames⟩ := hrange
    cases htext
    exact hnames
  · intro hnames
    exact ⟨rfl, _, rfl, hnames⟩

/-- A value that is no reference lies on one side of all references. -/
theorem compare_reference_of_not {v : Value} (h : ∀ text, v ≠ .reference text) :
    ∃ side, side ≠ .eq ∧ ∀ text, v.compare (.reference text) = side := by
  cases v with
  | reference text => exact absurd rfl (h text)
  | _ => exact ⟨_, by decide, fun text => rfl⟩

/-- The name of a document comes before the same name with the range end behind it. -/
theorem compare_push (h : document.IsProper) :
    compare (Text.split '/' document.text)
      (Text.split '/' (document.text.push QueryState.rangeEnd)) = .lt := by
  rw [split_push h, text, ResourcePath.split_text h.slashFree (segments_ne_nil h.document),
    segments_eq h.document, Text.compare_append_left, List.compare_cons_cons, rangeEndId]
  have hid := Text.compare_extensions document.id "" (String.singleton QueryState.rangeEnd)
  rw [String.append_empty] at hid
  rw [hid]
  decide

/-- What lies beneath a document lies in its range of names. -/
theorem inNameRange_of_isAncestorOf (h : document.IsProper) {key : DocumentKey}
    (hbeneath : document.path.isAncestorOf key.path = true) :
    document.InNameRange (Text.split '/' key.text) := by
  obtain ⟨hsize, hbegin⟩ := ResourcePath.isAncestorOf_iff.1 hbeneath
  obtain ⟨names, hnames⟩ := ResourcePath.isBeginningOf_iff.1 hbegin
  have hpath : key.path = document.path.child names := ResourcePath.ext_segments hnames.symm
  have hmore : names ≠ [] := by
    rintro rfl
    simp [hpath] at hsize
  refine ⟨"", Text.split '/' (⟨names⟩ : ResourcePath).text, ?_, .inl (by decide)⟩
  rw [text, hpath, ResourcePath.split_text_child h.slashFree (segments_ne_nil h.document) hmore,
    segments_eq h.document, String.append_empty]
  simp

/-- **The range as a cursor.**  It is read against the first ordering. -/
theorem admits_range_iff (h : document.IsProper) (source : Source) (rest : List FieldOrder) :
    ((Cursor.normal source (o :: rest) ⟨[.reference document.text], true⟩).admitsFrom
        (o :: rest) s = true ∧
      (Cursor.normal source (o :: rest)
        ⟨[.reference (document.text.push QueryState.rangeEnd)], true⟩).admitsUpTo
        (o :: rest) s = true) ↔
      document.InRange o s := by
  have hnormal (t : String) : Cursor.normal source (o :: rest) ⟨[.reference t], true⟩
      = ⟨[.reference t], true⟩ := by
    have halign : Cursor.normal.align source rest [] = [] := by
      cases rest <;> rfl
    have hread : (if o.field.isDocumentId then (Value.reference t).asDocument source
        else .reference t) = .reference t := ite_self _
    rw [Cursor.normal, Cursor.normal.align, halign, hread]
  have hplace (t : String) : FieldOrder.compareTo (o :: rest) [.reference t] s
      = o.direction.apply ((FieldOrder.valueOf o.field s).compare (.reference t)) := by
    rw [FieldOrder.compareTo]
    cases rest <;> rw [FieldOrder.compareTo, Ordering.then_eq] <;> intros <;> contradiction
  rw [hnormal, hnormal]
  unfold Cursor.admitsFrom Cursor.admitsUpTo InRange
  simp only [hplace, if_true, bne_iff_ne]
  by_cases hreference : ∃ text, FieldOrder.valueOf o.field s = .reference text
  · obtain ⟨text, htext⟩ := hreference
    have hcompare (t : String) : (FieldOrder.valueOf o.field s).compare (.reference t)
        = compare (Text.split '/' text) (Text.split '/' t) := by
      rw [htext]
      rfl
    have htexts : (∃ other, FieldOrder.valueOf o.field s = .reference other ∧
        document.InNameRange (Text.split '/' other)) ↔
          document.InNameRange (Text.split '/' text) := by
      rw [htext]
      simp
    simp only [hcompare]
    rw [htexts, ← between_rangeEnd_iff h]
    cases o.direction with
    | ascending =>
        have hswap : compare (Text.split '/' document.text) (Text.split '/' text)
            = (compare (Text.split '/' text) (Text.split '/' document.text)).swap :=
          OrientedCmp.eq_swap
        rw [hswap]
        simp only [Direction.apply, true_and, Ordering.isLE_swap, ← Ordering.ne_gt_iff_isLE,
          ← Ordering.ne_lt_iff_isGE, ne_eq]
    | descending =>
        refine iff_of_false (fun hboth => ?_) fun hboth => absurd hboth.1 (by decide)
        obtain ⟨hstart, hstop⟩ := hboth
        have hbelow : (compare (Text.split '/' text) (Text.split '/' document.text)).isLE := by
          cases hc : compare (Text.split '/' text) (Text.split '/' document.text) <;>
            simp [hc, Direction.apply] at hstart ⊢
        have habove := TransCmp.lt_of_isLE_of_lt hbelow (compare_push h)
        exact hstop (by rw [habove]; rfl)
  · obtain ⟨side, hside, hcompare⟩ :=
      compare_reference_of_not fun text htext => hreference ⟨text, htext⟩
    simp only [hcompare]
    constructor
    · intro hboth
      cases hd : o.direction <;> cases side <;> simp [hd, Direction.apply] at hboth hside
    · intro hboth
      obtain ⟨-, text, htext, -⟩ := hboth
      exact absurd ⟨text, htext⟩ hreference

end DocumentKey

/-! ## Chains of steps -/

/-- A step that orders a query or chooses its fields. -/
inductive Shaping
  | orderBy (field : String) (direction : Direction)
  | select (columns : List String)
  deriving DecidableEq, Repr

namespace Shaping

/-- The query after the step. -/
def apply (q : QueryState) : Shaping → QueryState
  | orderBy field direction => q.orderBy field direction
  | select columns => q.select columns

/-- The orderings that a step adds. -/
def orders : Shaping → List Order
  | orderBy field direction => [⟨field, direction⟩]
  | select _ => []

/-- The columns after a step. -/
def columns (before : List String) : Shaping → List String
  | orderBy _ _ => before
  | select columns => if columns.isEmpty then [FieldPath.documentIdName] else columns

end Shaping

namespace QueryState

/-- The query after some steps. -/
def shape (q : QueryState) (steps : List Shaping) : QueryState := steps.foldl Shaping.apply q

/-- Steps put their orderings behind those that are there, and the last choice of fields counts. -/
theorem shape_eq (q : QueryState) (steps : List Shaping) :
    q.shape steps =
      { q with
        orders := q.orders ++ steps.flatMap Shaping.orders
        columns := steps.foldl Shaping.columns q.columns } := by
  induction steps generalizing q with
  | nil => simp [shape]
  | cons step rest ih =>
      show (Shaping.apply q step).shape rest = _
      rw [ih]
      cases step <;> simp [Shaping.apply, Shaping.orders, Shaping.columns, orderBy, select]

/-- A chain of steps around the step that scopes it. -/
def chain (scoping : QueryState → Outcome QueryState) (collection : String)
    (before after : List Shaping) : Outcome QueryState := do
  return (← scoping ((({} : QueryState).table collection).shape before)).shape after

/-- The documents that the store returns for a query. -/
def returned (s : Memory.State) (q : QueryState) : Outcome (List DocumentKey) := do
  let found ← ((Memory.datastore.query (← q.toStoreQuery)).runOn s).1
  return found.map (·.key)

/-- The name of the collections, as the query takes it. -/
def collectionName (collection : String) : String := Text.strip (· == '/') (Text.trim collection)

/-- The steps of a chain can be compiled: the name of the collections is one name, and the fields of
the orderings and the columns that count can be read. -/
structure Accepts (collection : String) (steps : List Shaping) : Prop where
  notBlank : Text.isAllBlank (collectionName collection) = false
  noSlash : Text.hasChar '/' (collectionName collection) = false
  columns : "*" ∈ steps.foldl Shaping.columns [] ∨
    ∀ column ∈ steps.foldl Shaping.columns [], ∃ path, FieldPath.ofText column = .ok path
  orders : ∀ o ∈ steps.flatMap Shaping.orders, ∃ path, FieldPath.ofText o.field = .ok path

section Chains

variable {collection text : String} {before after : List Shaping} {scope : Scope} {q : QueryState}

/-- The query that a range of names scopes. -/
def ranged (collection text : String) (before after : List Shaping) : QueryState where
  source := some (collectionName collection)
  isGroup := true
  columns := (before ++ after).foldl Shaping.columns []
  orders := before.flatMap Shaping.orders ++
    ⟨FieldPath.documentIdName, .ascending⟩ :: after.flatMap Shaping.orders
  startAt := [.reference text]
  endAt := [.reference (text.push rangeEnd)]

/-- The query that a document scopes. -/
def nested (collection text : String) (before after : List Shaping) : QueryState where
  source := some (collectionName collection)
  isGroup := true
  scope := some text
  columns := (before ++ after).foldl Shaping.columns []
  orders := (before ++ after).flatMap Shaping.orders

theorem checkCollectionId_shape {before : List Shaping} {u : Unit} :
    ((({} : QueryState).table collection).shape before).checkCollectionId = .ok u ↔
      Text.hasChar '/' (collectionName collection) = false := by
  rw [shape_eq]
  unfold checkCollectionId
  show (if Text.hasChar '/' (collectionName collection) = true then _ else _) = _ ↔ _
  cases Text.hasChar '/' (collectionName collection) with
  | true => simp
  | false => simp

theorem chain_ofScope (hscope : scope.resolve = .ok text) :
    chain (·.ofScope scope) collection before after = .ok q ↔
      Text.hasChar '/' (collectionName collection) = false ∧
        q = ranged collection text before after := by
  unfold chain ofScope inCollectionGroup
  simp only [hscope, Outcome.ok_bind, Outcome.bind_eq_ok, Outcome.pure_eq_ok,
    checkCollectionId_shape, exists_const, and_assoc, exists_and_left, exists_eq_left']
  simp only [shape_eq]
  refine and_congr_right fun _ => ?_
  rw [eq_comm]
  simp [ranged, table, collectionName, List.foldl_append]

theorem chain_inDocument (hscope : scope.resolve = .ok text) :
    chain (·.inDocument scope) collection before after = .ok q ↔
      Text.hasChar '/' (collectionName collection) = false ∧
        q = nested collection text before after := by
  unfold chain inDocument
  simp only [hscope, Outcome.ok_bind, Outcome.bind_eq_ok, Outcome.pure_eq_ok,
    checkCollectionId_shape, exists_const, and_assoc, exists_and_left, exists_eq_left']
  simp only [shape_eq]
  refine and_congr_right fun _ => ?_
  rw [eq_comm]
  simp [nested, table, collectionName, List.foldl_append]

theorem isShaped_ranged : (ranged collection text before after).IsShaped :=
  ⟨rfl, rfl, rfl, rfl, rfl, rfl, rfl⟩

theorem isShaped_nested : (nested collection text before after).IsShaped :=
  ⟨rfl, rfl, rfl, rfl, rfl, rfl, rfl⟩

/-- The ordering against which a range is read: the first before the scope, else the one by name
that the scope adds. -/
def leading (before : List Shaping) : Outcome FieldOrder :=
  match before.flatMap Shaping.orders with
  | [] => pure ⟨.documentId, .ascending⟩
  | o :: _ => o.read

/-- The orderings of a range are read if those of the steps are, and begin with the leading one. -/
theorem read_ranged {parsed : List FieldOrder}
    (h : (ranged collection text before after).orders.mapM Order.read = .ok parsed) :
    ∃ lead rest, leading before = .ok lead ∧ parsed = lead :: rest := by
  unfold leading
  rw [ranged] at h
  cases hbefore : before.flatMap Shaping.orders with
  | nil =>
      rw [hbefore, List.nil_append, List.mapM_cons] at h
      obtain ⟨first, hfirst, h⟩ := Outcome.bind_eq_ok.1 h
      obtain ⟨rest, -, h⟩ := Outcome.bind_eq_ok.1 h
      cases hfirst
      cases h
      exact ⟨_, rest, rfl, rfl⟩
  | cons o others =>
      rw [hbefore, List.cons_append, List.mapM_cons] at h
      obtain ⟨first, hfirst, h⟩ := Outcome.bind_eq_ok.1 h
      obtain ⟨rest, -, h⟩ := Outcome.bind_eq_ok.1 h
      cases h
      exact ⟨first, rest, hfirst, rfl⟩

theorem ranged_succeeds_iff :
    (∃ out, (ranged collection text before after).toStoreQuery = .ok out) ↔
      Accepts collection (before ++ after) := by
  rw [isShaped_ranged.toStoreQuery_succeeds_iff rfl]
  have hname : ∃ path, FieldPath.ofText FieldPath.documentIdName = .ok path := ⟨_, rfl⟩
  constructor
  · intro hparts
    obtain ⟨⟨hblank, hslash⟩, hcolumns, -, horders⟩ := hparts
    refine ⟨hblank, hslash, hcolumns, fun o ho => horders o ?_⟩
    rw [List.flatMap_append, List.mem_append] at ho
    rcases ho with ho | ho
    · exact List.mem_append_left _ ho
    · exact List.mem_append_right _ (List.mem_cons_of_mem _ ho)
  · intro haccepts
    refine ⟨⟨haccepts.notBlank, haccepts.noSlash⟩, haccepts.columns,
      ⟨none, rfl, fun _ hdocument => absurd hdocument (by simp)⟩, fun o ho => ?_⟩
    rcases List.mem_append.1 ho with ho | ho
    · exact haccepts.orders o (by rw [List.flatMap_append]; exact List.mem_append_left _ ho)
    · rcases List.mem_cons.1 ho with rfl | ho
      · exact hname
      · exact haccepts.orders o (by rw [List.flatMap_append]; exact List.mem_append_right _ ho)

theorem nested_succeeds_iff {document : DocumentKey}
    (hread : ResourcePath.ofText text = .ok document.path)
    (hdocument : document.path.isDocument = true) :
    (∃ out, (nested collection text before after).toStoreQuery = .ok out) ↔
      Accepts collection (before ++ after) := by
  rw [isShaped_nested.toStoreQuery_succeeds_iff rfl]
  have hscope : ∃ below, (some text).mapM ResourcePath.ofText = .ok below ∧
      ∀ found ∈ below, found.isDocument = true := by
    refine ⟨some document.path, by rw [Option.mapM_some, hread]; rfl, fun found hfound => ?_⟩
    obtain rfl := Option.mem_some.1 hfound
    exact hdocument
  constructor
  · intro hparts
    obtain ⟨⟨hblank, hslash⟩, hcolumns, -, horders⟩ := hparts
    exact ⟨hblank, hslash, hcolumns, horders⟩
  · intro haccepts
    exact ⟨⟨haccepts.notBlank, haccepts.noSlash⟩, haccepts.columns, hscope, haccepts.orders⟩

/-- The leading one of the orderings asked for is the leading one of those that count. -/
theorem effectiveOrders_of_orders {q : StoreQuery} {lead : FieldOrder} {rest : List FieldOrder}
    (h : q.orders = lead :: rest) : ∃ others, q.effectiveOrders = lead :: others := by
  unfold StoreQuery.effectiveOrders
  rw [h]
  simp only [List.isEmpty_cons, Bool.false_eq_true, if_false]
  split
  · exact ⟨rest, rfl⟩
  · exact ⟨_, rfl⟩

variable {document : DocumentKey} {out : StoreQuery} (table : Memory.Table) (now : Timestamp)

/-- What a query between the cursors of a range gives. -/
theorem mem_between (hproper : document.IsProper) {id : String} {lead : FieldOrder}
    {rest : List FieldOrder} (hsource : out.source = .group id none) (hfilters : out.filters = [])
    (hoffset : out.offset = none) (hlimit : out.limit = none) (horders : out.orders = lead :: rest)
    (hstart : out.start = some ⟨[.reference document.text], true⟩)
    (hstop : out.stop = some ⟨[.reference (document.text.push rangeEnd)], true⟩)
    {key : DocumentKey} :
    key ∈ (out.run (Memory.candidates now out.source table)).map (·.key) ↔
      ∃ stored, (key.path, stored) ∈ table ∧ key.path.isDocument = true ∧ key.collectionId = id ∧
        document.InRange lead (stored.snapshot key now) := by
  obtain ⟨others, hothers⟩ := effectiveOrders_of_orders horders
  rw [Memory.mem_found hfilters hoffset hlimit, hothers, hsource, hstart, hstop]
  refine exists_congr fun stored => and_congr_right fun _ => and_congr_right fun _ => ?_
  refine and_congr ?_ ?_
  · simp [Source.contains]
  · exact DocumentKey.admits_range_iff hproper _ _

/-- **The documents of a range.** -/
theorem mem_ranged (hproper : document.IsProper)
    (h : (ranged collection document.text before after).toStoreQuery = .ok out) :
    ∃ lead, leading before = .ok lead ∧
      ∀ key, key ∈ (out.run (Memory.candidates now out.source table)).map (·.key) ↔
        ∃ stored, (key.path, stored) ∈ table ∧ key.path.isDocument = true ∧
          key.collectionId = collectionName collection ∧
          document.InRange lead (stored.snapshot key now) := by
  obtain ⟨-, projection, below, parsed, -, hbelow, -, hparsed, rfl⟩ :=
    (isShaped_ranged.toStoreQuery_eq_ok rfl).1 h
  obtain ⟨lead, rest, hlead, rfl⟩ := read_ranged hparsed
  cases hbelow
  exact ⟨lead, hlead, fun key => mem_between table now hproper rfl rfl rfl rfl rfl rfl rfl⟩

/-- **The documents beneath a document.** -/
theorem mem_nested (hread : ResourcePath.ofText document.text = .ok document.path)
    (h : (nested collection document.text before after).toStoreQuery = .ok out)
    {key : DocumentKey} :
    key ∈ (out.run (Memory.candidates now out.source table)).map (·.key) ↔
      ∃ stored, (key.path, stored) ∈ table ∧ key.path.isDocument = true ∧
        key.collectionId = collectionName collection ∧
        document.path.isAncestorOf key.path = true := by
  obtain ⟨-, projection, below, parsed, -, hbelow, -, -, rfl⟩ :=
    (isShaped_nested.toStoreQuery_eq_ok rfl).1 h
  have hbelow' : below = some document.path := by
    simpa [nested, hread] using hbelow.symm
  subst hbelow'
  rw [Memory.mem_found rfl rfl rfl]
  refine exists_congr fun stored => and_congr_right fun _ => and_congr_right fun _ => ?_
  simp [Source.contains, nested, cursorAt]

end Chains

/-! ## The two ways -/

theorem returned_eq_ok {s : Memory.State} {q : QueryState} {keys : List DocumentKey} :
    returned s q = .ok keys ↔
      ∃ out, q.toStoreQuery = .ok out ∧
        keys = (out.run (Memory.candidates s.clock.now out.source s.table)).map (·.key) := by
  unfold returned
  rw [Outcome.bind_eq_ok]
  refine exists_congr fun out => and_congr_right fun _ => ?_
  rw [Memory.runOn_query, Outcome.ok_bind, Outcome.pure_eq_ok, eq_comm]

/-- The store shows a document of the collections of a name. -/
def Shows (s : Memory.State) (name : String) (d : Snapshot) : Prop :=
  d.key.collectionId = name ∧
    ∃ stored, (d.key.path, stored) ∈ s.table ∧ d = stored.snapshot d.key s.clock.now

section Ways

variable {s : Memory.State} {scope : Scope} {document : DocumentKey} {collection : String}
  {before after : List Shaping}

theorem exists_shows_iff (hreach : Memory.Reachable s.table) {name : String} {key : DocumentKey}
    (p : Snapshot → Prop) :
    (∃ stored, (key.path, stored) ∈ s.table ∧ key.path.isDocument = true ∧
      key.collectionId = name ∧ p (stored.snapshot key s.clock.now)) ↔
        ∃ d, Shows s name d ∧ d.key = key ∧ p d := by
  constructor
  · intro hsome
    obtain ⟨stored, he, -, hname, hp⟩ := hsome
    exact ⟨stored.snapshot key s.clock.now, ⟨hname, stored, he, rfl⟩, rfl, hp⟩
  · intro hsome
    obtain ⟨d, ⟨hname, stored, he, hd⟩, rfl, hp⟩ := hsome
    exact ⟨stored, he, hreach.wellFormed.documents _ he, hname, hd ▸ hp⟩

/-- A key belongs to one document that the store shows. -/
theorem Shows.unique (hreach : Memory.Reachable s.table) {name : String} {d d' : Snapshot}
    (h : Shows s name d) (h' : Shows s name d') (hkey : d.key = d'.key) : d = d' := by
  obtain ⟨-, stored, he, hd⟩ := h
  obtain ⟨-, stored', he', hd'⟩ := h'
  rw [← hkey] at he'
  obtain rfl := Keyed.Sorted.eq_of_mem hreach.wellFormed.sorted he he'
  rw [hd, hd', hkey]

/-- Two choices among the documents that the store shows give the same keys exactly if they are the
same choice. -/
theorem same_keys_iff (hreach : Memory.Reachable s.table) {name : String} {p p' : Snapshot → Prop}
    {keys keys' : List DocumentKey}
    (hkeys : ∀ key, key ∈ keys ↔ ∃ d, Shows s name d ∧ d.key = key ∧ p d)
    (hkeys' : ∀ key, key ∈ keys' ↔ ∃ d, Shows s name d ∧ d.key = key ∧ p' d) :
    (∀ key, key ∈ keys ↔ key ∈ keys') ↔ ∀ d, Shows s name d → (p d ↔ p' d) := by
  have hchosen (p : Snapshot → Prop) {d : Snapshot} (hd : Shows s name d) :
      (∃ d', Shows s name d' ∧ d'.key = d.key ∧ p d') ↔ p d := by
    constructor
    · intro hsome
      obtain ⟨d', hd', hkey, hp⟩ := hsome
      exact hd'.unique hreach hd hkey ▸ hp
    · intro hp
      exact ⟨d, hd, rfl, hp⟩
  constructor
  · intro hsame d hd
    rw [← hchosen p hd, ← hkeys, hsame, hkeys', hchosen p' hd]
  · intro hsame key
    rw [hkeys, hkeys']
    exact exists_congr fun d => and_congr_right fun hd => and_congr_right fun _ => hsame d hd

/-- **Two ways to look below a document.**  Around the step that scopes it, let a chain order the
query and choose its fields.  If the chain cannot be compiled, both ways fail.  Otherwise both
succeed: `inDocument` gives exactly the documents beneath the scope, and `ofScope` those that lie in
its range, read against the first ordering.  They give the same documents exactly if these are the
same.  Where the range is read against the names, `ofScope` gives at least the documents beneath the
scope, and no others exactly if no other document of the group lies in the range of names. -/
theorem ofScope_found (hreach : Memory.Reachable s.table)
    (hscope : scope.resolve = .ok document.text)
    (hdocument : document.path.isDocument = true)
    (hread : ResourcePath.ofText document.text = .ok document.path) :
    (¬ Accepts collection (before ++ after) → ∀ keys,
      (chain (·.ofScope scope) collection before after >>= returned s) ≠ .ok keys ∧
      (chain (·.inDocument scope) collection before after >>= returned s) ≠ .ok keys) ∧
    (Accepts collection (before ++ after) → ∃ found below lead,
      (chain (·.ofScope scope) collection before after >>= returned s) = .ok found ∧
      (chain (·.inDocument scope) collection before after >>= returned s) = .ok below ∧
      leading before = .ok lead ∧
      (∀ key, key ∈ below ↔ ∃ d, Shows s (collectionName collection) d ∧ d.key = key ∧
        document.path.isAncestorOf d.key.path = true) ∧
      (∀ key, key ∈ found ↔ ∃ d, Shows s (collectionName collection) d ∧ d.key = key ∧
        document.InRange lead d) ∧
      ((∀ key, key ∈ found ↔ key ∈ below) ↔ ∀ d, Shows s (collectionName collection) d →
        (document.InRange lead d ↔ document.path.isAncestorOf d.key.path = true)) ∧
      (lead = ⟨.documentId, .ascending⟩ → (∀ key ∈ below, key ∈ found) ∧
        ((∀ key, key ∈ found ↔ key ∈ below) ↔ ∀ d, Shows s (collectionName collection) d →
          document.InNameRange (Text.split '/' d.key.text) →
            document.path.isAncestorOf d.key.path = true))) := by
  have hproper : document.IsProper :=
    ⟨hdocument, (ResourcePath.hasNames_of_ofText hread).isSlashFree⟩
  constructor
  · intro hnot keys
    constructor
    · intro hok
      obtain ⟨q, hq, hkeys⟩ := Outcome.bind_eq_ok.1 hok
      obtain ⟨-, rfl⟩ := (chain_ofScope hscope).1 hq
      obtain ⟨out, hout, -⟩ := returned_eq_ok.1 hkeys
      exact hnot (ranged_succeeds_iff.1 ⟨out, hout⟩)
    · intro hok
      obtain ⟨q, hq, hkeys⟩ := Outcome.bind_eq_ok.1 hok
      obtain ⟨-, rfl⟩ := (chain_inDocument hscope).1 hq
      obtain ⟨out, hout, -⟩ := returned_eq_ok.1 hkeys
      exact hnot ((nested_succeeds_iff hread hdocument).1 ⟨out, hout⟩)
  · intro haccepts
    obtain ⟨out, hout⟩ := (@ranged_succeeds_iff _ document.text _ _).2 haccepts
    obtain ⟨out', hout'⟩ := (nested_succeeds_iff hread hdocument).2 haccepts
    obtain ⟨lead, hlead, hranged⟩ := mem_ranged s.table s.clock.now hproper hout
    have hfound := fun key => (hranged key).trans (exists_shows_iff hreach (document.InRange lead))
    have hbelow := fun key => (mem_nested s.table s.clock.now hread hout').trans
      (@exists_shows_iff _ hreach _ key fun d => document.path.isAncestorOf d.key.path = true)
    have hsame := same_keys_iff hreach hfound hbelow
    refine ⟨_, _, lead, ?_, ?_, hlead, hbelow, hfound, hsame, ?_⟩
    · refine Outcome.bind_eq_ok.2 ⟨_, (chain_ofScope hscope).2 ⟨haccepts.noSlash, rfl⟩, ?_⟩
      exact returned_eq_ok.2 ⟨out, hout, rfl⟩
    · refine Outcome.bind_eq_ok.2 ⟨_, (chain_inDocument hscope).2 ⟨haccepts.noSlash, rfl⟩, ?_⟩
      exact returned_eq_ok.2 ⟨out', hout', rfl⟩
    · intro hname
      subst hname
      have hbeneath {d : Snapshot} (h : document.path.isAncestorOf d.key.path = true) :
          document.InRange ⟨.documentId, .ascending⟩ d :=
        DocumentKey.inRange_byName_iff.2 (DocumentKey.inNameRange_of_isAncestorOf hproper h)
      constructor
      · intro key hkey
        obtain ⟨d, hd, rfl, habove⟩ := (hbelow key).1 hkey
        exact (hfound d.key).2 ⟨d, hd, rfl, hbeneath habove⟩
      · rw [hsame]
        refine forall_congr' fun d => imp_congr_right fun _ => ?_
        rw [← DocumentKey.inRange_byName_iff]
        exact ⟨Iff.mp, fun himp => ⟨himp, hbeneath⟩⟩

end Ways

/-- A post of one user, and a post of another one whose id continues the id of the first. -/
def besidePosts : Memory.Table :=
  [(⟨["users", "ann", "posts", "p1"]⟩, ⟨[], default, default⟩),
    (⟨["users", "anna", "posts", "p2"]⟩, ⟨[], default, default⟩)]

/-- A store of these posts. -/
def besideStore : Memory.State := ⟨besidePosts, { readings := fun _ => default }⟩

theorem besideStore_reachable : Memory.Reachable besideStore.table :=
  @Memory.Reachable.commit [] _ default
    [.create ⟨⟨["users", "ann", "posts", "p1"]⟩⟩ [] [],
      .create ⟨⟨["users", "anna", "posts", "p2"]⟩⟩ [] []] .empty (by decide) rfl

theorem accepts_posts (steps : List Shaping) (hcolumns : steps.foldl Shaping.columns [] = [])
    (horders : steps.flatMap Shaping.orders = []) : Accepts "posts" steps where
  notBlank := by decide
  noSlash := by decide
  columns := .inr (by simp [hcolumns])
  orders := by simp [horders]

/-- The two ways differ: the range of `users/ann` holds the post of `users/anna`. -/
theorem ofScope_not_beneath :
    ¬ ∀ (s : Memory.State) (scope : Scope) (document : DocumentKey) (collection : String)
      (before after : List Shaping), Memory.Reachable s.table →
      scope.resolve = .ok document.text → document.path.isDocument = true →
      ResourcePath.ofText document.text = .ok document.path →
      Accepts collection (before ++ after) → ∃ found below,
        (chain (·.ofScope scope) collection before after >>= returned s) = .ok found ∧
        (chain (·.inDocument scope) collection before after >>= returned s) = .ok below ∧
        (∀ key, key ∈ found ↔ key ∈ below) ∧
        (∀ key, key ∈ below ↔ ∃ d, Shows s (collectionName collection) d ∧ d.key = key ∧
          document.path.isAncestorOf d.key.path = true) := by
  intro hall
  obtain ⟨found, below, hfound, hbelow, hsame, -⟩ :=
    hall besideStore (.path "users/ann") ⟨⟨["users", "ann"]⟩⟩ "posts" [] [] besideStore_reachable
      rfl (by decide) rfl (accepts_posts [] rfl rfl)
  have hfound' : (chain (·.ofScope (.path "users/ann")) "posts" [] [] >>= returned besideStore)
      = .ok [⟨⟨["users", "ann", "posts", "p1"]⟩⟩, ⟨⟨["users", "anna", "posts", "p2"]⟩⟩] := by
    rfl
  have hbelow' : (chain (·.inDocument (.path "users/ann")) "posts" [] [] >>= returned besideStore)
      = .ok [⟨⟨["users", "ann", "posts", "p1"]⟩⟩] := by
    rfl
  rw [hfound'] at hfound
  rw [hbelow'] at hbelow
  cases hfound
  cases hbelow
  exact absurd ((hsame ⟨⟨["users", "anna", "posts", "p2"]⟩⟩).1 (by decide)) (by decide)

/-- The general statement for these posts, in descending order of their titles behind the scope. -/
theorem ofScope_found_beside :
    ∃ found below,
      (chain (·.ofScope (.path "/users/ann/")) "posts" [.select []] [.orderBy "title" .descending]
        >>= returned besideStore) = .ok found ∧
      (chain (·.inDocument (.path "/users/ann/")) "posts" [.select []]
        [.orderBy "title" .descending] >>= returned besideStore) = .ok below ∧
      (∀ key ∈ below, key ∈ found) ∧ ¬ ∀ key, key ∈ found ↔ key ∈ below := by
  have haccepts : Accepts "posts" ([.select []] ++ [.orderBy "title" .descending]) := by
    refine ⟨by decide, by decide, .inr fun column hcolumn => ?_, fun o ho => ?_⟩
    · cases List.mem_singleton.1 hcolumn
      exact ⟨_, rfl⟩
    · cases List.mem_singleton.1 ho
      exact ⟨_, rfl⟩
  have hall := @ofScope_found besideStore (.path "/users/ann/") ⟨⟨["users", "ann"]⟩⟩ "posts"
    [.select []] [.orderBy "title" .descending] besideStore_reachable rfl (by decide) rfl
  obtain ⟨found, below, lead, hfound, hbelow, hlead, -, -, -, hnames⟩ := hall.2 haccepts
  cases hlead
  obtain ⟨hsub, hsame⟩ := hnames rfl
  refine ⟨found, below, hfound, hbelow, hsub, fun hequal => ?_⟩
  have hbeneath := hsame.1 hequal
    (Memory.Stored.snapshot ⟨[], default, default⟩ ⟨⟨["users", "anna", "posts", "p2"]⟩⟩ default)
    ⟨by decide, ⟨[], default, default⟩, by simp [besideStore, besidePosts, Memory.Stored.snapshot],
      rfl⟩
    ⟨"a", ["posts", "p2"], by decide, .inl (by decide)⟩
  exact absurd hbeneath (by decide)

end QueryState

end DocStore
