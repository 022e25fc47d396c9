import DocStore.Proofs.Query.Acceptance
import DocStore.Proofs.Query.Compile

/-!
# The query that a store executes

Some parts of a query are read from texts: the source, the fields, the filters and the orderings.
The others are taken as they are, and those that say nothing are left out.  Compiling a query reads
the former (`QueryState.compile_eq_ok`); what is compiled is then put together call by call, a later
call in place of an earlier one (`foldlM_closingCalls`).  So the query of the store is known part by
part (`QueryState.storeQuery`).  What is checked once more on the way finds nothing new, but for the
source and for markers among the operands.

The main statement is `QueryState.compiled_describes`.
-/

namespace DocStore

/-- The call that names a source. -/
def Source.call : Source → Call
  | collection path => .collection path
  | group collectionId below => .group collectionId below

/-- A source that no store takes. -/
inductive Source.IsRefused : Source → Prop
  /-- The path of a collection has an odd number of names. -/
  | path {path : ResourcePath} (h : path.size % 2 ≠ 1) : IsRefused (.collection path)
  /-- The name of a collection group is one name. -/
  | name {collectionId : String} {below : Option ResourcePath}
      (h : collectionId = "" ∨ '/' ∈ collectionId.toList) : IsRefused (.group collectionId below)
  /-- A collection group lies below a document. -/
  | scope {collectionId : String} {document : ResourcePath} (h : document.isDocument = false) :
      IsRefused (.group collectionId (some document))

/-- The call is a cursor, the offset or a limit. -/
def Call.isClosing : Call → Bool
  | startAt _ | endAt _ | startAfter _ | endBefore _ | offset _ | limit _ | limitToLast _ => true
  | _ => false

/-- The filter that a call adds. -/
def Call.filter? : Call → Option Filter
  | filter field operator operand => some ⟨field, operator, operand⟩
  | _ => none

namespace Source

theorem isRefused_collection {path : ResourcePath} :
    (collection path).IsRefused ↔ path.isCollection = false := by
  have hodd : path.isCollection = false ↔ path.size % 2 ≠ 1 := by
    simp [ResourcePath.isCollection]
  rw [hodd]
  constructor
  · intro h
    cases h with
    | path hsize => exact hsize
  · exact .path

theorem isRefused_group {collectionId : String} {below : Option ResourcePath} :
    (group collectionId below).IsRefused ↔
      (collectionId.isEmpty = true ∨ Text.hasChar '/' collectionId = true) ∨
        ∃ document ∈ below, document.isDocument = false := by
  have hname : collectionId.isEmpty = true ∨ Text.hasChar '/' collectionId = true ↔
      collectionId = "" ∨ '/' ∈ collectionId.toList := by
    simp [Text.hasChar, String.isEmpty_iff]
  rw [hname]
  constructor
  · intro h
    cases h with
    | name hname => exact .inl hname
    | scope hdocument => exact .inr ⟨_, rfl, hdocument⟩
  · intro h
    rcases h with hname | ⟨document, hbelow, hdocument⟩
    · exact .name hname
    · obtain rfl := Option.mem_def.1 hbelow
      exact .scope hdocument

/-- A store takes the sources that are not refused. -/
theorem ofSource_succeeds_iff {source : Source} :
    (∃ n, StoreQuery.ofSource source = .ok n) ↔ ¬ source.IsRefused := by
  cases source with
  | collection path =>
      show (∃ n, StoreQuery.ofCollection path = .ok n) ↔ _
      simp only [StoreQuery.ofCollection_eq_ok, isRefused_collection]
      simp
  | group collectionId below =>
      show (∃ n, StoreQuery.ofGroup collectionId below = .ok n) ↔ _
      simp only [StoreQuery.ofGroup_eq_ok, isRefused_group]
      simp [and_assoc]

end Source

theorem Source.source?_call (source : Source) : source.call.source? = some source := by
  cases source <;> rfl

/-! ## Filters -/

namespace Condition

theorem own?_eq_some {c : Condition} {f : Filter} (h : c.own? = some f) :
    c.operator = .ok f.operator ∧ c.operand = f.operand := by
  have hfilter : ∀ {field : String} {o : Outcome Operator} {v : Value},
      (do return ⟨← (FieldPath.ofText field).toOption, ← o.toOption, v⟩ : Option Filter) = some f →
        o = .ok f.operator ∧ v = f.operand := by
    intro field o v h
    obtain ⟨path, -, h⟩ := Option.bind_eq_some_iff.1 h
    obtain ⟨o', ho, h⟩ := Option.bind_eq_some_iff.1 h
    cases h
    exact ⟨Outcome.toOption_eq_some.1 ho, rfl⟩
  cases c with
  | basic field operator value => exact hfilter h
  | isIn field values => exact hfilter (o := .ok .isIn) h
  | notIn field values => exact hfilter (o := .ok .notIn) h
  | isNull field => exact hfilter (o := .ok .equal) h
  | notNull field => exact hfilter (o := .ok .notEqual) h

end Condition

namespace Predicate

/-- The operand of a filter that takes a list has been checked to be one. -/
theorem Node.array_of_takesList {n : Node} {f : Filter} (hwell : n.IsWellFormed)
    (hf : n.filter? = some f) (hlist : f.operator.takesList = true) :
    ∃ items, f.operand = .array items := by
  cases n with
  | group joiner negated children => cases hf
  | leaf joiner negated condition =>
      obtain ⟨-, o, haccepted⟩ := hwell
      have hown : ∃ g, condition.own? = some g ∧ g.operand = f.operand ∧
          g.operator.takesList = true := by
        cases negated with
        | false => exact ⟨f, hf, rfl, hlist⟩
        | true =>
            obtain ⟨g, hg, hmap⟩ := Option.bind_eq_some_iff.1 hf
            obtain ⟨o', ho', rfl⟩ := Option.map_eq_some_iff.1 hmap
            rw [Outcome.toOption_eq_some] at ho'
            exact ⟨g, hg, rfl, (Operator.takesList_negated ho').symm.trans hlist⟩
      obtain ⟨g, hg, hsame, hlist⟩ := hown
      obtain ⟨hoperator, hoperand⟩ := Condition.own?_eq_some hg
      rw [haccepted.operator] at hoperator
      cases hoperator
      obtain ⟨items, hitems, -⟩ := haccepted.operand hlist
      exact ⟨items, by rw [← hsame, ← hoperand, hitems]⟩

/-- The calls of accepted predicates are filters with checked operands. -/
theorem exists_filters {scopedGroup : Bool} {predicates : List Predicate} {calls : List Call}
    (h : compileAll scopedGroup predicates = .ok calls) :
    ∃ filters : List Filter, calls = filters.map Filter.call ∧
      ∀ f ∈ filters, f.operator.takesList = true → ∃ items, f.operand = .array items := by
  have hwell := (compileAll_succeeds_iff.1 ⟨calls, h⟩).2
  have hcalls := compileAll_filters h
  have hleaves : ∀ n ∈ (nodesOfAll false predicates).filter Node.isLeaf, n.IsWellFormed :=
    fun n hn => hwell n (List.mem_filter.1 hn).1
  unfold AreFiltersOf at hcalls
  -- The leaves and the calls go side by side, whatever tree the leaves come from.
  generalize (nodesOfAll false predicates).filter Node.isLeaf = leaves at hcalls hleaves
  clear h
  induction hcalls with
  | nil => exact ⟨[], rfl, by simp⟩
  | cons hcall _ ih =>
      rw [List.forall_mem_cons] at hleaves
      obtain ⟨filters, rfl, hrest⟩ := ih hleaves.2
      obtain ⟨f, hf, rfl⟩ := hcall
      refine ⟨f :: filters, rfl, ?_⟩
      rw [List.forall_mem_cons]
      exact ⟨Node.array_of_takesList hleaves.1 hf, hrest⟩

end Predicate

namespace QueryState

variable {q : QueryState}

/-! ## What is read -/

/-- The parts of a query that are read from texts. -/
structure Parts where
  source : Source
  projection : Option (List FieldPath)
  filters : List Filter
  orders : List FieldOrder

/-- The parts of a query as they are read. -/
structure Reads (q : QueryState) (p : Parts) : Prop where
  source : q.compileSource = .ok p.source.call
  projection : q.readProjection = .ok p.projection
  filters : Predicate.compileAll q.isScopedGroup q.predicates = .ok (p.filters.map Filter.call)
  orders : q.orders.mapM Order.read = .ok p.orders

/-- The calls of the parts that are taken as they are, after all others. -/
def closingCalls (q : QueryState) : List Call :=
  [[.startAt q.startAt], [.endAt q.endAt], [.startAfter q.startAfter], [.endBefore q.endBefore],
    (q.offset.map Call.offset).toList, (q.limit.map Call.limit).toList,
    (q.limitToLast.map Call.limitToLast).toList].flatten.filter (!·.isIdle)

/-- The query that is compiled from the parts that are read. -/
def compiled (q : QueryState) (p : Parts) : CompiledQuery where
  source := p.source
  calls := callsBefore p.projection ++
    (p.filters.map Filter.call ++ (p.orders.map FieldOrder.call ++ q.closingCalls))

theorem compileSource_eq_ok_call {call : Call} (h : q.compileSource = .ok call) :
    ∃ source : Source, call = source.call := by
  unfold compileSource at h
  split at h
  · cases h
  · split at h
    · obtain ⟨path, -, h⟩ := Outcome.bind_eq_ok.1 h
      cases h
      exact ⟨.collection path, rfl⟩
    · split at h
      · cases h
      · obtain ⟨below, -, h⟩ := Outcome.bind_eq_ok.1 h
        cases h
        exact ⟨.group _ below, rfl⟩

theorem compile_source_eq (q : QueryState) :
    q.compileComponent .source = do return [← q.compileSource] := by
  unfold compileComponent compilePart
  cases hsource : q.compileSource with
  | error e => rfl
  | ok call =>
      obtain ⟨source, rfl⟩ := compileSource_eq_ok_call hsource
      cases source <;> rfl

theorem compile_predicates (q : QueryState) :
    q.compileComponent .predicates = Predicate.compileAll q.isScopedGroup q.predicates := by
  unfold compileComponent compilePart
  dsimp only
  cases hfilters : Predicate.compileAll q.isScopedGroup q.predicates with
  | error e => rfl
  | ok calls =>
      obtain ⟨filters, rfl, -⟩ := Predicate.exists_filters hfilters
      exact congrArg Except.ok (Call.filter_busy (f := Filter.call) (fun _ => rfl) filters)

/-- The parts but the columns, one after the other. -/
theorem otherCalls_eq (q : QueryState) :
    q.otherCalls = do
      let source ← q.compileSource
      let filters ← Predicate.compileAll q.isScopedGroup q.predicates
      let orders ← q.orders.mapM Order.read
      return source :: (filters ++ (orders.map FieldOrder.call ++ q.closingCalls)) := by
  unfold otherCalls closingCalls
  rw [List.filter_flatten]
  simp only [Component.all, List.tail_cons, List.mapM_cons, List.mapM_nil, compile_source_eq,
    compile_predicates, compile_orders]
  cases q.compileSource with
  | error e => rfl
  | ok source =>
    cases Predicate.compileAll q.isScopedGroup q.predicates with
    | error e => rfl
    | ok filters => cases q.orders.mapM Order.read <;> rfl

/-- The closing calls are cursors, the offset and the limits. -/
theorem isClosing_of_mem {call : Call} (h : call ∈ q.closingCalls) : call.isClosing = true := by
  have hmem := (List.mem_filter.1 h).1
  simp only [List.flatten_cons, List.flatten_nil, List.mem_append, List.mem_singleton,
    Option.mem_toList, Option.map_eq_some_iff, List.not_mem_nil, or_false] at hmem
  rcases hmem with rfl | rfl | rfl | rfl | ⟨_, -, rfl⟩ | ⟨_, -, rfl⟩ | ⟨_, -, rfl⟩ <;> rfl

/-- The closing calls name no source and add no filter. -/
theorem closingCalls_add {call : Call} (h : call ∈ q.closingCalls) :
    call.source? = none ∧ call.filter? = none := by
  have hclosing := isClosing_of_mem h
  cases call <;> first | exact ⟨rfl, rfl⟩ | cases hclosing

/-- Calls besides the source add parts. -/
theorem source?_compiled (q : QueryState) (p : Parts) :
    ∀ call ∈ (q.compiled p).calls, call.source? = none := by
  intro call hcall
  simp only [compiled, callsBefore, List.mem_append, List.mem_map, Option.mem_toList,
    Option.map_eq_some_iff] at hcall
  rcases hcall with ⟨_, -, rfl⟩ | ⟨_, -, rfl⟩ | ⟨_, -, rfl⟩ | hclosing
  · rfl
  · rfl
  · rfl
  · exact (closingCalls_add hclosing).1

/-- The calls of a query whose parts are read. -/
theorem Reads.compileCalls {p : Parts} (h : q.Reads p) :
    q.compileCalls = .ok (callsBefore p.projection ++ p.source.call ::
      (p.filters.map Filter.call ++ (p.orders.map FieldOrder.call ++ q.closingCalls))) := by
  rw [compileCalls_eq, otherCalls_eq, h.projection, h.source, h.filters, h.orders]
  rfl

/-- A query whose parts are read is compiled. -/
theorem Reads.compile {p : Parts} (h : q.Reads p) : q.compile = .ok (q.compiled p) :=
  compile_of_calls h.compileCalls p.source.source?_call (source?_compiled q p)

/-- A query has calls only if its parts can be read. -/
theorem exists_reads {calls : List Call} (h : q.compileCalls = .ok calls) : ∃ p, q.Reads p := by
  rw [compileCalls_eq] at h
  obtain ⟨projection, hprojection, h⟩ := Outcome.bind_eq_ok.1 h
  obtain ⟨others, hothers, -⟩ := Outcome.bind_eq_ok.1 h
  rw [otherCalls_eq] at hothers
  obtain ⟨call, hcall, hothers⟩ := Outcome.bind_eq_ok.1 hothers
  obtain ⟨filterCalls, hfilters, hothers⟩ := Outcome.bind_eq_ok.1 hothers
  obtain ⟨orders, horders, -⟩ := Outcome.bind_eq_ok.1 hothers
  obtain ⟨source, rfl⟩ := compileSource_eq_ok_call hcall
  obtain ⟨filters, rfl, -⟩ := Predicate.exists_filters hfilters
  exact ⟨⟨source, projection, filters, orders⟩, hcall, hprojection, hfilters, horders⟩

/-- A query is compiled exactly if its parts can be read. -/
theorem compile_eq_ok {c : CompiledQuery} :
    q.compile = .ok c ↔ ∃ p, q.Reads p ∧ c = q.compiled p := by
  constructor
  · intro h
    obtain ⟨calls, hcalls, -⟩ := Outcome.bind_eq_ok.1 h
    obtain ⟨p, hreads⟩ := exists_reads hcalls
    exact ⟨p, hreads, Except.ok.inj (h.symm.trans hreads.compile)⟩
  · intro h
    obtain ⟨p, hreads, rfl⟩ := h
    exact hreads.compile

/-! ## The query of the store -/

/-- The number, if it is not zero. -/
def nonzero (n : Option Nat) : Option Nat := n.filter (· != 0)

/-- A cursor that keeps the documents at it. -/
def cursorAt (values : List Value) : Option Cursor :=
  if values.isEmpty then none else some ⟨values, true⟩

/-- The cursor of the values that keep the documents at them and of those that leave them out: the
latter count first. -/
def cursorOf (keeping leaving : List Value) : Option Cursor :=
  if leaving.isEmpty then cursorAt keeping else some ⟨leaving, false⟩

/-- The query of the store with the parts that are read. -/
def storeQuery (q : QueryState) (p : Parts) : StoreQuery where
  source := p.source
  projection := p.projection
  filters := p.filters
  orders := p.orders
  start := cursorOf q.startAt q.startAfter
  stop := cursorOf q.endAt q.endBefore
  offset := nonzero q.offset
  limit := (nonzero q.limitToLast).or (nonzero q.limit)
  keepsLast := (nonzero q.limitToLast).isSome

/-- A call takes effect unless it is idle. -/
def takeEffect (n : StoreQuery) (call : Call) : Outcome StoreQuery :=
  if !call.isIdle then call.apply n else pure n

theorem takeEffect_startAt (n : StoreQuery) (values : List Value) :
    takeEffect n (.startAt values) = .ok { n with start := (cursorAt values).or n.start } := by
  cases values <;> rfl

theorem takeEffect_endAt (n : StoreQuery) (values : List Value) :
    takeEffect n (.endAt values) = .ok { n with stop := (cursorAt values).or n.stop } := by
  cases values <;> rfl

theorem takeEffect_startAfter (n : StoreQuery) (values : List Value) :
    takeEffect n (.startAfter values)
      = .ok { n with start := if values.isEmpty then n.start else some ⟨values, false⟩ } := by
  cases values <;> rfl

theorem takeEffect_endBefore (n : StoreQuery) (values : List Value) :
    takeEffect n (.endBefore values)
      = .ok { n with stop := if values.isEmpty then n.stop else some ⟨values, false⟩ } := by
  cases values <;> rfl

theorem foldlM_offset (n : StoreQuery) (offset : Option Nat) :
    (offset.map Call.offset).toList.foldlM takeEffect n
      = .ok { n with offset := (nonzero offset).or n.offset } := by
  cases offset with
  | none => rfl
  | some k => cases k <;> rfl

theorem foldlM_limit (n : StoreQuery) (limit : Option Nat) :
    (limit.map Call.limit).toList.foldlM takeEffect n
      = .ok { n with
          limit := (nonzero limit).or n.limit
          keepsLast := if (nonzero limit).isSome then false else n.keepsLast } := by
  cases limit with
  | none => rfl
  | some k => cases k <;> rfl

theorem foldlM_limitToLast (n : StoreQuery) (limit : Option Nat) :
    (limit.map Call.limitToLast).toList.foldlM takeEffect n
      = .ok { n with
          limit := (nonzero limit).or n.limit
          keepsLast := if (nonzero limit).isSome then true else n.keepsLast } := by
  cases limit with
  | none => rfl
  | some k => cases k <;> rfl

/-- The cursors, the offset and the limits are set by calls that are not idle, the later ones in
place of the earlier ones. -/
theorem foldlM_closingCalls {n : StoreQuery} (hstart : n.start = none) (hstop : n.stop = none)
    (hoffset : n.offset = none) (hlimit : n.limit = none) (hlast : n.keepsLast = false) :
    q.closingCalls.foldlM Call.apply n = .ok { n with
      start := cursorOf q.startAt q.startAfter
      stop := cursorOf q.endAt q.endBefore
      offset := nonzero q.offset
      limit := (nonzero q.limitToLast).or (nonzero q.limit)
      keepsLast := (nonzero q.limitToLast).isSome } := by
  unfold closingCalls
  -- Leaving out the idle calls comes to the same as letting them take no effect.
  rw [List.foldlM_filter]
  show List.foldlM takeEffect n _ = _
  simp only [List.flatten_cons, List.flatten_nil, List.append_nil, List.foldlM_append,
    List.foldlM_cons, List.foldlM_nil, bind_pure, takeEffect_startAt, takeEffect_endAt,
    takeEffect_startAfter, takeEffect_endBefore, foldlM_offset, foldlM_limit, foldlM_limitToLast,
    Outcome.ok_bind, hstart, hstop, hoffset, hlimit, hlast, cursorOf, Option.or_none]
  cases (nonzero q.limitToLast) <;> simp

/-- Filters with checked operands are put one behind the other, unless one is a marker. -/
theorem foldlM_filters {filters : List Filter}
    (hlists : ∀ f ∈ filters, f.operator.takesList = true → ∃ items, f.operand = .array items)
    (n : StoreQuery) :
    (filters.map Filter.call).foldlM Call.apply n
      = if filters.any (·.operand.isMarker) then
          .error (.invalidArgument "Sentinel values cannot be used in filters")
        else .ok { n with filters := n.filters ++ filters } := by
  induction filters generalizing n with
  | nil => simp
  | cons f rest ih =>
      rw [List.forall_mem_cons] at hlists
      have hlist : (f.operator.takesList && f.operand.asArray?.isNone) = false := by
        cases htakes : f.operator.takesList with
        | false => rfl
        | true =>
            obtain ⟨items, hitems⟩ := hlists.1 htakes
            rw [hitems]
            rfl
      rw [List.map_cons, List.foldlM_cons, List.any_cons]
      show n.filter f.field f.operator f.operand >>= _ = _
      rw [StoreQuery.filter, hlist, if_neg Bool.false_ne_true]
      cases hmarker : f.operand.isMarker with
      | true => rfl
      | false =>
          rw [if_neg Bool.false_ne_true, Bool.false_or]
          refine (ih hlists.2 _).trans ?_
          rw [List.append_assoc]
          rfl

/-- What is left to be checked of a compiled query: its source, and that no operand is a marker. -/
theorem Reads.toStoreQuery_compiled {p : Parts} (h : q.Reads p) :
    (q.compiled p).toStoreQuery = StoreQuery.ofSource p.source >>= fun _ =>
      if p.filters.any (·.operand.isMarker) then
        .error (.invalidArgument "Sentinel values cannot be used in filters")
      else .ok (q.storeQuery p) := by
  obtain ⟨filters, hsame, hlists⟩ := Predicate.exists_filters h.filters
  obtain rfl : p.filters = filters :=
    (List.map_inj_right fun _ _ => Filter.call_injective).1 hsame
  unfold CompiledQuery.toStoreQuery
  cases hsource : StoreQuery.ofSource p.source with
  | error e =>
      show StoreQuery.ofSource p.source >>= _ = _
      rw [hsource]
      rfl
  | ok first =>
      obtain rfl := StoreQuery.ofSource_eq_ok hsource
      show StoreQuery.ofSource p.source >>= _ = _
      have hselect : (callsBefore p.projection).foldlM Call.apply { source := p.source }
          = .ok { source := p.source, projection := p.projection } := by
        unfold callsBefore
        cases p.projection <;> rfl
      rw [hsource, Outcome.ok_bind, Outcome.ok_bind, compiled, List.foldlM_append, hselect,
        Outcome.ok_bind, List.foldlM_append, foldlM_filters hlists]
      split
      · rfl
      · rw [Outcome.ok_bind, List.foldlM_append, foldlM_orders, Outcome.ok_bind,
          foldlM_closingCalls rfl rfl rfl rfl rfl]
        rfl

/-- A compiled query gives the query with the parts that are read. -/
theorem Reads.toStoreQuery_eq_ok {p : Parts} (h : q.Reads p) {n : StoreQuery} :
    (q.compiled p).toStoreQuery = .ok n ↔
      (¬ p.source.IsRefused ∧ ∀ f ∈ p.filters, f.operand.isMarker = false) ∧
        n = q.storeQuery p := by
  rw [h.toStoreQuery_compiled, Outcome.bind_eq_ok, ← Source.ofSource_succeeds_iff]
  by_cases hmarker : p.filters.any (·.operand.isMarker) = true
  · have hsome : ¬ ∀ f ∈ p.filters, f.operand.isMarker = false := by
      simpa using hmarker
    simp [hmarker, hsome]
  · have hnone : ∀ f ∈ p.filters, f.operand.isMarker = false := by
      simpa using hmarker
    simp only [hmarker, if_false, Bool.false_eq_true]
    constructor
    · intro hok
      obtain ⟨first, hfirst, hn⟩ := hok
      exact ⟨⟨⟨first, hfirst⟩, hnone⟩, (Except.ok.inj hn).symm⟩
    · intro hok
      obtain ⟨⟨⟨first, hfirst⟩, -⟩, rfl⟩ := hok
      exact ⟨first, hfirst, rfl⟩

/-- The filters among the calls of a compiled query are those that were read. -/
theorem filters_compiled (q : QueryState) (p : Parts) :
    (q.compiled p).calls.filterMap Call.filter? = p.filters := by
  have hbefore : (callsBefore p.projection).filterMap Call.filter? = [] := by
    unfold callsBefore
    cases p.projection <;> rfl
  have hfilters : (p.filters.map Filter.call).filterMap Call.filter? = p.filters := by
    rw [List.filterMap_map]
    exact List.filterMap_some
  have horders : (p.orders.map FieldOrder.call).filterMap Call.filter? = [] := by
    rw [List.filterMap_map, List.filterMap_eq_nil_iff]
    exact fun _ _ => rfl
  have hclosing : q.closingCalls.filterMap Call.filter? = [] :=
    List.filterMap_eq_nil_iff.2 fun call hcall => (closingCalls_add hcall).2
  rw [compiled, List.filterMap_append, hbefore, List.filterMap_append, hfilters,
    List.filterMap_append, horders, hclosing]
  simp

/-- A query of the store has the parts that the query asks for. -/
structure Describes (q : QueryState) (c : CompiledQuery) (n : StoreQuery) : Prop where
  source : n.source = c.source
  namesSource : q.compileSource = .ok n.source.call
  filters : n.filters = c.calls.filterMap Call.filter?
  predicates : Predicate.compileAll q.isScopedGroup q.predicates = .ok (n.filters.map Filter.call)
  orders : q.orders.mapM Order.read = .ok n.orders
  allFields : q.asksForAll = true → n.projection = none
  fields : q.asksForAll = false →
    ∃ paths, q.columns.mapM FieldPath.ofText = .ok paths ∧ n.projection = some paths
  start : n.start = cursorOf q.startAt q.startAfter
  stop : n.stop = cursorOf q.endAt q.endBefore
  offset : n.offset = nonzero q.offset
  limit : n.limit = (nonzero q.limitToLast).or (nonzero q.limit)
  keepsLast : n.keepsLast = (nonzero q.limitToLast).isSome

theorem Reads.describes {p : Parts} (h : q.Reads p) :
    q.Describes (q.compiled p) (q.storeQuery p) where
  source := rfl
  namesSource := h.source
  filters := (filters_compiled q p).symm
  predicates := h.filters
  orders := h.orders
  allFields hall := by
    have hprojection := h.projection
    rw [readProjection, if_pos hall] at hprojection
    exact (Except.ok.inj hprojection).symm
  fields hsome := by
    have hprojection := h.projection
    rw [readProjection, hsome, if_neg Bool.false_ne_true] at hprojection
    obtain ⟨paths, hpaths, hprojection⟩ := Outcome.bind_eq_ok.1 hprojection
    exact ⟨paths, hpaths, (Except.ok.inj hprojection).symm⟩
  start := rfl
  stop := rfl
  offset := rfl
  limit := rfl
  keepsLast := rfl

/-- **Compiled queries.**  The query of the store that comes out of a compiled query has the parts
that the query asks for: the compiled filters and the orderings in order, the fields that are named
unless all are asked for, the cursors that leave out their documents before those that keep them,
and numbers that are not zero, the limit to the last documents before the other one.  A compiled
query is refused exactly for a source that no store takes, and for an operand that is a marker. -/
theorem compiled_describes {c : CompiledQuery} (h : q.compile = .ok c) :
    (∀ n, c.toStoreQuery = .ok n → q.Describes c n) ∧
      ((∃ e, c.toStoreQuery = .error e) ↔
        c.source.IsRefused ∨ ∃ f ∈ c.calls.filterMap Call.filter?, f.operand.isMarker = true) := by
  obtain ⟨p, hreads, rfl⟩ := compile_eq_ok.1 h
  constructor
  · intro n hn
    obtain ⟨-, rfl⟩ := hreads.toStoreQuery_eq_ok.1 hn
    exact hreads.describes
  · rw [Outcome.fails_iff, filters_compiled]
    simp only [hreads.toStoreQuery_eq_ok, exists_and_left, exists_eq, and_true, not_and_or, not_not]
    simp [compiled]

/-- A query of users with a part of each kind. -/
def allParts : QueryState where
  source := some "users"
  columns := ["name", "address.city"]
  predicates := [.leaf {} (.basic "age" ">=" (.integer 18))]
  orders := [⟨"age", .descending⟩]
  startAt := [.integer 30]
  startAfter := [.integer 40]
  endAt := [.integer 20]
  offset := some 0
  limit := some 5
  limitToLast := some 2

/-- A query whose operand is a marker, which no store takes. -/
def markerOperand : QueryState where
  source := some "users"
  predicates := [.leaf {} (.basic "age" "==" .deleteField)]

/-- The documents after 40 and up to 20, the last two of them; and an operand that is refused. -/
theorem compiled_describes_allParts :
    (∃ c n, allParts.compile = .ok c ∧ c.toStoreQuery = .ok n ∧ allParts.Describes c n ∧
      n.start = some ⟨[.integer 40], false⟩ ∧ n.stop = some ⟨[.integer 20], true⟩ ∧
      n.offset = none ∧ n.limit = some 2 ∧ n.keepsLast = true) ∧
    ∃ c, markerOperand.compile = .ok c ∧ ∃ e, c.toStoreQuery = .error e := by
  constructor
  · exact ⟨_, _, rfl, rfl, (compiled_describes rfl).1 _ rfl, rfl, rfl, rfl, rfl, rfl⟩
  · have hcompile : markerOperand.compile
        = .ok ⟨.collection ⟨["users"]⟩, [.filter ⟨["age"]⟩ .equal .deleteField]⟩ := by rfl
    exact ⟨_, hcompile, (compiled_describes hcompile).2.2 (.inr ⟨_, List.mem_cons_self, rfl⟩)⟩

/-- A query can be executed exactly if its parts can be read and are accepted. -/
theorem toStoreQuery_eq_ok {n : StoreQuery} :
    q.toStoreQuery = .ok n ↔ ∃ p, q.Reads p ∧
      (¬ p.source.IsRefused ∧ ∀ f ∈ p.filters, f.operand.isMarker = false) ∧
        n = q.storeQuery p := by
  rw [toStoreQuery, Outcome.bind_eq_ok]
  constructor
  · intro h
    obtain ⟨c, hc, hn⟩ := h
    obtain ⟨p, hreads, rfl⟩ := compile_eq_ok.1 hc
    exact ⟨p, hreads, hreads.toStoreQuery_eq_ok.1 hn⟩
  · intro h
    obtain ⟨p, hreads, hn⟩ := h
    exact ⟨_, hreads.compile, hreads.toStoreQuery_eq_ok.2 hn⟩

end QueryState

end DocStore
