import DocStore.Proofs.Document.Cover
import DocStore.Proofs.Store.Reads

/-!
# Creating a document

The data of a new document may hold increments, and its other values are to be plain
(`Creatable`).  Encoding takes the increments out, with the maps that hold nothing else, and the
store puts their operands in again, path by path.  What is created is the data with each increment
replaced by its operand (`Value.resolvedFields`): both have the same ends, and fields in order are
known from their ends (`create_stores_resolved`).
-/

namespace DocStore

open Merge SplitData

/-! ## Markers at any depth -/

namespace Value

/-- The first value stands in the second, at any depth. -/
inductive Within : Value → Value → Prop
  | self (v : Value) : Within v v
  | item {v item : Value} {items : List Value} (hmem : item ∈ items) (h : Within v item) :
      Within v (.array items)
  | field {v : Value} {e : String × Value} {fields : Fields} (hmem : e ∈ fields)
      (h : Within v e.2) : Within v (.map fields)

mutual

/-- A plain value has no markers in it. -/
theorem isPlain_iff (v : Value) :
    v.isPlain = true ↔ ∀ w, Within w v → w.isMarker = false := by
  match v with
  | .array items =>
      rw [isPlain, plainItems_iff items]
      constructor
      · intro h w hw
        cases hw with
        | self => rfl
        | item hmem hw => exact h _ hmem w hw
      · exact fun h item hitem w hw => h w (.item hitem hw)
  | .map fields =>
      rw [isPlain, plainFields_iff fields]
      constructor
      · intro h w hw
        cases hw with
        | self => rfl
        | field hmem hw => exact h _ hmem w hw
      · exact fun h e he w hw => h w (.field he hw)
  | .increment _ | .deleteField =>
      constructor
      · intro h
        cases h
      · intro h
        cases h _ (.self _)
  | .null | .boolean _ | .integer _ | .double _ | .timestamp _ | .string _ | .bytes _
  | .reference _ =>
      refine ⟨fun _ w hw => ?_, fun _ => rfl⟩
      cases hw
      rfl

theorem plainItems_iff (items : List Value) :
    plainItems items = true ↔ ∀ item ∈ items, ∀ w, Within w item → w.isMarker = false := by
  match items with
  | [] => simp [plainItems]
  | item :: rest =>
      rw [plainItems, Bool.and_eq_true, isPlain_iff item, plainItems_iff rest,
        List.forall_mem_cons]

theorem plainFields_iff (fields : Fields) :
    plainFields fields = true ↔ ∀ e ∈ fields, ∀ w, Within w e.2 → w.isMarker = false := by
  match fields with
  | [] => simp [plainFields]
  | (name, v) :: rest =>
      rw [plainFields, Bool.and_eq_true, isPlain_iff v, plainFields_iff rest,
        List.forall_mem_cons]

end

/-! ## Accepted data by its lookups -/

/-- A write takes the value, whatever stands in it if it is a map. -/
def acceptedHere (merge : Bool) : Value → Bool
  | map _ => true
  | v => v.accepted merge

theorem acceptedFields_iff_forall {merge : Bool} {fields : Fields} :
    acceptedFields merge fields = true ↔
      ∀ e ∈ fields, e.1.isEmpty = false ∧ e.2.accepted merge = true := by
  induction fields with
  | nil => simp [acceptedFields]
  | cons first rest ih =>
      obtain ⟨name, v⟩ := first
      rw [acceptedFields, Bool.and_eq_true, Bool.and_eq_true, Bool.not_eq_true', ih,
        List.forall_mem_cons]

/-- A write takes a value if it takes all that is found below it. -/
theorem accepted_iff_getFrom {merge : Bool} {v : Value} (h : v.isOrdered = true) :
    v.accepted merge = true ↔ ∀ names w, getFrom (some v) names = some w →
      (∀ name ∈ names, name.isEmpty = false) ∧ w.acceptedHere merge = true := by
  induction v using map_induction with
  | leaf v hv =>
      have hhere : v.acceptedHere merge = v.accepted merge := by
        cases v with
        | map fields => cases hv
        | _ => rfl
      simp only [Fields.getFrom_eq_some_of_not_isBranch (isBranch_of_asMap? hv)]
      constructor
      · rintro haccepted _ _ ⟨rfl, rfl⟩
        exact ⟨nofun, hhere.trans haccepted⟩
      · exact fun hall => hhere.symm.trans (hall [] v ⟨rfl, rfl⟩).2
  | map fields ih =>
      rw [isOrdered, orderedFields_iff] at h
      rw [accepted, acceptedFields_iff_forall]
      constructor
      · intro haccepted names w hfound
        rcases Fields.getFrom_map_eq_some.1 hfound with
          ⟨rfl, rfl⟩ | ⟨name, rest, u, rfl, hu, hbelow⟩
        · exact ⟨nofun, rfl⟩
        · have hmem := Keyed.mem_of_get?_eq_some hu
          obtain ⟨hname, hvalue⟩ := haccepted _ hmem
          obtain ⟨hnames, hw⟩ := (ih _ hmem (h.2 _ hmem)).1 hvalue rest w hbelow
          exact ⟨List.forall_mem_cons.2 ⟨hname, hnames⟩, hw⟩
      · intro hall e he
        have hbelow (names : List String) (w : Value)
            (hfound : getFrom (some e.2) names = some w) :=
          hall (e.1 :: names) w (Fields.getFrom_map_eq_some.2
            (.inr ⟨_, _, _, rfl, (Keyed.get?_eq_some h.1).2 he, hfound⟩))
        refine ⟨(hbelow [] e.2 rfl).1 e.1 List.mem_cons_self, (ih e he (h.2 e he)).2 ?_⟩
        intro names w hfound
        obtain ⟨hnames, hw⟩ := hbelow names w hfound
        exact ⟨(List.forall_mem_cons.1 hnames).2, hw⟩

end Value

/-- A new document may have the data: outside of arrays no field is without a name or to be
deleted, and each increment has a number; in arrays there are no markers, at any depth. -/
structure Creatable (data : Fields) : Prop where
  names : ∀ path v, Fields.get? data path = some v → ∀ name ∈ path.segments, name.isEmpty = false
  deletes : ∀ path, Fields.get? data path ≠ some .deleteField
  operands : ∀ path operand, Fields.get? data path = some (.increment operand) →
    operand.isNumeric = true
  arrays : ∀ path items, Fields.get? data path = some (.array items) →
    ∀ w, Value.Within w (.array items) → w.isMarker = false

/-- A write takes all that it finds if a new document may have it. -/
theorem acceptedFields_iff_creatable {data : Fields} (h : Value.orderedFields data = true) :
    Value.acceptedFields false data = true ↔ Creatable data := by
  have hiff := @Value.accepted_iff_getFrom false (.map data) h
  rw [Value.accepted] at hiff
  rw [hiff]
  constructor
  · intro hall
    have hfound (path : FieldPath) (v : Value) (hget : Fields.get? data path = some v) :
        (∀ name ∈ path.segments, name.isEmpty = false) ∧ v.acceptedHere false = true := by
      obtain ⟨names⟩ := path
      obtain ⟨name, rest, rfl⟩ := List.exists_cons_of_ne_nil (Fields.ne_nil_of_getIn hget)
      exact hall (name :: rest) v hget
    exact
      { names := fun path v hget => (hfound path v hget).1
        deletes := fun path hget => nomatch (hfound path _ hget).2
        operands := fun path operand hget => (hfound path _ hget).2
        arrays := fun path items hget => (Value.isPlain_iff _).1 (hfound path _ hget).2 }
  · intro hdata names v hfound
    cases names with
    | nil =>
        cases hfound
        exact ⟨nofun, rfl⟩
    | cons name rest =>
        have hget : Fields.get? data ⟨name :: rest⟩ = some v := hfound
        refine ⟨hdata.names _ v hget, ?_⟩
        cases v with
        | deleteField => exact absurd hget (hdata.deletes _)
        | increment operand => exact hdata.operands _ operand hget
        | array items => exact (Value.isPlain_iff (.array items)).2 (hdata.arrays _ items hget)
        | _ => rfl

/-! ## Increments replaced by their operands -/

namespace Value

mutual

/-- The value with each increment outside of arrays replaced by its operand. -/
def resolved : Value → Value
  | increment operand => operand
  | map fields => map (resolvedFields fields)
  | v => v

def resolvedFields : Fields → Fields
  | [] => []
  | (name, v) :: rest => (name, v.resolved) :: resolvedFields rest

end

theorem resolvedFields_eq_map (fields : Fields) :
    resolvedFields fields = fields.map fun e => (e.1, e.2.resolved) := by
  induction fields with
  | nil => rfl
  | cons first rest ih => rw [resolvedFields, ih, List.map_cons]

theorem get?_resolvedFields (fields : Fields) (name : String) :
    Keyed.get? name (resolvedFields fields) = (Keyed.get? name fields).map resolved := by
  induction fields with
  | nil => rfl
  | cons first rest ih =>
      obtain ⟨other, v⟩ := first
      rw [resolvedFields, Keyed.get?, Keyed.get?, ih]
      split <;> rfl

/-- What is found of the resolved fields is what was found, resolved. -/
theorem getIn_resolvedFields {fields : Fields}
    (hoperands : ∀ names operand, Fields.getIn fields names = some (.increment operand) →
      operand.asMap? = none) (names : List String) :
    Fields.getIn (resolvedFields fields) names = (Fields.getIn fields names).map resolved := by
  induction names generalizing fields with
  | nil => rfl
  | cons name rest ih =>
      rw [getIn_cons, getIn_cons, get?_resolvedFields]
      cases rest with
      | nil => rfl
      | cons next later =>
          have hinner : innerOf ((Keyed.get? name fields).map resolved)
              = resolvedFields (innerOf (Keyed.get? name fields)) := by
            cases hheld : Keyed.get? name fields with
            | none => rfl
            | some v =>
                cases v with
                | increment operand =>
                    show innerOf (some operand) = []
                    rw [innerOf, Option.bind_some, hoperands [name] operand hheld]
                    rfl
                | _ => rfl
          rw [getFrom, getFrom, hinner]
          refine ih fun names operand hget => hoperands (name :: names) operand ?_
          obtain ⟨first, others, rfl⟩ := List.exists_cons_of_ne_nil (Fields.ne_nil_of_getIn hget)
          rw [getIn_cons]
          exact hget

theorem asMap?_of_isNumeric {v : Value} (h : v.isNumeric = true) : v.asMap? = none := by
  cases v with
  | map fields => cases h
  | _ => rfl

theorem isOrdered_of_isNumeric {v : Value} (h : v.isNumeric = true) : v.isOrdered = true := by
  cases v with
  | map fields => cases h
  | _ => rfl

theorem orderedFields_resolvedFields_of {fields : Fields} (h : Keyed.Sorted fields)
    (hvalues : ∀ e ∈ fields, e.2.resolved.isOrdered = true) :
    orderedFields (resolvedFields fields) = true := by
  rw [resolvedFields_eq_map]
  refine orderedFields_iff.2 ⟨List.pairwise_map.2 h, fun e he => ?_⟩
  obtain ⟨d, hd, rfl⟩ := List.mem_map.1 he
  exact hvalues d hd

theorem isOrdered_resolved {v : Value} (h : v.isOrdered = true)
    (haccepted : v.accepted false = true) : v.resolved.isOrdered = true := by
  induction v using map_induction with
  | leaf v hv =>
      cases v with
      | map fields => cases hv
      | increment operand => exact isOrdered_of_isNumeric haccepted
      | _ => rfl
  | map fields ih =>
      rw [isOrdered, orderedFields_iff] at h
      rw [accepted, acceptedFields_iff_forall] at haccepted
      exact orderedFields_resolvedFields_of h.1 fun e he =>
        ih e he (h.2 e he) (haccepted e he).2

/-- What stays of a value that is no marker ends where the resolved value does. -/
theorem kept_eq_some_iff_resolved {v w : Value} (hincrement : ∀ operand, v ≠ .increment operand)
    (hdelete : v ≠ .deleteField) (hend : w.isBranch = false) :
    kept v = some w ↔ v.resolved = w := by
  rw [kept_eq_some_of_end hend]
  cases v with
  | increment operand => exact absurd rfl (hincrement operand)
  | deleteField => exact absurd rfl hdelete
  | map fields =>
      cases fields with
      | nil =>
          refine ⟨And.left, fun h => ⟨h, ?_⟩⟩
          rw [← h]
          rfl
      | cons first rest =>
          constructor
          · rintro ⟨rfl, -⟩
            cases hend
          · rintro rfl
            cases hend
  | _ =>
      refine ⟨And.left, fun h => ⟨h, ?_⟩⟩
      rw [← h]
      rfl

end Value

/-! ## Encoding and creation together -/

/-- The increments of data are apart from one another. -/
theorem RaisesEach.apart {data : Fields} {increments : List Increment}
    (h : RaisesEach data increments) : (increments.map (·.path)).Pairwise FieldPath.Apart := by
  have hend (path : FieldPath) (hpath : path ∈ increments.map (·.path)) :
      ∃ operand, Fields.get? data path = some (.increment operand) := by
    obtain ⟨i, hi, rfl⟩ := List.mem_map.1 hpath
    exact ⟨i.operand, (h.mem_iff i.path i.operand).1 hi⟩
  refine h.nodup.pairwise_of_forall_ne fun path hpath other hother hne => ?_
  obtain ⟨operand, hget⟩ := hend path hpath
  obtain ⟨operand', hget'⟩ := hend other hother
  exact Fields.apart_of_ends hget rfl hget' rfl fun heq => hne (congrArg FieldPath.mk heq)

namespace Memory

/-- Increments are edits of their own. -/
theorem applyIncrements_eq (fields : Fields) (increments : List Increment) :
    applyIncrements fields increments = applyAll fields (edits [] [] increments) :=
  merge_eq fields [] [] increments

section Created

variable {data : Fields} {increments : List Increment}
  (h : Value.orderedFields data = true) (hdata : Creatable data)
  (hraises : RaisesEach data increments)

include hdata hraises in
theorem isOrdered_of_mem_increments {i : Increment} (hi : i ∈ increments) :
    i.operand.isOrdered = true :=
  Value.isOrdered_of_isNumeric (hdata.operands _ _ ((hraises.mem_iff i.path i.operand).1 hi))

include h hdata hraises

/-- At the path of an increment the operand is put, since nothing of the data stayed there. -/
theorem get?_created_of_increment {path : FieldPath} {operand : Value}
    (hget : Fields.get? data path = some (.increment operand)) :
    Fields.get? (applyIncrements (keptFields data) increments) path = some operand := by
  have hnone : Fields.get? (keptFields data) path = none := by
    rw [Fields.get?, getIn_keptFields h, ← Fields.get?, hget]
    rfl
  have hfound := @get?_merge_of_mem_increments (keptFields data) [] [] increments
    (orderedFields_keptFields h) rfl (fun i hi => isOrdered_of_mem_increments hdata hraises hi)
    hraises.apart _ ((hraises.mem_iff path operand).2 hget) (Fields.ne_nil_of_getIn hget)
  rw [applyIncrements_eq, hfound, hnone]
  rfl

omit hdata hraises in
/-- Away from all increments stands what stayed of the data. -/
theorem get?_created_of_apart {path : FieldPath}
    (hpath : ∀ p ∈ increments.map (·.path), FieldPath.Apart p path) :
    Fields.get? (applyIncrements (keptFields data) increments) path
      = (Fields.get? data path).bind kept := by
  rw [applyIncrements_eq, get?_merge_of_apart hpath]
  exact getIn_keptFields h path.segments

omit h hraises in
theorem get?_resolvedFields (path : FieldPath) :
    Fields.get? (Value.resolvedFields data) path = (Fields.get? data path).map Value.resolved :=
  Value.getIn_resolvedFields (fun names operand hget =>
    Value.asMap?_of_isNumeric (hdata.operands ⟨names⟩ operand hget)) path.segments

/-- The created fields end where the resolved data does. -/
theorem sameEnds_created : Value.SameEnds (applyIncrements (keptFields data) increments)
    (Value.resolvedFields data) := by
  intro names w hend
  have hboth {path : FieldPath} {operand : Value}
      (hget : Fields.get? data path = some (.increment operand)) :
      Fields.get? (applyIncrements (keptFields data) increments) path = some operand ∧
        Fields.get? (Value.resolvedFields data) path = some operand := by
    refine ⟨get?_created_of_increment h hdata hraises hget, ?_⟩
    rw [get?_resolvedFields hdata, hget]
    rfl
  show Fields.get? _ ⟨names⟩ = some w ↔ Fields.get? _ ⟨names⟩ = some w
  by_cases hat : ∃ operand, Fields.get? data ⟨names⟩ = some (.increment operand)
  · obtain ⟨operand, hget⟩ := hat
    rw [(hboth hget).1, (hboth hget).2]
  · by_cases hapart : ∀ p ∈ increments.map (·.path), FieldPath.Apart p ⟨names⟩
    · rw [get?_created_of_apart h hapart, get?_resolvedFields hdata]
      cases hget : Fields.get? data ⟨names⟩ with
      | none => simp
      | some v =>
          rw [Option.bind_some, Option.map_some, Option.some.injEq]
          refine Value.kept_eq_some_iff_resolved (fun operand hv => ?_) (fun hv => ?_) hend
          · exact hat ⟨operand, hv ▸ hget⟩
          · exact hdata.deletes _ (hv ▸ hget)
    · -- Below an operand, or on the way to one, nothing ends.
      simp only [not_forall] at hapart
      obtain ⟨p, hp, hnot⟩ := hapart
      obtain ⟨i, hi, rfl⟩ := List.mem_map.1 hp
      have hget := (hraises.mem_iff i.path i.operand).1 hi
      have hoperand : i.operand.isBranch = false :=
        Value.isBranch_of_asMap? (Value.asMap?_of_isNumeric (hdata.operands _ _ hget))
      have hnone {fields : Fields} (hfound : Fields.get? fields i.path = some i.operand) :
          Fields.get? fields ⟨names⟩ ≠ some w := by
        intro hw
        refine hnot (Fields.apart_of_ends hfound hoperand hw hend ?_)
        rintro rfl
        exact hat ⟨i.operand, hget⟩
      exact iff_of_false (hnone (hboth hget).1) (hnone (hboth hget).2)

/-- **Resolved data.**  The increments that are taken out of data for a new document are put in
again as their operands, and nothing else changes. -/
theorem applyIncrements_keptFields :
    applyIncrements (keptFields data) increments = Value.resolvedFields data := by
  refine Value.eq_of_ends ?_ ?_ (sameEnds_created h hdata hraises)
  · rw [applyIncrements_eq]
    exact orderedFields_applyAll (orderedFields_keptFields h) (isOrdered_of_mem_edits rfl
      fun i hi => isOrdered_of_mem_increments hdata hraises hi)
  · have haccepted := (acceptedFields_iff_creatable h).2 hdata
    exact Value.isOrdered_resolved (v := .map data) h haccepted

end Created

/-- **Creating a document.**  Data is encoded for a new document exactly if such a document may have
it.  Where no document is at the key, the creation with the encoding succeeds and the document is
read then as the data with each increment replaced by its operand, created and updated at the time
of the commit. -/
theorem create_stores_resolved {data : Fields} (h : Value.orderedFields data = true) :
    ((∃ encoded, encodeCreate data = .ok encoded) ↔ Creatable data) ∧
      ∀ encoded, encodeCreate data = .ok encoded → ∀ (s : State) (key : DocumentKey),
        Keyed.get? key.path s.table = none →
        let stored : Stored := ⟨Value.resolvedFields data, s.clock.now, s.clock.now⟩
        (do datastore.commit [.create key encoded.fields encoded.increments]
            datastore.get key).runOn s
          = (.ok (stored.snapshot key s.clock.tick.now),
              { table := Keyed.insert key.path stored s.table, clock := s.clock.tick.tick }) := by
  constructor
  · simp only [encodeCreate_eq_ok, acceptedFields_iff_creatable h]
    constructor
    · rintro ⟨_, hdata, -⟩
      exact hdata
    · exact fun hdata => ⟨_, hdata, rfl⟩
  · intro encoded hencoded s key hnew stored
    obtain ⟨haccepted, rfl⟩ := encodeCreate_eq_ok.1 hencoded
    have hdata := (acceptedFields_iff_creatable h).1 haccepted
    have hfields : applyIncrements (keptFields data) (parts [] data).increments
        = Value.resolvedFields data := applyIncrements_keptFields h hdata (raisesEach h)
    refine @runOn_commit_get s (.create key _ _) stored ?_
    rw [applyWrite, hnew, Option.isSome_none, if_neg (by decide), hfields]
    rfl

/-- A new user without tags, who has been seen twice. -/
def newUser : Fields :=
  [("name", .string "Eve"), ("tags", .map []),
    ("visits", .map [("by", .map [("web", .increment (.integer 2))])])]

/-- The maps around the increment are left out of the encoding and are created all the same. -/
theorem create_stores_resolved_visits :
    let s : State := { clock := ⟨fun _ => ⟨0, 0⟩, 0⟩ }
    let key : DocumentKey := ⟨⟨["users", "eve"]⟩⟩
    let fields : Fields := [("name", .string "Eve"), ("tags", .map [])]
    let increments : List Increment := [⟨⟨["visits", "by", "web"]⟩, .integer 2⟩]
    let stored : Stored := ⟨[("name", .string "Eve"), ("tags", .map []),
      ("visits", .map [("by", .map [("web", .integer 2)])])], ⟨0, 0⟩, ⟨0, 0⟩⟩
    Value.orderedFields newUser = true ∧
      encodeCreate newUser = .ok ⟨fields, none, increments⟩ ∧ Creatable newUser ∧
      (do datastore.commit [.create key fields increments]; datastore.get key).runOn s
        = (.ok (stored.snapshot key ⟨0, 0⟩),
            { table := [(key.path, stored)], clock := s.clock.tick.tick }) := by
  intro s key fields increments stored
  have hordered : Value.orderedFields newUser = true := by decide
  have hencoded : encodeCreate newUser = .ok ⟨fields, none, increments⟩ := rfl
  obtain ⟨haccepts, hcreates⟩ := create_stores_resolved hordered
  exact ⟨hordered, hencoded, haccepts.1 ⟨_, hencoded⟩, hcreates _ hencoded s key rfl⟩

end Memory

end DocStore
