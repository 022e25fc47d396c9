import DocStore.Document.Encode
import DocStore.Proofs.Outcome

/-!
# What encoding accepts and what it gives

Encoding walks through data once and checks and splits it on the way.  Here the two are taken
apart.  `Value.accepted` says which data a write takes: no name of a field is empty, an increment
has a number, fields are deleted in a merge alone, and arrays hold no markers.  `keptFields`,
`raisedFields` and `leaves` are the parts of the data, each by a recursion of its own.

The main statement, `ofFields_eq_ok`, says that accepted data is split into these parts and no
other data is split at all.  `documentIdOf_eq_ok` says which values stand for a document id.
-/

namespace DocStore

namespace Value

mutual

/-- A write takes the value: fields are deleted in a merge alone, increments are numbers, and
there are no markers in arrays. -/
def accepted (merge : Bool) : Value → Bool
  | deleteField => merge
  | increment operand => operand.isNumeric
  | map fields => acceptedFields merge fields
  | v => v.isPlain

/-- A write takes all values and no name is empty. -/
def acceptedFields (merge : Bool) : Fields → Bool
  | [] => true
  | (name, v) :: rest => !name.isEmpty && v.accepted merge && acceptedFields merge rest

end

end Value

namespace SplitData

mutual

/-- What stays of a value without its markers; nothing of a map that holds nothing else. -/
def kept : Value → Option Value
  | .deleteField => none
  | .increment _ => none
  | .map (first :: rest) =>
    match keptFields (first :: rest) with
    | [] => none
    | inner => some (.map inner)
  | v => some v

/-- The fields of which something stays. -/
def keptFields : Fields → Fields
  | [] => []
  | (name, v) :: rest =>
    match kept v with
    | some w => (name, w) :: keptFields rest
    | none => keptFields rest

end

mutual

/-- The names on the way to each leaf of a value: what is no map, an empty map, or a field to
delete. -/
def leavesOf : Value → List (List String)
  | .increment _ => []
  | .map (first :: rest) => leaves (first :: rest)
  | _ => [[]]

/-- The names on the way to each leaf. -/
def leaves : Fields → List (List String)
  | [] => []
  | (name, v) :: rest => (leavesOf v).map (name :: ·) ++ leaves rest

end

mutual

/-- The operands of the increments in a value, with the names on the way to them. -/
def raisedOf : Value → List (List String × Value)
  | .increment operand => [([], operand)]
  | .map (first :: rest) => raised (first :: rest)
  | _ => []

/-- The operands of all increments, with the names on the way to them. -/
def raised : Fields → List (List String × Value)
  | [] => []
  | (name, v) :: rest => (raisedOf v).map (fun i => (name :: i.1, i.2)) ++ raised rest

end

/-- The parts of a value at the end of some names. -/
def partsOf (names : List String) (name : String) (v : Value) : SplitData where
  fields := ((kept v).map (name, ·)).toList
  increments := (raisedOf v).map fun i => ⟨⟨names ++ i.1⟩, i.2⟩
  mask := (leavesOf v).map fun leaf => ⟨names ++ leaf⟩

/-- The parts of the fields below some names. -/
def parts (names : List String) (fields : Fields) : SplitData where
  fields := keptFields fields
  increments := (raised fields).map fun i => ⟨⟨names ++ i.1⟩, i.2⟩
  mask := (leaves fields).map fun leaf => ⟨names ++ leaf⟩

/-- The parts of the first field come before those of the rest. -/
theorem parts_cons (names : List String) (name : String) (v : Value) (rest : Fields) :
    parts names ((name, v) :: rest)
      = (partsOf (names ++ [name]) name v).append (parts names rest) := by
  cases hkept : kept v <;>
    simp [parts, partsOf, append, keptFields, raised, leaves, hkept, Function.comp_def]

/-- The path of a field is made exactly when its name is not empty. -/
theorem ofSegments_child {parent : List String} (hparent : ∀ s ∈ parent, s.isEmpty = false)
    {name : String} {path : FieldPath} :
    FieldPath.ofSegments (parent ++ [name]) = .ok path ↔
      name.isEmpty = false ∧ ⟨parent ++ [name]⟩ = path := by
  have hany : (parent ++ [name]).any (·.isEmpty) = name.isEmpty := by
    have hno : parent.any (·.isEmpty) = false := by simpa using hparent
    simp [List.any_append, hno]
  unfold FieldPath.ofSegments
  rw [if_neg (by simp), hany]
  cases name.isEmpty
  · simp
  · simp

/-- The names on the way to a field are not empty if the field has a name. -/
theorem names_not_empty {parent : List String} (hparent : ∀ s ∈ parent, s.isEmpty = false)
    {name : String} (hname : name.isEmpty = false) :
    ∀ s ∈ parent ++ [name], s.isEmpty = false := by
  intro s hs
  rcases List.mem_append.1 hs with hs | hs
  · exact hparent s hs
  · rw [List.mem_singleton.1 hs]
    exact hname

mutual

/-- An accepted value is split into its parts, and no other value is. -/
theorem ofValue_eq_ok (merge : Bool) (name : String) {names : List String}
    (hnames : ∀ s ∈ names, s.isEmpty = false) (v : Value) (p : SplitData) :
    ofValue merge name ⟨names⟩ v = .ok p ↔
      v.accepted merge = true ∧ partsOf names name v = p := by
  match v with
  | .deleteField =>
      cases merge <;> simp [ofValue, Value.accepted, partsOf, kept, leavesOf, raisedOf]
  | .increment operand =>
      cases hnum : operand.isNumeric <;>
        simp [ofValue, Value.accepted, partsOf, kept, leavesOf, raisedOf, hnum]
  | .map [] =>
      simp [ofValue, Value.accepted, Value.acceptedFields, Value.isPlain, Value.plainFields,
        partsOf, kept, leavesOf, raisedOf]
  | .map (first :: rest) =>
      simp only [ofValue, Outcome.bind_eq_ok, Outcome.pure_eq_ok, Value.accepted,
        ofFields_eq_ok merge hnames (first :: rest)]
      have hparts : partsOf names name (.map (first :: rest))
          = { parts names (first :: rest) with
              fields :=
                if (keptFields (first :: rest)).isEmpty then []
                else [(name, .map (keptFields (first :: rest)))] } := by
        cases hkept : keptFields (first :: rest) <;>
          simp [partsOf, parts, kept, hkept, leavesOf, raisedOf]
      rw [hparts]
      constructor
      · intro hboth
        obtain ⟨inner, ⟨hacc, rfl⟩, rfl⟩ := hboth
        exact ⟨hacc, rfl⟩
      · intro hboth
        obtain ⟨hacc, rfl⟩ := hboth
        exact ⟨_, ⟨hacc, rfl⟩, rfl⟩
  | .null | .boolean _ | .integer _ | .double _ | .timestamp _ | .string _ | .bytes _
  | .reference _ =>
      simp [ofValue, Value.accepted, Value.isPlain, partsOf, kept, leavesOf, raisedOf]
  | .array items =>
      cases hplain : Value.plainItems items <;>
        simp [ofValue, Value.accepted, Value.isPlain, partsOf, kept, leavesOf, raisedOf, hplain]

/-- **Splitting.**  Accepted fields are split into their parts, and no other fields are. -/
theorem ofFields_eq_ok (merge : Bool) {names : List String}
    (hnames : ∀ s ∈ names, s.isEmpty = false) (fields : Fields) (p : SplitData) :
    ofFields merge names fields = .ok p ↔
      Value.acceptedFields merge fields = true ∧ parts names fields = p := by
  match fields with
  | [] => simp [ofFields, Value.acceptedFields, parts, keptFields, raised, leaves]
  | (name, v) :: rest =>
      simp only [ofFields, Outcome.bind_eq_ok, Outcome.pure_eq_ok, ofSegments_child hnames,
        Value.acceptedFields, Bool.and_eq_true, Bool.not_eq_true']
      constructor
      · intro hboth
        obtain ⟨path, ⟨hname, rfl⟩, here, hhere, later, hlater, rfl⟩ := hboth
        obtain ⟨hv, rfl⟩ := (ofValue_eq_ok merge name (names_not_empty hnames hname) v here).1 hhere
        obtain ⟨hrest, rfl⟩ := (ofFields_eq_ok merge hnames rest later).1 hlater
        exact ⟨⟨⟨hname, hv⟩, hrest⟩, parts_cons ..⟩
      · intro hboth
        obtain ⟨⟨⟨hname, hv⟩, hrest⟩, rfl⟩ := hboth
        have hhere := (ofValue_eq_ok merge name (names_not_empty hnames hname) v _).2 ⟨hv, rfl⟩
        have hlater := (ofFields_eq_ok merge hnames rest _).2 ⟨hrest, rfl⟩
        exact ⟨_, ⟨hname, rfl⟩, _, hhere, _, hlater, (parts_cons ..).symm⟩

end

end SplitData

open SplitData in
/-- The data of a new document is accepted or the write is not made. -/
theorem encodeCreate_eq_ok {data : Fields} {encoded : EncodedData} :
    encodeCreate data = .ok encoded ↔
      Value.acceptedFields false data = true ∧
        ⟨keptFields data, none, (parts [] data).increments⟩ = encoded := by
  have hnames : ∀ s ∈ ([] : List String), s.isEmpty = false := by simp
  simp only [encodeCreate, encodeSet, Outcome.bind_eq_ok, ofFields_eq_ok false hnames data,
    Bool.false_eq_true, if_false, Outcome.pure_eq_ok]
  constructor
  · intro hboth
    obtain ⟨_, ⟨hacc, rfl⟩, rfl⟩ := hboth
    exact ⟨hacc, rfl⟩
  · intro hboth
    obtain ⟨hacc, rfl⟩ := hboth
    exact ⟨_, ⟨hacc, rfl⟩, rfl⟩

/-- The text that a value stands for as a document id. -/
def Value.idText? : Value → Option String
  | .string s => some s
  | .integer n => some (Number.intText n.toInt)
  | .reference path => some ((Text.split '/' path).getLast?.getD "")
  | _ => none

/-- A value that stands for a text is checked by that text. -/
theorem documentIdOf_eq {v : Value} {text : String} (htext : v.idText? = some text) :
    documentIdOf v =
      if text.isEmpty || Text.hasChar '/' text then
        throw (.invalidArgument
          ("Document id '" ++ text ++ "' must be a non-empty single path segment"))
      else pure text := by
  cases v <;> cases htext <;> rfl

/-- **Document ids.**  A value stands for a document id if its text is one name that is not
empty, and no other value does. -/
theorem documentIdOf_eq_ok {v : Value} {id : String} :
    documentIdOf v = .ok id ↔
      v.idText? = some id ∧ id.isEmpty = false ∧ Text.hasChar '/' id = false := by
  cases htext : v.idText? with
  | none => cases v <;> simp_all [documentIdOf, Value.idText?, Outcome.bind_eq_ok]
  | some text =>
      rw [documentIdOf_eq htext]
      split
      next hbad =>
        simp only [Outcome.throw_eq_ok, Option.some.injEq, false_iff]
        intro hboth
        obtain ⟨rfl, hempty, hslash⟩ := hboth
        simp [hempty, hslash] at hbad
      next hgood =>
        simp only [Outcome.pure_eq_ok, Option.some.injEq]
        constructor
        · intro heq
          obtain rfl := heq
          simpa using hgood
        · exact And.left

/-- A value stands for a document id. -/
def Value.isDocumentId (v : Value) : Bool :=
  v.idText?.any fun id => !id.isEmpty && !Text.hasChar '/' id

theorem Value.isDocumentId_iff {v : Value} :
    v.isDocumentId = true ↔ ∃ id, documentIdOf v = .ok id := by
  simp [isDocumentId, documentIdOf_eq_ok, Option.any_eq_true]

end DocStore
