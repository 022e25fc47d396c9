import DocStore.Proofs.Store.Concurrent

/-!
# What is read after a merge

Where the paths of a merge are apart from one another, no edit of it disturbs another: each path of
the mask ends with what the data has there, each increment is taken of what was held before
(`Increased`), and everything apart from them all stays, also where a map has to replace what stood
on the way (`reads_after_merge`).
-/

namespace DocStore.Memory

open Number

/-! ## Increments -/

/-- What an increment leaves of what is held. -/
inductive Increased : Option Value → Value → Value → Prop
  /-- The operand itself where nothing is held, or no number. -/
  | replaced {held : Option Value} {operand : Value} (h : ∀ v ∈ held, v.isNumeric = false) :
      Increased held operand operand
  /-- The sum of two integers, if it fits in 64 bits. -/
  | sum {m n k : Int64} (h : k.toInt = m.toInt + n.toInt) :
      Increased (some (.integer m)) (.integer n) (.integer k)
  /-- The sum of their doubles, if it does not. -/
  | overflow {m n : Int64} (h : fitsInt64 (m.toInt + n.toInt) = false) :
      Increased (some (.integer m)) (.integer n)
        (.double ((Double.ofInt m.toInt).add (Double.ofInt n.toInt)))
  /-- The sum of doubles, if one of two numbers is a double. -/
  | widened {v operand : Value} {x y : Double} (hx : v.asDouble? = some x)
      (hy : operand.asDouble? = some y) (h : v = .double x ∨ operand = .double y) :
      Increased (some v) operand (.double (x.add y))
  /-- An operand that is no number, which no encoding yields, counts as the double zero. -/
  | uncounted {v operand : Value} {x : Double} (hx : v.asDouble? = some x)
      (h : operand.isNumeric = false) : Increased (some v) operand (.double (x.add .zero))

theorem asDouble?_eq_none {v : Value} : v.asDouble? = none ↔ v.isNumeric = false := by
  cases v <;> simp [Value.asDouble?, Value.isNumeric]

theorem asInteger?_eq_none {v : Value} (h : v.isNumeric = false) : v.asInteger? = none := by
  cases v with
  | integer n => cases h
  | _ => rfl

/-- Anything but a sum of two integers is a sum of doubles, if what is held is a number. -/
theorem increment_some {v operand : Value}
    (h : v.asInteger? = none ∨ operand.asInteger? = none) :
    increment (some v) operand
      = match v.asDouble? with
        | some x => .double (x.add (operand.asDouble?.getD .zero))
        | none => operand := by
  cases v with
  | integer m =>
      rcases h with h | h
      · cases h
      · cases operand with
        | integer n => cases h
        | _ => rfl
  | _ => rfl

theorem increased_integers (m n : Int64) :
    Increased (some (.integer m)) (.integer n) (increment (some (.integer m)) (.integer n)) := by
  show Increased _ _ (addIntegers m n)
  rw [addIntegers, int64?]
  cases hfits : fitsInt64 (m.toInt + n.toInt) with
  | true => exact .sum (toInt_ofInt hfits)
  | false => exact .overflow hfits

/-- An increment leaves what it is to leave. -/
theorem increased (held : Option Value) (operand : Value) :
    Increased held operand (increment held operand) := by
  cases held with
  | none => exact .replaced nofun
  | some v =>
      by_cases hintegers : v.asInteger? = none ∨ operand.asInteger? = none
      · rw [increment_some hintegers]
        cases hx : v.asDouble? with
        | none =>
            refine .replaced fun w hw => ?_
            cases hw
            exact asDouble?_eq_none.1 hx
        | some x =>
            cases hy : operand.asDouble? with
            | none => exact .uncounted hx (asDouble?_eq_none.1 hy)
            | some y =>
                refine .widened hx hy (hintegers.imp (fun hv => ?_) fun ho => ?_)
                · cases v <;> cases hx <;> first | rfl | cases hv
                · cases operand <;> cases hy <;> first | rfl | cases ho
      · rw [not_or, ← ne_eq, ← ne_eq, Option.ne_none_iff_exists', Option.ne_none_iff_exists']
          at hintegers
        obtain ⟨⟨m, hm⟩, n, hn⟩ := hintegers
        cases v <;> cases hm
        cases operand <;> cases hn
        exact increased_integers m n

theorem Increased.eq_increment {held : Option Value} {operand v : Value}
    (h : Increased held operand v) : v = increment held operand := by
  cases h with
  | replaced h =>
      cases held with
      | none => rfl
      | some v =>
          have hv := h v rfl
          rw [increment_some (.inl (asInteger?_eq_none hv)), asDouble?_eq_none.2 hv]
  | @sum m n k h =>
      show _ = addIntegers m n
      have hfits : fitsInt64 (m.toInt + n.toInt) = true := by
        rw [← h]
        exact fitsInt64_toInt k
      rw [addIntegers, int64?, if_pos hfits, ← h, Int64.ofInt_toInt]
  | @overflow m n h =>
      show _ = addIntegers m n
      rw [addIntegers, int64?, if_neg (Bool.eq_false_iff.1 h)]
  | widened hx hy h =>
      have hdouble := h.imp (congrArg Value.asInteger?) (congrArg Value.asInteger?)
      rw [increment_some hdouble, hx, hy]
      rfl
  | uncounted hx h =>
      rw [increment_some (.inr (asInteger?_eq_none h)), hx, asDouble?_eq_none.2 h]
      rfl

/-- The increment is the one value that may be left. -/
theorem increased_iff {held : Option Value} {operand v : Value} :
    Increased held operand v ↔ v = increment held operand :=
  ⟨Increased.eq_increment, fun h => h ▸ increased held operand⟩

/-! ## Reading after a merge -/

section Reads

variable {fields data : Fields} {mask : List FieldPath} {increments : List Increment}

theorem paths_edits : (edits data mask increments).map Edit.path
    = mask ++ increments.map (·.path) := by
  rw [edits, List.map_append, List.map_map, List.map_map]
  exact congrArg (· ++ _) (List.map_id' mask)

variable (hfields : Value.orderedFields fields = true)
  (hdata : Value.orderedFields data = true)
  (hoperands : ∀ i ∈ increments, i.operand.isOrdered = true)
  (hapart : (mask ++ increments.map (·.path)).Pairwise FieldPath.Apart)

include hfields hdata hoperands hapart

theorem get?_applyAll_edits {e : Edit} (he : e ∈ edits data mask increments)
    (hne : e.path.segments ≠ []) :
    Fields.get? (applyAll fields (edits data mask increments)) e.path = e.value? fields := by
  rw [← @paths_edits data, List.pairwise_map] at hapart
  exact get?_applyAll_of_mem hfields (isOrdered_of_mem_edits hdata hoperands) hapart he hne

/-- Each path of the mask ends with what the data has there. -/
theorem get?_merge_of_mem_mask {path : FieldPath} (hpath : path ∈ mask) :
    Fields.get? (applyAll fields (edits data mask increments)) path = Fields.get? data path := by
  by_cases hnil : path.segments = []
  · rw [Fields.get?, Fields.get?, hnil]
    rfl
  · have he : Edit.put path (Fields.get? data path) ∈ edits data mask increments :=
      List.mem_append_left _ (List.mem_map_of_mem hpath)
    exact get?_applyAll_edits hfields hdata hoperands hapart he hnil

/-- Each increment is taken of what was held before. -/
theorem get?_merge_of_mem_increments {i : Increment} (hi : i ∈ increments)
    (hne : i.path.segments ≠ []) :
    Fields.get? (applyAll fields (edits data mask increments)) i.path
      = some (increment (Fields.get? fields i.path) i.operand) := by
  have he : Edit.add i.path i.operand ∈ edits data mask increments :=
    List.mem_append_right _ (List.mem_map_of_mem hi)
  exact get?_applyAll_edits hfields hdata hoperands hapart he hne

end Reads

/-- What is apart from the paths of a merge stays. -/
theorem get?_merge_of_apart {fields data : Fields} {mask : List FieldPath}
    {increments : List Increment} {path : FieldPath}
    (h : ∀ p ∈ mask ++ increments.map (·.path), FieldPath.Apart p path) :
    Fields.get? (applyAll fields (edits data mask increments)) path = Fields.get? fields path := by
  refine get?_applyAll_of_apart fun e he => h e.path ?_
  rw [← @paths_edits data]
  exact List.mem_map_of_mem he

/-- A document is read as a commit of one write leaves it. -/
theorem runOn_commit_get {s : State} {w : Write} {stored : Stored}
    (h : applyWrite s.clock.now s.table w = .ok (Keyed.insert w.key.path stored s.table)) :
    (do datastore.commit [w]; datastore.get w.key).runOn s
      = (.ok (stored.snapshot w.key s.clock.tick.now),
          { table := Keyed.insert w.key.path stored s.table, clock := s.clock.tick.tick }) := by
  have hcommit : (datastore.commit [w]).runOn s = (.ok (),
      { table := Keyed.insert w.key.path stored s.table, clock := s.clock.tick }) := by
    rw [runOn_commit, commitTable_single, h]
  rw [Action.runOn_bind_of_ok hcommit]
  exact runOn_get_of_stored Keyed.get?_insert_self

/-- **What is read after a merge.**  A merge into a document, there or not, whose paths are apart
from one another succeeds and leaves in the document, as it is read then: at each path of its mask
what its data has there, or nothing; at the path of each increment what was held there before,
incremented; and at each path apart from them all what was held there before. -/
theorem reads_after_merge {s : State} {key : DocumentKey} {data : Fields}
    {mask : List FieldPath} {increments : List Increment}
    (hfields : Value.orderedFields (fieldsAt s.table key) = true)
    (hw : BringsOrdered (.set key data (some mask) increments))
    (hnames : ∀ i ∈ increments, i.path.segments ≠ [])
    (hapart : (mask ++ increments.map (·.path)).Pairwise FieldPath.Apart) :
    ∃ after : Stored,
      (do datastore.commit [.set key data (some mask) increments]; datastore.get key).runOn s
        = (.ok (after.snapshot key s.clock.tick.now),
            { table := Keyed.insert key.path after s.table, clock := s.clock.tick.tick }) ∧
      (∀ path ∈ mask, Fields.get? after.fields path = Fields.get? data path) ∧
      (∀ i ∈ increments, ∃ v, Fields.get? after.fields i.path = some v ∧
        Increased (Fields.get? (fieldsAt s.table key) i.path) i.operand v) ∧
      ∀ path, (∀ p ∈ mask ++ increments.map (·.path), FieldPath.Apart p path) →
        Fields.get? after.fields path = Fields.get? (fieldsAt s.table key) path := by
  have hmerge := @applyWrite_merge key _ s.table s.clock.now ⟨data, mask, increments, rfl⟩
  refine ⟨_, runOn_commit_get hmerge, ?_, ?_, ?_⟩
  · exact fun path hpath => get?_merge_of_mem_mask hfields hw.1 hw.2 hapart hpath
  · exact fun i hi => ⟨_, get?_merge_of_mem_increments hfields hw.1 hw.2 hapart hi (hnames i hi),
      increased _ _⟩
  · exact fun path hpath => get?_merge_of_apart hpath

/-- A user whose address is a text, and who has been seen three times. -/
def bobTable : Table :=
  [(⟨["users", "bob"]⟩,
    ⟨[("address", .string "Rome"), ("age", .integer 41), ("nick", .string "bobby"),
      ("visits", .integer 3)], ⟨0, 0⟩, ⟨0, 0⟩⟩)]

/-- The address becomes a map, the nickname goes, and the user is seen twice more. -/
theorem reads_after_merge_address :
    let s : State := { table := bobTable, clock := ⟨fun _ => ⟨0, 0⟩, 0⟩ }
    let key : DocumentKey := ⟨⟨["users", "bob"]⟩⟩
    let data : Fields := [("address", .map [("city", .string "Oslo")])]
    let mask : List FieldPath := [⟨["address", "city"]⟩, ⟨["nick"]⟩]
    let increments : List Increment := [⟨⟨["visits"]⟩, .integer 2⟩]
    ∃ after : Stored,
      (do datastore.commit [.set key data (some mask) increments]; datastore.get key).runOn s
        = (.ok (after.snapshot key ⟨0, 0⟩),
            { table := Keyed.insert key.path after s.table, clock := s.clock.tick.tick }) ∧
      Fields.get? after.fields ⟨["address", "city"]⟩ = some (.string "Oslo") ∧
      Fields.get? after.fields ⟨["nick"]⟩ = none ∧
      Fields.get? after.fields ⟨["visits"]⟩ = some (.integer 5) ∧
      Fields.get? after.fields ⟨["age"]⟩ = some (.integer 41) := by
  intro s key data mask increments
  obtain ⟨after, hrun, hmask, hincrements, hothers⟩ := @reads_after_merge s key data mask
    increments (by decide) ⟨by decide, by decide⟩ (by decide) (by decide)
  obtain ⟨v, hvisits, hsum⟩ := hincrements ⟨⟨["visits"]⟩, .integer 2⟩ List.mem_cons_self
  have hfive : v = .integer 5 := hsum.eq_increment
  rw [hfive] at hvisits
  exact ⟨after, hrun, hmask ⟨["address", "city"]⟩ (by decide), hmask ⟨["nick"]⟩ (by decide),
    hvisits, hothers ⟨["age"]⟩ (by decide)⟩

end DocStore.Memory
