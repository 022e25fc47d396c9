import DocStore.Proofs.Store.Edits
import DocStore.Proofs.Store.History
import Mathlib.Algebra.BigOperators.Group.List.Basic
import Mathlib.Algebra.Ring.Int.Defs
import Mathlib.Data.List.Infix

/-!
# Clients that merge into the same document

The commits of several clients reach the store in some order in which each client keeps its own
(`Interleaving`).  Two merges whose edits are compatible lead to the same state in either order.  A
field that the merges of all clients only add integers to, or leave alone, ends as the integer that
it was plus all amounts, in whatever order the commits come, as long as no sum on the way overflows.
Both are said by `merges_commute_and_additions_add_up`.
-/

namespace DocStore.Memory

open Number

/-! ## Interleavings -/

/-- The commits of some clients in an order in which each client keeps its own. -/
inductive Interleaving {α : Type} : List (List α) → List α → Prop
  | done {clients : List (List α)} (h : ∀ own ∈ clients, own = []) : Interleaving clients []
  | next {before after : List (List α)} {first : α} {own later : List α}
      (rest : Interleaving (before ++ own :: after) later) :
      Interleaving (before ++ (first :: own) :: after) (first :: later)

/-- Nothing is lost or repeated when commits are interleaved. -/
theorem Interleaving.perm {α : Type} {clients : List (List α)} {run : List α}
    (h : Interleaving clients run) : run.Perm clients.flatten := by
  induction h with
  | done h => rw [List.flatten_eq_nil_iff.2 h]
  | @next before after first own later _ ih =>
      rw [List.flatten_append, List.flatten_cons] at ih ⊢
      exact (ih.cons first).trans List.perm_middle.symm

/-! ## Amounts added to a field -/

/-- The integer that an edit adds to a field, if it adds one. -/
def Edit.amount? (field : FieldPath) : Edit → Option Int
  | add path (.integer n) => if path = field then some n.toInt else none
  | _ => none

/-- The edits of a write, if it is a merge. -/
def editsOf : Write → List Edit
  | .set _ data (some mask) increments => edits data mask increments
  | _ => []

/-- The integers that a write adds to a field of the document at a path. -/
def amounts (path : ResourcePath) (field : FieldPath) (w : Write) : List Int :=
  if w.key.path = path then (editsOf w).filterMap (Edit.amount? field) else []

/-- The write creates nothing, and to the document at a path it is a merge that adds integers to a
field or leaves it alone. -/
structure OnlyAdds (path : ResourcePath) (field : FieldPath) (w : Write) : Prop where
  creates : ∀ key data increments, w ≠ .create key data increments
  merges : w.key.path = path → ∃ data mask increments,
    w = .set w.key data (some mask) increments
  adds : w.key.path = path → ∀ e ∈ editsOf w,
    FieldPath.Apart e.path field ∨ (e.amount? field).isSome = true

/-- No sum of the first amounts overflows. -/
def SumsFit (start : Int) (amounts : List Int) : Prop :=
  ∀ first, first <+: amounts → fitsInt64 (start + first.sum) = true

theorem SumsFit.of_append {start : Int} {xs ys : List Int} (h : SumsFit start (xs ++ ys)) :
    SumsFit start xs ∧ SumsFit (start + xs.sum) ys := by
  refine ⟨fun first hfirst => h first (hfirst.trans (List.prefix_append _ _)), ?_⟩
  intro first hfirst
  have hsum := h (xs ++ first) ((List.prefix_append_right_inj xs).2 hfirst)
  rwa [List.sum_append, ← Int.add_assoc] at hsum

theorem SumsFit.nil {m : Int} (hm : fitsInt64 m = true) : SumsFit m [] := by
  intro first hfirst
  rw [List.prefix_nil.1 hfirst, List.sum_nil, Int.add_zero]
  exact hm

/-- The sums from a number on fit if the number does and the sums from the next one on. -/
theorem SumsFit.cons_iff {m a : Int} {rest : List Int} (hm : fitsInt64 m = true) :
    SumsFit m (a :: rest) ↔ SumsFit (m + a) rest := by
  constructor
  · intro h
    rw [← List.singleton_append] at h
    have hrest := h.of_append.2
    rwa [List.sum_singleton] at hrest
  · intro h first hfirst
    rcases List.prefix_cons_iff.1 hfirst with rfl | ⟨others, rfl, hothers⟩
    · rwa [List.sum_nil, Int.add_zero]
    · rw [List.sum_cons, ← Int.add_assoc]
      exact h others hothers

/-- A document holds an integer in a field. -/
def HoldsInteger (field : FieldPath) (n : Int) (fields : Fields) : Prop :=
  ∃ m, Fields.get? fields field = some (.integer m) ∧ m.toInt = n

section Adds

variable {path : ResourcePath} {field : FieldPath} {n : Int} {fields : Fields}

theorem HoldsInteger.ne_nil (h : HoldsInteger field n fields) : field.segments ≠ [] := by
  intro hnil
  obtain ⟨m, hheld, -⟩ := h
  rw [Fields.get?, hnil] at hheld
  cases hheld

theorem amount?_eq_some {e : Edit} {amount : Int} :
    e.amount? field = some amount ↔ ∃ a, e = .add field (.integer a) ∧ a.toInt = amount := by
  constructor
  · intro h
    cases e with
    | put path value? => cases h
    | add path operand =>
        cases operand with
        | integer a =>
            rw [Edit.amount?, Option.ite_none_right_eq_some] at h
            obtain ⟨rfl, ha⟩ := h
            exact ⟨a, rfl, Option.some.inj ha⟩
        | _ => cases h
  · intro h
    obtain ⟨a, rfl, rfl⟩ := h
    rw [Edit.amount?, if_pos rfl]

/-- An integer that is added to the field leaves the sum there. -/
theorem HoldsInteger.add {a : Int64} (h : HoldsInteger field n fields)
    (hfits : fitsInt64 (n + a.toInt) = true) :
    HoldsInteger field (n + a.toInt) ((Edit.add field (.integer a)).apply fields) := by
  have hne := h.ne_nil
  obtain ⟨m, hheld, rfl⟩ := h
  refine ⟨Int64.ofInt (m.toInt + a.toInt), ?_, toInt_ofInt hfits⟩
  have hsum : increment (some (.integer m)) (.integer a)
      = .integer (Int64.ofInt (m.toInt + a.toInt)) :=
    increment_integer (fun d hd => by cases hd) hfits
  rw [← hsum, ← hheld]
  exact Fields.getIn_setIn_self hne

/-- An edit adds its amount to the field, or leaves it as it is. -/
theorem HoldsInteger.apply {e : Edit} (h : HoldsInteger field n fields)
    (he : FieldPath.Apart e.path field ∨ (e.amount? field).isSome = true)
    (hfits : SumsFit n (e.amount? field).toList) :
    HoldsInteger field (n + (e.amount? field).toList.sum) (e.apply fields) := by
  cases hamount : e.amount? field with
  | some amount =>
      obtain ⟨a, rfl, rfl⟩ := amount?_eq_some.1 hamount
      have hsum := hfits [a.toInt] (by rw [hamount]; exact List.prefix_refl _)
      rw [List.sum_singleton] at hsum
      rw [Option.toList_some, List.sum_singleton]
      exact h.add hsum
  | none =>
      rcases he with hapart | hsome
      · obtain ⟨m, hheld, hm⟩ := h
        rw [Option.toList_none, List.sum_nil, Int.add_zero]
        exact ⟨m, (get?_apply_of_apart hapart).trans hheld, hm⟩
      · rw [hamount] at hsome
        cases hsome

/-- The edits of a merge add their amounts, one after the other. -/
theorem HoldsInteger.applyAll {es : List Edit} (h : HoldsInteger field n fields)
    (hes : ∀ e ∈ es, FieldPath.Apart e.path field ∨ (e.amount? field).isSome = true)
    (hfits : SumsFit n (es.filterMap (Edit.amount? field))) :
    HoldsInteger field (n + (es.filterMap (Edit.amount? field)).sum) (applyAll fields es) := by
  induction es generalizing fields n with
  | nil =>
      rw [List.filterMap_nil, List.sum_nil, Int.add_zero]
      exact h
  | cons e rest ih =>
      rw [List.forall_mem_cons] at hes
      have hsplit : (e :: rest).filterMap (Edit.amount? field)
          = (e.amount? field).toList ++ rest.filterMap (Edit.amount? field) := by
        rw [List.filterMap_cons]
        cases e.amount? field <;> rfl
      rw [hsplit] at hfits ⊢
      obtain ⟨hone, hrest⟩ := hfits.of_append
      rw [List.sum_append, ← Int.add_assoc]
      exact ih (h.apply hes.1 hone) hes.2 hrest

/-- A document is there and holds an integer in a field. -/
def IsHeld (field : FieldPath) (n : Int) (held : Option Stored) : Prop :=
  ∃ stored, held = some stored ∧ HoldsInteger field n stored.fields

/-- A write to the document adds its amounts to the field. -/
theorem IsHeld.effect {held : Option Stored} {w : Write} (h : IsHeld field n held)
    (hw : OnlyAdds path field w) (hpath : w.key.path = path) (now : Timestamp)
    (hfits : SumsFit n (amounts path field w)) :
    IsHeld field (n + (amounts path field w).sum) (effect now held w) := by
  obtain ⟨stored, rfl, hholds⟩ := h
  obtain ⟨data, mask, increments, hmerge⟩ := hw.merges hpath
  have hadds := hw.adds hpath
  rw [amounts, if_pos hpath] at hfits ⊢
  rw [hmerge] at hadds hfits ⊢
  refine ⟨_, rfl, ?_⟩
  show HoldsInteger field _ (applyIncrements (applyMask stored.fields data mask) increments)
  rw [merge_eq]
  exact hholds.applyAll hadds hfits

/-- Writes one after the other add their amounts to the field. -/
theorem IsHeld.heldAfter {held : Option Stored} {written : List (Timestamp × Write)}
    (h : IsHeld field n held) (hw : ∀ w ∈ written, OnlyAdds path field w.2)
    (hfits : SumsFit n ((written.map (·.2)).flatMap (amounts path field))) :
    IsHeld field (n + ((written.map (·.2)).flatMap (amounts path field)).sum)
      (heldAfter path held written) := by
  induction written generalizing held n with
  | nil =>
      rw [List.map_nil, List.flatMap_nil, List.sum_nil, Int.add_zero]
      exact h
  | cons first rest ih =>
      rw [List.forall_mem_cons] at hw
      rw [List.map_cons, List.flatMap_cons] at hfits ⊢
      obtain ⟨hone, hrest⟩ := hfits.of_append
      rw [List.sum_append, ← Int.add_assoc]
      refine ih ?_ hw.2 hrest
      dsimp only
      split
      next hpath => exact h.effect hw.1 hpath first.1 hone
      next hpath =>
        rwa [amounts, if_neg hpath, List.sum_nil, Int.add_zero]

end Adds

/-! ## Two merges -/

/-- The fields of the document at a key; none if it is not there. -/
def fieldsAt (table : Table) (key : DocumentKey) : Fields :=
  ((Keyed.get? key.path table).map (·.fields)).getD []

/-- The maps that a write brings in are in order. -/
def BringsOrdered : Write → Prop
  | .create _ data increments | .set _ data _ increments =>
    Value.orderedFields data = true ∧ ∀ i ∈ increments, i.operand.isOrdered = true
  | .delete _ => True

theorem isOrdered_of_mem_editsOf {w : Write} (h : BringsOrdered w) :
    ∀ e ∈ editsOf w, e.IsOrdered := by
  intro e he
  cases w with
  | create key data increments => cases he
  | delete key => cases he
  | set key data mask increments =>
      cases mask with
      | none => cases he
      | some mask => exact isOrdered_of_mem_edits h.1 h.2 e he

/-- The write is a merge into the document at a key. -/
def IsMerge (key : DocumentKey) (w : Write) : Prop :=
  ∃ data mask increments, w = .set key data (some mask) increments

section Merges

variable {key : DocumentKey} {w w' : Write} {table : Table} {now : Timestamp}

/-- What a merge leaves at its key. -/
theorem applyWrite_merge (h : IsMerge key w) :
    applyWrite now table w = .ok (Keyed.insert key.path
      ⟨applyAll (fieldsAt table key) (editsOf w),
        ((Keyed.get? key.path table).map (·.createTime)).getD now, now⟩ table) := by
  obtain ⟨data, mask, increments, rfl⟩ := h
  rw [editsOf, ← merge_eq]
  rfl

/-- Two merges one after the other, each at its time. -/
theorem applyWrite_applyWrite (h : IsMerge key w) (h' : IsMerge key w') (later : Timestamp) :
    (applyWrite now table w >>= fun table => applyWrite later table w')
      = .ok (Keyed.insert key.path
        ⟨applyAll (applyAll (fieldsAt table key) (editsOf w)) (editsOf w'),
          ((Keyed.get? key.path table).map (·.createTime)).getD now, later⟩ table) := by
  rw [applyWrite_merge h, Outcome.ok_bind, applyWrite_merge h', fieldsAt, Keyed.get?_insert_self,
    Keyed.insert_insert_self]
  rfl

/-- Merges that are compatible leave the same table in either order. -/
theorem applyWrite_comm (h : IsMerge key w) (h' : IsMerge key w')
    (hfields : Value.orderedFields (fieldsAt table key) = true) (hw : BringsOrdered w)
    (hw' : BringsOrdered w')
    (hcompatible : Compatible (fieldsAt table key) (editsOf w) (editsOf w')) (later : Timestamp) :
    ∃ table', (applyWrite now table w >>= fun table => applyWrite later table w') = .ok table' ∧
      (applyWrite now table w' >>= fun table => applyWrite later table w) = .ok table' := by
  refine ⟨_, applyWrite_applyWrite h h' later, ?_⟩
  rw [applyWrite_applyWrite h' h later, hcompatible.applyAll_comm hfields
    (isOrdered_of_mem_editsOf hw) (isOrdered_of_mem_editsOf hw')]

theorem commitTable_single (now : Timestamp) (table : Table) (w : Write) :
    commitTable now table [w] = applyWrite now table w := by
  show (applyWrite now table w >>= fun table => commitTable now table []) = _
  cases applyWrite now table w <;> rfl

theorem commitTable_pair (now : Timestamp) (table : Table) (w w' : Write) :
    commitTable now table [w, w']
      = applyWrite now table w >>= fun table => applyWrite now table w' := by
  show (applyWrite now table w >>= fun table => commitTable now table [w']) = _
  simp only [commitTable_single]

/-- Two commits of one write each that both succeed. -/
theorem runOn_commit_commit {s : State} {table' : Table}
    (h : (applyWrite s.clock.now s.table w >>= fun table => applyWrite s.clock.tick.now table w')
      = .ok table') :
    (do datastore.commit [w]; datastore.commit [w']).runOn s
      = (.ok (), { table := table', clock := s.clock.tick.tick }) := by
  obtain ⟨next, hfirst, hsecond⟩ := Outcome.bind_eq_ok.1 h
  have hrun : (datastore.commit [w]).runOn s
      = (.ok (), { table := next, clock := s.clock.tick }) := by
    rw [runOn_commit, commitTable_single, hfirst]
  rw [Action.runOn_bind_of_ok hrun, runOn_commit, commitTable_single, hsecond]

end Merges

/-! ## Clients -/

/-- What some clients add to a field of the document at a path, altogether. -/
def totalAdded (path : ResourcePath) (field : FieldPath) (clients : List (List (List Write))) :
    Int :=
  (clients.map fun own => (own.flatten.flatMap (amounts path field)).sum).sum

theorem sum_eq_totalAdded {path : ResourcePath} {field : FieldPath}
    {clients : List (List (List Write))} {run : List (List Write)}
    (h : Interleaving clients run) :
    (run.flatten.flatMap (amounts path field)).sum = totalAdded path field clients := by
  have hperm := (h.perm.flatten.flatMap_right (amounts path field)).sum_eq
  rw [hperm, totalAdded]
  clear h hperm
  induction clients with
  | nil => rfl
  | cons own rest ih =>
      rw [List.flatten_cons, List.flatten_append, List.flatMap_append, List.sum_append, ih,
        List.map_cons, List.sum_cons]

/-- **Merges of several clients.**  Two merges into the same document, there or not, whose edits are
compatible lead to the same state in either order, as commits of their own or as one.  Where the
writes of any number of clients only add integers to a field that holds an integer, or leave it
alone, and no sum overflows on the way, the field ends as the integer plus all amounts, in whatever
order the commits of the clients come. -/
theorem merges_commute_and_additions_add_up :
    (∀ (s : State) (key : DocumentKey) (w w' : Write), IsMerge key w → IsMerge key w' →
      Value.orderedFields (fieldsAt s.table key) = true → BringsOrdered w → BringsOrdered w' →
      Compatible (fieldsAt s.table key) (editsOf w) (editsOf w') →
      (∃ t, (do datastore.commit [w]; datastore.commit [w']).runOn s = (.ok (), t) ∧
        (do datastore.commit [w']; datastore.commit [w]).runOn s = (.ok (), t)) ∧
      ∃ t, (datastore.commit [w, w']).runOn s = (.ok (), t) ∧
        (datastore.commit [w', w]).runOn s = (.ok (), t)) ∧
    ∀ (s : State) (path : ResourcePath) (field : FieldPath) (n : Int)
      (clients : List (List (List Write))) (run : List (List Write)),
      Keyed.Sorted s.table → IsHeld field n (Keyed.get? path s.table) →
      Interleaving clients run →
      (∀ own ∈ clients, ∀ writes ∈ own, ∀ w ∈ writes, OnlyAdds path field w) →
      SumsFit n (run.flatten.flatMap (amounts path field)) →
      IsHeld field (n + totalAdded path field clients)
        (Keyed.get? path (afterCommits s run).table) := by
  constructor
  · intro s key w w' hmerge hmerge' hfields hw hw' hcompatible
    obtain ⟨table, hone, hother⟩ := @applyWrite_comm key w w' s.table s.clock.now hmerge hmerge'
      hfields hw hw' hcompatible s.clock.tick.now
    obtain ⟨table', hboth, hboth'⟩ := @applyWrite_comm key w w' s.table s.clock.now hmerge hmerge'
      hfields hw hw' hcompatible s.clock.now
    refine ⟨⟨_, runOn_commit_commit hone, runOn_commit_commit hother⟩,
      ⟨{ table := table', clock := s.clock.tick }, ?_, ?_⟩⟩
    · rw [runOn_commit, commitTable_pair, hboth]
    · rw [runOn_commit, commitTable_pair, hboth']
  · intro s path field n clients run hsorted hheld hrun hadds hfits
    have hwrites : ∀ writes ∈ run, ∀ w ∈ writes, OnlyAdds path field w := by
      intro writes hmem w hw
      obtain ⟨own, hown, hwrites⟩ := List.mem_flatten.1 (hrun.perm.mem_iff.1 hmem)
      exact hadds own hown writes hwrites w hw
    obtain ⟨hhistory, happlied⟩ := applied_run hsorted fun writes hmem w hw =>
      (hwrites writes hmem w hw).creates
    rw [happlied.held, ← sum_eq_totalAdded hrun, ← hhistory]
    rw [← hhistory] at hfits
    refine hheld.heldAfter (fun w hw => ?_) hfits
    have hmem : w.2 ∈ run.flatten := hhistory ▸ List.mem_map_of_mem hw
    obtain ⟨writes, hwritten, hw⟩ := List.mem_flatten.1 hmem
    exact hwrites writes hwritten w.2 hw

/-- A user who lives in Rome and has been seen three times. -/
def annTable : Table :=
  [(⟨["users", "ann"]⟩,
    ⟨[("address", .map [("city", .string "Rome")]), ("visits", .integer 3)], ⟨0, 0⟩, ⟨0, 0⟩⟩)]

/-- The city is removed, at the second visit of the day. -/
def leavesCity : Write :=
  .set ⟨⟨["users", "ann"]⟩⟩ [] (some [⟨["address", "city"]⟩]) [⟨⟨["visits"]⟩, .integer 2⟩]

/-- A postal code is put beside it, at the fifth visit of the day. -/
def entersCode : Write :=
  .set ⟨⟨["users", "ann"]⟩⟩ [("address", .map [("code", .string "00100")])]
    (some [⟨["address", "code"]⟩]) [⟨⟨["visits"]⟩, .integer 5⟩]

/-- Two merges into one map and one number, and three of two clients. -/
theorem merges_commute_and_additions_add_up_visits :
    let s : State := { table := annTable, clock := ⟨fun _ => ⟨0, 0⟩, 0⟩ }
    Compatible (fieldsAt s.table ⟨⟨["users", "ann"]⟩⟩) (editsOf leavesCity) (editsOf entersCode) ∧
      (∃ t,
        (do datastore.commit [leavesCity]; datastore.commit [entersCode]).runOn s = (.ok (), t) ∧
        (do datastore.commit [entersCode]; datastore.commit [leavesCity]).runOn s = (.ok (), t)) ∧
      Interleaving [[[leavesCity]], [[entersCode], [entersCode]]]
        [[entersCode], [leavesCity], [entersCode]] ∧
      IsHeld ⟨["visits"]⟩ 15 (Keyed.get? ⟨["users", "ann"]⟩
        (afterCommits s [[entersCode], [leavesCity], [entersCode]]).table) := by
  intro s
  have hshared : SharedAdd (fieldsAt s.table ⟨⟨["users", "ann"]⟩⟩)
      (.add ⟨["visits"]⟩ (.integer 2)) (.add ⟨["visits"]⟩ (.integer 5)) :=
    ⟨_, _, _, rfl, rfl, fun d hd => (by cases hd), by decide, by decide, by decide⟩
  have hcompatible : Compatible (fieldsAt s.table ⟨⟨["users", "ann"]⟩⟩) (editsOf leavesCity)
      (editsOf entersCode) := by
    refine ⟨by decide, by decide, List.forall_mem_cons.2 ⟨?_, List.forall_mem_singleton.2 ?_⟩⟩
    · exact fun e he => .inl (by revert e; decide)
    · exact List.forall_mem_cons.2 ⟨.inl (by decide), List.forall_mem_singleton.2 (.inr hshared)⟩
  have hrun : Interleaving [[[leavesCity]], [[entersCode], [entersCode]]]
      [[entersCode], [leavesCity], [entersCode]] := by
    have hdone : Interleaving [([] : List (List Write)), []] [] := .done (by simp)
    have hlast : Interleaving [[], [[entersCode]]] [[entersCode]] :=
      @Interleaving.next _ [[]] [] _ _ _ hdone
    have hmiddle : Interleaving [[[leavesCity]], [[entersCode]]] [[leavesCity], [entersCode]] :=
      @Interleaving.next _ [] [[[entersCode]]] _ _ _ hlast
    exact @Interleaving.next _ [[[leavesCity]]] [] _ _ _ hmiddle
  have hadds (w : Write) (hw : w = leavesCity ∨ w = entersCode) :
      OnlyAdds ⟨["users", "ann"]⟩ ⟨["visits"]⟩ w := by
    rcases hw with rfl | rfl
    · exact ⟨nofun, fun _ => ⟨_, _, _, rfl⟩, fun _ => by decide⟩
    · exact ⟨nofun, fun _ => ⟨_, _, _, rfl⟩, fun _ => by decide⟩
  have hfits : SumsFit 3 [5, 2, 5] := by
    intro first hfirst
    rw [← List.mem_inits] at hfirst
    revert first
    decide
  obtain ⟨hcommute, hsum⟩ := merges_commute_and_additions_add_up
  have hboth := hcommute s ⟨⟨["users", "ann"]⟩⟩ leavesCity entersCode ⟨_, _, _, rfl⟩
    ⟨_, _, _, rfl⟩ (by decide) ⟨by decide, by decide⟩ ⟨by decide, by decide⟩ hcompatible
  refine ⟨hcompatible, hboth.1, hrun, ?_⟩
  exact hsum s ⟨["users", "ann"]⟩ ⟨["visits"]⟩ 3 _ _ (List.pairwise_singleton _ _)
    ⟨_, rfl, _, rfl, rfl⟩ hrun (by simp [hadds]) hfits

end DocStore.Memory
