import DocStore.Proofs.Document.Diff
import DocStore.Proofs.Value.Doubles
import DocStore.Proofs.Value.Preorder

/-!
# When two states differ

No difference means that each field of the new state was there before and has not changed, and that
none is gone (`difference_eq_nil_iff`).  So dirtiness is decided by the comparison of values.  The
strict comparison knows two rules for doubles: one that stands by itself is compared by its text,
which tells the two zeros apart and no NaN from another; one in an array is compared as a number,
with all that the array holds.  By the second rule a record with a NaN in an array differs from
itself, and one zero can take the place of the other in an array without a difference.

The main statement, `isDirty_exact_iff`, says that these two are all: a record differs strictly from
itself exactly if an array or an increment in it encloses a NaN, and records between which there is
no difference have the same values at all paths, up to the bits of a NaN, exactly if the enclosed
doubles come from a set without one of the zeros.
-/

namespace DocStore.Diff

open Value

/-! ## No difference -/

variable {loose below : Bool} {before after : Fields}

theorem withRemovals_eq_nil_iff {changes : Fields} :
    withRemovals before after changes = [] ↔
      (∀ e ∈ before, (Keyed.get? e.1 after).isSome = true) ∧ changes = [] := by
  have hinsert (name : String) (v : Value) (m : Fields) : Keyed.insert name v m ≠ [] := by
    cases m with
    | nil => exact List.cons_ne_nil _ _
    | cons first rest =>
        rw [Keyed.insert]
        split <;> exact List.cons_ne_nil _ _
  have hfold (marks m : Fields) :
      marks.foldl (fun m e => Keyed.insert e.1 e.2 m) m = [] ↔ marks = [] ∧ m = [] := by
    induction marks generalizing m with
    | nil => simp
    | cons mark rest ih => simp [ih, hinsert]
  have hremovals : removals before after = [] ↔
      ∀ e ∈ before, (Keyed.get? e.1 after).isSome = true := by
    rw [removals, List.map_eq_nil_iff, List.filter_eq_nil_iff]
    simp [Option.isSome_iff_ne_none]
  rw [← hremovals]
  exact hfold (removals before after) changes

theorem changes_eq_nil_iff :
    changes loose below before after = [] ↔
      ∀ e ∈ after, ∃ old, Keyed.get? e.1 before = some old ∧
        changeOf loose below old e.2 = none := by
  induction after with
  | nil => simp [changes]
  | cons first rest ih =>
      obtain ⟨name, v⟩ := first
      rw [List.forall_mem_cons, ← ih, changes]
      cases Keyed.get? name before with
      | none => simp
      | some old => cases hchange : changeOf loose below old v <;> simp [hchange]

/-- There is no difference if no field is gone, none is new and none has changed. -/
theorem difference_eq_nil_iff :
    withRemovals before after (changes loose below before after) = [] ↔
      (∀ e ∈ before, (Keyed.get? e.1 after).isSome = true) ∧
        ∀ e ∈ after, ∃ old, Keyed.get? e.1 before = some old ∧
          changeOf loose below old e.2 = none := by
  rw [withRemovals_eq_nil_iff, changes_eq_nil_iff]

theorem isDirty_eq_false_iff :
    isDirty loose before after = false ↔
      withRemovals before after (changes loose false before after) = [] := by
  rw [isDirty, between, Bool.not_eq_false', List.isEmpty_iff]

/-- A map has not changed if there is no difference of the fields. -/
theorem changeOf_map_eq_none_iff (hbefore : before ≠ []) :
    changeOf loose below (.map before) (.map after) = none ↔
      withRemovals before after (changes loose true before after) = [] := by
  obtain ⟨first, rest, rfl⟩ := List.exists_cons_of_ne_nil hbefore
  rw [changeOf, ← List.isEmpty_iff]
  cases List.isEmpty _ with
  | true => simp
  | false =>
      simp only [Bool.false_eq_true, if_false, iff_false]
      split <;> exact Option.some_ne_none _

/-! ## A state against itself -/

/-- The texts of a double are the same, and to queries all values equal themselves. -/
theorem sameValue_self_iff {v : Value} (hmap : v.asMap? = none) :
    sameValue loose v v = true ↔ (loose = false → v.EnclosedIn (·.isNaN = false)) := by
  by_cases hdouble : ∃ d, v = .double d
  · obtain ⟨d, rfl⟩ := hdouble
    have htext : sameValue loose (.double d) (.double d) = (d.text == d.text) := by
      cases loose <;> rfl
    rw [htext]
    exact iff_of_true (beq_self_eq_true _) fun _ => trivial
  · rw [enclosedIn_iff (fun d hd => hdouble ⟨d, hd⟩) hmap]
    have hnot : isDouble v = false := by
      cases v with
      | double d => exact absurd ⟨d, rfl⟩ hdouble
      | _ => rfl
    cases loose with
    | true => simp [sameValue, hnot, storeEquals_iff, compare_self]
    | false => simp [sameValue, hnot, equals_self_iff]

/-- A state has no difference from itself, but strictly for one that encloses a NaN, if this is so
of each of its values. -/
theorem difference_self_iff {fields : Fields} (h : Keyed.Sorted fields)
    (hvalues : ∀ e ∈ fields, changeOf loose below e.2 e.2 = none ↔
      (loose = false → e.2.EnclosedIn (·.isNaN = false))) :
    withRemovals fields fields (changes loose below fields fields) = [] ↔
      (loose = false → EnclosedInFields (·.isNaN = false) fields) := by
  have hget : ∀ e ∈ fields, Keyed.get? e.1 fields = some e.2 :=
    fun e he => (Keyed.get?_eq_some h).2 he
  rw [difference_eq_nil_iff, enclosedInFields_iff]
  constructor
  · rintro ⟨-, hunchanged⟩ hstrict e he
    obtain ⟨old, hold, hchange⟩ := hunchanged e he
    rw [hget e he] at hold
    cases hold
    exact (hvalues e he).1 hchange hstrict
  · intro henclosed
    refine ⟨fun e he => ?_, fun e he => ⟨e.2, hget e he, ?_⟩⟩
    · rw [hget e he, Option.isSome_some]
    · exact (hvalues e he).2 fun hstrict => henclosed hstrict e he

/-- A value has not changed against itself, but strictly for one that encloses a NaN. -/
theorem changeOf_self_iff {v : Value} (h : v.isOrdered = true) :
    changeOf loose below v v = none ↔ (loose = false → v.EnclosedIn (·.isNaN = false)) := by
  induction v using map_induction generalizing below with
  | leaf v hmap =>
      have hchange : changeOf loose below v v = if sameValue loose v v then none else some v := by
        cases v with
        | map fields => cases hmap
        | _ => rfl
      rw [hchange, ← sameValue_self_iff hmap]
      cases sameValue loose v v <;> simp
  | map fields ih =>
      obtain ⟨hsorted, hvalues⟩ := orderedFields_iff.1 h
      by_cases hne : fields = []
      · subst hne
        cases loose <;> exact iff_of_true rfl fun _ => trivial
      · rw [changeOf_map_eq_none_iff hne, EnclosedIn]
        exact difference_self_iff hsorted fun e he => ih e he (hvalues e he)

/-- A state differs from itself strictly if it encloses a NaN, and loosely never. -/
theorem isDirty_self_iff {fields : Fields} (h : orderedFields fields = true) :
    isDirty loose fields fields = false ↔
      (loose = false → EnclosedInFields (·.isNaN = false) fields) := by
  obtain ⟨hsorted, hvalues⟩ := orderedFields_iff.1 h
  rw [isDirty_eq_false_iff]
  exact difference_self_iff hsorted fun e he => changeOf_self_iff (hvalues e he)

/-! ## States without a strict difference -/

variable {D : Double → Prop}

/-- Doubles of the same text are the same up to the bits of a NaN. -/
theorem withOneNaN_eq_of_text_eq {a b : Double} (h : a.text = b.text) :
    a.withOneNaN = b.withOneNaN := by
  rcases Double.eq_of_text_eq h with rfl | ⟨ha, hb⟩
  · rfl
  · rw [Double.withOneNaN, Double.withOneNaN, if_pos ha, if_pos hb]

/-- Values that are compared as they are and found the same are the same up to the bits of a NaN,
over enclosed doubles of a set without one of the zeros. -/
theorem Compared.withOneNaN_eq (hD : ¬ (D .zero ∧ D (.ofMagnitude true 0))) {old v : Value}
    (h : Compared old v) (hold : old.EnclosedIn D) (hv : v.EnclosedIn D)
    (hsame : sameValue false old v = true) : old.withOneNaN = v.withOneNaN := by
  rcases double_or_not old v with ⟨x, y, rfl, rfl⟩ | hnot
  · rw [sameValue_double, beq_iff_eq] at hsame
    exact congrArg double (withOneNaN_eq_of_text_eq hsame)
  rw [sameValue_of_not_double hnot] at hsame
  -- Equal values are of one kind, so each is neither a double nor a map with fields.
  have hdoubles : old.DoublesIn D ∧ v.DoublesIn D := by
    cases old with
    | double d =>
        cases v with
        | double e => cases hnot
        | _ => cases hsame
    | map fields =>
        cases v with
        | map fields' =>
            rcases h.apart with hinner | hmap
            · obtain rfl : fields = [] := hinner
              cases fields' with
              | nil => exact ⟨trivial, trivial⟩
              | cons => cases hsame
            · cases hmap
        | _ => cases hsame
    | _ => cases v <;> first | exact ⟨hold, hv⟩ | cases hsame
  exact congrArg withOneNaN (eq_of_equals hD hdoubles.1 hdoubles.2 hsame)

/-- States without a difference are the same up to the bits of a NaN, if the values are that have
not changed. -/
theorem withOneNaNFields_eq_of (hbefore : orderedFields before = true)
    (hafter : orderedFields after = true)
    (hnone : withRemovals before after (changes false below before after) = [])
    (hvalues : ∀ e ∈ after, ∀ old, Keyed.get? e.1 before = some old →
      changeOf false below old e.2 = none → old.withOneNaN = e.2.withOneNaN) :
    withOneNaNFields before = withOneNaNFields after := by
  obtain ⟨hkept, hunchanged⟩ := difference_eq_nil_iff.1 hnone
  refine Keyed.eq_of_get?_eq (sorted_withOneNaNFields hbefore) (sorted_withOneNaNFields hafter)
    fun name => ?_
  rw [get?_withOneNaNFields hbefore, get?_withOneNaNFields hafter]
  cases hv : Keyed.get? name after with
  | some v =>
      have hmem := Keyed.mem_of_get?_eq_some hv
      obtain ⟨old, hold, hchange⟩ := hunchanged _ hmem
      rw [hold, Option.map_some, Option.map_some, hvalues _ hmem old hold hchange]
  | none =>
      cases hold : Keyed.get? name before with
      | none => rfl
      | some old =>
          have hstill := hkept _ (Keyed.mem_of_get?_eq_some hold)
          rw [hv] at hstill
          cases hstill

/-- A value that has not changed is the same up to the bits of a NaN. -/
theorem withOneNaN_eq_of_changeOf (hD : ¬ (D .zero ∧ D (.ofMagnitude true 0))) {old v : Value}
    (hold : old.isOrdered = true) (hv : v.isOrdered = true) (hold' : old.EnclosedIn D)
    (hv' : v.EnclosedIn D) (h : changeOf false below old v = none) :
    old.withOneNaN = v.withOneNaN := by
  induction old, v using change_induction generalizing below with
  | compared old v hcompared =>
      rw [hcompared.change] at h
      split at h
      next hsame => exact hcompared.withOneNaN_eq hD hold' hv' hsame
      next => cases h
  | maps before after hne ih =>
      rw [changeOf_map_eq_none_iff hne] at h
      refine congrArg map (withOneNaNFields_eq_of hold hv h fun e he old hget hchange => ?_)
      exact ih e he old (isOrdered_of_get? hold hget) ((orderedFields_iff.1 hv).2 e he)
        (enclosedInFields_iff.1 hold' _ (Keyed.mem_of_get?_eq_some hget))
        (enclosedInFields_iff.1 hv' e he) hchange

/-- States without a strict difference are the same up to the bits of a NaN, over enclosed doubles
of a set without one of the zeros. -/
theorem withOneNaNFields_eq (hD : ¬ (D .zero ∧ D (.ofMagnitude true 0)))
    (hbefore : orderedFields before = true) (hafter : orderedFields after = true)
    (hbefore' : EnclosedInFields D before) (hafter' : EnclosedInFields D after)
    (h : isDirty false before after = false) :
    withOneNaNFields before = withOneNaNFields after :=
  withOneNaNFields_eq_of hbefore hafter (isDirty_eq_false_iff.1 h) fun e he _ hget hchange =>
    withOneNaN_eq_of_changeOf hD (isOrdered_of_get? hbefore hget)
      ((orderedFields_iff.1 hafter).2 e he)
      (enclosedInFields_iff.1 hbefore' _ (Keyed.mem_of_get?_eq_some hget))
      (enclosedInFields_iff.1 hafter' e he) hchange

/-- The zeros, each in an array: between these two there is no difference. -/
theorem get?_zeros_ne :
    (Fields.get? [("a", .array [.double .zero])] ⟨["a"]⟩).map withOneNaN
      ≠ (Fields.get? [("a", .array [.double (.ofMagnitude true 0)])] ⟨["a"]⟩).map withOneNaN := by
  intro hsame
  simp only [Fields.get?, Fields.getIn, Keyed.get?_cons_self, Option.map_some, withOneNaN,
    withOneNaNItems, Option.some.injEq, array.injEq, List.cons.injEq, double.injEq] at hsame
  exact absurd hsame.1 (by decide)

/-- **Dirtiness.**  A record never differs from itself loosely, and strictly exactly if an array or
an increment in it encloses a NaN.  Records without a strict difference have the same values at all
paths, up to the bits of a NaN, for all records over enclosed doubles of a set exactly if the set
does not have both zeros. -/
theorem isDirty_exact_iff {x : Fields} (hx : orderedFields x = true) (D : Double → Prop) :
    isDirty true x x = false ∧
    (isDirty false x x = false ↔ EnclosedInFields (·.isNaN = false) x) ∧
    ((∀ a b : Fields, orderedFields a = true → orderedFields b = true →
      EnclosedInFields D a → EnclosedInFields D b → isDirty false a b = false →
        ∀ path, (Fields.get? a path).map withOneNaN = (Fields.get? b path).map withOneNaN) ↔
      ¬ (D .zero ∧ D (.ofMagnitude true 0))) := by
  refine ⟨(isDirty_self_iff hx).2 fun h => Bool.noConfusion h, ?_, ?_, ?_⟩
  · rw [isDirty_self_iff hx]
    exact ⟨fun h => h rfl, fun h _ => h⟩
  · rintro hall ⟨hzero, hnegative⟩
    have hpaths := hall [("a", .array [.double .zero])]
      [("a", .array [.double (.ofMagnitude true 0)])] rfl rfl ⟨⟨hzero, trivial⟩, trivial⟩
      ⟨⟨hnegative, trivial⟩, trivial⟩ rfl
    exact get?_zeros_ne (hpaths ⟨["a"]⟩)
  · intro hD a b ha hb ha' hb' hclean path
    have hsame := withOneNaNFields_eq hD ha hb ha' hb' hclean
    rw [Fields.get?, Fields.get?, ← getIn_withOneNaNFields ha, ← getIn_withOneNaNFields hb, hsame]

/-- A NaN by itself does not make a record differ from itself. -/
theorem isDirty_exact_iff_best :
    let user : Fields := [("best", .double .nan), ("scores", .array [.double .zero])]
    orderedFields user = true ∧ isDirty true user user = false ∧
      isDirty false user user = false := by
  intro user
  have hordered : orderedFields user = true := by decide
  obtain ⟨hloose, hstrict, -⟩ := isDirty_exact_iff hordered (·.isNaN = false)
  exact ⟨hordered, hloose, hstrict.2 ⟨trivial, ⟨rfl, trivial⟩, trivial⟩⟩

/-- A NaN in an array differs from itself, and one zero takes the place of the other in an array
without a difference; at the top level the rules are the other way round. -/
theorem not_isDirty_exact :
    isDirty false [("a", .array [.double .nan])] [("a", .array [.double .nan])] = true ∧
    (isDirty false [("a", .array [.double .zero])]
        [("a", .array [.double (.ofMagnitude true 0)])] = false ∧
      (Fields.get? [("a", .array [.double .zero])] ⟨["a"]⟩).map withOneNaN
        ≠ (Fields.get? [("a", .array [.double (.ofMagnitude true 0)])] ⟨["a"]⟩).map withOneNaN) ∧
    isDirty false [("a", .double .nan)] [("a", .double .nan)] = false ∧
    isDirty false [("a", .double .zero)] [("a", .double (.ofMagnitude true 0))] = true := by
  refine ⟨rfl, ⟨rfl, get?_zeros_ne⟩, rfl, ?_⟩
  decide +kernel

end DocStore.Diff
