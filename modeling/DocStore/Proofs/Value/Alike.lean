import DocStore.Proofs.Value.Basic

/-!
# Values that are alike

Being alike is an equivalence: equality of doubles is one on the doubles that are numbers, and all
NaN are alike.  Alike records have the same names in the same order, with values that are alike
(`alikeAt_of_alikeFields`), so one is sorted if the other is.
-/

namespace DocStore.Value

/-! ## An equivalence -/

theorem alike_double_comm (a b : Double) :
    (a.equals b || (a.isNaN && b.isNaN)) = (b.equals a || (b.isNaN && a.isNaN)) := by
  rw [Bool.eq_iff_iff]
  simp only [Double.equals, Bool.or_eq_true, Bool.and_eq_true, beq_iff_eq, eq_comm (a := a)]
  tauto

theorem alike_double_trans {a b c : Double} (hab : (a.equals b || (a.isNaN && b.isNaN)) = true)
    (hbc : (b.equals c || (b.isNaN && c.isNaN)) = true) :
    (a.equals c || (a.isNaN && c.isNaN)) = true := by
  simp only [Double.equals, Bool.or_eq_true, Bool.and_eq_true, Bool.not_eq_true',
    beq_iff_eq] at hab hbc ⊢
  rcases hab with ⟨⟨ha, hb⟩, rfl | ⟨hza, hzb⟩⟩ | ⟨ha, hb⟩
  · exact hbc
  · rcases hbc with ⟨⟨-, hc⟩, rfl | ⟨-, hzc⟩⟩ | ⟨hnan, -⟩
    · exact .inl ⟨⟨ha, hc⟩, .inr ⟨hza, hzb⟩⟩
    · exact .inl ⟨⟨ha, hc⟩, .inr ⟨hza, hzc⟩⟩
    · rw [hb] at hnan
      cases hnan
  · rcases hbc with ⟨⟨hnot, -⟩, -⟩ | ⟨-, hc⟩
    · rw [hb] at hnot
      cases hnot
    · exact .inr ⟨ha, hc⟩

mutual

theorem alike_comm (a b : Value) : a.alike b = b.alike a := by
  cases a with
  | array as =>
      cases b with
      | array bs => exact alikeItems_comm as bs
      | _ => rfl
  | map as =>
      cases b with
      | map bs => exact alikeFields_comm as bs
      | _ => rfl
  | increment a =>
      cases b with
      | increment b => exact alike_comm a b
      | _ => rfl
  | double a =>
      cases b with
      | double b => exact alike_double_comm a b
      | _ => rfl
  | null | boolean _ | integer _ | timestamp _ | string _ | bytes _ | reference _ | deleteField =>
      cases b <;> first | rfl | exact Bool.beq_comm

theorem alikeItems_comm (as bs : List Value) : alikeItems as bs = alikeItems bs as := by
  match as, bs with
  | [], [] => rfl
  | [], _ :: _ => rfl
  | _ :: _, [] => rfl
  | a :: as, b :: bs => rw [alikeItems, alikeItems, alike_comm a b, alikeItems_comm as bs]

theorem alikeFields_comm (as bs : Fields) : alikeFields as bs = alikeFields bs as := by
  match as, bs with
  | [], [] => rfl
  | [], _ :: _ => rfl
  | _ :: _, [] => rfl
  | (k, a) :: as, (l, b) :: bs =>
      rw [alikeFields, alikeFields, alike_comm a b, alikeFields_comm as bs, Bool.beq_comm]

end

mutual

theorem alike_trans {a b c : Value} (hab : a.alike b = true) (hbc : b.alike c = true) :
    a.alike c = true := by
  cases a with
  | array as =>
      cases b with
      | array bs =>
          cases c with
          | array cs => exact @alikeItems_trans as bs cs hab hbc
          | _ => cases hbc
      | _ => cases hab
  | map as =>
      cases b with
      | map bs =>
          cases c with
          | map cs => exact @alikeFields_trans as bs cs hab hbc
          | _ => cases hbc
      | _ => cases hab
  | increment a =>
      cases b with
      | increment b =>
          cases c with
          | increment c => exact alike_trans (a := a) hab hbc
          | _ => cases hbc
      | _ => cases hab
  | double a =>
      cases b with
      | double b =>
          cases c with
          | double c => exact alike_double_trans hab hbc
          | _ => cases hbc
      | _ => cases hab
  | null | boolean _ | integer _ | timestamp _ | string _ | bytes _ | reference _ | deleteField =>
      cases b <;> simp only [alike, Bool.false_eq_true, beq_iff_eq] at hab
      all_goals
        subst_vars
        exact hbc

theorem alikeItems_trans {as bs cs : List Value} (hab : alikeItems as bs = true)
    (hbc : alikeItems bs cs = true) : alikeItems as cs = true := by
  match as, bs, cs with
  | [], [], [] => rfl
  | [], [], _ :: _ => cases hbc
  | [], _ :: _, _ => cases hab
  | _ :: _, [], _ => cases hab
  | _ :: _, _ :: _, [] => cases hbc
  | a :: as, b :: bs, c :: cs =>
      rw [alikeItems, Bool.and_eq_true] at hab hbc ⊢
      exact ⟨alike_trans hab.1 hbc.1, alikeItems_trans hab.2 hbc.2⟩

theorem alikeFields_trans {as bs cs : Fields} (hab : alikeFields as bs = true)
    (hbc : alikeFields bs cs = true) : alikeFields as cs = true := by
  match as, bs, cs with
  | [], [], [] => rfl
  | [], [], _ :: _ => cases hbc
  | [], _ :: _, _ => cases hab
  | _ :: _, [], _ => cases hab
  | _ :: _, _ :: _, [] => cases hbc
  | (k, a) :: as, (l, b) :: bs, (m, c) :: cs =>
      rw [alikeFields, Bool.and_eq_true, Bool.and_eq_true, beq_iff_eq] at hab hbc ⊢
      exact ⟨⟨hab.1.1.trans hbc.1.1, alike_trans hab.1.2 hbc.1.2⟩,
        alikeFields_trans hab.2 hbc.2⟩

end

/-! ## Alike records -/

theorem exists_of_alikeAt_some {held? : Option Value} {v : Value} (h : AlikeAt held? (some v)) :
    ∃ held, held? = some held ∧ held.alike v = true := by
  cases h with
  | some halike => exact ⟨_, rfl, halike⟩

section Records

variable {as bs : Fields} (h : alikeFields as bs = true)

include h

/-- Alike records have the same names. -/
theorem names_of_alikeFields : as.map (·.1) = bs.map (·.1) := by
  induction as generalizing bs with
  | nil =>
      cases bs with
      | nil => rfl
      | cons => cases h
  | cons first rest ih =>
      obtain ⟨k, a⟩ := first
      cases bs with
      | nil => cases h
      | cons first' rest' =>
          obtain ⟨l, b⟩ := first'
          rw [alikeFields, Bool.and_eq_true, Bool.and_eq_true, beq_iff_eq] at h
          rw [List.map_cons, List.map_cons, ih h.2, h.1.1]

/-- Lookups in alike records are alike. -/
theorem alikeAt_of_alikeFields (name : String) :
    AlikeAt (Keyed.get? name as) (Keyed.get? name bs) := by
  induction as generalizing bs with
  | nil =>
      cases bs with
      | nil => exact .none
      | cons => cases h
  | cons first rest ih =>
      obtain ⟨k, a⟩ := first
      cases bs with
      | nil => cases h
      | cons first' rest' =>
          obtain ⟨l, b⟩ := first'
          rw [alikeFields, Bool.and_eq_true, Bool.and_eq_true, beq_iff_eq] at h
          obtain ⟨⟨rfl, hvalue⟩, hrest⟩ := h
          by_cases hname : name = k
          · subst hname
            rw [Keyed.get?_cons_self, Keyed.get?_cons_self]
            exact .some hvalue
          · rw [Keyed.get?_cons_of_ne hname, Keyed.get?_cons_of_ne hname]
            exact ih hrest

theorem sorted_of_alikeFields (hbs : Keyed.Sorted bs) : Keyed.Sorted as := by
  have hnames : (bs.map (·.1)).Pairwise fun k l => compare k l = .lt := List.pairwise_map.2 hbs
  rw [← names_of_alikeFields h] at hnames
  exact List.pairwise_map.1 hnames

end Records

end DocStore.Value
