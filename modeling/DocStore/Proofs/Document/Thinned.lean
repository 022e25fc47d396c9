import DocStore.Proofs.Document.Diff

/-!
# What a document keeps of its record

A map that loses all its fields below the top level is removed from the document, while the record
goes on to hold it.  So a document may lack maps that its record has, but only below the top level,
and only such that hold nothing but further maps without anything in them: hollow ones
(`Thinned`).  Merges keep it so: a document that lacks no more than this of the first record lacks
no more of the second one, when the difference of the two has been merged into it
(`thinned_merged`).
-/

namespace DocStore

open SplitData Merge

/-! ## Hollow maps -/

namespace Value

mutual

/-- The value is a map that holds nothing but maps of this kind. -/
def isHollow : Value → Bool
  | .map fields => hollowFields fields
  | _ => false

/-- All values in a record are hollow maps. -/
def hollowFields : Fields → Bool
  | [] => true
  | (_, v) :: rest => v.isHollow && hollowFields rest

end

theorem hollowFields_iff {fields : Fields} :
    hollowFields fields = true ↔ ∀ e ∈ fields, e.2.isHollow = true := by
  induction fields with
  | nil => simp [hollowFields]
  | cons first rest ih =>
      obtain ⟨name, v⟩ := first
      rw [hollowFields, Bool.and_eq_true, ih, List.forall_mem_cons]

/-- What is held is a value without some of the hollow maps in it.  The value itself may be
missing if it is such a map below the top level. -/
inductive ThinnedAt : Bool → Option Value → Option Value → Prop
  | absent {below : Bool} : ThinnedAt below none none
  | dropped {v : Value} (hhollow : v.isHollow = true) : ThinnedAt true none (some v)
  | alike {below : Bool} {held v : Value} (halike : held.alike v = true) :
      ThinnedAt below (some held) (some v)
  | map {below : Bool} {held fields : Fields} (hsorted : Keyed.Sorted held)
      (hfields : ∀ name, ThinnedAt true (Keyed.get? name held) (Keyed.get? name fields)) :
      ThinnedAt below (some (.map held)) (some (.map fields))

/-- A record is held without some of the hollow maps below its top level. -/
structure Thinned (held fields : Fields) : Prop where
  sorted : Keyed.Sorted held
  get : ∀ name, ThinnedAt false (Keyed.get? name held) (Keyed.get? name fields)

mutual

theorem isHollow_of_alike {a b : Value} (h : a.alike b = true) (ha : a.isHollow = true) :
    b.isHollow = true := by
  cases a with
  | map as =>
      cases b with
      | map bs => exact @hollowFields_of_alike as bs h ha
      | _ => cases h
  | _ => cases ha

theorem hollowFields_of_alike {as bs : Fields} (h : alikeFields as bs = true)
    (has : hollowFields as = true) : hollowFields bs = true := by
  match as, bs with
  | [], [] => rfl
  | [], _ :: _ => cases h
  | _ :: _, [] => rfl
  | (k, a) :: as, (l, b) :: bs =>
      rw [alikeFields, Bool.and_eq_true, Bool.and_eq_true] at h
      rw [hollowFields, Bool.and_eq_true] at has ⊢
      exact ⟨isHollow_of_alike h.1.2 has.1, hollowFields_of_alike h.2 has.2⟩

end

variable {below : Bool} {held? old? v? : Option Value} {v : Value} {held fields : Fields}

theorem thinnedAt_of_alikeAt (h : AlikeAt held? v?) : ThinnedAt below held? v? := by
  cases h with
  | none => exact .absent
  | some halike => exact .alike halike

theorem thinned_refl (h : Keyed.Sorted fields) : Thinned fields fields where
  sorted := h
  get _ := thinnedAt_of_alikeAt (alikeAt_refl _)

/-- What lacks hollow maps of one value lacks them of a value that is alike. -/
theorem ThinnedAt.trans_alike (h : ThinnedAt below held? old?)
    (halike : AlikeAt old? v?) : ThinnedAt below held? v? := by
  induction h generalizing v? with
  | absent =>
      cases halike
      exact .absent
  | dropped hhollow =>
      cases halike with
      | some halike => exact .dropped (isHollow_of_alike halike hhollow)
  | alike hheld =>
      cases halike with
      | some halike => exact .alike (alike_trans hheld halike)
  | map hsorted _ ih =>
      cases halike with
      | @some _ v halike =>
          cases v with
          | map fields =>
              exact .map hsorted fun name => ih name (alikeAt_of_alikeFields halike name)
          | _ => cases halike

/-- Nothing is held of a value: below the top level it is a hollow map. -/
theorem ThinnedAt.of_none (h : ThinnedAt below none (some v)) :
    below = true ∧ v.isHollow = true := by
  cases h with
  | dropped hhollow => exact ⟨rfl, hhollow⟩

/-- Nothing is held of a record: all its values are hollow maps. -/
theorem hollowFields_of_thinnedAt (hfields : Keyed.Sorted fields)
    (h : ∀ name, ThinnedAt true none (Keyed.get? name fields)) : hollowFields fields = true :=
  hollowFields_iff.2 fun e he =>
    ((Keyed.get?_eq_some hfields).2 he ▸ h e.1).of_none.2

/-- What is held of a map is a map, or the map is hollow and nothing is held. -/
theorem ThinnedAt.of_map (h : ThinnedAt below held? (some (.map fields)))
    (hfields : Keyed.Sorted fields) :
    (held? = none ∧ below = true ∨ ∃ held, held? = some (.map held)) ∧
      Keyed.Sorted (innerOf held?) ∧
      ∀ name, ThinnedAt true (Keyed.get? name (innerOf held?)) (Keyed.get? name fields) := by
  cases h with
  | dropped hhollow =>
      refine ⟨.inl ⟨rfl, rfl⟩, .nil, fun name => ?_⟩
      cases hget : Keyed.get? name fields with
      | none => exact .absent
      | some v => exact .dropped (hollowFields_iff.1 hhollow _ (Keyed.mem_of_get?_eq_some hget))
  | @alike _ held _ halike =>
      cases held with
      | map held =>
          exact ⟨.inr ⟨held, rfl⟩, sorted_of_alikeFields halike hfields,
            fun name => thinnedAt_of_alikeAt (alikeAt_of_alikeFields halike name)⟩
      | _ => cases halike
  | @map _ held _ hsorted hheld => exact ⟨.inr ⟨held, rfl⟩, hsorted, hheld⟩

/-- What is held of a value without fields has none. -/
theorem ThinnedAt.innerOf_eq_nil (h : ThinnedAt below held? old?) (hinner : innerOf old? = []) :
    innerOf held? = [] := by
  cases h with
  | absent => rfl
  | dropped => rfl
  | @alike _ held old halike =>
      cases held with
      | map held =>
          cases old with
          | map fields =>
              obtain rfl : fields = [] := hinner
              cases held with
              | nil => rfl
              | cons => cases halike
          | _ => cases halike
      | _ => rfl
  | @map _ held fields hsorted hfields =>
      obtain rfl : fields = [] := hinner
      refine Keyed.eq_of_get?_eq hsorted .nil fun name => ?_
      cases hget : Keyed.get? name held with
      | none => exact hget
      | some v =>
          have hname := hfields name
          rw [hget] at hname
          cases hname

end Value

/-! ## Merging onto what is missing -/

namespace Merge

variable {ok : String → Bool} {held? change? : Option Value} {base data : Fields} {name : String}

/-- What a merge can make of one field: what the data says, or nothing of a map where nothing is
and the data has only markers. -/
inductive Applies (held? : Option Value) : Option Value → Option Value → Prop
  | made (change? : Option Value) : Applies held? change? (applied held? change?)
  | vain {fields : Fields} (hheld : held? = none) (hne : fields ≠ [])
      (hnil : merged [] fields = []) : Applies held? (some (.map fields)) none

/-- A field is made what the data says also by a map without fields that lies on nothing, unless
nothing comes of it. -/
theorem applies_merged (hbase : Keyed.Sorted base) (hdata : Value.recordFields ok true data = true)
    (hfits : ∀ fields, Keyed.get? name data = some (.map fields) →
      Keyed.get? name base = none ∨ (∃ child, Keyed.get? name base = some (.map child)) ∨
        (Value.map fields).isRecord ok false = true) :
    Applies (Keyed.get? name base) (Keyed.get? name data) (Keyed.get? name (merged base data)) := by
  have hsorted := Value.sorted_of_recordFields hdata
  rw [merged]
  rcases get?_putAll_leaves_cases hsorted hbase name with
    ⟨hnone, hget⟩ | ⟨v, near, hv, hnear, hheld, hget⟩
  · rw [hget, hnone]
    exact .made none
  · have hkept : Keyed.get? name (keptFields data) = kept v := by
      rw [get?_keptFields hsorted, hv, Option.bind_some]
    have hrecord := Value.isRecord_of_get? hdata hv
    rw [hget, hv, ← hheld]
    by_cases hmap : Keyed.get? name near = none ∧ ∃ first rest, v = .map (first :: rest)
    · obtain ⟨hnone, first, rest, rfl⟩ := hmap
      have hchild : Fields.childMap (keptFields data) name = keptFields (first :: rest) := by
        rw [childMap_eq, hkept, innerOf_kept]
      have hpaths : ∀ p ∈ leaves (first :: rest), p ≠ [] := fun p => ne_nil_of_mem_leaves
      have habsent := @get?_putAll_absent (keptFields data) near name _ hpaths hnone
      rw [hchild] at habsent
      rw [leavesOf_map (List.cons_ne_nil _ _)]
      rcases habsent with hmade | ⟨hgone, hnil⟩
      · rw [hmade, hnone]
        exact .made (some (.map (first :: rest)))
      · rw [hgone]
        exact .vain hnone (List.cons_ne_nil _ _) hnil
    · rw [get?_putAll_leavesOf hrecord hkept hnear]
      · exact .made (some v)
      · rintro fields rfl
        cases fields with
        | nil => exact .inr rfl
        | cons first rest =>
            rcases hfits _ hv with hnone | hfits
            · exact absurd ⟨hheld.trans hnone, first, rest, rfl⟩ hmap
            · rwa [hheld]

end Merge

/-! ## Merging a difference -/

namespace Diff

open Value

variable {ok : String → Bool} {below : Bool} {before after base : Fields}

/-- What is marked as gone, being still there, is a hollow map. -/
theorem isHollow_of_changeOf {old v : Value} (hv : v.isRecord ok false = true)
    (hchange : changeOf false below old v = some .deleteField) : v.isHollow = true := by
  induction old, v using change_induction generalizing below with
  | compared old v h =>
      rw [← (h.eq_of_changeOf hchange).2] at hv
      cases hv
  | maps before after hne ih =>
      have hafter : Value.recordFields ok false after = true := hv
      rw [changeOf_map hne] at hchange
      split at hchange
      · cases hchange
      · split at hchange
        next hcollapse =>
          have hmarked := allMarked_of_allGone hafter (Bool.and_eq_true_iff.1 hcollapse).2
          refine hollowFields_iff.2 fun e he => ?_
          obtain ⟨old, -, hmark⟩ :=
            hmarked e.1 e.2 ((Keyed.get?_eq_some (sorted_of_recordFields hafter)).2 he)
          exact ih e he old (isRecord_of_mem hafter he) hmark
        next => cases hchange

/-- A new value that is not compared field by field is put in place as it is, also over what lacks
hollow maps of the old one. -/
theorem eq_of_applies {v : Value} {held? result? : Option Value} (hv : v.isRecord ok false = true)
    (hapart : innerOf held? = [] ∨ v.asMap? = none) (h : Applies held? (some v) result?) :
    result? = some v := by
  have happlied := applied_of_record hv hapart
  cases h with
  | made => exact happlied
  | @vain fields _ hne hnil =>
      cases fields with
      | nil => exact absurd rfl hne
      | cons first rest =>
          rcases hapart with hinner | hmap
          · rw [applied, hinner, hnil] at happlied
            cases happlied
          · cases hmap

/-- The difference, merged into what lacks hollow maps of the old record, gives what lacks hollow
maps of the new one, if the change of each value does. -/
theorem thinnedAt_merged_of (hbase : Keyed.Sorted base)
    (hheld : ∀ name, ThinnedAt below (Keyed.get? name base) (Keyed.get? name before))
    (hbefore : Value.recordFields ok false before = true)
    (hafter : Value.recordFields ok false after = true)
    (hvalues : ∀ e ∈ after, ∀ held? old result?, ThinnedAt below held? (some old) →
      old.isRecord ok false = true → Applies held? (changeOf false below old e.2) result? →
      ThinnedAt below result? (some e.2)) (name : String) :
    ThinnedAt below (Keyed.get? name (merged base (difference below before after)))
      (Keyed.get? name after) := by
  have hsorted := Value.sorted_of_recordFields hafter
  have hfits : ∀ fields,
      Keyed.get? name (difference below before after) = some (.map fields) →
      Keyed.get? name base = none ∨ (∃ child, Keyed.get? name base = some (.map child)) ∨
        (Value.map fields).isRecord ok false = true := by
    intro fields hget
    rcases fits_difference hafter _ (Keyed.mem_of_get?_eq_some hget) fields rfl with
      ⟨child, hchild⟩ | hrecord
    · have hname := hheld name
      rw [hchild] at hname
      have hchildSorted : Keyed.Sorted child :=
        sorted_of_recordFields (isRecord_of_get? hbefore hchild)
      rcases (hname.of_map hchildSorted).1 with hnone | hmap
      · exact .inl hnone.1
      · exact .inr (.inl hmap)
    · exact .inr (.inr hrecord)
  have happlies := applies_merged hbase (record_difference hbefore hafter) hfits
  rw [get?_difference hsorted] at happlies
  have hname := hheld name
  generalize Keyed.get? name (merged base (difference below before after)) = result? at happlies ⊢
  cases hv : Keyed.get? name after with
  | none =>
      rw [hv] at happlies
      cases hold : Keyed.get? name before with
      | none =>
          rw [hold] at happlies hname
          cases happlies
          exact hname
      | some old =>
          rw [hold] at happlies
          cases happlies
          exact .absent
  | some v =>
      rw [hv] at happlies
      cases hold : Keyed.get? name before with
      | none =>
          rw [hold] at happlies hname
          cases hbase : Keyed.get? name base with
          | some held =>
              rw [hbase] at hname
              cases hname
          | none =>
              rw [hbase] at happlies
              rw [eq_of_applies (isRecord_of_get? hafter hv) (.inl rfl) happlies]
              exact thinnedAt_of_alikeAt (alikeAt_refl _)
      | some old =>
          rw [hold] at happlies hname
          exact hvalues (name, v) (Keyed.mem_of_get?_eq_some hv) _ old _ hname
            (isRecord_of_get? hbefore hold) happlies

/-- **Changes.**  The change of a value, merged into what lacks hollow maps of the old one, gives
what lacks hollow maps of the new one. -/
theorem thinnedAt_of_applies {old v : Value} {held? result? : Option Value}
    (hheld : ThinnedAt below held? (some old)) (hold : old.isRecord ok false = true)
    (hv : v.isRecord ok false = true)
    (happlies : Applies held? (changeOf false below old v) result?) :
    ThinnedAt below result? (some v) := by
  induction old, v using change_induction generalizing below held? result? with
  | compared old v h =>
      rw [h.change] at happlies
      split at happlies
      next hsame =>
        cases happlies
        exact hheld.trans_alike (.some (alike_of_sameValue hsame))
      next =>
        rw [eq_of_applies hv (h.apart.imp_left hheld.innerOf_eq_nil) happlies]
        exact thinnedAt_of_alikeAt (alikeAt_refl _)
  | maps before after hne ih =>
      have hbefore : Value.recordFields ok false before = true := hold
      have hafter : Value.recordFields ok false after = true := hv
      obtain ⟨hshape, hsorted, hbase⟩ := hheld.of_map (sorted_of_recordFields hbefore)
      have hfields := thinnedAt_merged_of hsorted hbase hbefore hafter
        fun e he held? old result? hheld hrecord happlies =>
          ih e he old hheld hrecord (isRecord_of_mem hafter he) happlies
      -- Where nothing is made of the map, its fields are all hollow.
      have hollow (hgone : merged (innerOf held?) (difference true before after) = [])
          (hbelow : below = true) : ThinnedAt below none (some (.map after)) := by
        rw [hgone] at hfields
        rw [hbelow]
        exact .dropped (hollowFields_of_thinnedAt (sorted_of_recordFields hafter) hfields)
      have hchange := @changeOf_map below after before hne
      rw [hchange] at happlies
      split at happlies
      next hsame =>
        rw [List.isEmpty_iff] at hsame
        cases happlies
        rw [hsame] at hfields hollow
        rcases hshape with ⟨rfl, hbelow⟩ | ⟨held, rfl⟩
        · exact hollow rfl hbelow
        · exact .map hsorted hfields
      next hsome =>
        split at happlies
        next hcollapse =>
          cases happlies
          rw [if_neg hsome, if_pos hcollapse] at hchange
          obtain ⟨rfl, -⟩ := Bool.and_eq_true_iff.1 hcollapse
          exact .dropped (isHollow_of_changeOf hv hchange)
        next =>
          cases happlies with
          | made =>
              cases hdifference : difference true before after with
              | nil => exact absurd (by rw [hdifference]; rfl) hsome
              | cons first rest =>
                  rw [hdifference] at hfields
                  exact .map (sorted_merged hsorted) hfields
          | vain hnone _ hnil =>
              rw [hnone] at hollow hshape
              rcases hshape with ⟨-, hbelow⟩ | ⟨held, heq⟩
              · exact hollow hnil hbelow
              · cases heq

/-- **Merging a difference.**  Merged into what lacks hollow maps of one record, the difference to
another one gives what lacks hollow maps of that one. -/
theorem thinned_merged (hheld : Thinned base before)
    (hbefore : Value.recordFields ok false before = true)
    (hafter : Value.recordFields ok false after = true) :
    Thinned (merged base (difference false before after)) after where
  sorted := sorted_merged hheld.sorted
  get := thinnedAt_merged_of hheld.sorted hheld.get hbefore hafter
    fun _ he _ _ _ hheld hold happlies =>
      thinnedAt_of_applies hheld hold (isRecord_of_mem hafter he) happlies

end Diff

end DocStore
