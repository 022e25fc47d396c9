import DocStore.Path.DocumentKey

/-!
# Paths above and below each other

A path begins another one if its names are the first names of the other, and it is an ancestor
if the other has more names.  Two paths that begin the same path are comparable
(`isBeginningOf_of_size_le`), which is what makes the documents a tree.  The order of paths is
total and lawful, as that of lists of names is.
-/

namespace DocStore.ResourcePath

/-! ## The order of paths -/

theorem compare_eq (a b : ResourcePath) : compare a b = compare a.segments b.segments := rfl

instance : Std.TransOrd ResourcePath where
  eq_swap := by
    intro a b
    rw [compare_eq, compare_eq]
    exact Std.OrientedCmp.eq_swap
  isLE_trans := by
    intro a b c hab hbc
    rw [compare_eq] at hab hbc ⊢
    exact Std.TransCmp.isLE_trans hab hbc

instance : Std.LawfulEqOrd ResourcePath where
  compare_self := by
    intro a
    rw [compare_eq]
    exact Std.ReflCmp.compare_self
  eq_of_compare := by
    intro a b h
    rw [compare_eq] at h
    have hsegments : a.segments = b.segments := Std.LawfulEqCmp.eq_of_compare h
    cases a
    cases b
    cases hsegments
    rfl

/-! ## Beginnings and ancestors -/

variable {a b p q : ResourcePath}

theorem ext_segments (h : a.segments = b.segments) : a = b := by
  cases a
  cases b
  cases h
  rfl

theorem isBeginningOf_iff : p.isBeginningOf q = true ↔ p.segments <+: q.segments :=
  List.isPrefixOf_iff_prefix

theorem isAncestorOf_iff :
    p.isAncestorOf q = true ↔ p.size < q.size ∧ p.isBeginningOf q = true := by
  simp [isAncestorOf]

@[simp] theorem isBeginningOf_self (p : ResourcePath) : p.isBeginningOf p = true :=
  isBeginningOf_iff.2 (List.prefix_refl _)

theorem isBeginningOf_trans (hab : a.isBeginningOf b = true) (hbp : b.isBeginningOf p = true) :
    a.isBeginningOf p = true :=
  isBeginningOf_iff.2 ((isBeginningOf_iff.1 hab).trans (isBeginningOf_iff.1 hbp))

theorem size_le_of_isBeginningOf (h : p.isBeginningOf q = true) : p.size ≤ q.size :=
  (isBeginningOf_iff.1 h).length_le

theorem isBeginningOf_of_isAncestorOf (h : p.isAncestorOf q = true) : p.isBeginningOf q = true :=
  (isAncestorOf_iff.1 h).2

/-- A beginning with as many names is the path itself. -/
theorem eq_of_isBeginningOf (h : p.isBeginningOf q = true) (hsize : q.size ≤ p.size) : p = q :=
  ext_segments ((isBeginningOf_iff.1 h).eq_of_length
    (Nat.le_antisymm (size_le_of_isBeginningOf h) hsize))

/-- A beginning is the path itself or an ancestor. -/
theorem eq_or_isAncestorOf (h : p.isBeginningOf q = true) : p = q ∨ p.isAncestorOf q = true := by
  by_cases hsize : p.size < q.size
  · exact .inr (isAncestorOf_iff.2 ⟨hsize, h⟩)
  · exact .inl (eq_of_isBeginningOf h (by omega))

@[simp] theorem not_isAncestorOf_self (p : ResourcePath) : p.isAncestorOf p = false := by
  simp [isAncestorOf]

theorem isAncestorOf_of_isBeginningOf (hab : a.isAncestorOf b = true)
    (hbp : b.isBeginningOf p = true) : a.isAncestorOf p = true := by
  obtain ⟨hsize, hbegin⟩ := isAncestorOf_iff.1 hab
  have hle := size_le_of_isBeginningOf hbp
  exact isAncestorOf_iff.2 ⟨by omega, isBeginningOf_trans hbegin hbp⟩

/-- Of two beginnings of one path the shorter begins the longer. -/
theorem isBeginningOf_of_size_le (hap : a.isBeginningOf p = true) (hbp : b.isBeginningOf p = true)
    (hsize : a.size ≤ b.size) : a.isBeginningOf b = true :=
  isBeginningOf_iff.2
    (List.prefix_of_prefix_length_le (isBeginningOf_iff.1 hap) (isBeginningOf_iff.1 hbp) hsize)

/-! ## Names further down -/

@[simp] theorem size_child (p : ResourcePath) (names : List String) :
    (p.child names).size = p.size + names.length := by
  simp [child, size]

theorem isBeginningOf_child (p : ResourcePath) (names : List String) :
    p.isBeginningOf (p.child names) = true :=
  isBeginningOf_iff.2 (List.prefix_append _ _)

/-- The name after the end of an ancestor leads one step down to the path. -/
theorem child_isBeginningOf_iff {name : String} :
    (p.child [name]).isBeginningOf q = true ↔
      p.isBeginningOf q = true ∧ q.segments[p.size]? = some name := by
  rw [isBeginningOf_iff, isBeginningOf_iff]
  constructor
  · intro hboth
    obtain ⟨rest, hrest⟩ := hboth
    rw [← hrest]
    refine ⟨⟨name :: rest, by simp [child]⟩, ?_⟩
    simp [child, size]
  · intro hboth
    obtain ⟨⟨rest, hrest⟩, hname⟩ := hboth
    rw [← hrest] at hname ⊢
    rw [size, List.getElem?_append_right (Nat.le_refl _), Nat.sub_self] at hname
    cases rest with
    | nil => cases hname
    | cons first rest =>
        cases hname
        exact ⟨rest, by simp [child]⟩

/-- A name below a collection is a document. -/
theorem isDocument_child (h : a.isCollection = true) (name : String) :
    (a.child [name]).isDocument = true := by
  have hsize : a.segments.length % 2 = 1 := by simpa [isCollection, size] using h
  simp [isDocument, isRoot, size, child]
  omega

/-- A document in a collection has one name more. -/
theorem isBeginningOf_of_parent_eq (h : p.parent = a) : a.isBeginningOf p = true := by
  rw [← h]
  exact isBeginningOf_iff.2 (List.dropLast_prefix _)

theorem size_of_parent_eq (hdoc : p.isDocument = true) (h : p.parent = a) :
    p.size = a.size + 1 := by
  have hpos : 0 < p.segments.length := by
    simp only [isDocument, isRoot, Bool.and_eq_true, Bool.not_eq_true', List.isEmpty_eq_false_iff]
      at hdoc
    exact List.length_pos_iff.2 hdoc.1
  rw [← h, parent, size, size, List.length_dropLast]
  omega

/-- The parent of a path is the beginning with one name less. -/
theorem parent_eq_of_isBeginningOf (h : a.isBeginningOf p = true) (hsize : p.size = a.size + 1) :
    p.parent = a := by
  have hlen : p.segments.length = a.segments.length + 1 := hsize
  obtain ⟨rest, hrest⟩ := isBeginningOf_iff.1 h
  apply ext_segments
  show p.segments.dropLast = a.segments
  rw [← hrest] at hlen ⊢
  rw [List.length_append] at hlen
  cases rest with
  | nil => simp at hlen
  | cons name rest =>
      have hnil : rest = [] := List.eq_nil_of_length_eq_zero (by simpa using hlen)
      simp [hnil]

/-- A path lies directly below its parent, under its last name. -/
theorem exists_child_of_parent (hp : p.segments ≠ []) (h : p.parent = a) :
    ∃ name, p = a.child [name] := by
  refine ⟨p.segments.getLast hp, ext_segments ?_⟩
  rw [← h, child, parent, List.dropLast_concat_getLast]

/-- The beginning of a path of some size. -/
def upTo (n : Nat) (p : ResourcePath) : ResourcePath := ⟨p.segments.take n⟩

theorem isBeginningOf_upTo (n : Nat) (p : ResourcePath) : (p.upTo n).isBeginningOf p = true :=
  isBeginningOf_iff.2 (List.take_prefix _ _)

theorem size_upTo {n : Nat} (h : n ≤ p.size) : (p.upTo n).size = n := by
  rw [upTo, size, List.length_take]
  exact Nat.min_eq_left h

end DocStore.ResourcePath

/-! ## Collections below a document -/

namespace DocStore.DocumentKey

open ResourcePath

@[simp] theorem size_childCollection (key : DocumentKey) (name : String) :
    (key.childCollection name).size = key.path.size + 1 := by
  rw [childCollection, size_child, List.length_singleton]

theorem isAncestorOf_childCollection (key : DocumentKey) (name : String) :
    key.path.isAncestorOf (key.childCollection name) = true :=
  isAncestorOf_iff.2 ⟨by rw [size_childCollection]; omega, isBeginningOf_child _ _⟩

theorem isCollection_childCollection {key : DocumentKey} (hkey : key.path.isDocument = true)
    (name : String) : (key.childCollection name).isCollection = true := by
  have heven : key.path.size % 2 = 0 := by
    simp only [isDocument, Bool.and_eq_true, beq_iff_eq] at hkey
    exact hkey.2
  rw [isCollection, size_childCollection, beq_iff_eq]
  omega

end DocStore.DocumentKey
