import DocStore.Proofs.Query.Order
import DocStore.Proofs.Value.Preorder

/-!
# The result of a query as a slice

Where the values that a query compares are compared transitively (`ComparesTransitively`), a
document that comes later in its order does not come earlier with respect to a cursor.  The cursors
therefore cut the chosen documents at two places, and offset and limit cut further from one of the
ends: the result is a contiguous block of the one list that is in strict order, and it does not
depend on the order in which the documents come (`run_slice`).
-/

namespace DocStore

open Std

/-! ## Chains among some items -/

theorem Chains.lt_of_lt {ab bc ac : Ordering} (h : Chains ab bc ac) (hab : ab.isLE)
    (hbc : bc = .lt) : ac = .lt := by
  subst hbc
  rw [h hab rfl]
  cases ab with
  | gt => cases hab
  | lt | eq => rfl

namespace Sorting.TransitiveOn

variable {α β : Type} {cmp : α → α → Ordering} {xs : List α} {a b c : α}

/-- Where a comparison is transitive its comparisons chain. -/
theorem chains [OrientedCmp cmp] (h : TransitiveOn cmp xs) (ha : a ∈ xs) (hb : b ∈ xs)
    (hc : c ∈ xs) : Chains (cmp a b) (cmp b c) (cmp a c) := by
  intro hab hbc
  cases hab' : cmp a b with
  | gt =>
      rw [hab'] at hab
      cases hab
  | lt => exact @TransCmp.lt_of_lt_of_isLE _ _ h.transCmp ⟨a, ha⟩ ⟨b, hb⟩ ⟨c, hc⟩ hab' hbc
  | eq => exact @TransCmp.congr_left _ _ h.transCmp ⟨a, ha⟩ ⟨b, hb⟩ ⟨c, hc⟩ hab'

/-- Comparisons chain in either direction. -/
theorem chains_apply [OrientedCmp cmp] (h : TransitiveOn cmp xs) (d : Direction) (ha : a ∈ xs)
    (hb : b ∈ xs) (hc : c ∈ xs) :
    Chains (d.apply (cmp a b)) (d.apply (cmp b c)) (d.apply (cmp a c)) := by
  cases d with
  | ascending => exact h.chains ha hb hc
  | descending =>
      have hswap (x y : α) : Direction.descending.apply (cmp x y) = cmp y x :=
        OrientedCmp.eq_swap.symm
      rw [hswap, hswap, hswap]
      exact h.opposite.chains ha hb hc

theorem of_map {f : β → α} {ys : List β} (h : TransitiveOn cmp (ys.map f)) :
    TransitiveOn (fun a b => cmp (f a) (f b)) ys := by
  intro a ha b hb c hc
  exact h _ (List.mem_map_of_mem ha) _ (List.mem_map_of_mem hb) _ (List.mem_map_of_mem hc)

end Sorting.TransitiveOn

namespace Value

instance : OrientedCmp Value.compare where
  eq_swap := by
    intro a b
    exact (compare_swap b a).symm

theorem exists_reference_of_rank {v : Value} {text : String}
    (h : v.rank = (reference text).rank) : ∃ text', v = reference text' := by
  cases v <;> first | exact ⟨_, rfl⟩ | cases h

/-- References are compared transitively, also together with one value of any kind. -/
theorem transitiveOn_references {v : Value} {xs : List Value}
    (h : ∀ x ∈ xs, x = v ∨ ∃ text, x = .reference text) :
    Sorting.TransitiveOn Value.compare xs := by
  intro a ha b hb c hc
  by_cases hkinds : a.rank = b.rank ∧ b.rank = c.rank
  case neg => exact (chains_of_ranks hkinds).isLE
  by_cases href : ∃ text, a = .reference text
  · obtain ⟨s, rfl⟩ := href
    obtain ⟨t, rfl⟩ := exists_reference_of_rank hkinds.1.symm
    obtain ⟨u, rfl⟩ := exists_reference_of_rank hkinds.2.symm
    have hapart : RoundApart fun _ => False := fun _ _ hm => hm.elim
    exact (chains hapart (.reference s) (.reference t) (.reference u) trivial trivial trivial).isLE
  · -- None of the three is a reference, so all are the one value.
    have hsame (x : Value) (hx : x ∈ xs) (hrank : a.rank = x.rank) : x = v := by
      refine (h x hx).resolve_right fun ⟨text, hx⟩ => href ?_
      rw [hx] at hrank
      exact exists_reference_of_rank hrank
    rw [hsame a ha rfl, hsame b hb hkinds.1, hsame c hc (hkinds.1.trans hkinds.2)]
    exact fun _ _ => by rw [compare_self]; rfl

end Value

/-! ## Documents and cursors -/

namespace FieldOrder

variable {orders : List FieldOrder} {a b : Snapshot}

theorem compareBy_append (orders later : List FieldOrder) (a b : Snapshot) :
    compareBy (orders ++ later) a b = (compareBy orders a b).then (compareBy later a b) := by
  induction orders with
  | nil => rfl
  | cons o rest ih => rw [List.cons_append, compareBy_cons, compareBy_cons, ih, Ordering.then_assoc]

/-- A document that comes no later than another comes no later in the first orderings. -/
theorem isLE_compareBy_take (n : Nat) (h : (compareBy orders a b).isLE) :
    (compareBy (orders.take n) a b).isLE := by
  rw [← List.take_append_drop n orders, compareBy_append] at h
  cases hfirst : compareBy (orders.take n) a b with
  | lt | eq => rfl
  | gt =>
      rw [hfirst] at h
      cases h

/-- Two documents and a cursor chain as far as the cursor has values. -/
theorem chains_compareTo {values : List Value}
    (h : ∀ p ∈ orders.zip values,
      Sorting.TransitiveOn Value.compare [valueOf p.1.field a, valueOf p.1.field b, p.2]) :
    Chains (compareBy (orders.take values.length) a b) (compareTo orders values b)
      (compareTo orders values a) := by
  induction orders generalizing values with
  | nil =>
      rw [List.take_nil]
      exact fun _ _ => rfl
  | cons o rest ih =>
      cases values with
      | nil => exact fun _ _ => rfl
      | cons v vs =>
          rw [List.zip_cons_cons, List.forall_mem_cons] at h
          exact (h.1.chains_apply o.direction (by simp) (by simp) (by simp)).andThen (ih h.2)

end FieldOrder

namespace Cursor

variable {c : Cursor} {orders : List FieldOrder} {a b : Snapshot}

/-- The cursor is compared transitively with both documents. -/
def ComparesWith (c : Cursor) (orders : List FieldOrder) (a b : Snapshot) : Prop :=
  ∀ p ∈ orders.zip c.values, Sorting.TransitiveOn Value.compare
    [FieldOrder.valueOf p.1.field a, FieldOrder.valueOf p.1.field b, p.2]

/-- What comes after a document is no earlier with respect to a cursor. -/
theorem compareTo_of_lt (h : c.ComparesWith orders a b)
    (hlt : FieldOrder.compareBy orders a b = .lt) :
    (FieldOrder.compareTo orders c.values b = .lt →
        FieldOrder.compareTo orders c.values a = .lt) ∧
      ((FieldOrder.compareTo orders c.values b).isLE →
        (FieldOrder.compareTo orders c.values a).isLE) := by
  have hle := FieldOrder.isLE_compareBy_take c.values.length (by rw [hlt]; rfl)
  have hchain := FieldOrder.chains_compareTo h
  exact ⟨hchain.lt_of_lt hle, hchain.isLE hle⟩

/-- What comes after a document that the start admits is admitted too. -/
theorem admitsFrom_of_lt (h : c.ComparesWith orders a b)
    (hlt : FieldOrder.compareBy orders a b = .lt) (ha : c.admitsFrom orders a = true) :
    c.admitsFrom orders b = true := by
  obtain ⟨hbefore, hle⟩ := compareTo_of_lt h hlt
  unfold admitsFrom at ha ⊢
  cases hinclusive : c.inclusive with
  | true =>
      simp only [hinclusive] at ha ⊢
      cases hb : FieldOrder.compareTo orders c.values b with
      | eq | gt => rfl
      | lt =>
          rw [hbefore hb] at ha
          cases ha
  | false =>
      simp only [hinclusive] at ha ⊢
      cases hb : FieldOrder.compareTo orders c.values b with
      | gt => rfl
      | lt | eq =>
          rw [hb, beq_iff_eq.1 ha] at hle
          cases hle rfl

/-- What comes before a document that the end admits is admitted too. -/
theorem admitsUpTo_of_lt (h : c.ComparesWith orders a b)
    (hlt : FieldOrder.compareBy orders a b = .lt) (hb : c.admitsUpTo orders b = true) :
    c.admitsUpTo orders a = true := by
  obtain ⟨hbefore, hle⟩ := compareTo_of_lt h hlt
  unfold admitsUpTo at hb ⊢
  cases hinclusive : c.inclusive with
  | true =>
      simp only [hinclusive] at hb ⊢
      cases hplace : FieldOrder.compareTo orders c.values b with
      | gt =>
          rw [hplace] at hb
          cases hb
      | lt | eq =>
          rw [hplace] at hle
          cases ha : FieldOrder.compareTo orders c.values a with
          | lt | eq => rfl
          | gt =>
              rw [ha] at hle
              cases hle rfl
  | false =>
      simp only [hinclusive] at hb ⊢
      rw [hbefore (beq_iff_eq.1 hb)]
      rfl

/-- The values of a cursor as they are compared: those for the name stand for documents. -/
theorem mem_zip_align {source : Source} {values : List Value} {p : FieldOrder × Value}
    (h : p ∈ orders.zip (normal.align source orders values)) :
    ∃ v, (p.1, v) ∈ orders.zip values ∧
      p.2 = if p.1.field.isDocumentId then v.asDocument source else v := by
  induction orders generalizing values with
  | nil => cases h
  | cons o rest ih =>
      cases values with
      | nil => cases h
      | cons v vs =>
          rw [normal.align, List.zip_cons_cons] at h
          rcases List.mem_cons.1 h with rfl | hlater
          · exact ⟨v, List.mem_cons_self, rfl⟩
          · obtain ⟨u, hu, hvalue⟩ := ih hlater
            exact ⟨u, List.mem_cons_of_mem _ hu, hvalue⟩

end Cursor

/-! ## Transitive queries -/

namespace FieldOrder

theorem valueOf_of_isDocumentId {field : FieldPath} (h : field.isDocumentId = true)
    (s : Snapshot) : valueOf field s = .reference s.key.text := by
  rw [valueOf, Snapshot.field?, if_pos h]
  rfl

/-- Documents are compared transitively by their names. -/
theorem transitiveOn_of_isDocumentId {o : FieldOrder} (h : o.field.isDocumentId = true)
    (documents : List Snapshot) : Sorting.TransitiveOn o.compareAt documents := by
  have hvalues : Sorting.TransitiveOn Value.compare (documents.map (valueOf o.field)) := by
    refine Value.transitiveOn_references (v := .null) fun x hx => ?_
    obtain ⟨s, -, rfl⟩ := List.mem_map.1 hx
    exact .inr ⟨_, valueOf_of_isDocumentId h s⟩
  exact hvalues.of_map

end FieldOrder

namespace Cursor

/-- The values of a cursor are compared transitively with those that the orderings see in some
documents; for the names of documents that is so of itself. -/
def ComparesTransitively (c : Cursor) (orders : List FieldOrder) (documents : List Snapshot) :
    Prop :=
  ∀ p ∈ orders.zip c.values, p.1.field.isDocumentId = false →
    Sorting.TransitiveOn Value.compare (p.2 :: documents.map (FieldOrder.valueOf p.1.field))

variable {c : Cursor} {orders : List FieldOrder} {documents : List Snapshot}

theorem ComparesTransitively.comparesWith (h : c.ComparesTransitively orders documents)
    (source : Source) {a b : Snapshot} (ha : a ∈ documents) (hb : b ∈ documents) :
    (c.normal source orders).ComparesWith orders a b := by
  intro p hp
  obtain ⟨v, hv, hvalue⟩ := mem_zip_align hp
  cases hid : p.1.field.isDocumentId with
  | true =>
      refine Value.transitiveOn_references (v := p.2) fun x hx => ?_
      simp only [FieldOrder.valueOf_of_isDocumentId hid, List.mem_cons, List.not_mem_nil,
        or_false] at hx
      rcases hx with rfl | rfl | rfl
      · exact .inr ⟨_, rfl⟩
      · exact .inr ⟨_, rfl⟩
      · exact .inl rfl
  | false =>
      rw [hid, if_neg (by decide)] at hvalue
      refine (h _ hv hid).mono fun x hx => ?_
      simp only [List.mem_cons, List.not_mem_nil, or_false] at hx
      rcases hx with rfl | rfl | rfl
      · exact List.mem_cons_of_mem _ (List.mem_map_of_mem ha)
      · exact List.mem_cons_of_mem _ (List.mem_map_of_mem hb)
      · rw [hvalue]
        exact List.mem_cons_self

end Cursor

/-! ## Cutting a list -/

namespace Sorting

variable {α : Type} {p start stop : α → Bool} {l : List α}

/-- Where a test fails of all that follows an item of which it fails, it fails of all that is left
after the first such item. -/
theorem eq_false_of_mem_dropWhile (h : l.Pairwise fun a b => p b = true → p a = true) :
    ∀ x ∈ l.dropWhile p, p x = false := by
  induction l with
  | nil => exact nofun
  | cons a rest ih =>
      rw [List.pairwise_cons] at h
      rw [List.dropWhile_cons]
      split
      · exact ih h.2
      next hfails =>
        have ha : p a = false := by simpa using hfails
        refine List.forall_mem_cons.2 ⟨ha, fun x hx => ?_⟩
        rw [Bool.eq_false_iff]
        exact fun hpx => hfails (h.1 x hx hpx)

/-- Such a test keeps the items up to the first of which it fails. -/
theorem filter_eq_takeWhile (h : l.Pairwise fun a b => p b = true → p a = true) :
    l.filter p = l.takeWhile p := by
  have hfirst : (l.takeWhile p).filter p = l.takeWhile p :=
    List.filter_eq_self.2 fun _ hx => List.mem_takeWhile_imp hx
  have hlater : (l.dropWhile p).filter p = [] :=
    List.filter_eq_nil_iff.2 fun x hx => by simp [eq_false_of_mem_dropWhile h x hx]
  calc l.filter p = (l.takeWhile p ++ l.dropWhile p).filter p := by
        rw [List.takeWhile_append_dropWhile]
    _ = l.takeWhile p := by rw [List.filter_append, hfirst, hlater, List.append_nil]

/-- A test that stays true keeps the items from the first one on of which it is. -/
theorem filter_eq_dropWhile (h : l.Pairwise fun a b => p a = true → p b = true) :
    l.filter p = l.dropWhile fun x => !p x := by
  have hopposite : l.Pairwise fun a b => (!p b) = true → (!p a) = true :=
    h.imp fun {a b} hab hb => by
      cases ha : p a with
      | false => rfl
      | true => simp [hab ha] at hb
  have hfirst : (l.takeWhile fun x => !p x).filter p = [] :=
    List.filter_eq_nil_iff.2 fun x hx => by simpa using List.mem_takeWhile_imp hx
  have hlater : (l.dropWhile fun x => !p x).filter p = l.dropWhile fun x => !p x :=
    List.filter_eq_self.2 fun x hx => by simpa using eq_false_of_mem_dropWhile hopposite x hx
  calc l.filter p = ((l.takeWhile fun x => !p x) ++ l.dropWhile fun x => !p x).filter p := by
        rw [List.takeWhile_append_dropWhile]
    _ = l.dropWhile fun x => !p x := by rw [List.filter_append, hfirst, hlater, List.nil_append]

/-- A test that stays true and one that stays false leave a contiguous block of a list. -/
theorem exists_block (hstart : l.Pairwise fun a b => start a = true → start b = true)
    (hstop : l.Pairwise fun a b => stop b = true → stop a = true) :
    ∃ before after, l = before ++ l.filter (fun x => start x && stop x) ++ after ∧
      (∀ x ∈ before, start x = false) ∧ ∀ x ∈ after, stop x = false := by
  have hlater : (l.filter start).Pairwise fun a b => stop b = true → stop a = true :=
    hstop.sublist List.filter_sublist
  have hblock : l.filter (fun x => start x && stop x) = (l.filter start).takeWhile stop := by
    rw [← filter_eq_takeWhile hlater, List.filter_filter]
    exact List.filter_congr fun x _ => Bool.and_comm _ _
  refine ⟨l.takeWhile fun x => !start x, (l.filter start).dropWhile stop, ?_, ?_,
    eq_false_of_mem_dropWhile hlater⟩
  · rw [hblock, List.append_assoc, List.takeWhile_append_dropWhile, filter_eq_dropWhile hstart,
      List.takeWhile_append_dropWhile]
  · exact fun x hx => by simpa using List.mem_takeWhile_imp hx

/-- The block is what a list leaves behind the items of an offset, up to a limit. -/
def IsCut (offset : Nat) (limit : Option Nat) (all block : List α) : Prop :=
  ∃ skipped rest, all = skipped ++ block ++ rest ∧ skipped.length = min offset all.length ∧
    block.length = min (limit.getD all.length) (all.length - offset)

theorem isCut_drop_take (offset : Nat) (limit : Option Nat) (all : List α) :
    IsCut offset limit all ((all.drop offset).take (limit.getD all.length)) := by
  refine ⟨all.take offset, (all.drop offset).drop (limit.getD all.length), ?_, ?_, ?_⟩
  · rw [List.append_assoc, List.take_append_drop, List.take_append_drop]
  · rw [List.length_take]
  · rw [List.length_take, List.length_drop]

theorem IsCut.isBlock {offset : Nat} {limit : Option Nat} {all block : List α}
    (h : IsCut offset limit all block) : block <:+: all := by
  obtain ⟨skipped, rest, rfl, -, -⟩ := h
  exact List.infix_append _ _ _

end Sorting

/-! ## The slice -/

namespace StoreQuery

/-- The values that the orderings of a query see in some documents are compared transitively, and
so they are together with the values of each cursor. -/
structure ComparesTransitively (q : StoreQuery) (documents : List Snapshot) : Prop where
  orders : ∀ o ∈ q.effectiveOrders, o.field.isDocumentId = false →
    Sorting.TransitiveOn o.compareAt documents
  start : ∀ c ∈ q.start, c.ComparesTransitively q.effectiveOrders documents
  stop : ∀ c ∈ q.stop, c.ComparesTransitively q.effectiveOrders documents

variable {q : StoreQuery} {documents : List Snapshot}

theorem ComparesTransitively.transitiveOn (h : q.ComparesTransitively documents) :
    FieldOrder.TransitiveOn q.effectiveOrders documents := by
  intro o ho
  cases hid : o.field.isDocumentId with
  | true => exact FieldOrder.transitiveOn_of_isDocumentId hid documents
  | false => exact h.orders o ho hid

/-- The document does not lie before the start. -/
def isFromStart (q : StoreQuery) (s : Snapshot) : Bool :=
  q.start.all fun c => (c.normal q.source q.effectiveOrders).admitsFrom q.effectiveOrders s

/-- The document does not lie after the end. -/
def isUpToStop (q : StoreQuery) (s : Snapshot) : Bool :=
  q.stop.all fun c => (c.normal q.source q.effectiveOrders).admitsUpTo q.effectiveOrders s

theorem isFromStart_of_lt (h : q.ComparesTransitively documents) {a b : Snapshot}
    (ha : a ∈ documents) (hb : b ∈ documents)
    (hlt : FieldOrder.compareBy q.effectiveOrders a b = .lt) (hstart : q.isFromStart a = true) :
    q.isFromStart b = true := by
  unfold isFromStart at hstart ⊢
  cases hc : q.start with
  | none => rfl
  | some c =>
      rw [hc] at hstart
      exact Cursor.admitsFrom_of_lt ((h.start c hc).comparesWith q.source ha hb) hlt hstart

theorem isUpToStop_of_lt (h : q.ComparesTransitively documents) {a b : Snapshot}
    (ha : a ∈ documents) (hb : b ∈ documents)
    (hlt : FieldOrder.compareBy q.effectiveOrders a b = .lt) (hstop : q.isUpToStop b = true) :
    q.isUpToStop a = true := by
  unfold isUpToStop at hstop ⊢
  cases hc : q.stop with
  | none => rfl
  | some c =>
      rw [hc] at hstop
      exact Cursor.admitsUpTo_of_lt ((h.stop c hc).comparesWith q.source ha hb) hlt hstop

/-- The block is what the query leaves of all chosen documents in order: of those between its
cursors it leaves out its offset and keeps up to its limit, counted from the end where the limit
keeps the last documents. -/
def IsSlice (q : StoreQuery) (all block : List Snapshot) : Prop :=
  ∃ before between after, all = before ++ between ++ after ∧
    (∀ s ∈ before, q.isFromStart s = false) ∧
    (∀ s ∈ between, q.isFromStart s = true ∧ q.isUpToStop s = true) ∧
    (∀ s ∈ after, q.isUpToStop s = false) ∧
    if q.keepsLast = true ∧ q.limit.isSome = true then
      Sorting.IsCut (q.offset.getD 0) q.limit between.reverse block.reverse
    else Sorting.IsCut (q.offset.getD 0) q.limit between block

/-- Offset and limit cut a list at one of its ends. -/
theorem isCut_window (q : StoreQuery) (between : List Snapshot) :
    if q.keepsLast = true ∧ q.limit.isSome = true then
      Sorting.IsCut (q.offset.getD 0) q.limit between.reverse (q.window between).reverse
    else Sorting.IsCut (q.offset.getD 0) q.limit between (q.window between) := by
  have hforward := Sorting.isCut_drop_take (q.offset.getD 0) q.limit between
  have hbackward := Sorting.isCut_drop_take (q.offset.getD 0) q.limit between.reverse
  rw [List.drop_reverse, List.take_reverse] at hbackward
  unfold window
  cases hlimit : q.limit with
  | none =>
      rw [hlimit] at hforward
      rw [if_neg (by simp)]
      simpa [List.take_of_length_le] using hforward
  | some n =>
      rw [hlimit] at hforward hbackward
      cases hlast : q.keepsLast with
      | true =>
          rw [if_pos ⟨rfl, rfl⟩]
          exact hbackward
      | false =>
          rw [if_neg (by simp)]
          exact hforward

theorem IsSlice.isBlock {all block : List Snapshot} (h : q.IsSlice all block) : block <:+: all := by
  obtain ⟨before, between, after, rfl, -, -, -, hcut⟩ := h
  refine List.IsInfix.trans ?_ (List.infix_append before between after)
  split at hcut
  · exact List.reverse_infix.1 hcut.isBlock
  · exact hcut.isBlock

/-- The documents in order are one list, in whatever order they come. -/
theorem ordered_of_perm {others : List Snapshot} (hperm : others.Perm documents)
    (hdocs : Snapshot.AreDistinct documents) (h : q.ComparesTransitively documents) :
    q.ordered others = q.ordered documents := by
  have hothers : Snapshot.AreDistinct others :=
    ⟨(hperm.map _).nodup_iff.2 hdocs.nodup, fun s hs => hdocs.proper s (hperm.mem_iff.1 hs)⟩
  have htrans : FieldOrder.TransitiveOn q.effectiveOrders others :=
    h.transitiveOn.mono fun s hs => hperm.mem_iff.1 hs
  refine Sorting.eq_of_strict ?_ (ordered_strict hothers htrans)
    (ordered_strict hdocs h.transitiveOn)
  exact (q.ordered_perm others).trans ((hperm.filter _).trans (q.ordered_perm documents).symm)

/-- What the window leaves between the cursors is a slice of the documents in order. -/
theorem isSlice_ordered (hdocs : Snapshot.AreDistinct documents)
    (h : q.ComparesTransitively documents) :
    q.IsSlice (q.ordered documents) (q.window (q.betweenCursors (q.ordered documents))) := by
  have hchosen {s : Snapshot} (hs : s ∈ q.ordered documents) : s ∈ documents :=
    List.filter_sublist.subset ((q.ordered_perm documents).mem_iff.1 hs)
  have hstrict := ordered_strict hdocs h.transitiveOn
  have hstart : (q.ordered documents).Pairwise fun a b =>
      q.isFromStart a = true → q.isFromStart b = true :=
    hstrict.imp_of_mem fun ha hb hlt => isFromStart_of_lt h (hchosen ha) (hchosen hb) hlt
  have hstop : (q.ordered documents).Pairwise fun a b =>
      q.isUpToStop b = true → q.isUpToStop a = true :=
    hstrict.imp_of_mem fun ha hb hlt => isUpToStop_of_lt h (hchosen ha) (hchosen hb) hlt
  obtain ⟨before, after, hparts, hbefore, hafter⟩ := Sorting.exists_block hstart hstop
  have hbetween : q.betweenCursors (q.ordered documents)
      = (q.ordered documents).filter fun s => q.isFromStart s && q.isUpToStop s :=
    q.betweenCursors_eq _
  rw [hbetween]
  refine ⟨before, _, after, hparts, hbefore, fun s hs => ?_, hafter, q.isCut_window _⟩
  exact Bool.and_eq_true_iff.1 (List.mem_filter.1 hs).2

/-- Without filters and orderings documents are compared by their paths. -/
theorem compareBy_of_bare (hfilters : q.filters = []) (horders : q.orders = []) {a b : Snapshot}
    (ha : a.key.IsProper) (hb : b.key.IsProper) :
    FieldOrder.compareBy q.effectiveOrders a b = compare a.key.path b.key.path := by
  have heffective : q.effectiveOrders = [⟨.documentId, .ascending⟩] := by
    rw [effectiveOrders_eq, leadingOrders, horders, hfilters]
    rfl
  have hsplit {key : DocumentKey} (hkey : key.IsProper) :
      Text.split '/' key.text = key.path.segments :=
    ResourcePath.split_text hkey.slashFree (DocumentKey.segments_ne_nil hkey.document)
  rw [heffective, FieldOrder.compareBy_cons]
  show (compare (Text.split '/' a.key.text) (Text.split '/' b.key.text)).then .eq = _
  rw [Ordering.then_eq, hsplit ha, hsplit hb]
  rfl

/-- **The result as a slice.**  Where its values are compared transitively, a query gives the same
result in whatever order its documents come.  The documents that exist, belong to its source and
pass all its filters are in strict order, and the result holds a contiguous block of them: that
between the cursors, without the offset and up to the limit.  Without a projection it is this block;
without filters and orderings its documents are in the order of their paths. -/
theorem run_slice (hdocs : Snapshot.AreDistinct documents) (h : q.ComparesTransitively documents) :
    (∀ others : List Snapshot, others.Perm documents → q.run others = q.run documents) ∧
      (∃ all block, all.Perm (documents.filter q.selects) ∧
        (∀ s, s ∈ all ↔ s ∈ documents ∧ s.exists? = true ∧ q.source.contains s.key = true ∧
          ∀ f ∈ q.filters, (f.normal q.source).holds s = true) ∧
        (all.Pairwise fun a b => FieldOrder.compareBy q.effectiveOrders a b = .lt) ∧
        block <:+: all ∧ q.IsSlice all block ∧ q.run documents = block.map q.project ∧
        (q.projection = none → q.run documents = block ∧
          (q.run documents).Pairwise fun a b =>
            FieldOrder.compareBy q.effectiveOrders a b = .lt)) ∧
      (q.filters = [] → q.orders = [] →
        (q.run documents).Pairwise fun a b => compare a.key.path b.key.path = .lt) := by
  have hstrict := ordered_strict hdocs h.transitiveOn
  have hslice := isSlice_ordered hdocs h
  have hblock := hstrict.sublist hslice.isBlock.sublist
  refine ⟨fun others hperm => ?_, ⟨_, _, q.ordered_perm documents, fun _ => mem_ordered,
    hstrict, hslice.isBlock, hslice, rfl, fun hnone => ?_⟩, fun hfilters horders => ?_⟩
  · rw [run, run, ordered_of_perm hperm hdocs h]
  · have hproject : q.project = id := by
      funext s
      rw [project, hnone]
      rfl
    rw [run, hproject, List.map_id]
    exact ⟨rfl, hblock⟩
  · rw [run, List.pairwise_map]
    refine hblock.imp_of_mem fun {a b} ha hb hlt => ?_
    have hproper {s : Snapshot} (hs : s ∈ q.window (q.betweenCursors (q.ordered documents))) :
        s.key.IsProper :=
      hdocs.proper s (List.filter_sublist.subset
        ((q.ordered_perm documents).mem_iff.1 (hslice.isBlock.subset hs)))
    rw [project_key, project_key, ← compareBy_of_bare hfilters horders (hproper ha) (hproper hb)]
    exact hlt

/-- The four users and a young one, one who is missing, and a document of another collection. -/
def usersAndOthers : List Snapshot :=
  Snapshot.fourUsers ++
    [ { key := ⟨⟨["users", "fay"]⟩⟩, fields := some [("age", .integer 12)] },
      .missing ⟨⟨["users", "eve"]⟩⟩,
      { key := ⟨⟨["posts", "fay"]⟩⟩, fields := some [("age", .integer 12)] } ]

/-- The second and the third of the users who have an age, the oldest first and without `dan`. -/
def secondAndThird : StoreQuery :=
  { source := .collection ⟨["users"]⟩, filters := [⟨.documentId, .notEqual, .string "dan"⟩],
    orders := [⟨⟨["age"]⟩, .descending⟩], stop := some ⟨[.null], false⟩, offset := some 1,
    limit := some 2 }

/-- Two users of one age come by their names, and the one without an age is cut off. -/
theorem run_slice_users :
    let q := secondAndThird
    Snapshot.AreDistinct usersAndOthers ∧ q.ComparesTransitively usersAndOthers ∧
      (q.run usersAndOthers).map (·.id) = ["ann", "fay"] ∧
      q.run usersAndOthers.reverse = q.run usersAndOthers ∧
      ∃ all : List Snapshot, all.length = 4 ∧
        (∀ s ∈ all, s.exists? = true ∧ s.key.collection = ⟨["users"]⟩ ∧
          s.key ≠ ⟨⟨["users", "dan"]⟩⟩) ∧
        q.IsSlice all (q.run usersAndOthers) := by
  intro q
  have hdistinct : Snapshot.AreDistinct usersAndOthers := by decide
  have htrans : q.ComparesTransitively usersAndOthers :=
    { orders := by decide
      start := nofun
      stop := by
        intro c hc
        cases hc
        unfold Cursor.ComparesTransitively
        decide }
  obtain ⟨hperm, ⟨all, block, hall, hmem, -, -, hslice, -, hrun⟩, -⟩ := run_slice hdistinct htrans
  refine ⟨hdistinct, htrans, by decide, hperm _ (List.reverse_perm _), all, ?_, fun s hs => ?_, ?_⟩
  · rw [hall.length_eq]
    decide
  · obtain ⟨-, hexists, hsource, hfilters⟩ := (hmem s).1 hs
    refine ⟨hexists, beq_iff_eq.1 hsource, fun hdan => ?_⟩
    have hname : Filter.relates .notEqual (.reference s.key.text) (.reference "users/dan") = true :=
      hfilters _ (List.mem_singleton_self _)
    rw [hdan] at hname
    exact absurd hname (by decide)
  · rw [(hrun rfl).1]
    exact hslice

end StoreQuery

end DocStore
