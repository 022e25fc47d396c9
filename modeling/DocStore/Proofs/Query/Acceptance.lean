import DocStore.Proofs.Path.Field
import DocStore.Proofs.Query.Negation
import Mathlib.Data.List.Forall2

/-!
# Which predicates are accepted

A tree of predicates is checked from left to right, a group before its children.  Each node is
checked on its own: besides what it holds, only the negation in effect at it matters, which a node
hands down to its children.  So a tree is a list of nodes (`Predicate.nodesOfAll`), and compiling it
fails with the fault of the first node that has one (`compileEach_error?`).  A node without a fault
is well formed (`Node.fault?_eq_none`): this is said without compiling it.

The main statement is `compileAll_accepts_iff`.
-/

namespace DocStore

/-- A list operand is accepted exactly if it is an array of one to ten values. -/
theorem Value.checkList_error?_eq_none {v : Value} :
    Outcome.error? v.checkList = none ↔
      ∃ items, v = .array items ∧ 1 ≤ items.length ∧ items.length ≤ 10 := by
  rw [Outcome.error?_eq_none]
  constructor
  · intro hok
    obtain ⟨w, hw⟩ := hok
    cases v with
    | array items =>
        refine ⟨items, rfl, ?_⟩
        rw [checkList] at hw
        split at hw
        · cases hw
        next hempty =>
          split at hw
          · cases hw
          next hlong =>
            have hpos : items.length ≠ 0 := by simpa using hempty
            have hmax : ¬ 10 < items.length := hlong
            omega
    | _ => cases hw
  · intro harray
    obtain ⟨items, rfl, hpos, hmax⟩ := harray
    have hempty : ¬ items.isEmpty = true := by
      intro h
      rw [List.isEmpty_iff.1 h] at hpos
      exact absurd hpos (by decide)
    have hlong : ¬ maxListOperand < items.length := Nat.not_lt.2 hmax
    exact ⟨_, by rw [checkList, if_neg hempty, if_neg hlong]; rfl⟩

namespace Operator

/-- An operator has a complement unless it is about the items of an array. -/
theorem negated_error?_eq_none {o : Operator} :
    Outcome.error? o.negated = none ↔ o ≠ .arrayContains ∧ o ≠ .arrayContainsAny := by
  cases o <;> simp [negated, Outcome.error?_eq_none]

/-- The complement takes a list where the operator does. -/
theorem takesList_negated {o o' : Operator} (h : o.negated = .ok o') :
    o'.takesList = o.takesList := by
  cases o <;> cases h <;> rfl

end Operator

namespace Condition

/-! ## Conditions -/

/-- The field of a condition. -/
def field : Condition → String
  | basic field _ _ | isIn field _ | notIn field _ | isNull field | notNull field => field

/-- The operator of a condition, read where it is spelled out. -/
def operator : Condition → Outcome Operator
  | basic _ operator _ => Operator.ofText operator
  | isIn _ _ => .ok .isIn
  | notIn _ _ => .ok .notIn
  | isNull _ => .ok .equal
  | notNull _ => .ok .notEqual

/-- The operand of a condition. -/
def operand : Condition → Value
  | basic _ _ value => value
  | isIn _ values | notIn _ values => values
  | isNull _ | notNull _ => .null

/-- A condition on an operator that can be compiled, under a negation or not. -/
structure IsAccepted (negated : Bool) (c : Condition) (o : Operator) : Prop where
  operator : c.operator = .ok o
  /-- The operators about the items of an array have no complement. -/
  complement : negated = true → o ≠ .arrayContains ∧ o ≠ .arrayContainsAny
  operand : o.takesList = true →
    ∃ items, c.operand = .array items ∧ 1 ≤ items.length ∧ items.length ≤ 10
  field : FieldPath.IsReadable c.field

/-- The failure of the first of its checks that a condition does not pass: those of the operator,
the complement, the operand and the field. -/
def fault? (negated : Bool) (c : Condition) : Option Error :=
  match c.operator with
  | .error e => some e
  | .ok o =>
    ((if negated then Outcome.error? o.negated else none).or
      (if o.takesList then Outcome.error? c.operand.checkList else none)).or
        (Outcome.error? (FieldPath.ofText c.field))

theorem fault?_eq_none {negated : Bool} {c : Condition} :
    c.fault? negated = none ↔ ∃ o, c.IsAccepted negated o := by
  unfold fault?
  cases hop : c.operator with
  | error e =>
      refine iff_of_false (fun h => nomatch h) fun haccepted => ?_
      obtain ⟨o, h⟩ := haccepted
      rw [h.operator] at hop
      cases hop
  | ok o =>
      simp only [Option.or_eq_none_iff, FieldPath.ofText_error?_eq_none, ite_eq_right_iff,
        Operator.negated_error?_eq_none, Value.checkList_error?_eq_none]
      constructor
      · intro h
        exact ⟨o, hop, h.1.1, h.1.2, h.2⟩
      · intro haccepted
        obtain ⟨o', h⟩ := haccepted
        rw [h.operator] at hop
        cases hop
        exact ⟨⟨h.complement, h.operand⟩, h.field⟩

theorem filterOn_error? (field : String) (operator : Operator) (operand : Value) :
    Outcome.error? (filterOn field operator operand)
      = Outcome.error? (FieldPath.ofText field) := by
  unfold filterOn
  cases FieldPath.ofText field <;> rfl

/-- Compiling a condition makes its checks in order. -/
theorem compile_error? (negated : Bool) (c : Condition) :
    Outcome.error? (c.compile negated) = c.fault? negated := by
  cases c with
  | basic field operator value =>
      rw [compile_basic, fault?]
      simp only [Condition.operator, Condition.operand, Condition.field]
      cases Operator.ofText operator with
      | error e => rfl
      | ok o =>
          rw [Outcome.ok_bind]
          dsimp only
          rw [Option.or_assoc, Outcome.error?_bind ((if o.takesList then
            Outcome.error? value.checkList else none).or (Outcome.error? (FieldPath.ofText field)))]
          · cases negated <;> rfl
          · intro o' ho'
            have hlist : o'.takesList = o.takesList := by
              cases negated with
              | true => exact Operator.takesList_negated ho'
              | false =>
                  cases ho'
                  rfl
            rw [hlist, Outcome.error?_bind _ fun v _ => filterOn_error? field o' v]
            cases o.takesList <;> rfl
  | isIn field values | notIn field values =>
      refine (Outcome.error?_bind _ fun v _ => filterOn_error? _ _ _).trans ?_
      cases negated <;> rfl
  | isNull field | notNull field =>
      refine (filterOn_error? _ _ _).trans ?_
      cases negated <;> rfl

end Condition

namespace Predicate

/-! ## Nodes -/

/-- A node of a tree of predicates: how it is joined, whether an odd number of negations is at it
and around it, and its condition or the number of its children. -/
inductive Node
  | leaf (joiner : Joiner) (negated : Bool) (condition : Condition)
  | group (joiner : Joiner) (negated : Bool) (children : Nat)
  deriving Repr

namespace Node

def joiner : Node → Joiner
  | leaf joiner _ _ | group joiner _ _ => joiner

def isLeaf : Node → Bool
  | leaf _ _ _ => true
  | group _ _ _ => false

/-- A node that can be compiled. -/
def IsWellFormed : Node → Prop
  | leaf joiner negated condition => joiner = .and ∧ ∃ o, condition.IsAccepted negated o
  | group joiner negated children => joiner = .and ∧ (negated = true → children ≤ 1)

/-- The failure that a node is reported with. -/
def fault? : Node → Option Error
  | leaf joiner negated condition =>
    if joiner = .or then some .unsupportedDisjunction else condition.fault? negated
  | group joiner negated children =>
    if joiner = .or ∨ (negated = true ∧ 1 < children) then some .unsupportedDisjunction else none

theorem fault?_eq_none {n : Node} : n.fault? = none ↔ n.IsWellFormed := by
  cases n with
  | leaf joiner negated condition =>
      cases joiner <;> simp [fault?, IsWellFormed, Condition.fault?_eq_none]
  | group joiner negated children =>
      cases joiner <;> simp [fault?, IsWellFormed]

theorem IsWellFormed.joiner_eq {n : Node} (h : n.IsWellFormed) : n.joiner = .and := by
  cases n <;> exact h.1

/-- The filter of a leaf: that of its operator, or of the complement under a negation. -/
def filter? : Node → Option Filter
  | leaf _ negated condition => if negated then condition.complement? else condition.own?
  | group _ _ _ => none

end Node

mutual

/-- The nodes of a predicate, a group before its children, inside a context that is negated or
not. -/
def nodes (around : Bool) : Predicate → List Node
  | leaf link condition => [.leaf link.joiner (link.negate ^^ around) condition]
  | nested link children =>
    .group link.joiner (link.negate ^^ around) children.length
      :: nodesOfAll (link.negate ^^ around) children

/-- The nodes of some predicates from left to right. -/
def nodesOfAll (around : Bool) : List Predicate → List Node
  | [] => []
  | p :: rest => p.nodes around ++ nodesOfAll around rest

end

mutual

/-- Compiling a predicate fails with the first fault of a node. -/
theorem compile_error? : ∀ (p : Predicate) (around : Bool),
    Outcome.error? (p.compile around) = (p.nodes around).findSome? Node.fault?
  | leaf link condition, around => by
      rw [compile, nodes, List.findSome?_singleton, Node.fault?]
      by_cases hor : link.joiner = .or
      · rw [if_pos hor, if_pos hor]
        rfl
      · rw [if_neg hor, if_neg hor, ← Condition.compile_error?]
        cases condition.compile (link.negate ^^ around) <;> rfl
  | nested link children, around => by
      rw [compile, nodes, List.findSome?_cons, Node.fault?]
      by_cases hor : link.joiner = .or
      · rw [if_pos hor, if_pos (.inl hor)]
        rfl
      · rw [if_neg hor]
        by_cases hwide : (link.negate ^^ around) = true ∧ 1 < children.length
        · rw [if_pos (by simpa using hwide), if_pos (.inr hwide)]
          rfl
        · rw [if_neg (by simpa using hwide), if_neg (not_or.2 ⟨hor, hwide⟩)]
          exact compileEach_error? children _

/-- Compiling a list fails with the first fault of a node. -/
theorem compileEach_error? : ∀ (ps : List Predicate) (around : Bool),
    Outcome.error? (compileEach around ps) = (nodesOfAll around ps).findSome? Node.fault?
  | [], around => rfl
  | p :: rest, around => by
      rw [compileEach, nodesOfAll, List.findSome?_append, ← compile_error? p around,
        ← compileEach_error? rest around]
      refine Outcome.error?_bind _ fun calls _ => ?_
      cases compileEach around rest <;> rfl

end

/-- Some calls are the filters of the leaves among some nodes, in order. -/
def AreFiltersOf (nodes : List Node) (calls : List Call) : Prop :=
  List.Forall₂ (fun n call => ∃ f, n.filter? = some f ∧ call = f.call)
    (nodes.filter Node.isLeaf) calls

theorem AreFiltersOf.append {nodes nodes' : List Node} {calls calls' : List Call}
    (h : AreFiltersOf nodes calls) (h' : AreFiltersOf nodes' calls') :
    AreFiltersOf (nodes ++ nodes') (calls ++ calls') := by
  rw [AreFiltersOf, List.filter_append]
  exact List.rel_append h h'

mutual

/-- A predicate that compiles gives the filters of its leaves. -/
theorem compile_filters : ∀ (p : Predicate) (around : Bool) (calls : List Call),
    p.compile around = .ok calls → AreFiltersOf (p.nodes around) calls
  | leaf link condition, around, calls, h => by
      obtain ⟨call, hcall, rfl⟩ := compile_leaf_eq_ok h
      obtain ⟨_, -, hfilter⟩ := Condition.compile_eq_ok hcall
      exact .cons hfilter .nil
  | nested link children, around, calls, h =>
      compileEach_filters children _ calls (compile_nested_eq_ok h).2

/-- A list that compiles gives the filters of its leaves. -/
theorem compileEach_filters : ∀ (ps : List Predicate) (around : Bool) (calls : List Call),
    compileEach around ps = .ok calls → AreFiltersOf (nodesOfAll around ps) calls
  | [], around, calls, h => by
      cases h
      exact .nil
  | p :: rest, around, calls, h => by
      obtain ⟨first, others, hfirst, hothers, rfl⟩ := compileEach_cons_eq_ok h
      exact (compile_filters p around first hfirst).append
        (compileEach_filters rest around others hothers)

end

/-! ## Lists of predicates -/

/-- Below a document a collection group takes no predicates; else they are compiled one by one. -/
theorem compileAll_eq (scopedGroup : Bool) (predicates : List Predicate) :
    compileAll scopedGroup predicates
      = if predicates ≠ [] ∧ scopedGroup = true then .error .unsupportedFilteredGroupScope
        else compileEach false predicates := by
  unfold compileAll
  cases predicates with
  | nil => rfl
  | cons p rest => cases scopedGroup <;> rfl

/-- A list is accepted exactly if it may stand in the query and each of its nodes is well formed. -/
theorem compileAll_succeeds_iff {scopedGroup : Bool} {predicates : List Predicate} :
    (∃ calls, compileAll scopedGroup predicates = .ok calls) ↔
      (predicates = [] ∨ scopedGroup = false) ∧
        ∀ n ∈ nodesOfAll false predicates, n.IsWellFormed := by
  rw [compileAll_eq]
  by_cases hscope : predicates ≠ [] ∧ scopedGroup = true
  · rw [if_pos hscope]
    refine iff_of_false (fun h => nomatch h) fun h => ?_
    rcases h.1 with hnil | hfree
    · exact hscope.1 hnil
    · exact Bool.false_ne_true (hfree.symm.trans hscope.2)
  · rw [if_neg hscope, ← Outcome.error?_eq_none, compileEach_error?, List.findSome?_eq_none_iff]
    rw [not_and_or, not_not, Bool.not_eq_true] at hscope
    simp only [Node.fault?_eq_none]
    exact (and_iff_right hscope).symm

/-- An accepted list gives the filters of its leaves. -/
theorem compileAll_filters {scopedGroup : Bool} {predicates : List Predicate} {calls : List Call}
    (h : compileAll scopedGroup predicates = .ok calls) :
    AreFiltersOf (nodesOfAll false predicates) calls := by
  rw [compileAll_eq] at h
  split at h
  · cases h
  · exact compileEach_filters predicates false calls h

/-- A list that may stand in the query is refused with the fault of the first node that has one. -/
theorem compileEach_eq_error {predicates : List Predicate} {around : Bool} {e : Error} :
    compileEach around predicates = .error e ↔
      ∃ before n after, nodesOfAll around predicates = before ++ n :: after ∧
        (∀ m ∈ before, m.IsWellFormed) ∧ ¬ n.IsWellFormed ∧ n.fault? = some e := by
  rw [← Outcome.error?_eq_some, compileEach_error?, List.findSome?_eq_some_iff]
  simp only [Node.fault?_eq_none]
  refine exists_congr fun before => exists_congr fun n => exists_congr fun after => ?_
  constructor
  · intro h
    refine ⟨h.1, h.2.2, fun hwell => ?_, h.2.1⟩
    rw [Node.fault?_eq_none.2 hwell] at h
    cases h.2.1
  · intro h
    exact ⟨h.1, h.2.2.2, h.2.1⟩

/-- **Accepted predicates.**  A list of predicates is accepted exactly if there is none in it for a
collection group below a document and every node of its trees is well formed.  It then gives one
filter for each leaf, from left to right.  A refused list fails with the scope of the group if that
is refused, and else with the fault of the first node, a group before its children, that is not well
formed.  So no list is accepted that has a predicate joined by OR in it. -/
theorem compileAll_accepts_iff (scopedGroup : Bool) (predicates : List Predicate) :
    ((∃ calls, compileAll scopedGroup predicates = .ok calls) ↔
      (predicates = [] ∨ scopedGroup = false) ∧
        ∀ n ∈ nodesOfAll false predicates, n.IsWellFormed) ∧
    (∀ calls, compileAll scopedGroup predicates = .ok calls →
      AreFiltersOf (nodesOfAll false predicates) calls) ∧
    (∀ e, compileAll scopedGroup predicates = .error e ↔
      (predicates ≠ [] ∧ scopedGroup = true ∧ e = .unsupportedFilteredGroupScope) ∨
      ((predicates = [] ∨ scopedGroup = false) ∧ ∃ before n after,
        nodesOfAll false predicates = before ++ n :: after ∧
          (∀ m ∈ before, m.IsWellFormed) ∧ ¬ n.IsWellFormed ∧ n.fault? = some e)) ∧
    ((∃ n ∈ nodesOfAll false predicates, n.joiner = .or) →
      ∀ calls, compileAll scopedGroup predicates ≠ .ok calls) := by
  refine ⟨compileAll_succeeds_iff, fun _ => compileAll_filters, fun e => ?_, fun hor calls h => ?_⟩
  · rw [compileAll_eq, ← compileEach_eq_error]
    by_cases hscope : predicates ≠ [] ∧ scopedGroup = true
    · rw [if_pos hscope, Except.error.injEq, eq_comm]
      simp [hscope]
    · have hfree := hscope
      rw [not_and_or, not_not, Bool.not_eq_true] at hfree
      rw [if_neg hscope, and_iff_right hfree, ← and_assoc]
      exact (or_iff_right fun h => hscope h.1).symm
  · obtain ⟨n, hn, hjoiner⟩ := hor
    have hand := ((compileAll_succeeds_iff.1 ⟨calls, h⟩).2 n hn).joiner_eq
    rw [hjoiner] at hand
    cases hand

/-- A negated group of two is refused before its children are looked at. -/
example : compileAll false [.nested { negate := true }
      [.leaf {} (.basic "age" "~" .null), .leaf { joiner := .or } (.isNull "name")]]
    = .error .unsupportedDisjunction := rfl

end Predicate

end DocStore
