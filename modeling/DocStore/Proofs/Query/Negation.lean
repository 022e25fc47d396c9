import DocStore.Proofs.Outcome
import DocStore.Query.Evaluate
import DocStore.Query.Predicate

/-!
# What compiled predicates mean

A store joins filters by AND and has no negation, so compiling pushes a negation down to the
conditions and replaces an operator by its complement.  Where an operator can compare, exactly one
of the two holds (`Filter.relates_negated`).  Elsewhere this is sound only in a logic with a third
value: a field that is missing, null or of another kind may satisfy neither an operator nor its
complement, and then stays `unknown` under a negation.

The truth of a predicate (`Predicate.truth`) is read off its tree, without compiling it.  The
main statement, `compileAll_meaning`, says that the filters of an accepted list pass exactly the
documents of which the list is true, that no document passes a condition and its negation, and
that a condition is negated by the parity of the negations at it and around it.
-/

namespace DocStore

/-- The truth of a condition that may not apply to a document. -/
inductive Truth
  | yes
  | no
  | unknown
  deriving DecidableEq, Repr

namespace Truth

/-- The negation swaps yes and no. -/
def not : Truth → Truth
  | yes => no
  | no => yes
  | unknown => unknown

/-- The conjunction is no as soon as one side is. -/
def and : Truth → Truth → Truth
  | yes, b => b
  | no, _ => no
  | unknown, no => no
  | unknown, _ => unknown

/-- The value under a negation flag. -/
def negateIf (flag : Bool) (t : Truth) : Truth := if flag then t.not else t

@[simp] theorem negateIf_false (t : Truth) : t.negateIf false = t := rfl

@[simp] theorem negateIf_true (t : Truth) : t.negateIf true = t.not := rfl

@[simp] theorem not_not (t : Truth) : t.not.not = t := by cases t <;> rfl

@[simp] theorem not_eq_yes {t : Truth} : t.not = yes ↔ t = no := by cases t <;> decide

@[simp] theorem and_yes (t : Truth) : t.and yes = t := by cases t <;> rfl

@[simp] theorem and_eq_yes {a b : Truth} : a.and b = yes ↔ a = yes ∧ b = yes := by
  cases a <;> cases b <;> decide

/-- Two flags are one flag, the exclusive or of both. -/
theorem negateIf_xor (a b : Bool) (t : Truth) :
    t.negateIf (a ^^ b) = (t.negateIf a).negateIf b := by
  cases a <;> cases b <;> simp

end Truth

namespace Filter

/-- The call that adds a filter. -/
def call (f : Filter) : Call := .filter f.field f.operator f.operand

/-- A call carries all parts of its filter. -/
theorem call_injective {f g : Filter} (h : f.call = g.call) : f = g := by
  cases f
  cases g
  cases h
  rfl

/-- A document passes a filter of a query over a source. -/
def passes (source : Source) (s : Snapshot) (f : Filter) : Bool := (f.normal source).holds s

/-- An operator and its complement never hold together. -/
theorem relates_exclusive {o o' : Operator} (hneg : o.negated = .ok o') (v operand : Value)
    (h : relates o v operand = true) (h' : relates o' v operand = true) : False := by
  cases o <;> cases hneg <;> simp_all [relates]
  all_goals
    cases operand <;> simp_all

/-- The operator can compare the value with the operand: a range compares values of one kind, and
the other operators any value but null, with a list of candidates where they take one. -/
def compares (operator : Operator) (v operand : Value) : Bool :=
  match operator with
  | .lessThan | .lessThanOrEqual | .greaterThan | .greaterThanOrEqual => comparable v operand
  | .isIn | .notIn => !v.isNull && operand.asArray?.isSome
  | _ => !v.isNull

/-- Where an operator can compare, its complement holds exactly if the operator does not. -/
theorem relates_negated {o o' : Operator} (hneg : o.negated = .ok o') {v operand : Value}
    (h : compares o v operand = true) : relates o' v operand = !relates o v operand := by
  cases o with
  | isIn | notIn =>
      cases hneg
      obtain ⟨hnull, hlist⟩ := Bool.and_eq_true_iff.1 h
      cases operand with
      | array candidates => simp only [relates, hnull, Bool.true_and, Bool.not_not]
      | _ => cases hlist
  | equal | notEqual =>
      cases hneg
      have hnull : (!v.isNull) = true := h
      simp only [relates, hnull, Bool.true_and, Bool.not_not]
  | lessThan | lessThanOrEqual | greaterThan | greaterThanOrEqual =>
      cases hneg
      have hkind : comparable v operand = true := h
      simp only [relates, hkind, Bool.true_and, bne, Bool.not_not]
  | arrayContains | arrayContainsAny => cases hneg

/-- No document passes a filter and the filter with the complementary operator. -/
theorem passes_exclusive {f : Filter} {o' : Operator} (hneg : f.operator.negated = .ok o')
    (source : Source) (s : Snapshot) (h : f.passes source s = true)
    (h' : ({ f with operator := o' } : Filter).passes source s = true) : False := by
  have hsame : ({ f with operator := o' } : Filter).normal source
      = { f.normal source with operator := o' } := by
    unfold normal
    split <;> rfl
  have hop : (f.normal source).operator = f.operator := by
    unfold normal
    split <;> rfl
  rw [passes, hsame] at h'
  rw [passes] at h
  unfold holds at h h'
  cases hv : s.field? (f.normal source).field with
  | none => simp [hv] at h
  | some v =>
      simp only [hv] at h h'
      exact relates_exclusive (hop ▸ hneg) v _ h h'

end Filter

namespace Condition

/-- The filter of the operator that a condition names, if it is well formed. -/
def own? : Condition → Option Filter
  | basic field operator value => do
    return ⟨← (FieldPath.ofText field).toOption, ← (Operator.ofText operator).toOption, value⟩
  | isIn field values => do return ⟨← (FieldPath.ofText field).toOption, .isIn, values⟩
  | notIn field values => do return ⟨← (FieldPath.ofText field).toOption, .notIn, values⟩
  | isNull field => do return ⟨← (FieldPath.ofText field).toOption, .equal, .null⟩
  | notNull field => do return ⟨← (FieldPath.ofText field).toOption, .notEqual, .null⟩

/-- The filter of the complementary operator, if there is one. -/
def complement? (c : Condition) : Option Filter :=
  c.own?.bind fun f => f.operator.negated.toOption.map fun o => { f with operator := o }

/-- The truth of a condition: yes where its filter passes, no where the complementary filter
passes, and unknown elsewhere. -/
def truth (source : Source) (s : Snapshot) (c : Condition) : Truth :=
  if c.own?.any (·.passes source s) then .yes
  else if c.complement?.any (·.passes source s) then .no
  else .unknown

/-- A list operand that is accepted stays as it is. -/
theorem checkList_eq_ok {v w : Value} (h : v.checkList = .ok w) : w = v := by
  cases v <;> simp only [Value.checkList, Outcome.throw_eq_ok] at h
  split at h
  · cases h
  · split at h
    · cases h
    · cases h
      rfl

/-- A filter call on a field carries the path of its text. -/
theorem filterOn_eq_ok {field : String} {operator : Operator} {operand : Value} {call : Call}
    (h : filterOn field operator operand = .ok call) :
    ∃ path, FieldPath.ofText field = .ok path ∧
      call = (⟨path, operator, operand⟩ : Filter).call := by
  obtain ⟨path, hpath, hcall⟩ := Outcome.bind_eq_ok.1 h
  exact ⟨path, hpath, (Except.ok.inj hcall).symm⟩

/-- The steps by which a condition with an operator is compiled. -/
theorem compile_basic (negate : Bool) (field operator : String) (value : Value) :
    (basic field operator value).compile negate =
      Operator.ofText operator >>= fun o =>
        (if negate then o.negated else .ok o) >>= fun o' =>
          (if o'.takesList then value.checkList else .ok value) >>= fun v =>
            filterOn field o' v := by
  have step : ∀ o : Operator,
      (if o.takesList then value.checkList >>= fun v => filterOn field o v
        else filterOn field o value)
      = (if o.takesList then value.checkList else .ok value) >>= fun v => filterOn field o v := by
    intro o
    split <;> rfl
  rw [compile]
  cases Operator.ofText operator with
  | error e => rfl
  | ok o =>
      cases negate with
      | false => exact step o
      | true =>
          simp only [Outcome.ok_bind, if_true]
          cases o.negated with
          | error e => rfl
          | ok o' => exact step o'

/-- The complementary filter has the negated operator and is otherwise the same. -/
theorem complement?_of_own? {c : Condition} {f : Filter} {o : Operator} (hf : c.own? = some f)
    (ho : f.operator.negated = .ok o) : c.complement? = some { f with operator := o } := by
  simp [complement?, hf, ho, Except.toOption]

/-- A condition compiles to its own filter, and under a negation to the complementary one. -/
theorem compile_eq_ok {c : Condition} {negate : Bool} {call : Call}
    (h : c.compile negate = .ok call) :
    ∃ f, c.own? = some f ∧
      ∃ g, (if negate then c.complement? else c.own?) = some g ∧ call = g.call := by
  -- A negated condition is its own filter with the operator that `negated` gives.
  have both : ∀ {path : FieldPath} {o o' : Operator} {v : Value},
      c.own? = some ⟨path, o, v⟩ → (if negate then o.negated else .ok o) = .ok o' →
      call = (⟨path, o', v⟩ : Filter).call →
      ∃ f, c.own? = some f ∧
        ∃ g, (if negate then c.complement? else c.own?) = some g ∧ call = g.call := by
    intro path o o' v hown ho hcall
    refine ⟨_, hown, ⟨path, o', v⟩, ?_, hcall⟩
    cases negate with
    | true => exact complement?_of_own? hown ho
    | false =>
        cases ho
        exact hown
  cases c with
  | basic field operator value =>
      rw [compile_basic] at h
      obtain ⟨o, ho, h⟩ := Outcome.bind_eq_ok.1 h
      obtain ⟨o', ho', h⟩ := Outcome.bind_eq_ok.1 h
      obtain ⟨v, hv, h⟩ := Outcome.bind_eq_ok.1 h
      obtain ⟨path, hpath, rfl⟩ := filterOn_eq_ok h
      have hvalue : v = value := by
        split at hv
        · exact checkList_eq_ok hv
        · exact (Except.ok.inj hv).symm
      subst hvalue
      exact both (o := o) (by simp [own?, hpath, ho, Except.toOption]) ho' rfl
  | isIn field values =>
      obtain ⟨v, hv, h⟩ := Outcome.bind_eq_ok.1 h
      obtain ⟨path, hpath, rfl⟩ := filterOn_eq_ok h
      cases checkList_eq_ok hv
      refine both (o := .isIn) (by simp [own?, hpath, Except.toOption]) ?_ rfl
      cases negate <;> rfl
  | notIn field values =>
      obtain ⟨v, hv, h⟩ := Outcome.bind_eq_ok.1 h
      obtain ⟨path, hpath, rfl⟩ := filterOn_eq_ok h
      cases checkList_eq_ok hv
      refine both (o := .notIn) (by simp [own?, hpath, Except.toOption]) ?_ rfl
      cases negate <;> rfl
  | isNull field =>
      obtain ⟨path, hpath, rfl⟩ := filterOn_eq_ok h
      refine both (o := .equal) (by simp [own?, hpath, Except.toOption]) ?_ rfl
      cases negate <;> rfl
  | notNull field =>
      obtain ⟨path, hpath, rfl⟩ := filterOn_eq_ok h
      refine both (o := .notEqual) (by simp [own?, hpath, Except.toOption]) ?_ rfl
      cases negate <;> rfl

/-- No document passes both the filter of a condition and the complementary one. -/
theorem own_complement_exclusive {c : Condition} {f g : Filter} (hf : c.own? = some f)
    (hg : c.complement? = some g) (source : Source) (s : Snapshot)
    (hpf : f.passes source s = true) : g.passes source s = false := by
  rw [complement?, hf, Option.bind_some, Option.map_eq_some_iff] at hg
  obtain ⟨o, ho, rfl⟩ := hg
  rw [Bool.eq_false_iff]
  exact Filter.passes_exclusive (Outcome.toOption_eq_some.1 ho) source s hpf

/-- A condition is true where its own filter passes. -/
theorem truth_eq_yes {c : Condition} {f : Filter} (hf : c.own? = some f) (source : Source)
    (s : Snapshot) : c.truth source s = .yes ↔ f.passes source s = true := by
  unfold truth
  rw [hf]
  cases hp : f.passes source s with
  | true => simp [hp]
  | false =>
      simp only [Option.any_some, hp, Bool.false_eq_true, if_false]
      split <;> simp

/-- A condition is false where the complementary filter passes. -/
theorem truth_eq_no {c : Condition} {f g : Filter} (hf : c.own? = some f)
    (hg : c.complement? = some g) (source : Source) (s : Snapshot) :
    c.truth source s = .no ↔ g.passes source s = true := by
  unfold truth
  rw [hf, hg]
  cases hp : f.passes source s with
  | true => simp [hp, own_complement_exclusive hf hg source s hp]
  | false => cases hq : g.passes source s <;> simp [hp, hq]

/-- The filter that a condition compiles to passes where the condition, or its negation, is
true. -/
theorem compile_passes_iff {c : Condition} {negate : Bool} {call : Call}
    (h : c.compile negate = .ok call) :
    ∃ g : Filter, call = g.call ∧
      ∀ source s, g.passes source s = true ↔ (c.truth source s).negateIf negate = .yes := by
  obtain ⟨f, hf, g, hg, hcall⟩ := compile_eq_ok h
  refine ⟨g, hcall, fun source s => ?_⟩
  cases negate with
  | true => rw [Truth.negateIf_true, Truth.not_eq_yes, truth_eq_no hf hg]
  | false => rw [Truth.negateIf_false, truth_eq_yes hg]

end Condition

namespace Predicate

mutual

/-- The truth of a predicate of a document: a group is the conjunction of its children, and a
negation flag swaps yes and no. -/
def truth (source : Source) (s : Snapshot) : Predicate → Truth
  | leaf link condition => (condition.truth source s).negateIf link.negate
  | nested link children => (truthOfAll source s children).negateIf link.negate

/-- The truth of a list of predicates: their conjunction. -/
def truthOfAll (source : Source) (s : Snapshot) : List Predicate → Truth
  | [] => .yes
  | p :: rest => (p.truth source s).and (truthOfAll source s rest)

end

mutual

/-- No group of the predicate is empty. -/
def Grouped : Predicate → Prop
  | leaf _ _ => True
  | nested _ children => children ≠ [] ∧ AllGrouped children

/-- No group of the predicates is empty. -/
def AllGrouped : List Predicate → Prop
  | [] => True
  | p :: rest => p.Grouped ∧ AllGrouped rest

end

mutual

/-- The conditions of a predicate from left to right, each with the number of negations at it
and around it; so many negations are around the predicate. -/
def conditions (around : Nat) : Predicate → List (Nat × Condition)
  | leaf link condition => [(around + link.negate.toNat, condition)]
  | nested link children => conditionsOfAll (around + link.negate.toNat) children

/-- The conditions of some predicates from left to right. -/
def conditionsOfAll (around : Nat) : List Predicate → List (Nat × Condition)
  | [] => []
  | p :: rest => p.conditions around ++ conditionsOfAll around rest

end

/-- The filter of a condition under a number of negations. -/
def compileCounted (c : Nat × Condition) : Outcome Call := c.2.compile (c.1 % 2 == 1)

/-- One more negation changes the parity of their number. -/
theorem odd_add_negate (around : Nat) (flag : Bool) :
    ((around + flag.toNat) % 2 == 1) = (flag ^^ (around % 2 == 1)) := by
  rcases Nat.mod_two_eq_zero_or_one around with h | h <;> cases flag <;>
    simp [Nat.add_mod, h]

/-- A group that compiles is joined by AND, has at most one child where it is negated, and
gives the filters of its children. -/
theorem compile_nested_eq_ok {link : Link} {children : List Predicate} {negated : Bool}
    {calls : List Call} (h : (nested link children).compile negated = .ok calls) :
    ((link.negate ^^ negated) = true → children.length ≤ 1) ∧
      compileEach (link.negate ^^ negated) children = .ok calls := by
  rw [compile] at h
  split at h
  · cases h
  · split at h
    · cases h
    · rename_i hlen
      exact ⟨fun hneg => by simpa [hneg] using hlen, h⟩

/-- A leaf that compiles gives one filter. -/
theorem compile_leaf_eq_ok {link : Link} {condition : Condition} {negated : Bool}
    {calls : List Call} (h : (leaf link condition).compile negated = .ok calls) :
    ∃ call, condition.compile (link.negate ^^ negated) = .ok call ∧ calls = [call] := by
  rw [compile] at h
  split at h
  · cases h
  · obtain ⟨call, hcall, hcalls⟩ := Outcome.bind_eq_ok.1 h
    exact ⟨call, hcall, (Except.ok.inj hcalls).symm⟩

/-- A list that compiles gives the filters of its first predicate and then those of the rest. -/
theorem compileEach_cons_eq_ok {p : Predicate} {rest : List Predicate} {negated : Bool}
    {calls : List Call} (h : compileEach negated (p :: rest) = .ok calls) :
    ∃ first others, p.compile negated = .ok first ∧ compileEach negated rest = .ok others ∧
      calls = first ++ others := by
  rw [compileEach] at h
  obtain ⟨first, hfirst, h⟩ := Outcome.bind_eq_ok.1 h
  obtain ⟨others, hothers, h⟩ := Outcome.bind_eq_ok.1 h
  exact ⟨first, others, hfirst, hothers, (Except.ok.inj h).symm⟩

/-- Some filters are what a list of calls adds, and they pass exactly where a truth value is
yes. -/
def Means (calls : List Call) (truth : Source → Snapshot → Truth) : Prop :=
  ∃ filters : List Filter, calls = filters.map Filter.call ∧
    ∀ source s, (∀ f ∈ filters, f.passes source s = true) ↔ truth source s = .yes

/-- Filters one after the other mean the conjunction. -/
theorem Means.append {first others : List Call} {t u : Source → Snapshot → Truth}
    (ht : Means first t) (hu : Means others u) :
    Means (first ++ others) fun source s => (t source s).and (u source s) := by
  obtain ⟨fs, rfl, hfs⟩ := ht
  obtain ⟨gs, rfl, hgs⟩ := hu
  refine ⟨fs ++ gs, by simp, fun source s => ?_⟩
  rw [Truth.and_eq_yes, ← hfs, ← hgs, List.forall_mem_append]

mutual

/-- The filters of a predicate mean its truth, under the negation around it. -/
theorem compile_means : ∀ (p : Predicate) (negated : Bool) (calls : List Call), p.Grouped →
    p.compile negated = .ok calls →
    Means calls fun source s => (p.truth source s).negateIf negated
  | leaf link condition, negated, calls, _, h => by
      obtain ⟨call, hcall, rfl⟩ := compile_leaf_eq_ok h
      obtain ⟨g, rfl, hg⟩ := Condition.compile_passes_iff hcall
      refine ⟨[g], rfl, fun source s => ?_⟩
      rw [List.forall_mem_singleton, hg, Truth.negateIf_xor]
      rfl
  | nested link children, negated, calls, hgroup, h => by
      rw [Grouped] at hgroup
      obtain ⟨hlen, hcalls⟩ := compile_nested_eq_ok h
      have hone : (link.negate ^^ negated) = true → children.length = 1 := by
        intro hneg
        have hle := hlen hneg
        have hpos := List.length_pos_iff.2 hgroup.1
        omega
      obtain ⟨filters, hmap, hpass⟩ :=
        compileEach_means children _ calls hgroup.2 hone hcalls
      refine ⟨filters, hmap, fun source s => ?_⟩
      rw [hpass]
      simp only [truth, Truth.negateIf_xor]

/-- The filters of a list mean the conjunction.  A negation reaches a list of one predicate
only: it would turn the conjunction of more into a disjunction. -/
theorem compileEach_means : ∀ (ps : List Predicate) (negated : Bool) (calls : List Call),
    AllGrouped ps → (negated = true → ps.length = 1) → compileEach negated ps = .ok calls →
    Means calls fun source s => (truthOfAll source s ps).negateIf negated
  | [], negated, calls, _, hone, h => by
      cases negated with
      | true => exact absurd (hone rfl) (by simp)
      | false =>
          cases h
          exact ⟨[], rfl, fun source s => by simp [truthOfAll]⟩
  | p :: rest, negated, calls, hgroup, hone, h => by
      rw [AllGrouped] at hgroup
      obtain ⟨first, others, hfirst, hothers, rfl⟩ := compileEach_cons_eq_ok h
      have hp := compile_means p negated first hgroup.1 hfirst
      cases negated with
      | true =>
          obtain rfl : rest = [] := List.length_eq_zero_iff.1 (by simpa using hone rfl)
          cases hothers
          rw [List.append_nil]
          simpa [truthOfAll] using hp
      | false =>
          have hrest := compileEach_means rest false others hgroup.2 (by simp) hothers
          simpa [truthOfAll] using hp.append hrest

end

mutual

/-- A predicate gives one filter for each of its conditions, negated by the parity of the
negations at the condition and around it. -/
theorem compile_conditions : ∀ (p : Predicate) (around : Nat) (calls : List Call),
    p.compile (around % 2 == 1) = .ok calls →
    (p.conditions around).mapM compileCounted = .ok calls
  | leaf link condition, around, calls, h => by
      obtain ⟨call, hcall, rfl⟩ := compile_leaf_eq_ok h
      rw [← odd_add_negate] at hcall
      rw [conditions, List.mapM_cons, compileCounted, hcall]
      rfl
  | nested link children, around, calls, h => by
      have hcalls := (compile_nested_eq_ok h).2
      rw [← odd_add_negate] at hcalls
      rw [conditions]
      exact compileEach_conditions children _ calls hcalls

/-- A list gives one filter for each of its conditions. -/
theorem compileEach_conditions : ∀ (ps : List Predicate) (around : Nat) (calls : List Call),
    compileEach (around % 2 == 1) ps = .ok calls →
    (conditionsOfAll around ps).mapM compileCounted = .ok calls
  | [], around, calls, h => by
      cases h
      rfl
  | p :: rest, around, calls, h => by
      obtain ⟨first, others, hfirst, hothers, rfl⟩ := compileEach_cons_eq_ok h
      rw [conditionsOfAll, List.mapM_append, compile_conditions p around first hfirst,
        compileEach_conditions rest around others hothers]
      rfl

end

/-- **Filters mean the predicates they come from.**  Where a list of predicates without empty
groups is accepted, its calls are filters that pass exactly the documents of which the list is
true.  No document passes a condition and its negation.  Whether a condition is negated depends
on the number of negations at it and around it alone: two of them cancel at any depth. -/
theorem compileAll_meaning {scopedGroup : Bool} {predicates : List Predicate}
    {calls : List Call} (hgroup : AllGrouped predicates)
    (h : compileAll scopedGroup predicates = .ok calls) :
    (∃ filters : List Filter, calls = filters.map Filter.call ∧
      ∀ source s, (∀ f ∈ filters, f.passes source s = true) ↔
        truthOfAll source s predicates = .yes) ∧
    (∀ (c : Condition) (f g : Filter), c.compile false = .ok f.call →
      c.compile true = .ok g.call → ∀ source s,
        ¬ (f.passes source s = true ∧ g.passes source s = true)) ∧
    (conditionsOfAll 0 predicates).mapM compileCounted = .ok calls := by
  have heach : compileEach false predicates = .ok calls := by
    rw [compileAll] at h
    split at h
    · rename_i hnil
      rw [List.isEmpty_iff.1 hnil]
      exact h
    · split at h
      · cases h
      · exact h
  refine ⟨?_, ?_, compileEach_conditions predicates 0 calls heach⟩
  · exact compileEach_means predicates false calls hgroup (by simp) heach
  · intro c f g hf hg source s hboth
    obtain ⟨f', hf', hpf⟩ := Condition.compile_passes_iff hf
    obtain ⟨g', hg', hpg⟩ := Condition.compile_passes_iff hg
    cases Filter.call_injective hf'
    cases Filter.call_injective hg'
    have hyes := (hpf source s).1 hboth.1
    have hno := (hpg source s).1 hboth.2
    rw [Truth.negateIf_false] at hyes
    rw [hyes] at hno
    cases hno

/-- A doubly negated group of two conditions, one of them negated once more. -/
theorem compileAll_meaning_double_negation :
    let age : Condition := .basic "age" ">=" (.integer 18)
    let tag : Condition := .isIn "tag" (.array [.string "x"])
    let predicates : List Predicate :=
      [.nested { negate := true } [.nested { negate := true }
        [.leaf {} age, .leaf { negate := true } tag]]]
    let filters : List Filter :=
      [⟨⟨["age"]⟩, .greaterThanOrEqual, .integer 18⟩, ⟨⟨["tag"]⟩, .notIn, .array [.string "x"]⟩]
    AllGrouped predicates ∧ compileAll false predicates = .ok (filters.map Filter.call) ∧
      ∀ source s, (∀ f ∈ filters, f.passes source s = true) ↔
        truthOfAll source s predicates = .yes := by
  intro age tag predicates filters
  have hgroup : AllGrouped predicates := by simp [predicates, AllGrouped, Grouped]
  have hcompile : compileAll false predicates = .ok (filters.map Filter.call) := by rfl
  refine ⟨hgroup, hcompile, ?_⟩
  obtain ⟨filters', hcalls, hmeans⟩ := (compileAll_meaning hgroup hcompile).1
  have hsame : filters' = filters :=
    (List.map_inj_right fun _ _ => Filter.call_injective).1 hcalls.symm
  exact hsame ▸ hmeans

end Predicate

end DocStore
