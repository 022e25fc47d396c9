import DocStore.Proofs.Mutation.Applied
import DocStore.Proofs.Session.Pretend

/-!
# The memory of a change

A connection remembers that its store has changed.  It does so after a task whose answer tells of a
change.  An answer of the store tells of one only if a commit has been applied
(`Task.accounts_operation`).  The answer to an insertion that is only pretended tells of one, too,
although nothing has happened, while updates and deletions that are pretended do not.

What becomes of the memory is followed from one deed to the next (`Session.Follows`).  So what a
connection remembers after a program is true, but for insertions that it has pretended
(`Program.remembers_applied_iff`).
-/

namespace DocStore

variable {σ α : Type}

open Session (exchanges)

/-! ## Tasks -/

namespace Task

/-- The task inserts documents. -/
def isInsertion : Task → Bool
  | insert _ _ _ => true
  | read _ | update _ _ | delete _ => false

/-- Among the answers while the connection pretends, that to an insertion tells of a change. -/
theorem changes_pretended (t : Task) : t.changes t.pretended = t.isInsertion := by
  cases t <;> rfl

/-- A query for the keys of documents before a mutation that counts them. -/
theorem accounts_counting (c : Connection σ) (target : StoreQuery)
    {f : List DocumentKey → Action (Client (Watched σ)) Nat}
    (hf : ∀ keys client, Accounts Client.exchanges (0 < ·) (f keys) client)
    (client : Client (Watched σ)) :
    Accounts Client.exchanges (0 < ·) (c.watched.matchingKeys target >>= f) client := by
  obtain ⟨answer, client₁, hrun, hseen⟩ :=
    Watched.runOn_keep (.query target) (c.store.query target) client
  have hquery : (Client.onStore (c.watched.store.query target)).runOn client
      = (answer, client₁) := hrun
  have hkeys :
      Accounts Client.exchanges (fun _ => False) (c.watched.matchingKeys target) client := by
    refine ⟨[.query target answer], ?_, fun _ _ => False.elim⟩
    rw [Connection.matchingKeys, Action.runOn_bind, hquery]
    cases answer <;> exact hseen
  exact hkeys.bind fun keys client₂ _ => (hf keys client₂).mono fun _ => And.left

/-- **Answers.**  The store answers that something has changed only after an applied commit. -/
theorem accounts_operation (c : Connection σ) (t : Task) (client : Client (Watched σ)) :
    Accounts Client.exchanges (fun answer => t.changes answer = true) (t.operation c.watched)
      client := by
  cases t with
  | read target =>
      have hquery : Course Client.exchanges (fun _ => True) (fun _ _ _ => True)
          (Client.onStore (c.watched.store.query target)) client :=
        .keep (fun _ => rfl) (fun _ => rfl) fun _ => trivial
      exact .of_course hquery fun _ => Bool.false_ne_true
  | insert collection record more =>
      have hinsert := Accounts.mutate
        (Batcher.accounts_insert c.store collection (List.cons_ne_nil record more)) client
      exact hinsert.mono fun _ _ => trivial
  | update target data? =>
      cases data? with
      | none =>
          refine .silent rfl fun n hn => ?_
          cases hn
          exact Bool.false_ne_true
      | some data =>
          have hupdate := accounts_counting c target
            (fun keys => .mutate (Batcher.accounts_updateEncoded c.store keys data)) client
          exact hupdate.mono fun n => of_decide_eq_true
  | delete target =>
      have hdelete := accounts_counting c target
        (fun keys => .mutate (Batcher.accounts_delete c.store c.pageSize keys)) client
      exact hdelete.mono fun n => of_decide_eq_true

end Task

/-! ## Sessions -/

namespace Session

/-- From one session to another the store is asked for more.  A change is remembered only if a
commit has been applied or if it is feigned, and then it is.  No change is forgotten. -/
structure Follows (s : Session (Watched σ)) (feigned : Prop) (s' : Session (Watched σ)) : Prop where
  asked : ∃ asked, exchanges s' = exchanges s ++ asked ∧
    (s'.modified = true → s.modified = true ∨ feigned ∨ HaveApplied asked)
  feigned : feigned → s'.modified = true
  kept : s.modified = true → s'.modified = true

variable {s t u : Session (Watched σ)} {p q : Prop}

/-- A change is told, truly or not. -/
theorem Follows.of_told (asked : List Exchange) (told : Bool)
    (hseen : exchanges t = exchanges s ++ asked) (hmodified : t.modified = (s.modified || told))
    (htold : told = true → p ∨ HaveApplied asked) (hfeigned : p → told = true) :
    Follows s p t where
  asked := by
    refine ⟨asked, hseen, fun hafter => ?_⟩
    rw [hmodified, Bool.or_eq_true] at hafter
    exact hafter.imp_right htold
  feigned hp := by rw [hmodified, hfeigned hp, Bool.or_true]
  kept hbefore := by rw [hmodified, hbefore, Bool.true_or]

theorem Idle.follows (h : Idle s t) : Follows s False t := by
  have hseen : exchanges t = exchanges s ++ [] := by
    rw [List.append_nil]
    exact congrArg Watched.exchanges h.store_eq
  exact .of_told [] false hseen (h.modified_eq.trans (Bool.or_false _).symm) nofun False.elim

theorem Follows.trans (h : Follows s p t) (hmore : Follows t q u) : Follows s (p ∨ q) u where
  asked := by
    obtain ⟨asked, hasked, hfirst⟩ := h.asked
    obtain ⟨more, hrest, hsecond⟩ := hmore.asked
    refine ⟨asked ++ more, by rw [hrest, hasked, List.append_assoc], fun hmodified => ?_⟩
    rcases hsecond hmodified with hbefore | hq | happlied
    · rcases hfirst hbefore with hbefore | hp | happlied
      · exact .inl hbefore
      · exact .inr (.inl (.inl hp))
      · exact .inr (.inr (happlied.append_left more))
    · exact .inr (.inl (.inr hq))
    · exact .inr (.inr (happlied.append_right asked))
  feigned hor := hor.elim (fun hp => hmore.kept (h.feigned hp)) hmore.feigned
  kept hmodified := hmore.kept (h.kept hmodified)

theorem Follows.congr (h : Follows s p t) (hiff : p ↔ q) : Follows s q t := by
  rwa [← propext hiff]

/-- A task that is pretended is not asked for; an insertion is remembered all the same. -/
theorem follows_pretended (c : Connection σ) (text : String) (t : Task) (h : s.pretending = true) :
    Follows s (t.isInsertion = true) ((t.carryOut c.watched text).runOn s).2 := by
  rw [Task.runOn_carryOut_of_pretending h, t.changes_pretended]
  refine .of_told [] t.isInsertion ?_ ?_ .inl id
  · rw [exchanges, noteModified_client, note_client, List.append_nil]
    rfl
  · rw [noteModified_modified, note_modified]

/-- A task that is asked for is remembered if its answer tells of a change, and then a commit has
been applied. -/
theorem follows_answered (c : Connection σ) (text : String) (t : Task) (h : s.pretending = false) :
    Follows s False ((t.carryOut c.watched text).runOn s).2 := by
  obtain ⟨asked, hseen, haccounts⟩ := t.accounts_operation c s.client
  cases hoperation : (t.operation c.watched).runOn s.client with
  | mk outcome client =>
    rw [hoperation] at hseen haccounts
    cases outcome with
    | error e =>
        rw [Task.runOn_carryOut_of_failed h hoperation]
        refine .of_told asked false ?_ ?_ nofun False.elim
        · rw [exchanges, note_client]
          exact hseen
        · rw [note_modified, Bool.or_false]
    | ok answer =>
        rw [Task.runOn_carryOut_of_answered h hoperation]
        refine .of_told asked (t.changes answer) ?_ ?_
          (fun htold => .inr (haccounts answer rfl htold)) False.elim
        · rw [exchanges, noteModified_client, note_client]
          exact hseen
        · rw [noteModified_modified, note_modified]

/-- A task is remembered if its answer tells of a change. -/
theorem follows_carryOut (c : Connection σ) (text : String) (t : Task) (s : Session (Watched σ)) :
    Follows s (s.pretending = true ∧ t.isInsertion = true)
      ((t.carryOut c.watched text).runOn s).2 := by
  cases h : s.pretending with
  | true => exact (follows_pretended c text t h).congr (by simp)
  | false => exact (follows_answered c text t h).congr (by simp)

end Session

/-! ## Programs -/

/-- A deed comes to an insertion while the connection pretends. -/
def Deed.feigns (d : Deed) (s : Session σ) : Bool :=
  s.pretending && (d.task? s).any fun told => told.2.isInsertion

/-- An insertion is pretended in the run of a program. -/
def Program.feigns (c : Connection σ) : Program → Session σ → Bool
  | done _, _ => false
  | act d next, s =>
    let (outcome, after) := (d.act c).runOn s
    d.feigns s || (next outcome).feigns c after
  | pretend block next, s =>
    let (outcome, after) := (Session.pretend (block.run c)).runOn s
    block.feigns c s.entered || (next outcome).feigns c after

/-- What a connection remembers of a deed. -/
theorem Deed.follows (c : Connection σ) (d : Deed) (s : Session (Watched σ)) :
    s.Follows (d.feigns s = true) ((d.act c.watched).runOn s).2 := by
  obtain ⟨s₁, hidle, ⟨hnone, hrun⟩ | ⟨text, t, htask, hrun⟩⟩ := d.act_cases c.watched s
  · rw [hrun]
    exact hidle.follows.congr (by simp [feigns, hnone])
  · rw [hrun]
    refine (hidle.follows.trans (Session.follows_carryOut c text t s₁)).congr ?_
    simp [feigns, htask, hidle.pretending_eq]

namespace Program

/-- **Programs.**  What a connection remembers of a program, by induction on the program. -/
theorem follows (c : Connection σ) (p : Program) (s : Session (Watched σ)) :
    s.Follows (p.feigns c.watched s = true) ((p.run c.watched).runOn s).2 := by
  induction p generalizing s with
  | done outcome => exact (Session.Idle.refl s).follows.congr (by simp [feigns])
  | act d next ih =>
      rw [runOn_act]
      exact ((d.follows c s).trans (ih _ _)).congr (by rw [feigns, Bool.or_eq_true])
  | pretend block next ihblock ihnext =>
      -- A block puts back neither the store nor the memory of a change.
      have hblock : s.Follows (block.feigns c.watched s.entered = true)
          ((Session.pretend (block.run c.watched)).runOn s).2 := by
        have hentered := ihblock s.entered
        rw [Session.runOn_pretend]
        exact ⟨hentered.asked, hentered.feigned, hentered.kept⟩
      rw [runOn_pretend]
      exact (hblock.trans (ihnext _ _)).congr (by rw [feigns, Bool.or_eq_true])

/-- **The memory of a change.**  A connection that remembers no change runs a program.  It
remembers one afterwards only if the store has applied a commit of the program, exactly if that
holds where an insertion was pretended. -/
theorem remembers_applied_iff (c : Connection σ) (p : Program) {s : Session (Watched σ)}
    (hnone : s.modified = false) :
    let after := ((p.run c.watched).runOn s).2
    ∃ asked, exchanges after = exchanges s ++ asked ∧
      ((after.modified = true → HaveApplied asked) ↔
        (p.feigns c.watched s = true → HaveApplied asked)) := by
  intro after
  have hfollows := p.follows c s
  obtain ⟨asked, hasked, hremembered⟩ := hfollows.asked
  refine ⟨asked, hasked, fun hsound hfeigns => hsound (hfollows.feigned hfeigns),
    fun hsound hafter => ?_⟩
  rcases hremembered hafter with hbefore | hfeigns | happlied
  · exact absurd (hnone.symm.trans hbefore) Bool.false_ne_true
  · exact hsound hfeigns
  · exact happlied

/-- The connection of a store in memory that is watched, without documents. -/
def quiet : Session (Watched Memory.State) where
  client := .fresh { store := ⟨[], { readings := fun _ => default }⟩ }

/-- A deletion of all users that is pretended, and then a user who is inserted. -/
def cautious : Program :=
  .pretend (.act (.statement (.ofTable "users") .delete) fun _ => .done (.ok ())) fun _ =>
    .act (.statement (.ofTable "users") (.insert [[("name", .string "Ann")]])) fun _ =>
      .done (.ok ())

/-- The user has been inserted, which is remembered. -/
theorem remembers_applied_iff_cautious :
    let after := ((cautious.run (Connection.inMemory default 100).watched).runOn quiet).2
    quiet.modified = false ∧ after.modified = true ∧ HaveApplied (exchanges after) := by
  intro after
  have hafter : after.modified = true := by decide +kernel
  have hfeigns : cautious.feigns (Connection.inMemory default 100).watched quiet = false := by
    decide +kernel
  obtain ⟨asked, hasked, hiff⟩ :=
    remembers_applied_iff (Connection.inMemory default 100) cautious (s := quiet) rfl
  refine ⟨rfl, hafter, ?_⟩
  rw [show exchanges after = asked from hasked]
  exact hiff.2 (fun htrue => absurd (hfeigns.symm.trans htrue) Bool.false_ne_true) hafter

/-- A user whose insertion is only pretended is remembered, although the store has not been asked
for anything. -/
theorem remembers_pretended_insertion :
    let p : Program := .pretend (.act (.statement (.ofTable "users")
      (.insert [[("name", .string "Ann")]])) fun _ => .done (.ok ())) fun _ => .done (.ok ())
    let after := ((p.run (Connection.inMemory default 100).watched).runOn quiet).2
    quiet.modified = false ∧ after.modified = true ∧
      ¬ ∃ asked, exchanges after = exchanges quiet ++ asked ∧ HaveApplied asked := by
  intro p after
  have hmodified : after.modified = true := by decide +kernel
  have hnothing : exchanges after = [] := by decide +kernel
  refine ⟨rfl, hmodified, fun happlied => ?_⟩
  obtain ⟨asked, hasked, x, hx, -⟩ := happlied
  rw [hnothing] at hasked
  obtain ⟨-, rfl⟩ := List.append_eq_nil_iff.1 hasked.symm
  cases hx

end Program

end DocStore
