import DocStore.Proofs.Session.Task

/-!
# Blocks of pretending

A program does its deeds one after the other, each as the outcomes before it demand, and opens
blocks in which the connection pretends (`Program`).  While the connection pretends, all that a
program leaves behind is the texts that it has passed to the connection itself, and only in the log
(`Session.Feigns`): this is shown for one task, carried over to deeds, and to programs by induction.

A block starts with an empty log and puts the old one back.  So it leaves no trace, and gives what
was passed in it (`Program.pretend_leaves_no_trace`).
-/

namespace DocStore

variable {σ α : Type}

/-! ## Programs -/

/-- A program on a connection. -/
inductive Program
  /-- The program ends. -/
  | done (outcome : Outcome Unit)
  /-- A deed is done, and its outcome tells how to go on. -/
  | act (d : Deed) (next : Outcome d.Answer → Program)
  /-- A block is run while pretending, and its outcome tells how to go on. -/
  | pretend (block : Program) (next : Outcome (List LogEntry) → Program)

namespace Program

/-- Runs a program. -/
def run (c : Connection σ) : Program → Action (Session σ) Unit
  | done outcome => Action.ofOutcome outcome
  | act d next => do (next (← (d.act c).attempt)).run c
  | pretend block next => do (next (← (Session.pretend (block.run c)).attempt)).run c

/-- The texts that a program passes to the connection, but for those in its blocks. -/
def passed (c : Connection σ) : Program → Session σ → List String
  | done _, _ => []
  | act d next, s =>
    let (outcome, after) := (d.act c).runOn s
    ((d.task? s).map (·.1)).toList ++ (next outcome).passed c after
  | pretend block next, s =>
    let (outcome, after) := (Session.pretend (block.run c)).runOn s
    (next outcome).passed c after

end Program

/-! ## Feigning -/

namespace Session

/-- Statements have been told to a connection that pretends: they are in its log if it logs, and
that is all. -/
structure Feigns (s : Session σ) (texts : List String) (s' : Session σ) : Prop where
  store_eq : s'.client.store = s.client.store
  logging_eq : s'.logging = s.logging
  pretending_eq : s'.pretending = s.pretending
  log_eq : s'.log = s.log ++ if s.logging then texts.map (⟨·, true⟩) else []

variable {s t u : Session σ} {texts more : List String}

theorem Idle.feigns (h : Idle s t) : Feigns s [] t where
  store_eq := h.store_eq
  logging_eq := h.logging_eq
  pretending_eq := h.pretending_eq
  log_eq := by rw [h.log_eq]; simp

/-- Statements are told one after the other. -/
theorem Feigns.trans (h : Feigns s texts t) (hmore : Feigns t more u) :
    Feigns s (texts ++ more) u where
  store_eq := hmore.store_eq.trans h.store_eq
  logging_eq := hmore.logging_eq.trans h.logging_eq
  pretending_eq := hmore.pretending_eq.trans h.pretending_eq
  log_eq := by
    rw [hmore.log_eq, h.log_eq, h.logging_eq, List.append_assoc]
    cases s.logging <;> simp

theorem feigns_note (text : String) (modified : Bool) (s : Session σ) :
    Feigns s [text] ((s.note text true).noteModified modified) := by
  rw [note, noteModified]
  constructor <;> cases hlogging : s.logging <;> cases modified <;> simp [hlogging]

/-- A deed adds the text of its task to the log. -/
theorem feigns_act (c : Connection σ) (d : Deed) (h : s.pretending = true) :
    Feigns s ((d.task? s).map (·.1)).toList ((d.act c).runOn s).2 := by
  obtain ⟨s₁, hidle, ⟨hnone, hrun⟩ | ⟨text, t, htask, hrun⟩⟩ := d.act_cases c s
  · rw [hnone, hrun]
    exact hidle.feigns
  · rw [htask, hrun, Task.runOn_carryOut_of_pretending (hidle.pretending_eq.trans h)]
    exact hidle.feigns.trans (feigns_note text _ s₁)

/-! ## Blocks -/

/-- The session in which a block of pretending runs. -/
abbrev entered (s : Session σ) : Session σ := s.enterPretend.2

/-- A block gives what is in the log at its end, and puts back the flags and the log that it has
found. -/
theorem runOn_pretend (block : Action (Session σ) Unit) (s : Session σ) :
    (pretend block).runOn s
      = ((block.runOn s.entered).1.map fun _ => (block.runOn s.entered).2.log,
          { (block.runOn s.entered).2 with
            logging := s.logging, pretending := s.pretending, log := s.log }) := by
  have hrun : (pretend block).runOn s
      = (do
          let entries ← Action.ofFn fun t =>
            (.ok t.log, { t with
              logging := s.logging, pretending := s.pretending, log := s.log })
          let _ ← Action.ofOutcome (block.runOn s.entered).1
          return entries : Action (Session σ) (List LogEntry)).runOn (block.runOn s.entered).2 := by
    rfl
  rw [hrun]
  cases (block.runOn s.entered).1 <;> rfl

/-- A block in which statements are told leaves no trace, and gives these. -/
theorem feigns_pretend {block : Action (Session σ) Unit}
    (h : Feigns s.entered texts (block.runOn s.entered).2) :
    Feigns s [] ((pretend block).runOn s).2 ∧
      ((pretend block).runOn s).1
        = (block.runOn s.entered).1.map fun _ => texts.map (⟨·, true⟩) := by
  rw [runOn_pretend, h.log_eq]
  exact ⟨⟨h.store_eq, rfl, rfl, by simp⟩, rfl⟩

end Session

namespace Program

variable {c : Connection σ} {s : Session σ}

theorem runOn_act (d : Deed) (next : Outcome d.Answer → Program) :
    ((act d next).run c).runOn s
      = ((next ((d.act c).runOn s).1).run c).runOn ((d.act c).runOn s).2 :=
  Action.runOn_bind_of_ok (Action.runOn_attempt _ _)

theorem runOn_pretend (block : Program) (next : Outcome (List LogEntry) → Program) :
    ((pretend block next).run c).runOn s
      = ((next ((Session.pretend (block.run c)).runOn s).1).run c).runOn
          ((Session.pretend (block.run c)).runOn s).2 :=
  Action.runOn_bind_of_ok (Action.runOn_attempt _ _)

/-- **Programs that pretend.**  While the connection pretends, a program leaves nothing behind but
the texts that it has passed, which are in the log. -/
theorem feigns_run (c : Connection σ) (p : Program) {s : Session σ} (h : s.pretending = true) :
    s.Feigns (p.passed c s) ((p.run c).runOn s).2 := by
  induction p generalizing s with
  | done outcome => exact (Session.Idle.refl s).feigns
  | act d next ih =>
      have hdeed := Session.feigns_act c d h
      rw [runOn_act]
      exact hdeed.trans (ih _ (hdeed.pretending_eq.trans h))
  | pretend block next ihblock ihnext =>
      -- The block pretends whether or not the connection did before.
      have hblock := (Session.feigns_pretend (ihblock (s := s.entered) rfl)).1
      rw [runOn_pretend]
      exact hblock.trans (ihnext _ (hblock.pretending_eq.trans h))

/-- **Blocks of pretending.**  However a block ends, and whatever it does, the store, the log and
the flags of the connection are afterwards what they were before.  If it ends well, it gives the
texts that it has passed to the connection itself, in their order, as statements that have not been
run. -/
theorem pretend_leaves_no_trace (c : Connection σ) (block : Program) (s : Session σ) :
    ∃ after, (Session.pretend (block.run c)).runOn s
        = (((block.run c).runOn s.entered).1.map fun _ =>
            (block.passed c s.entered).map (⟨·, true⟩), after) ∧
      after.client.store = s.client.store ∧ after.log = s.log ∧ after.logging = s.logging ∧
      after.pretending = s.pretending := by
  obtain ⟨hnone, hgives⟩ :=
    Session.feigns_pretend (feigns_run c block (s := s.entered) rfl)
  refine ⟨_, Prod.ext hgives rfl, hnone.store_eq, ?_, hnone.logging_eq, hnone.pretending_eq⟩
  simpa using hnone.log_eq

/-- A deletion, and around it a block that tells of one statement: the block of a block is not
told. -/
example :
    let users : QueryState := .ofTable "users"
    let block : Program := .act (.statement users .delete) fun _ =>
      .pretend (.act (.statement users .get) fun _ => .done (.ok ())) fun _ => .done (.ok ())
    let s : Session Memory.State := { client := .fresh ⟨[], { readings := fun _ => default }⟩ }
    ((Session.pretend (block.run (.inMemory default 100))).runOn s).1.toOption
      = some [⟨"delete from users", true⟩] := by
  decide +kernel

end Program

end DocStore
