import DocStore.Proofs.Session.Pretend

/-!
# Blocks of pretending that overlap

Clones of a connection share what it remembers, and their blocks of pretending may overlap: a block
remembers the flags and the log where it begins, and puts them back where it ends, whatever has
happened in between.  So a block that begins while the connection pretends anyway puts back that it
pretends, even where that has come to an end.

Blocks that overlap put back what they have found exactly if their schedule falls into stretches,
each of them from the beginning of a block to the end of the same block (`Splits`).  Otherwise the
connection pretends from then on (`Shared.restored_or_pretending`).
-/

namespace DocStore

variable {σ : Type}

/-! ## Schedules -/

/-- A step of a connection whose clones pretend at the same time. -/
inductive Event
  /-- A block begins. -/
  | enter (block : Nat)
  /-- A block ends. -/
  | leave (block : Nat)
  /-- A clone does something, in a block or not. -/
  | deed (d : Deed)

namespace Event

/-- Each block begins and then ends; some are under way before. -/
def IsSchedule : List Nat → List Event → Prop
  | underway, [] => underway = []
  | underway, enter i :: rest => i ∉ underway ∧ IsSchedule (i :: underway) rest
  | underway, leave i :: rest => i ∈ underway ∧ IsSchedule (underway.filter (· != i)) rest
  | underway, deed _ :: rest => IsSchedule underway rest

instance IsSchedule.decidable :
    (underway : List Nat) → (events : List Event) → Decidable (IsSchedule underway events)
  | underway, [] => inferInstanceAs (Decidable (underway = []))
  | underway, enter i :: rest =>
    have := IsSchedule.decidable (i :: underway) rest
    inferInstanceAs (Decidable (_ ∧ _))
  | underway, leave i :: rest =>
    have := IsSchedule.decidable (underway.filter (· != i)) rest
    inferInstanceAs (Decidable (_ ∧ _))
  | underway, deed _ :: rest => IsSchedule.decidable underway rest

/-- The events fall into stretches, each from the beginning of a block to its end.  The first one
may have begun before.  Between the stretches no block ends, and if `logs`, nothing is done. -/
def Splits (logs : Bool) : Option Nat → List Event → Prop
  | stretch, [] => stretch = none
  | none, enter i :: rest => Splits logs (some i) rest
  | none, leave _ :: _ => False
  | none, deed _ :: rest => logs = false ∧ Splits logs none rest
  | some i, leave j :: rest => if j = i then Splits logs none rest else Splits logs (some i) rest
  | some i, enter _ :: rest | some i, deed _ :: rest => Splits logs (some i) rest

end Event

/-! ## Shared sessions -/

/-- What the clones of a connection share, and what the blocks that are under way put back. -/
structure Shared (σ : Type) where
  session : Session σ
  saved : Nat → Option SavedFlags := fun _ => none

namespace Shared

/-- An event. -/
def step (c : Connection σ) : Event → Shared σ → Shared σ
  | .enter i, m =>
    let (flags, session) := m.session.enterPretend
    ⟨session, Function.update m.saved i (some flags)⟩
  | .leave i, m =>
    match m.saved i with
    | some flags => ⟨(m.session.leavePretend flags).2, Function.update m.saved i none⟩
    | none => m
  | .deed d, m => { m with session := ((d.act c).runOn m.session).2 }

/-- Events one after the other. -/
def run (c : Connection σ) (m : Shared σ) (events : List Event) : Shared σ :=
  events.foldl (fun m event => step c event m) m

end Shared

/-! ## Deeds -/

namespace Session

/-- The flags and the log are those of another session. -/
structure Restored (s s' : Session σ) : Prop where
  logging_eq : s'.logging = s.logging
  pretending_eq : s'.pretending = s.pretending
  log_eq : s'.log = s.log

/-- The flags are those of another session, and without logging so is the log. -/
structure KeepsFlags (s s' : Session σ) : Prop where
  logging_eq : s'.logging = s.logging
  pretending_eq : s'.pretending = s.pretending
  log_eq : s.logging = false → s'.log = s.log

theorem KeepsFlags.trans {s t u : Session σ} (h : KeepsFlags s t) (hmore : KeepsFlags t u) :
    KeepsFlags s u where
  logging_eq := hmore.logging_eq.trans h.logging_eq
  pretending_eq := hmore.pretending_eq.trans h.pretending_eq
  log_eq hsilent := (hmore.log_eq (h.logging_eq.trans hsilent)).trans (h.log_eq hsilent)

theorem Idle.keepsFlags {s t : Session σ} (h : Idle s t) : KeepsFlags s t :=
  ⟨h.logging_eq, h.pretending_eq, fun _ => h.log_eq⟩

theorem keepsFlags_note (statement : String) (pretended : Bool) (s : Session σ)
    (client : Client σ) : KeepsFlags s (note statement pretended { s with client }) := by
  unfold note
  split
  next hlogging => exact ⟨rfl, rfl, fun h => absurd (h.symm.trans hlogging) Bool.false_ne_true⟩
  next => exact ⟨rfl, rfl, fun _ => rfl⟩

theorem keepsFlags_noteModified (modified : Bool) (s : Session σ) :
    KeepsFlags s (s.noteModified modified) := by
  unfold noteModified
  split <;> exact ⟨rfl, rfl, fun _ => rfl⟩

theorem keepsFlags_carryOut (c : Connection σ) (text : String) (t : Task) (s : Session σ) :
    KeepsFlags s ((t.carryOut c text).runOn s).2 := by
  rcases Bool.eq_false_or_eq_true s.pretending with h | h
  · rw [Task.runOn_carryOut_of_pretending h]
    exact (keepsFlags_note text true s s.client).trans (keepsFlags_noteModified _ _)
  · cases hoperation : (t.operation c).runOn s.client with
    | mk outcome client =>
      have hnote := keepsFlags_note text false s client
      cases outcome with
      | error e =>
          rw [Task.runOn_carryOut_of_failed h hoperation]
          exact hnote
      | ok answer =>
          rw [Task.runOn_carryOut_of_answered h hoperation]
          exact hnote.trans (keepsFlags_noteModified _ _)

/-- A deed leaves the flags alone, and without logging the log, too. -/
theorem keepsFlags_act (c : Connection σ) (d : Deed) (s : Session σ) :
    KeepsFlags s ((d.act c).runOn s).2 := by
  obtain ⟨s₁, hidle, ⟨-, hrun⟩ | ⟨text, t, -, hrun⟩⟩ := d.act_cases c s
  · rw [hrun]
    exact hidle.keepsFlags
  · rw [hrun]
    exact hidle.keepsFlags.trans (keepsFlags_carryOut c text t s₁)

end Session

namespace Shared

variable {c : Connection σ} {s : Session σ} {m : Shared σ} {underway : List Nat}
  {events : List Event}

/-- Each block that is under way, but for one, puts back that the connection logs and pretends. -/
def PutOn (m : Shared σ) (underway : List Nat) (first : Option Nat) : Prop :=
  ∀ i ∈ underway, some i ≠ first → ∃ log, m.saved i = some ⟨true, true, log⟩

/-- The connection logs and pretends. -/
def IsOn (m : Shared σ) : Prop := m.session.logging = true ∧ m.session.pretending = true

/-- Where a schedule is: between two stretches the flags and the log are those of a session, and
within one they are what its block puts back. -/
inductive Returns (s : Session σ) (underway : List Nat) (m : Shared σ) : Option Nat → Prop
  | between (restored : s.Restored m.session) : Returns s underway m none
  | within {i : Nat} (mem : i ∈ underway)
      (saved : m.saved i = some ⟨s.logging, s.pretending, s.log⟩) : Returns s underway m (some i)

theorem run_cons (c : Connection σ) (m : Shared σ) (event : Event) (rest : List Event) :
    run c m (event :: rest) = run c (step c event m) rest := rfl

theorem step_leave {i : Nat} {flags : SavedFlags} (h : m.saved i = some flags) :
    step c (.leave i) m
      = ⟨(m.session.leavePretend flags).2, Function.update m.saved i none⟩ := by
  rw [step, h]

/-- A block that begins puts back that the connection pretends, if it does. -/
theorem PutOn.enter {i : Nat} {first : Option Nat} (h : m.PutOn underway first)
    (hfirst : some i ≠ first → m.IsOn) :
    (step c (.enter i) m).PutOn (i :: underway) first := by
  intro j hj hother
  by_cases hji : j = i
  · subst hji
    obtain ⟨hlogging, hpretending⟩ := hfirst hother
    exact ⟨m.session.log, by simp [step, Session.enterPretend, hlogging, hpretending]⟩
  · obtain ⟨log, hsaved⟩ := h j ((List.mem_cons.1 hj).resolve_left hji) hother
    exact ⟨log, by simpa [step, Function.update_of_ne hji] using hsaved⟩

/-- A block that ends leaves the others to put back what they have found. -/
theorem PutOn.leave (c : Connection σ) {i : Nat} {first first' : Option Nat}
    (h : m.PutOn underway first) (hfirst : ∀ j, j ≠ i → some j ≠ first' → some j ≠ first) :
    (step c (.leave i) m).PutOn (underway.filter (· != i)) first' := by
  intro j hj hother
  obtain ⟨hmem, hne⟩ : j ∈ underway ∧ j ≠ i := by simpa using hj
  obtain ⟨log, hsaved⟩ := h j hmem (hfirst j hne hother)
  refine ⟨log, ?_⟩
  rw [step]
  split
  · simpa [Function.update_of_ne hne] using hsaved
  · exact hsaved

/-- A block that has begun while the connection pretended puts that back. -/
theorem isOn_leave (c : Connection σ) {i : Nat} {log : List LogEntry}
    (h : m.saved i = some ⟨true, true, log⟩) : (step c (.leave i) m).IsOn := by
  rw [step_leave h]
  exact ⟨rfl, rfl⟩

/-- Blocks whose schedule falls into stretches put back what the first of them has found. -/
theorem Returns.run {stretch : Option Nat} (h : Returns s underway m stretch)
    (hschedule : Event.IsSchedule underway events)
    (hsplits : Event.Splits s.logging stretch events) : s.Restored (run c m events).session := by
  -- Within a stretch nothing matters but what its block keeps, which no other block touches.
  induction events generalizing m underway stretch with
  | nil =>
      cases h with
      | between restored => exact restored
      | within => cases hsplits
  | cons event rest ih =>
  rw [run_cons]
  cases h with
  | between restored =>
      cases event with
      | enter i =>
          refine ih (.within List.mem_cons_self ?_) hschedule.2 hsplits
          simp [step, Session.enterPretend, restored.logging_eq, restored.pretending_eq,
            restored.log_eq]
      | leave i => exact hsplits.elim
      | deed d =>
          have hkeeps := Session.keepsFlags_act c d m.session
          have hlog := hkeeps.log_eq (restored.logging_eq.trans hsplits.1)
          exact ih (.between ⟨hkeeps.logging_eq.trans restored.logging_eq,
            hkeeps.pretending_eq.trans restored.pretending_eq, hlog.trans restored.log_eq⟩)
            hschedule hsplits.2
  | @within i mem saved =>
      cases event with
      | enter j =>
          refine ih (.within (List.mem_cons_of_mem _ mem) ?_) hschedule.2 hsplits
          have hne : i ≠ j := fun heq => hschedule.1 (heq ▸ mem)
          simpa [step, Function.update_of_ne hne] using saved
      | leave j =>
          rw [Event.Splits] at hsplits
          by_cases hji : j = i
          · subst hji
            rw [if_pos rfl] at hsplits
            rw [step_leave saved]
            exact ih (.between ⟨rfl, rfl, rfl⟩) hschedule.2 hsplits
          · rw [if_neg hji] at hsplits
            have hmem : i ∈ underway.filter (· != j) := by simpa [Ne.symm hji] using mem
            refine ih (.within hmem ?_) hschedule.2 hsplits
            rw [step]
            split
            · simpa [Function.update_of_ne (Ne.symm hji)] using saved
            · exact saved
      | deed d => exact ih (.within mem saved) hschedule hsplits

/-- Once all blocks put back that the connection pretends, it does so at the end. -/
theorem IsOn.run (h : m.IsOn) (hputOn : m.PutOn underway none)
    (hschedule : Event.IsSchedule underway events) : (run c m events).IsOn := by
  induction events generalizing m underway with
  | nil => exact h
  | cons event rest ih =>
      rw [run_cons]
      cases event with
      | enter i => exact ih ⟨rfl, rfl⟩ (hputOn.enter fun _ => h) hschedule.2
      | leave i =>
          obtain ⟨log, hsaved⟩ := hputOn i hschedule.1 nofun
          exact ih (isOn_leave c hsaved) (hputOn.leave c fun _ _ => id) hschedule.2
      | deed d =>
          have hkeeps := Session.keepsFlags_act c d m.session
          exact ih ⟨hkeeps.logging_eq.trans h.1, hkeeps.pretending_eq.trans h.2⟩ hputOn hschedule

/-- Blocks whose schedule does not fall into stretches leave the connection pretending. -/
theorem PutOn.run {stretch : Option Nat} (h : m.PutOn underway stretch)
    (hon : stretch ≠ none → m.IsOn) (hschedule : Event.IsSchedule underway events)
    (hsplits : ¬ Event.Splits false stretch events) : (run c m events).IsOn := by
  -- All blocks but that of the stretch have begun while the connection pretended.
  induction events generalizing m underway stretch with
  | nil => exact hon hsplits
  | cons event rest ih =>
  rw [run_cons]
  cases stretch with
  | none =>
      cases event with
      | enter i =>
          have hothers : m.PutOn underway (some i) := fun j hj _ => h j hj nofun
          exact ih (hothers.enter fun hne => (hne rfl).elim) (fun _ => ⟨rfl, rfl⟩) hschedule.2
            hsplits
      | leave i =>
          -- A block ends between two stretches, where the connection does not pretend any more.
          obtain ⟨log, hsaved⟩ := h i hschedule.1 nofun
          exact (isOn_leave c hsaved).run (h.leave c fun _ _ => id) hschedule.2
      | deed d => exact ih h nofun hschedule fun hrest => hsplits ⟨rfl, hrest⟩
  | some i =>
      have hon' := hon nofun
      cases event with
      | enter j => exact ih (h.enter fun _ => hon') (fun _ => ⟨rfl, rfl⟩) hschedule.2 hsplits
      | leave j =>
          rw [Event.Splits] at hsplits
          by_cases hji : j = i
          · subst hji
            rw [if_pos rfl] at hsplits
            have hothers : (step c (.leave j) m).PutOn (underway.filter (· != j)) none :=
              h.leave c fun _ hne _ heq => hne (Option.some.inj heq)
            exact ih hothers (fun hsome => (hsome rfl).elim) hschedule.2 hsplits
          · rw [if_neg hji] at hsplits
            obtain ⟨log, hsaved⟩ := h j hschedule.1 fun heq => hji (Option.some.inj heq)
            exact ih (h.leave c fun _ _ => id) (fun _ => isOn_leave c hsaved) hschedule.2 hsplits
      | deed d =>
          have hkeeps := Session.keepsFlags_act c d m.session
          exact ih h (fun _ => ⟨hkeeps.logging_eq.trans hon'.1, hkeeps.pretending_eq.trans hon'.2⟩)
            hschedule hsplits

/-- **Overlapping blocks.**  All blocks of a schedule have come to an end.  If it falls into
stretches, between which nothing is logged, the flags and the log are what they were before the
first of them; if it does not, the connection logs and pretends from then on. -/
theorem restored_or_pretending (c : Connection σ) (s : Session σ) {events : List Event}
    (hschedule : Event.IsSchedule [] events) :
    (Event.Splits s.logging none events → s.Restored (run c { session := s } events).session) ∧
      (¬ Event.Splits false none events → (run c { session := s } events).IsOn) := by
  have hreturns : Returns s [] { session := s } none := .between ⟨rfl, rfl, rfl⟩
  have hputOn : PutOn { session := s } [] none := fun _ hi => nomatch hi
  exact ⟨hreturns.run hschedule, hputOn.run (fun hsome => (hsome rfl).elim) hschedule⟩

/-- Three blocks, of which the second begins in the first and ends in the third. -/
theorem restored_or_pretending_chain :
    let s : Session Memory.State := { client := .fresh ⟨[], { readings := fun _ => default }⟩ }
    let events : List Event :=
      [.enter 0, .enter 1, .deed (.statement (.ofTable "users") .delete), .leave 0, .enter 2,
        .leave 1, .leave 2]
    Event.IsSchedule [] events ∧
      s.Restored (run (.inMemory default 100) { session := s } events).session := by
  intro s events
  have hschedule : Event.IsSchedule [] events := by decide
  have hsplits : Event.Splits s.logging none events := by simp [events, Event.Splits]
  exact ⟨hschedule, (restored_or_pretending (.inMemory default 100) s hschedule).1 hsplits⟩

/-- Of two blocks the first to begin is the first to end, and the connection pretends for good. -/
theorem not_restored_crossing :
    let s : Session Memory.State := { client := .fresh ⟨[], { readings := fun _ => default }⟩ }
    let events : List Event := [.enter 0, .enter 1, .leave 0, .leave 1]
    Event.IsSchedule [] events ∧ s.pretending = false ∧
      (run (.inMemory default 100) { session := s } events).session.pretending = true := by
  decide

end Shared

end DocStore
