import DocStore.Store.Datastore

/-!
# Taking outcomes and steps apart

A chain of outcomes succeeds when each link does, and a step on a state runs its parts one after
the other.  The equations here are all that later proofs use of the two monads: an outcome is
taken apart by `bind_eq_ok`, a step is run by the `runOn` equations.
-/

namespace DocStore

namespace Outcome

variable {α β : Type} {x : Outcome α} {f : α → Outcome β}

@[simp] theorem ok_bind (a : α) (f : α → Outcome β) : (Except.ok a >>= f) = f a := rfl

@[simp] theorem error_bind (e : Error) (f : α → Outcome β) :
    ((Except.error e : Outcome α) >>= f) = .error e := rfl

/-- A chain succeeds exactly when its first link does and then the rest. -/
theorem bind_eq_ok {b : β} : (x >>= f) = .ok b ↔ ∃ a, x = .ok a ∧ f a = .ok b := by
  cases x <;> simp

@[simp] theorem pure_eq_ok {a b : α} : (pure a : Outcome α) = .ok b ↔ a = b :=
  ⟨Except.ok.inj, congrArg Except.ok⟩

@[simp] theorem throw_eq_ok {e : Error} {a : α} : (throw e : Outcome α) = .ok a ↔ False :=
  ⟨(nomatch ·), False.elim⟩

theorem map_succeeds_iff {g : α → β} : (∃ b, g <$> x = .ok b) ↔ ∃ a, x = .ok a := by
  cases x with
  | ok a => exact iff_of_true ⟨g a, rfl⟩ ⟨a, rfl⟩
  | error e => exact iff_of_false (fun h => nomatch h) (fun h => nomatch h)

/-- An outcome fails unless it succeeds. -/
theorem fails_iff : (∃ e, x = .error e) ↔ ¬ ∃ a, x = .ok a := by
  cases x with
  | ok a => exact iff_of_false (fun h => nomatch h) (fun h => h ⟨a, rfl⟩)
  | error e => exact iff_of_true ⟨e, rfl⟩ (fun h => nomatch h)

/-- A list of outcomes succeeds when each of them does. -/
theorem mapM_succeeds_iff {xs : List α} :
    (∃ ys, xs.mapM f = .ok ys) ↔ ∀ a ∈ xs, ∃ b, f a = .ok b := by
  induction xs with
  | nil => exact ⟨fun _ a ha => absurd ha List.not_mem_nil, fun _ => ⟨[], rfl⟩⟩
  | cons a rest ih =>
      rw [List.forall_mem_cons, ← ih, List.mapM_cons]
      constructor
      · intro hsome
        obtain ⟨ys, hys⟩ := hsome
        obtain ⟨b, hb, hys⟩ := bind_eq_ok.1 hys
        obtain ⟨bs, hbs, -⟩ := bind_eq_ok.1 hys
        exact ⟨⟨b, hb⟩, bs, hbs⟩
      · intro hboth
        obtain ⟨⟨b, hb⟩, bs, hbs⟩ := hboth
        exact ⟨b :: bs, by rw [hb, hbs]; rfl⟩

@[simp] theorem toOption_eq_some {a : α} : x.toOption = some a ↔ x = .ok a := by
  cases x <;> simp [Except.toOption]

/-- The failure of an outcome, if it is one. -/
def error? : Outcome α → Option Error
  | .ok _ => none
  | .error e => some e

theorem error?_eq_none : error? x = none ↔ ∃ a, x = .ok a := by
  cases x with
  | ok a => exact iff_of_true rfl ⟨a, rfl⟩
  | error e => exact iff_of_false (fun h => nomatch h) (fun h => nomatch h)

theorem error?_eq_some {e : Error} : error? x = some e ↔ x = .error e := by
  cases x <;> simp [error?]

/-- A chain fails where its first link does, and else where the rest does. -/
theorem error?_bind (e? : Option Error) (h : ∀ a, x = .ok a → error? (f a) = e?) :
    error? (x >>= f) = (error? x).or e? := by
  cases x with
  | ok a => exact h a rfl
  | error e => rfl

end Outcome

namespace Action

variable {σ τ α β : Type}

@[simp] theorem runOn_pure (a : α) (s : σ) : (pure a : Action σ α).runOn s = (.ok a, s) := rfl

/-- After a failure the rest of a step is not run. -/
theorem runOn_bind (a : Action σ α) (f : α → Action σ β) (s : σ) :
    (a >>= f).runOn s =
      match a.runOn s with
      | (.ok x, t) => (f x).runOn t
      | (.error e, t) => (.error e, t) := by
  unfold runOn ExceptT.run
  simp only [bind, ExceptT.bind, ExceptT.mk, StateT.bind]
  cases a s with
  | mk outcome t => cases outcome <;> rfl

/-- The rest of a step runs from where its first part ends. -/
theorem runOn_bind_of_ok {a : Action σ α} {f : α → Action σ β} {s t : σ} {x : α}
    (h : a.runOn s = (.ok x, t)) : (a >>= f).runOn s = (f x).runOn t := by
  rw [runOn_bind, h]

/-- A failure of its first part ends a step. -/
theorem runOn_bind_of_error {a : Action σ α} {f : α → Action σ β} {s t : σ} {e : Error}
    (h : a.runOn s = (.error e, t)) : (a >>= f).runOn s = (.error e, t) := by
  rw [runOn_bind, h]

/-- A step succeeds exactly when its first part does and then the rest. -/
theorem runOn_bind_eq_ok {a : Action σ α} {f : α → Action σ β} {s u : σ} {y : β} :
    (a >>= f).runOn s = (.ok y, u) ↔
      ∃ x t, a.runOn s = (.ok x, t) ∧ (f x).runOn t = (.ok y, u) := by
  rw [runOn_bind]
  cases a.runOn s with
  | mk outcome t =>
    cases outcome with
    | error e => simp
    | ok x =>
        constructor
        · intro h
          exact ⟨x, t, rfl, h⟩
        · rintro ⟨_, _, ⟨⟩, h⟩
          exact h

@[simp] theorem runOn_ofOutcome (r : Outcome α) (s : σ) : (ofOutcome r).runOn s = (r, s) := rfl

@[simp] theorem runOn_state (s : σ) : (state : Action σ σ).runOn s = (.ok s, s) := rfl

@[simp] theorem runOn_update (f : σ → σ) (s : σ) : (update f).runOn s = (.ok (), f s) := rfl

@[simp] theorem runOn_onPart (get : σ → τ) (put : τ → σ → σ) (a : Action τ α) (s : σ) :
    (onPart get put a).runOn s = ((a.runOn (get s)).1, put (a.runOn (get s)).2 s) := rfl

@[simp] theorem runOn_attempt (a : Action σ α) (s : σ) :
    a.attempt.runOn s = (.ok (a.runOn s).1, (a.runOn s).2) := rfl

end Action

end DocStore
