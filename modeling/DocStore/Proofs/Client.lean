import DocStore.Client
import DocStore.Proofs.Outcome

/-!
# Steps of a client

A request changes the store of a client alone, and logging leaves the store as it is.
-/

namespace DocStore.Client

variable {σ α : Type}

/-- A client that has done nothing yet, whose clock stands still. -/
def fresh (store : σ) : Client σ where
  store
  clock := { readings := fun _ => default }
  draws := { number := fun n => n }

/-- A request is run on the store. -/
theorem runOn_onStore {a : Action σ α} {c : Client σ} {outcome : Outcome α} {s : σ}
    (h : a.runOn c.store = (outcome, s)) :
    (onStore a).runOn c = (outcome, { c with store := s }) := by
  simp [onStore, h]

/-- Logging leaves the store alone. -/
theorem runOn_log (level : Log.Level) (logger message : String) (c : Client σ) :
    ∃ c', (log level logger message).runOn c = (.ok (), c') ∧ c'.store = c.store :=
  ⟨_, rfl, rfl⟩

end DocStore.Client
