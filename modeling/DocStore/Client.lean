import DocStore.Clock
import DocStore.Log.Level
import DocStore.OrderedId
import DocStore.Store.Datastore

/-!
# Clients

What a program that uses a store has at hand besides the store itself: a clock, random
numbers, the last document id that it generated, and the log lines that it wrote.
-/

namespace DocStore

/-- Random numbers, of which some have been drawn. -/
structure Draws where
  number : Nat → Nat
  taken : Nat := 0

/-- A client of a store with states in `σ`. -/
structure Client (σ : Type) where
  store : σ
  clock : Clock
  draws : Draws
  lastId : OrderedId := .initial
  /-- The log lines written so far. -/
  lines : List Log.Line := []

namespace Client

variable {σ α : Type}

/-- A request to the store. -/
def onStore (a : Action σ α) : Action (Client σ) α :=
  Action.onPart (·.store) (fun store c => { c with store }) a

/-- Writes a log line. -/
def log (level : Log.Level) (logger message : String) : Action (Client σ) Unit :=
  Action.update fun c => { c with lines := c.lines ++ [⟨level, logger, message⟩] }

/-- The reading of the clock. -/
def now : Action (Client σ) Timestamp := do
  let c ← Action.state
  Action.update fun c => { c with clock := c.clock.tick }
  return c.clock.now

/-- A random number. -/
def draw : Action (Client σ) Nat := do
  let c ← Action.state
  Action.update fun c => { c with draws := { c.draws with taken := c.draws.taken + 1 } }
  return c.draws.number c.draws.taken

/-- A new document id, after all ids before it. -/
def nextId : Action (Client σ) String := do
  let now ← now
  let random ← draw
  let c ← Action.state
  let id := c.lastId.next now.millis random
  Action.update fun c => { c with lastId := id }
  return id.text

end Client

end DocStore
