import DocStore.Time.Timestamp

/-!
# Clocks

A clock is a sequence of readings, of which some have been taken.
-/

namespace DocStore

/-- A clock. -/
structure Clock where
  readings : Nat → Timestamp
  taken : Nat := 0

namespace Clock

/-- The next reading. -/
def now (c : Clock) : Timestamp := c.readings c.taken

/-- The clock after one more reading. -/
def tick (c : Clock) : Clock := { c with taken := c.taken + 1 }

end Clock

namespace Timestamp

/-- Milliseconds since 1970; zero before. -/
def millis (t : Timestamp) : Nat := (t.seconds.toInt * 1000 + t.nanos.toInt / 1000000).toNat

end Timestamp

end DocStore
