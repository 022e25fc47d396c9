import DocStore.Number.Power

/-!
# Time-ordered document ids

A generated id has 128 bits: 48 of the clock in milliseconds and 80 of a counter that
starts at a random place in each new millisecond and steps by one within it.  The
clock of the generator never goes back.  The text has the shape 8-4-4-4-12 of
lower-case hexadecimal digits, so that texts are ordered as the numbers are.
-/

namespace DocStore

/-- The last id of a generator. -/
structure OrderedId where
  millis : Nat
  counter : Nat
  deriving DecidableEq, Repr, Inhabited

namespace OrderedId

/-- The largest counter. -/
def maxCounter : Nat := 0xffffffffffffffffffff

/-- The state of a generator that has made no id. -/
def initial : OrderedId := ⟨0, 0⟩

/-- Counters start anew below this number. -/
def startBound : Nat := 0x80000000000000000000

/-- The id after `last` at a reading of the clock; `draw` is a random number, of which 79
bits are used when the counter starts anew. -/
def next (last : OrderedId) (now draw : Nat) : OrderedId :=
  let millis := max now last.millis
  if millis = last.millis && last.counter < maxCounter then
    { last with counter := last.counter + 1 }
  else ⟨millis, draw % startBound⟩

/-- The ids that a generator makes one after the other, each at a reading of the clock and
with a random number. -/
def sequence (last : OrderedId) : List (Nat × Nat) → List OrderedId
  | [] => []
  | (now, draw) :: rest =>
    let id := last.next now draw
    id :: sequence id rest

/-- The 128 bits of an id. -/
def value (id : OrderedId) : Nat :=
  id.millis % 0x1000000000000 * (maxCounter + 1) + id.counter

/-- Digits in groups of some sizes, with dashes between the groups. -/
def grouped : List Nat → List Char → List Char
  | [], _ => []
  | [size], cs => cs.take size
  | size :: sizes, cs => cs.take size ++ '-' :: grouped sizes (cs.drop size)

/-- The id in its groups of digits. -/
def text (id : OrderedId) : String :=
  String.ofList
    (grouped [8, 4, 4, 4, 12] ((Number.lastDigits 16 32 id.value).map Nat.digitChar))

/-- The characters have the shape of an id. -/
def hasShape (cs : List Char) : Bool :=
  cs.length == 36 && cs.zipIdx.all fun (c, i) =>
    if [8, 13, 18, 23].contains i then c == '-'
    else ('0' ≤ c && c ≤ '9') || ('a' ≤ c && c ≤ 'f')

end OrderedId

end DocStore
