import DocStore.Error
import DocStore.Number.Integer
import DocStore.Number.Power
import DocStore.Time.Calendar

/-!
# Timestamps

A timestamp is a number of seconds since 1970-01-01T00:00:00Z and a number of
nanoseconds; it is normal when the nanoseconds make less than a second.  Its text
follows RFC 3339 with nine places and the zone `Z`.  A leap second is the second 60 of
a minute: nanoseconds of one second or more, which only a second 59 may have.
-/

namespace DocStore

/-- A point in time. -/
structure Timestamp where
  seconds : Int64
  nanos : Int32
  deriving DecidableEq, Repr, Inhabited

namespace Timestamp

open DocStore.Time DocStore.Number

/-- Nanoseconds of a second. -/
def nanosPerSecond : Int := 1000000000

/-- The normal timestamp with full seconds moved out of the nanoseconds. -/
def normal (seconds : Int64) (nanos : Int32) : Timestamp :=
  { seconds := seconds + Int64.ofInt (nanos.toInt / nanosPerSecond)
    nanos := Int32.ofInt (nanos.toInt % nanosPerSecond) }

/-- The nanoseconds make less than a second. -/
def IsNormal (t : Timestamp) : Prop := 0 ≤ t.nanos.toInt ∧ t.nanos.toInt < nanosPerSecond

/-- Time order: seconds first, then nanoseconds. -/
instance : Ord Timestamp :=
  ⟨fun a b =>
    (compare a.seconds.toInt b.seconds.toInt).then (compare a.nanos.toInt b.nanos.toInt)⟩

/-! ## Dates and times of day -/

/-- A date and a time of day in UTC.  The second is 60 in a leap second. -/
structure CivilTime where
  date : Date
  hour : Nat
  minute : Nat
  second : Nat
  nanos : Nat
  deriving DecidableEq, Repr, Inhabited

/-- Seconds of a day. -/
def secondsPerDay : Int := 86400

/-- The years that a date can have. -/
def yearInRange (year : Int) : Bool := -262143 ≤ year && year ≤ 262142

/-- The date and time of a timestamp, if its year is in range and its nanoseconds make
less than a second or a leap second. -/
def toCivil? (t : Timestamp) : Option CivilTime :=
  let date := Date.ofDays (t.seconds.toInt / secondsPerDay)
  let inDay := (t.seconds.toInt % secondsPerDay).toNat
  let nanos := t.nanos.toInt
  let leap := nanosPerSecond ≤ nanos
  if !yearInRange date.year || nanos < 0 || 2 * nanosPerSecond ≤ nanos
      || (leap && inDay % 60 != 59) then none
  else
    some
      { date
        hour := inDay / 3600
        minute := inDay / 60 % 60
        second := inDay % 60 + (nanos / nanosPerSecond).toNat
        nanos := (nanos % nanosPerSecond).toNat }

/-- The start of 1970. -/
def epoch : CivilTime := ⟨⟨1970, 1, 1⟩, 0, 0, 0, 0⟩

/-- A year: four digits, with a sign outside the years 0 to 9999. -/
def yearText (year : Int) : String :=
  if 0 ≤ year && year ≤ 9999 then padded 4 year.toNat
  else (if year < 0 then "-" else "+") ++ padded 4 year.natAbs

def CivilTime.text (c : CivilTime) : String :=
  yearText c.date.year ++ "-" ++ padded 2 c.date.month ++ "-" ++ padded 2 c.date.day
    ++ "T" ++ padded 2 c.hour ++ ":" ++ padded 2 c.minute ++ ":" ++ padded 2 c.second
    ++ "." ++ padded 9 c.nanos ++ "Z"

/-- The text of a timestamp; one that has no date is written as the epoch. -/
def text (t : Timestamp) : String := (t.toCivil?.getD epoch).text

/-! ## Reading -/

/-- A number of exactly `width` digits, and what follows it. -/
def fixedDigits? (width : Nat) (cs : List Char) : Option (Nat × List Char) :=
  let digits := cs.take width
  if digits.length = width && digits.all isDigit then some (ofDigits digits, cs.drop width)
  else none

def char? (c : Char) : List Char → Option (List Char)
  | d :: rest => if c == d then some rest else none
  | [] => none

/-- The nanoseconds of a fraction after its point.  Digits after the ninth do not count. -/
def fraction? (cs : List Char) : Option (Nat × List Char) :=
  let (digits, rest) := spanDigits cs
  if digits.isEmpty then none
  else
    let kept := digits.take 9
    some (ofDigits kept * power 10 (9 - kept.length), rest)

/-- The offset of a zone in minutes: `Z`, or a sign, hours and minutes. -/
def offset? : List Char → Option (Int × List Char)
  | 'Z' :: rest => some (0, rest)
  | 'z' :: rest => some (0, rest)
  | sign :: rest => do
    let negative ←
      if sign == '+' then some false
      else if sign == '-' || sign == '−' then some true
      else none
    let (hours, rest) ← fixedDigits? 2 rest
    let rest ← char? ':' rest
    let (minutes, rest) ← fixedDigits? 2 rest
    if 23 < hours || 59 < minutes then none
    else
      let total := Int.ofNat (60 * hours + minutes)
      some (if negative then -total else total, rest)
  | [] => none

/-- The timestamp of a text in the form of RFC 3339. -/
def read? (text : String) : Option Timestamp := do
  let (year, cs) ← fixedDigits? 4 text.toList
  let cs ← char? '-' cs
  let (month, cs) ← fixedDigits? 2 cs
  let cs ← char? '-' cs
  let (day, cs) ← fixedDigits? 2 cs
  let cs ←
    match cs with
    | c :: rest => if c == 'T' || c == 't' || c == ' ' then some rest else none
    | [] => none
  let (hour, cs) ← fixedDigits? 2 cs
  let cs ← char? ':' cs
  let (minute, cs) ← fixedDigits? 2 cs
  let cs ← char? ':' cs
  let (second, cs) ← fixedDigits? 2 cs
  let (nanos, cs) ←
    match cs with
    | '.' :: rest => fraction? rest
    | cs => some (0, cs)
  let (offset, rest) ← offset? cs
  let date : Date := ⟨year, month, day⟩
  if !rest.isEmpty || !date.isValid || 23 < hour || 59 < minute || 60 < second then none
  else
    let seconds :=
      date.toDays * secondsPerDay + Int.ofNat (hour * 3600 + minute * 60 + second)
        - offset * 60
    some ⟨Int64.ofInt seconds, Int32.ofInt nanos⟩

/-- The timestamp of a text in the form of RFC 3339. -/
def ofText (text : String) : Outcome Timestamp :=
  match read? text with
  | some t => pure t
  | none => throw (.invalidArgument ("Invalid timestamp '" ++ text ++ "': not in RFC 3339 form"))

end Timestamp

end DocStore
