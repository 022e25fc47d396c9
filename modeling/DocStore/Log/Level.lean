/-!
# Log levels

The levels of log lines in order, from `debug` to `silent`.  No line has the level
`silent`; a logger at that level lets nothing through.
-/

namespace DocStore.Log

/-- A level. -/
inductive Level
  | debug
  | verbose
  | info
  | warn
  | error
  | silent
  deriving DecidableEq, Repr, Inhabited

namespace Level

/-- The place of a level in the order. -/
def rank : Level → Nat
  | debug => 0
  | verbose => 1
  | info => 2
  | warn => 3
  | error => 4
  | silent => 5

/-- The name of a level. -/
def name : Level → String
  | debug => "debug"
  | verbose => "verbose"
  | info => "info"
  | warn => "warn"
  | error => "error"
  | silent => "silent"

/-- The spellings of the levels, in lower case. -/
def spellings : List (String × Level) :=
  [("debug", debug), ("verbose", verbose), ("trace", verbose), ("info", info), ("warn", warn),
    ("warning", warn), ("error", error), ("silent", silent), ("off", silent)]

/-- The level of a spelling in any case; a spelling that has none is given back in lower
case. -/
def ofText (text : String) : Except String Level :=
  let word := String.ofList (text.toList.map Char.toLower)
  match spellings.lookup word with
  | some level => .ok level
  | none => .error word

/-- The name of a level in upper case. -/
def title (level : Level) : String := String.ofList (level.name.toList.map Char.toUpper)

/-- The name under which a line of this level is forwarded. -/
def forwardedName : Level → String
  | debug => "DEBUG"
  | verbose => "TRACE"
  | info => "INFO"
  | warn => "WARN"
  | error => "ERROR"
  | silent => "ERROR"

end Level

/-- A log line. -/
structure Line where
  level : Level
  logger : String
  message : String
  deriving DecidableEq, Repr, Inhabited

end DocStore.Log
