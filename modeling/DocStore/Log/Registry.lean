import DocStore.Log.Level

/-!
# Loggers

A registry holds the loggers that are alive and the level that new ones start with.  A
line that is given to a logger may go two ways: to its handler, if the line reaches the
level of the handler or, where that has none, of the logger; and onwards, if it reaches
the level of the logger (`Logger.route`).  A handler is installed on the loggers that are
alive, not on later ones.
-/

namespace DocStore.Log

/-- A handler of lines, with its own level if it has one. -/
structure Handler where
  level : Option Level
  deriving DecidableEq, Repr, Inhabited

/-- A logger. -/
structure Logger where
  name : String
  level : Level
  handler : Option Handler := none
  deriving DecidableEq, Repr, Inhabited

/-- Where a line goes. -/
structure Route where
  handled : Bool
  forwarded : Bool
  deriving DecidableEq, Repr

namespace Logger

/-- A line of a level reaches another level. -/
def reaches (line threshold : Level) : Bool := threshold.rank ≤ line.rank

/-- Where a line of a level goes. -/
def route (l : Logger) (line : Level) : Route :=
  { handled :=
      match l.handler with
      | some h => reaches line (h.level.getD l.level)
      | none => false
    forwarded := reaches line l.level }

end Logger

/-- The level of new loggers, and the loggers that are alive. -/
structure Registry where
  level : Level := .info
  loggers : List Logger := []
  deriving Inhabited, Repr

namespace Registry

/-- The logger of a name. -/
def find? (r : Registry) (name : String) : Option Logger := r.loggers.find? (·.name == name)

/-- The registry without the logger of a name. -/
def drop (r : Registry) (name : String) : Registry :=
  { r with loggers := r.loggers.filter (·.name != name) }

/-- The registry with a new logger, in place of one of the same name. -/
def create (r : Registry) (name : String) : Registry :=
  let rest := r.drop name
  { rest with loggers := rest.loggers ++ [⟨name, r.level, none⟩] }

/-- Sets the level of one logger. -/
def setLevel (r : Registry) (name : String) (level : Level) : Registry :=
  { r with loggers := r.loggers.map fun l => if l.name == name then { l with level } else l }

/-- Sets the level of all loggers and of later ones. -/
def setGlobalLevel (r : Registry) (level : Level) : Registry :=
  { level, loggers := r.loggers.map fun l => { l with level } }

/-- Installs a handler on all loggers, or removes theirs. -/
def setHandler (r : Registry) (handler : Option Handler) : Registry :=
  { r with loggers := r.loggers.map fun l => { l with handler } }

end Registry

end DocStore.Log
