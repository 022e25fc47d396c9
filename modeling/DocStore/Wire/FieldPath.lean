import DocStore.Path.Field

/-!
# Field paths on the wire

The names of a path with dots between them.  A name that is no plain identifier stands
between backticks, with a backslash before each backtick and each backslash in it.
-/

namespace DocStore.FieldPath

/-- A letter of ASCII or an underscore. -/
def startsIdentifier (c : Char) : Bool := c.isAlpha || c == '_'

/-- A letter or digit of ASCII or an underscore. -/
def continuesIdentifier (c : Char) : Bool := c.isAlphanum || c == '_'

/-- The name can stand without backticks. -/
def isIdentifier : List Char → Bool
  | [] => false
  | c :: rest => startsIdentifier c && rest.all continuesIdentifier

/-- A character between backticks. -/
def wireChar (c : Char) : List Char := if c == '\\' || c == '\x60' then ['\\', c] else [c]

/-- A name on the wire. -/
def wireSegment (segment : String) : List Char :=
  let cs := segment.toList
  if isIdentifier cs then cs else '\x60' :: cs.flatMap wireChar ++ ['\x60']

/-- The path on the wire. -/
def wireText (path : FieldPath) : String :=
  String.ofList (['.'].intercalate (path.segments.map wireSegment))

end DocStore.FieldPath
