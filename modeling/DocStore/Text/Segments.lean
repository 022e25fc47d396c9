/-!
# Separated segments

A path is written as segments with a separator between them.  `split` cuts a text
at every separator, `joined` puts the segments back together: the text of no
segments is empty, and cutting the empty text gives one empty segment.
-/

namespace DocStore.Text

/-- The pieces of a text between the separators, empty ones included. -/
def split (sep : Char) (s : String) : List String := (s.toList.splitOn sep).map String.ofList

/-- The segments with the separator between them. -/
def joined (sep : String) (segments : List String) : String := String.intercalate sep segments

/-- The character occurs in the text. -/
def hasChar (c : Char) (s : String) : Bool := s.toList.contains c

end DocStore.Text
