import DocStore.Error
import DocStore.Text.Blank
import DocStore.Text.Segments

/-!
# Resource paths

A resource path locates a collection or a document below the root of a database.
Names of collections and ids of documents alternate, so a path of odd length is a
collection and one of even length a document.  Paths are ordered name by name, and a
path comes before the paths below it.
-/

namespace DocStore

/-- The location of a collection or a document. -/
structure ResourcePath where
  segments : List String
  deriving DecidableEq, Repr, Inhabited

namespace ResourcePath

/-- The root of the database. -/
def root : ResourcePath := ⟨[]⟩

/-- The path of a text such as `users/alice/posts`.  Blanks around it and then slashes
at its ends do not count. -/
def ofText (text : String) : Outcome ResourcePath :=
  let inner := Text.strip (· == '/') (Text.trim text)
  if inner.isEmpty then pure root
  else
    let segments := Text.split '/' inner
    if segments.any (·.isEmpty) then
      throw (.invalidArgument ("Found empty segment in resource path '" ++ text ++ "'"))
    else pure ⟨segments⟩

def size (path : ResourcePath) : Nat := path.segments.length

def isRoot (path : ResourcePath) : Bool := path.segments.isEmpty

def isCollection (path : ResourcePath) : Bool := path.size % 2 == 1

def isDocument (path : ResourcePath) : Bool := !path.isRoot && path.size % 2 == 0

/-- The path has more than one name, as collections below a document have. -/
def isNested (path : ResourcePath) : Bool := 1 < path.size

/-- The path some names further down. -/
def child (path : ResourcePath) (segments : List String) : ResourcePath :=
  ⟨path.segments ++ segments⟩

/-- The path one name up; the root stays. -/
def parent (path : ResourcePath) : ResourcePath := ⟨path.segments.dropLast⟩

def last? (path : ResourcePath) : Option String := path.segments.getLast?

/-- The names with slashes between them. -/
def text (path : ResourcePath) : String := Text.joined "/" path.segments

/-- The other path starts with the names of this one. -/
def isBeginningOf (path other : ResourcePath) : Bool :=
  path.segments.isPrefixOf other.segments

/-- The other path lies strictly below this one. -/
def isAncestorOf (path other : ResourcePath) : Bool :=
  path.size < other.size && path.isBeginningOf other

/-- The order of paths, name by name. -/
instance : Ord ResourcePath := ⟨fun a b => compare a.segments b.segments⟩

end ResourcePath

end DocStore
