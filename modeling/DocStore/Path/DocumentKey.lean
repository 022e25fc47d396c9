import DocStore.Path.Resource

/-!
# Document keys

The key of a document is its resource path.  A key that was read from a text or made
of a path by `ofPath` has an even, positive number of names.
-/

namespace DocStore

/-- The location of a document. -/
structure DocumentKey where
  path : ResourcePath
  deriving DecidableEq, Repr, Inhabited

namespace DocumentKey

/-- The key at a path, which has to be the path of a document. -/
def ofPath (path : ResourcePath) : Outcome DocumentKey :=
  if path.isDocument then pure ⟨path⟩
  else
    throw (.invalidArgument
      ("Document paths must have an even number of segments, got '" ++ path.text ++ "'"))

def ofText (text : String) : Outcome DocumentKey := do ofPath (← ResourcePath.ofText text)

/-- The path of the collection that holds the document. -/
def collection (key : DocumentKey) : ResourcePath := key.path.parent

/-- The name of the collection that holds the document. -/
def collectionId (key : DocumentKey) : String := (key.path.parent.last?).getD ""

/-- The id of the document in its collection. -/
def id (key : DocumentKey) : String := key.path.last?.getD ""

def text (key : DocumentKey) : String := key.path.text

/-- The path of a collection below the document. -/
def childCollection (key : DocumentKey) (collectionId : String) : ResourcePath :=
  key.path.child [collectionId]

/-- The order of keys is that of their paths. -/
instance : Ord DocumentKey := ⟨fun a b => compare a.path b.path⟩

end DocumentKey

end DocStore
