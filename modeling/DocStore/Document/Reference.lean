import DocStore.Number.Power
import DocStore.Document.Snapshot
import DocStore.Text.Escaped

/-!
# References

A document is referred to by its key and a collection by its path.  A new document may
get an id of twenty random letters and digits.
-/

namespace DocStore

/-- A collection, by its path. -/
structure CollectionRef where
  path : ResourcePath
  deriving DecidableEq, Repr, Inhabited

/-- The length of a random document id. -/
def randomIdLength : Nat := 20

/-- The letters and digits of random ids. -/
def randomIdChars : List Char :=
  "ABCDEFGHIJKLMNOPQRSTUVWXYZabcdefghijklmnopqrstuvwxyz0123456789".toList

/-- The id of a random number: its digits in base 62. -/
def randomId (draw : Nat) : String :=
  String.ofList
    ((Number.lastDigits randomIdChars.length randomIdLength draw).map
      fun d => randomIdChars.getD d 'A')

namespace DocumentKey

/-- The collection of a name below a document. -/
def collectionRef (key : DocumentKey) (collectionId : String) : Outcome CollectionRef :=
  if collectionId.isEmpty || Text.hasChar '/' collectionId then
    throw (.invalidArgument ("Invalid collection id '" ++ collectionId ++ "'"))
  else pure ⟨key.childCollection collectionId⟩

/-- The reference to a document as it is shown to a programmer. -/
def debugText (key : DocumentKey) : String :=
  "DocumentReference \x7b path: " ++ Text.escaped key.text ++ " \x7d"

end DocumentKey

namespace CollectionRef

/-- The collection at a path, which has to be the path of a collection. -/
def ofPath (path : ResourcePath) : Outcome CollectionRef :=
  if path.isCollection then pure ⟨path⟩
  else
    throw (.invalidArgument
      ("'" ++ path.text ++ "' is not a collection path (odd number of segments expected)"))

/-- The collection of a text. -/
def ofText (text : String) : Outcome CollectionRef := do
  let path ← ResourcePath.ofText text
  if path.isRoot then throw (.invalidArgument "Collection path must not be empty")
  ofPath path

def id (c : CollectionRef) : String := c.path.last?.getD ""

/-- The document below which the collection lies, if there is one. -/
def parent? (c : CollectionRef) : Option DocumentKey :=
  if c.path.isNested then (DocumentKey.ofPath c.path.parent).toOption else none

/-- The document of an id in the collection. -/
def doc (c : CollectionRef) (id : String) : Outcome DocumentKey :=
  if id.isEmpty || Text.hasChar '/' id then
    throw (.invalidArgument ("Invalid document id '" ++ id ++ "'"))
  else DocumentKey.ofPath (c.path.child [id])

/-- The collection as it is shown to a programmer. -/
def debugText (c : CollectionRef) : String :=
  "CollectionReference \x7b path: " ++ Text.escaped c.path.text ++ " \x7d"

end CollectionRef

end DocStore
