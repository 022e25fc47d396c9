import DocStore.DatabaseId
import DocStore.Path.DocumentKey
import DocStore.Text.Percent

/-!
# Names of documents on the wire

The name of a document starts with the root of its database and goes on with its path.
In a request URL every name of a path is percent-encoded.
-/

namespace DocStore

namespace DatabaseId

/-- The name of the document at a path given by its text. -/
def referenceName (db : DatabaseId) (path : String) : String :=
  db.documentsRoot ++ "/" ++ Text.strip (· == '/') path

/-- The name of a document. -/
def documentName (db : DatabaseId) (key : DocumentKey) : String := db.referenceName key.text

/-- What follows a beginning of a text. -/
def afterBeginning? (beginning text : List Char) : Option (List Char) :=
  if beginning.isPrefixOf text then some (text.drop beginning.length) else none

/-- The path of a document, without slashes before it, from its name. -/
def relativePath (db : DatabaseId) (name : String) : Outcome String :=
  match afterBeginning? db.documentsRoot.toList name.toList with
  | some rest => pure (String.ofList (rest.dropWhile (· == '/')))
  | none =>
    throw (.internal ("Unexpected document name '" ++ name ++ "' returned by Firestore"))

/-- The key of a document, from its name. -/
def keyOfName (db : DatabaseId) (name : String) : Outcome DocumentKey := do
  DocumentKey.ofText (← db.relativePath name)

end DatabaseId

namespace ResourcePath

/-- The path of a resource in a request URL. -/
def urlPath (path : ResourcePath) : String :=
  if path.segments.isEmpty then "documents"
  else "documents/" ++ Text.joined "/" (path.segments.map Text.Percent.encode)

end ResourcePath

end DocStore
