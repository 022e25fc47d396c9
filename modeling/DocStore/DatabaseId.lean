/-!
# Databases

A project holds databases.  The resource name of a database is the stem of the names
of its documents, and of the URL at which its server is reached.
-/

namespace DocStore

/-- A database of a project. -/
structure DatabaseId where
  project : String
  database : String
  deriving DecidableEq, Repr, Inhabited

namespace DatabaseId

/-- The name of the database that a project has by default. -/
def defaultName : String := "(default)"

/-- `projects/p/databases/d`. -/
def resourceName (db : DatabaseId) : String :=
  "projects/" ++ db.project ++ "/databases/" ++ db.database

/-- The stem of the names of all documents. -/
def documentsRoot (db : DatabaseId) : String := db.resourceName ++ "/documents"

/-- The base URL of the public server. -/
def productionUrl (db : DatabaseId) : String :=
  "https://firestore.googleapis.com/v1/" ++ db.resourceName

/-- The base URL of an emulator at a host. -/
def emulatorUrl (db : DatabaseId) (host : String) : String :=
  "http://" ++ host ++ "/v1/" ++ db.resourceName

end DatabaseId

/-- The seconds a request may take unless the configuration says otherwise. -/
def defaultRequestTimeoutSecs : Nat := 20

end DocStore
