import DocStore.Json.Outline
import DocStore.Session.Connection
import DocStore.Text.Blank

/-!
# Configuration

The settings of a connection.  They are read from JSON, by their names in snake case or
camel case or as a list in their order, or from the environment.  A project, a host or a
token that is blank counts as not given.
-/

namespace DocStore

/-- The settings of a connection. -/
structure Config where
  project : Option String := none
  database : String := DatabaseId.defaultName
  /-- The emulator that stands in for the public server, as host and port. -/
  emulatorHost : Option String := none
  accessToken : Option String := none
  requestTimeoutSecs : Nat := defaultRequestTimeoutSecs
  logsStatements : Bool := false
  pretends : Bool := false
  /-- The number of documents on a page of a recursive deletion; zero asks for the default. -/
  pageSize : Nat := RecursiveDelete.defaultPageSize
  deriving DecidableEq, Repr, Inhabited

namespace Config

/-! ## Reading JSON -/

/-- The text, unless it is blank. -/
def unlessBlank (text : String) : Option String :=
  if Text.isAllBlank text then none else some text

/-- A text or null, where a blank one counts as null. -/
def optionalText? : Json → Option (Option String)
  | .null => some none
  | .string s => some (unlessBlank s)
  | _ => none

/-- A natural number up to a largest one. -/
def boundedNat? (largest : Nat) : Json → Option Nat
  | .integer n => if 0 ≤ n && n ≤ largest then some n.toNat else none
  | _ => none

def bool? : Json → Option Bool
  | .bool b => some b
  | _ => none

/-- A setting in JSON: its names, and how its value is put into a configuration. -/
structure Setting where
  names : List String
  put : Config → Json → Option Config

/-- The settings in their order. -/
def settings : List Setting :=
  [ ⟨["project_id", "projectId"], fun c j =>
      (optionalText? j).map fun project => { c with project }⟩,
    ⟨["database"], fun c j => j.asString?.map fun database => { c with database }⟩,
    ⟨["emulator_host", "emulatorHost"], fun c j =>
      (optionalText? j).map fun emulatorHost => { c with emulatorHost }⟩,
    ⟨["access_token", "accessToken"], fun c j =>
      (optionalText? j).map fun accessToken => { c with accessToken }⟩,
    ⟨["request_timeout_secs", "requestTimeoutSecs"], fun c j =>
      (boundedNat? 0xffffffffffffffff j).map fun requestTimeoutSecs =>
        { c with requestTimeoutSecs }⟩,
    ⟨["log_queries", "logQueries"], fun c j =>
      (bool? j).map fun logsStatements => { c with logsStatements }⟩,
    ⟨["pretend"], fun c j => (bool? j).map fun pretends => { c with pretends }⟩,
    ⟨["recursive_delete_batch_size", "recursiveDeleteBatchSize"], fun c j =>
      (boundedNat? 0xffffffff j).map fun pageSize => { c with pageSize }⟩ ]

/-- The configuration with a setting from the fields of an object, which may give it once
and under one name. -/
def putField (fields : List (String × Json)) (c : Config) (setting : Setting) :
    Option Config :=
  match fields.filter fun (name, _) => setting.names.contains name with
  | [] => some c
  | [(_, j)] => setting.put c j
  | _ => none

/-- The configuration of JSON: an object, or a list of the first settings. -/
def ofJson? : Json → Option Config
  | .object fields => settings.foldlM (putField fields) {}
  | .array items =>
    if settings.length < items.length then none
    else (settings.zip items).foldlM (fun c (setting, j) => setting.put c j) {}
  | _ => none

/-- A configuration that cannot be read. -/
def malformed : Error :=
  .invalidArgument "Invalid connection configuration: not an object of known settings"

/-- The configuration of JSON. -/
def ofJson (j : Json) : Outcome Config :=
  match ofJson? j with
  | some c => pure c
  | none => throw malformed

/-- What is read of a configuration. -/
def outline : Json.Outline := .fields (settings.map fun setting => (setting.names, .whole))

/-- The configuration of a text in JSON. -/
def ofText (text : String) : Outcome Config :=
  match Json.outline? outline text with
  | some j => ofJson j
  | none => throw malformed

/-- The settings as an object. -/
def toJson (c : Config) : Json :=
  let optional (text : Option String) : Json := (text.map Json.string).getD .null
  Json.ofFields
    [("project_id", optional c.project), ("database", .string c.database),
      ("emulator_host", optional c.emulatorHost), ("access_token", optional c.accessToken),
      ("request_timeout_secs", .integer c.requestTimeoutSecs),
      ("log_queries", .bool c.logsStatements), ("pretend", .bool c.pretends),
      ("recursive_delete_batch_size", .integer c.pageSize)]

/-! ## The environment -/

/-- The variables of the environment. -/
abbrev Environment := String → Option String

/-- A variable, unless it is blank. -/
def textOf? (env : Environment) (name : String) : Option String :=
  (env name).bind unlessBlank

/-- The emulator of the environment. -/
def environmentHost? (env : Environment) : Option String :=
  textOf? env "FIRESTORE_EMULATOR_HOST"

/-- The configuration that the environment gives. -/
def ofEnvironment (env : Environment) : Config :=
  { project := textOf? env "FIRESTORE_PROJECT_ID"
    database := (textOf? env "FIRESTORE_DATABASE").getD DatabaseId.defaultName
    emulatorHost := environmentHost? env
    accessToken := textOf? env "FIRESTORE_ACCESS_TOKEN" }

/-! ## Using a configuration -/

/-- The configuration of a project. -/
def ofProject (project : String) : Config := { project := some project }

def withEmulatorHost (c : Config) (host : String) : Config :=
  { c with emulatorHost := unlessBlank host }

def withAccessToken (c : Config) (token : String) : Config :=
  { c with accessToken := unlessBlank token }

/-- The database.  A blank name stands for the default one. -/
def databaseId (c : Config) : Outcome DatabaseId :=
  match c.project with
  | some project => pure ⟨project, (unlessBlank c.database).getD DatabaseId.defaultName⟩
  | none => throw .missingProjectId

/-- The emulator to use: the one of the configuration, else the one of the environment. -/
def resolvedHost? (c : Config) (env : Environment) : Option String :=
  c.emulatorHost.orElse fun _ => environmentHost? env

/-- A connection to a store. -/
def connection {σ : Type} (c : Config) (database : DatabaseId) (store : Datastore σ) :
    Connection σ :=
  { database, store, pageSize := RecursiveDelete.pageSizeOf c.pageSize }

/-- A session that starts with a client. -/
def session {σ : Type} (c : Config) (client : Client σ) : Session σ :=
  { client, logging := c.logsStatements, pretending := c.pretends }

end Config

end DocStore
