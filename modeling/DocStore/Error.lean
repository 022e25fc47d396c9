/-!
# Failures of the document store

A failure has a code, a message and up to three notes: the statement that was
running, the position of the chunk that failed, and the status that the server
reported.  A failure raised by the store reaches the caller of a statement as a
transport failure whose message starts with its status in brackets; a failure
that was raised while checking a statement stays as it is.
-/

namespace DocStore

/-- Why an operation failed. -/
inductive ErrorCode
  | invalidArgument
  | unsupportedDisjunction
  | unsupportedFilteredGroupScope
  | invalidCollectionPath
  | invalidArrayableClause
  | invalidIncrementAmount
  | invalidDocumentScope
  | transportFailure
  | missingProjectId
  | alreadyExists
  | failedPrecondition
  | internal
  | notFound
  | permissionDenied
  | unauthenticated
  | unavailable
  | deadlineExceeded
  | resourceExhausted
  deriving DecidableEq, Repr, Inhabited

namespace ErrorCode

/-- All codes, in order of declaration. -/
def all : List ErrorCode :=
  [invalidArgument, unsupportedDisjunction, unsupportedFilteredGroupScope,
    invalidCollectionPath, invalidArrayableClause, invalidIncrementAmount,
    invalidDocumentScope, transportFailure, missingProjectId, alreadyExists,
    failedPrecondition, internal, notFound, permissionDenied, unauthenticated,
    unavailable, deadlineExceeded, resourceExhausted]

/-- The short name of a code. -/
def label : ErrorCode → String
  | invalidArgument => "invalid-argument"
  | unsupportedDisjunction => "unsupported-disjunction"
  | unsupportedFilteredGroupScope => "unsupported-filtered-group-scope"
  | invalidCollectionPath => "invalid-collection-path"
  | invalidArrayableClause => "invalid-arrayable-clause"
  | invalidIncrementAmount => "invalid-increment-amount"
  | invalidDocumentScope => "invalid-document-scope"
  | transportFailure => "transport-failure"
  | missingProjectId => "missing-project-id"
  | alreadyExists => "already-exists"
  | failedPrecondition => "failed-precondition"
  | internal => "internal"
  | notFound => "not-found"
  | permissionDenied => "permission-denied"
  | unauthenticated => "unauthenticated"
  | unavailable => "unavailable"
  | deadlineExceeded => "deadline-exceeded"
  | resourceExhausted => "resource-exhausted"

/-- The full name of a code, as it is shown to users. -/
def text (code : ErrorCode) : String := "firestore/" ++ code.label

/-- The code of a short name. -/
def ofLabel? (s : String) : Option ErrorCode := all.find? fun code => code.label == s

/-- The status name that the server uses for a code. -/
def statusName : ErrorCode → String
  | invalidArgument | unsupportedDisjunction | unsupportedFilteredGroupScope
  | invalidCollectionPath | invalidArrayableClause | invalidIncrementAmount
  | invalidDocumentScope => "INVALID_ARGUMENT"
  | transportFailure => "UNKNOWN"
  | missingProjectId => "FAILED_PRECONDITION"
  | alreadyExists => "ALREADY_EXISTS"
  | failedPrecondition => "FAILED_PRECONDITION"
  | internal => "INTERNAL"
  | notFound => "NOT_FOUND"
  | permissionDenied => "PERMISSION_DENIED"
  | unauthenticated => "UNAUTHENTICATED"
  | unavailable => "UNAVAILABLE"
  | deadlineExceeded => "DEADLINE_EXCEEDED"
  | resourceExhausted => "RESOURCE_EXHAUSTED"

/-- Codes of failures that are raised while a statement is checked, before the
store is asked for anything. -/
def isValidation : ErrorCode → Bool
  | invalidArgument | unsupportedDisjunction | unsupportedFilteredGroupScope
  | invalidCollectionPath | invalidArrayableClause | invalidIncrementAmount
  | invalidDocumentScope => true
  | _ => false

end ErrorCode

/-- Position of a chunk in a mutation, counted from one. -/
structure ChunkPosition where
  index : Nat
  total : Nat
  deriving DecidableEq, Repr, Inhabited

/-- A failed operation. -/
structure Error where
  code : ErrorCode
  message : String
  /-- The statement that was running. -/
  query : Option String := none
  /-- The chunk of a mutation that failed. -/
  chunk : Option ChunkPosition := none
  /-- The status reported by the server. -/
  status : Option String := none
  deriving DecidableEq, Repr, Inhabited

/-- The result of an operation that can fail. -/
abbrev Outcome (α : Type) := Except Error α

namespace Error

def invalidArgument (message : String) : Error := { code := .invalidArgument, message }

def invalidCollectionPath (message : String) : Error :=
  { code := .invalidCollectionPath, message }

def invalidArrayableClause (message : String) : Error :=
  { code := .invalidArrayableClause, message }

def invalidIncrementAmount (message : String) : Error :=
  { code := .invalidIncrementAmount, message }

def invalidDocumentScope (message : String) : Error :=
  { code := .invalidDocumentScope, message }

def alreadyExists (message : String) : Error := { code := .alreadyExists, message }

def internal (message : String) : Error := { code := .internal, message }

def unavailable (message : String) : Error := { code := .unavailable, message }

def deadlineExceeded (message : String) : Error := { code := .deadlineExceeded, message }

/-- Conditions are joined by AND alone. -/
def unsupportedDisjunction : Error :=
  { code := .unsupportedDisjunction
    message := "Firestore does not support OR operator on WHERE clauses" }

/-- A collection group below a document takes no conditions. -/
def unsupportedFilteredGroupScope : Error :=
  { code := .unsupportedFilteredGroupScope
    message := "Query collection group in document path does not support where clauses" }

/-- A connection needs a project. -/
def missingProjectId : Error :=
  { code := .missingProjectId
    message := "Connection configuration must include a project_id" }

def withQuery (e : Error) (query : String) : Error := { e with query := some query }

def withChunk (e : Error) (index total : Nat) : Error :=
  { e with chunk := some ⟨index, total⟩ }

/-- The failure was raised while a statement was checked. -/
def isValidation (e : Error) : Bool := e.code.isValidation

/-- The status of a failure: the one that the server reported, else that of its code. -/
def effectiveStatus (e : Error) : String := e.status.getD e.code.statusName

/-- A failure of the store as a transport failure `[STATUS] message`.  Failures of
checking and failures that already have this form stay as they are. -/
def toTransportFailure (e : Error) : Error :=
  if e.isValidation || e.code = .transportFailure then e
  else
    { e with
      code := .transportFailure
      message := "[" ++ e.effectiveStatus ++ "] " ++ e.message
      status := some e.effectiveStatus }

/-- The failure in one line: message, code, chunk, statement. -/
def describe (e : Error) : String :=
  e.message ++ " (" ++ e.code.text ++ ")"
    ++ (match e.chunk with
        | some c => " [chunk " ++ toString c.index ++ "/" ++ toString c.total ++ "]"
        | none => "")
    ++ (match e.query with
        | some q => " (query: " ++ q ++ ")"
        | none => "")

end Error

end DocStore
