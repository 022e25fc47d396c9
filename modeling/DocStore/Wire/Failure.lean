import DocStore.Error
import DocStore.Json.Outline

/-!
# Failures on the wire

A server that refuses a request answers with a status and may give a reason in the body:
an object `error` with a `message` and a `status` of its own, which counts before the
status of the answer.  Without a message the standard phrase of the status stands in.
-/

namespace DocStore.Wire

/-- The standard phrase of a status. -/
def reasonPhrase? : Nat → Option String
  | 100 => some "Continue"
  | 101 => some "Switching Protocols"
  | 102 => some "Processing"
  | 200 => some "OK"
  | 201 => some "Created"
  | 202 => some "Accepted"
  | 203 => some "Non Authoritative Information"
  | 204 => some "No Content"
  | 205 => some "Reset Content"
  | 206 => some "Partial Content"
  | 207 => some "Multi-Status"
  | 208 => some "Already Reported"
  | 226 => some "IM Used"
  | 300 => some "Multiple Choices"
  | 301 => some "Moved Permanently"
  | 302 => some "Found"
  | 303 => some "See Other"
  | 304 => some "Not Modified"
  | 305 => some "Use Proxy"
  | 307 => some "Temporary Redirect"
  | 308 => some "Permanent Redirect"
  | 400 => some "Bad Request"
  | 401 => some "Unauthorized"
  | 402 => some "Payment Required"
  | 403 => some "Forbidden"
  | 404 => some "Not Found"
  | 405 => some "Method Not Allowed"
  | 406 => some "Not Acceptable"
  | 407 => some "Proxy Authentication Required"
  | 408 => some "Request Timeout"
  | 409 => some "Conflict"
  | 410 => some "Gone"
  | 411 => some "Length Required"
  | 412 => some "Precondition Failed"
  | 413 => some "Payload Too Large"
  | 414 => some "URI Too Long"
  | 415 => some "Unsupported Media Type"
  | 416 => some "Range Not Satisfiable"
  | 417 => some "Expectation Failed"
  | 418 => some "I'm a teapot"
  | 421 => some "Misdirected Request"
  | 422 => some "Unprocessable Entity"
  | 423 => some "Locked"
  | 424 => some "Failed Dependency"
  | 426 => some "Upgrade Required"
  | 428 => some "Precondition Required"
  | 429 => some "Too Many Requests"
  | 431 => some "Request Header Fields Too Large"
  | 451 => some "Unavailable For Legal Reasons"
  | 500 => some "Internal Server Error"
  | 501 => some "Not Implemented"
  | 502 => some "Bad Gateway"
  | 503 => some "Service Unavailable"
  | 504 => some "Gateway Timeout"
  | 505 => some "HTTP Version Not Supported"
  | 506 => some "Variant Also Negotiates"
  | 507 => some "Insufficient Storage"
  | 508 => some "Loop Detected"
  | 510 => some "Not Extended"
  | 511 => some "Network Authentication Required"
  | _ => none

/-- The code of a status name of the server. -/
def codeOfStatusName (name : String) : ErrorCode :=
  if name == "INVALID_ARGUMENT" || name == "OUT_OF_RANGE" then .invalidArgument
  else if name == "FAILED_PRECONDITION" || name == "ABORTED" then .failedPrecondition
  else if name == "UNAUTHENTICATED" then .unauthenticated
  else if name == "PERMISSION_DENIED" then .permissionDenied
  else if name == "NOT_FOUND" then .notFound
  else if name == "ALREADY_EXISTS" then .alreadyExists
  else if name == "RESOURCE_EXHAUSTED" then .resourceExhausted
  else if name == "UNAVAILABLE" then .unavailable
  else if name == "DEADLINE_EXCEEDED" then .deadlineExceeded
  else .internal

/-- The code of the status of an answer. -/
def codeOfStatus (status : Nat) : ErrorCode :=
  if status = 400 then .invalidArgument
  else if status = 401 then .unauthenticated
  else if status = 403 then .permissionDenied
  else if status = 404 then .notFound
  else if status = 409 then .alreadyExists
  else if status = 412 then .failedPrecondition
  else if status = 429 then .resourceExhausted
  else if status = 503 || status = 502 then .unavailable
  else if status = 504 || status = 408 then .deadlineExceeded
  else if 400 ≤ status && status < 500 then .invalidArgument
  else .internal

/-- The reason that a body gives. -/
structure Reason where
  message : Option String := none
  status : Option String := none
  deriving DecidableEq, Repr

/-- A text or null. -/
def optionalText? : Json → Option (Option String)
  | .null => some none
  | .string s => some (some s)
  | _ => none

/-- The values of the named fields of an object, each given at most once; other fields are
passed over. -/
def namedFields? (names : List String) (fields : List (String × Json)) :
    Option (List (Option Json)) :=
  names.mapM fun name =>
    match fields.filter (·.1 == name) with
    | [] => some none
    | [(_, j)] => some (some j)
    | _ => none

/-- The reason in the field `error`: an object, or a list of message and status. -/
def reason? : Json → Option Reason
  | .object fields => do
    match ← namedFields? ["message", "status"] fields with
    | [message, status] =>
      return ⟨← optionalText? (message.getD .null), ← optionalText? (status.getD .null)⟩
    | _ => none
  | .array [] => some {}
  | .array [message] => do return ⟨← optionalText? message, none⟩
  | .array [message, status] => do
    return ⟨← optionalText? message, ← optionalText? status⟩
  | _ => none

/-- The reason or null. -/
def optionalReason? : Json → Option (Option Reason)
  | .null => some none
  | j => (reason? j).map some

/-- The reason that a body gives: an object with the field `error`, or a list of it alone. -/
def bodyReason? : Json → Option (Option Reason)
  | .object fields => do
    match ← namedFields? ["error"] fields with
    | [error] => optionalReason? (error.getD .null)
    | _ => none
  | .array [error] => optionalReason? error
  | _ => none

/-- What is read of a body. -/
def bodyOutline : Json.Outline :=
  .fields [(["error"], .fields [(["message"], .whole), (["status"], .whole)])]

/-- The failure of an answer. -/
def failure (status : Nat) (body : String) : Error :=
  let reason := ((Json.outline? bodyOutline body).bind bodyReason?).getD none
  let message :=
    match (reason.bind (·.message)).filter (!·.isEmpty) with
    | some message => message
    | none => (reasonPhrase? status).getD "HTTP error"
  match reason.bind (·.status) with
  | some name => { code := codeOfStatusName name, message, status := some name }
  | none => { code := codeOfStatus status, message }

end DocStore.Wire
