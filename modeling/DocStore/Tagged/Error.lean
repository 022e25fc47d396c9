import DocStore.Tagged.Basic

/-!
# Tagged failures

A failure of the library is an object with its code, its message and its notes.  Where an
operation can fail, the failure stands in the place of its result.
-/

namespace DocStore.Tagged

def ofError (e : Error) : Json :=
  obj
    ([("error", str e.code.text), ("message", str e.message)]
      ++ optional "query" str e.query
      ++ optional "chunk" (fun c => .array [num c.index, num c.total]) e.chunk
      ++ optional "status" str e.status)

/-- What cannot be read is told under a code of its own. -/
def ofFault : Fault → Json
  | .malformed complaint => obj [("error", str "bad-input"), ("message", str complaint)]
  | .refused e => ofError e

/-- A result, or the failure in its place. -/
def result {α : Type} (f : α → Json) : Outcome α → Json
  | .ok x => f x
  | .error e => ofError e

/-- A failure of its parts; the code by its short name. -/
def toError (j : Json) : Reading Error := do
  match ErrorCode.ofLabel? (← needText "code" j) with
  | none => malformed "unknown error code"
  | some code =>
    let chunk ← (given? "chunk" j).mapM fun c =>
      match c with
      | .array [.integer index, .integer total] => pure ⟨index.toNat, total.toNat⟩
      | _ => missing "chunk"
    return {
      code
      message := ← needText "message" j
      query := text? "query" j
      chunk
      status := text? "status" j }

end DocStore.Tagged
