import DocStore.Json.Writer
import DocStore.Store.Recording
import DocStore.Store.Script
import DocStore.Tagged.Document
import DocStore.Tagged.Error
import DocStore.Tagged.Query

/-!
# Tagged requests

The requests to a store and the requests to a server, the failures that a store is told to
have, and the replies that a server is told to give.
-/

namespace DocStore.Tagged

/-- A request to a store: its kind and what it is about. -/
def ofRequest (r : Request) : Json :=
  .array [str r.name,
    match r with
    | .get key | .collections key => str key.text
    | .query q => ofStoreQuery q
    | .commit writes => ofWrites writes]

/-- A request to the server of a database. -/
def ofHttpRequest (db : DatabaseId) (r : Http.Request) : Json :=
  obj
    [("method", str r.method.text), ("path", str ("/v1/" ++ db.resourceName ++ "/" ++ r.path)),
      ("auth", orNull str r.authorization?), ("type", str Http.contentType),
      ("body", orNull ofPlain r.body)]

/-- A request that fails, by its kind and number, and how. -/
def toFailure (j : Json) : Reading (String × Nat × Error) := do
  return (← needText "on" j, (← needInt "n" j).toNat, ← toError j)

/-- A reply.  A body that is not a text is sent as the text of its JSON. -/
def toReply (j : Json) : Http.Reply :=
  if flag "hang" j then .timedOut
  else
    let body :=
      match j.field? "body" with
      | some (.string text) => text
      | some body => body.render
      | none => ""
    .answered ⟨(nat? "status" j).getD 200, body⟩

end DocStore.Tagged
