import DocStore.Store.Http

/-!
# Servers that follow a script

A server that gives the replies of a list, one after the other, and keeps the requests that
it got.  When the list has come to its end, it gives the same last reply again and again.
-/

namespace DocStore.Http

/-- The replies that are left, and what has happened so far. -/
structure Script where
  replies : List Reply := []
  /-- The reply when there are no others. -/
  last : Reply := .refused
  /-- The requests so far, the last one first. -/
  received : List Request := []
  /-- How often a token was given back. -/
  droppedTokens : Nat := 0
  deriving Inhabited

namespace Script

/-- The reply to a request. -/
def send (request : Request) (s : Script) : Reply × Script :=
  (s.replies.headD s.last,
    { s with replies := s.replies.tail, received := request :: s.received })

/-- The server of a script, whose provider always has the same to give. -/
def server (token : Outcome (Option String)) : Server Script where
  send := send
  token := Action.ofOutcome token
  dropToken s := { s with droppedTokens := s.droppedTokens + 1 }
  rounds s := s.replies.length + 1

/-- The server that nobody can reach, whatever its script says. -/
def unreachable (token : Outcome (Option String)) : Server Script :=
  { server token with send := fun _ s => (.refused, s) }

end Script

end DocStore.Http
