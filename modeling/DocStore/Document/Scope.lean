import DocStore.Document.Snapshot

/-!
# Scopes

A scope names the document below which a query looks: by its path, by a reference or a
snapshot of it, or by a model, which has no document before it is saved.
-/

namespace DocStore

/-- Something that names a document. -/
inductive Scope
  | path (text : String)
  | reference (key : DocumentKey)
  | snapshot (key : DocumentKey)
  /-- A model, by the path of its document if it has one. -/
  | model (path : Option String)
  deriving Inhabited, Repr

namespace Scope

/-- The path of a document, from its text. -/
def resolvePath (text : String) : Outcome String :=
  match ResourcePath.ofText text with
  | .error _ => throw (.invalidDocumentScope ("Invalid document reference [" ++ text ++ "]"))
  | .ok found =>
    if found.isDocument then pure found.text
    else
      throw (.invalidDocumentScope ("Invalid document reference [" ++ found.text ++ "]"))

/-- The path of the document. -/
def resolve : Scope → Outcome String
  | path text => resolvePath text
  | reference key => pure key.text
  | snapshot key => pure key.text
  | model (some text) => resolvePath text
  | model none =>
    throw (.invalidDocumentScope
      "The model has no document yet, save it before using it as a scope")

end Scope

end DocStore
