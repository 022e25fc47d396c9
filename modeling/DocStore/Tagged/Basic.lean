import DocStore.Error
import DocStore.Json.Basic

/-!
# Tagged JSON

A form in JSON for what the library takes and gives, to be read by other programs.
Nothing is lost in it: a double is given by its bits, and each kind of value that JSON
does not have is an object with one field, whose name starts with `$`.

Reading fails in two ways: what is not of this form is malformed, and what is of this form
may still be refused by the library, such as a path with an empty name.  This module holds
the parts that all readers and writers share.
-/

namespace DocStore.Tagged

/-- Why something cannot be read. -/
inductive Fault
  | malformed (complaint : String)
  | refused (error : Error)
  deriving Repr

/-- The result of reading. -/
abbrev Reading (α : Type) := Except Fault α

/-! ## Writing -/

def obj (fields : List (String × Json)) : Json := .object fields

def num (n : Nat) : Json := .integer n

def str (s : String) : Json := .string s

def strs (xs : List String) : Json := .array (xs.map str)

/-- A value, or null. -/
def orNull {α : Type} (f : α → Json) : Option α → Json
  | some x => f x
  | none => .null

/-- A field, if there is a value for it. -/
def optional {α : Type} (name : String) (f : α → Json) (x : Option α) :
    List (String × Json) :=
  match x with
  | some x => [(name, f x)]
  | none => []

/-! ## Reading -/

/-- What the library refuses. -/
def accept {α : Type} : Outcome α → Reading α
  | .ok x => .ok x
  | .error e => .error (.refused e)

def malformed {α : Type} (complaint : String) : Reading α := .error (.malformed complaint)

/-- A field is not there, or not what it should be. -/
def missing {α : Type} (name : String) : Reading α := malformed ("missing '" ++ name ++ "'")

/-- A field that has to be there. -/
def need (name : String) (j : Json) : Reading Json :=
  match j.field? name with
  | some v => pure v
  | none => missing name

/-- A field that is there and not null. -/
def given? (name : String) (j : Json) : Option Json := (j.field? name).filter (!·.isNull)

def asText (name : String) : Json → Reading String
  | .string s => pure s
  | _ => missing name

def asTexts (name : String) (items : List Json) : Reading (List String) :=
  items.mapM (asText name)

def asInt (name : String) : Json → Reading Int
  | .integer n => pure n
  | _ => missing name

def asList (name : String) : Json → Reading (List Json)
  | .array items => pure items
  | _ => missing name

def needText (name : String) (j : Json) : Reading String := do asText name (← need name j)

def needInt (name : String) (j : Json) : Reading Int := do asInt name (← need name j)

def needList (name : String) (j : Json) : Reading (List Json) := do
  asList name (← need name j)

/-- A text that may be missing. -/
def text? (name : String) (j : Json) : Option String := (j.field? name).bind Json.asString?

/-- A natural number that may be missing. -/
def nat? (name : String) (j : Json) : Option Nat :=
  match j.field? name with
  | some (.integer n) => some n.toNat
  | _ => none

/-- A list that may be missing. -/
def listOr (name : String) (j : Json) : List Json :=
  ((j.field? name).bind Json.asArray?).getD []

/-- A switch that is off if it is missing. -/
def flag (name : String) (j : Json) : Bool :=
  match j.field? name with
  | some (.bool b) => b
  | _ => false

/-! ## Calls

A call is a list of its name and its arguments. -/

/-- The argument at a place. -/
def arg (args : List Json) (n : Nat) : Reading Json :=
  match args[n]? with
  | some j => pure j
  | none => malformed "missing argument"

def argText (args : List Json) (n : Nat) : Reading String := do
  asText "argument" (← arg args n)

def argNat (args : List Json) (n : Nat) : Reading Nat := do
  return (← asInt "argument" (← arg args n)).toNat

def argList (args : List Json) (n : Nat) : Reading (List Json) := do
  asList "argument" (← arg args n)

end DocStore.Tagged
