import DocStore.Value.Basic
import DocStore.Path.Field

/-!
# Fields by path

Reading, writing and removing the field at a path, through nested maps.  Writing makes
a map of whatever stands on the way; removing leaves emptied maps in place.
-/

namespace DocStore.Fields

/-- The value at the names on the way to it. -/
def getIn (fields : Fields) : List String → Option Value
  | [] => none
  | [name] => Keyed.get? name fields
  | name :: rest =>
    match Keyed.get? name fields with
    | some (.map child) => getIn child rest
    | _ => none

/-- The map at a name, empty if something else or nothing is there. -/
def childMap (fields : Fields) (name : String) : Fields :=
  match Keyed.get? name fields with
  | some (.map child) => child
  | _ => []

/-- The fields with a value put at the end of the names. -/
def setIn (fields : Fields) (value : Value) : List String → Fields
  | [] => fields
  | [name] => Keyed.insert name value fields
  | name :: rest => Keyed.insert name (.map (setIn (childMap fields name) value rest)) fields

/-- The fields without the one at the end of the names, if it is there. -/
def removeIn? (fields : Fields) : List String → Option Fields
  | [] => none
  | [name] => (Keyed.get? name fields).map fun _ => Keyed.erase name fields
  | name :: rest =>
    match Keyed.get? name fields with
    | some (.map child) =>
      (removeIn? child rest).map fun child => Keyed.insert name (.map child) fields
    | _ => none

/-- The value at a path. -/
def get? (fields : Fields) (path : FieldPath) : Option Value := getIn fields path.segments

/-- The fields with a value at a path. -/
def set (fields : Fields) (path : FieldPath) (value : Value) : Fields :=
  setIn fields value path.segments

/-- The fields without the one at a path, if it is there. -/
def remove? (fields : Fields) (path : FieldPath) : Option Fields :=
  removeIn? fields path.segments

/-- The fields without the one at a path. -/
def remove (fields : Fields) (path : FieldPath) : Fields := (remove? fields path).getD fields

end DocStore.Fields
