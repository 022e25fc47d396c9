import DocStore.Value.Order
import DocStore.Double.Shortest
import DocStore.Number.Integer

/-!
# What changed in a document

The difference of two states of a document is data for a merge: the fields that are new
or have a new value, and a marker for each field that is gone.  Below the top level, a
map all of whose fields are gone is itself marked as gone.  Two comparisons are known:

* strict: values of different kinds differ, and two doubles are the same if their texts
  are;
* loose: as soon as one value is a double, scalars are the same if their texts are; else
  values are the same if queries hold them equal.
-/

namespace DocStore.Diff

/-- The text of a scalar. -/
def scalarText? : Value → Option String
  | .integer n => some (Number.intText n.toInt)
  | .double d => some d.text
  | .string s => some s
  | .boolean b => some (if b then "1" else "")
  | .null => some ""
  | _ => none

def isDouble : Value → Bool
  | .double _ => true
  | _ => false

/-- The value has not changed. -/
def sameValue (loose : Bool) (a b : Value) : Bool :=
  let byText := if loose then isDouble a || isDouble b else isDouble a && isDouble b
  let texts :=
    if byText then
      match scalarText? a, scalarText? b with
      | some s, some t => some (s == t)
      | _, _ => none
    else none
  match texts with
  | some same => same
  | none => if loose then a.storeEquals b else a.equals b

/-- The markers for the fields of `before` that are not in `after`. -/
def removals (before after : Fields) : Fields :=
  (before.filter fun (name, _) => (Keyed.get? name after).isNone).map fun (name, _) =>
    (name, .deleteField)

/-- Some changes together with the markers for the fields that are gone. -/
def withRemovals (before after changes : Fields) : Fields :=
  (removals before after).foldl (fun m (name, v) => Keyed.insert name v m) changes

/-- Every field of the map is marked as gone. -/
def allGone (before inner : Fields) : Bool :=
  inner.length == before.length && inner.all fun (_, v) => v.isDeleteField

mutual

/-- The change from one value to another, below the top level or at it. -/
def changeOf (loose below : Bool) (before : Value) : Value → Option Value
  | .map after =>
    match before with
    | .map (first :: rest) =>
      let inner := withRemovals (first :: rest) after
        (changes loose true (first :: rest) after)
      if inner.isEmpty then none
      else if below && allGone (first :: rest) inner then some .deleteField
      else some (.map inner)
    | before => if sameValue loose before (.map after) then none else some (.map after)
  | after => if sameValue loose before after then none else some after

/-- The new values of the fields that are still there. -/
def changes (loose below : Bool) (before : Fields) : Fields → Fields
  | [] => []
  | (name, v) :: rest =>
    let change :=
      match Keyed.get? name before with
      | none => some v
      | some old => changeOf loose below old v
    match change with
    | some c => (name, c) :: changes loose below before rest
    | none => changes loose below before rest

end

/-- The data whose merge leads from one state to the other. -/
def between (loose : Bool) (before after : Fields) : Fields :=
  withRemovals before after (changes loose false before after)

/-- The two states differ. -/
def isDirty (loose : Bool) (before after : Fields) : Bool := !(between loose before after).isEmpty

end DocStore.Diff
