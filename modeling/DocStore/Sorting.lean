/-!
# Sorting by insertion

A stable sort: each item is moved back past the items that it is less than, and no
further.
-/

namespace DocStore.Sorting

variable {α : Type}

/-- The item put into a list that is kept from the last to the first. -/
def insertBack (less : α → α → Bool) (x : α) : List α → List α
  | [] => [x]
  | y :: rest => if less x y then y :: insertBack less x rest else x :: y :: rest

/-- The items in order, equal ones as they were. -/
def sorted (less : α → α → Bool) (xs : List α) : List α :=
  (xs.foldl (fun done x => insertBack less x done) []).reverse

end DocStore.Sorting
