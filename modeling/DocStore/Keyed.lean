/-!
# Lists sorted by key

A finite map is kept as the list of its entries in the order of their keys, each key
once (`Keyed.Sorted`).  Two maps with the same entries are then the same list.
-/

namespace DocStore.Keyed

variable {κ α : Type} [Ord κ]

/-- The value of a key. -/
def get? (k : κ) : List (κ × α) → Option α
  | [] => none
  | (l, v) :: rest => if compare k l == .eq then some v else get? k rest

/-- The map with a value put in place of the one that its key had, if any. -/
def insert (k : κ) (v : α) : List (κ × α) → List (κ × α)
  | [] => [(k, v)]
  | (l, w) :: rest =>
    match compare k l with
    | .lt => (k, v) :: (l, w) :: rest
    | .eq => (k, v) :: rest
    | .gt => (l, w) :: insert k v rest

/-- The map without a key. -/
def erase (k : κ) : List (κ × α) → List (κ × α)
  | [] => []
  | (l, w) :: rest => if compare k l == .eq then rest else (l, w) :: erase k rest

/-- The map of some entries; of two entries with one key the later counts. -/
def ofList (entries : List (κ × α)) : List (κ × α) :=
  entries.foldl (fun m e => insert e.1 e.2 m) []

/-- The keys are in strictly increasing order. -/
def Sorted (m : List (κ × α)) : Prop := m.Pairwise fun a b => compare a.1 b.1 = .lt

end DocStore.Keyed
