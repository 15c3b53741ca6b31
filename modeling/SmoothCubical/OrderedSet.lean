/-!
# Finite sets as strictly increasing lists

A set over an ordered type is stored as the list of its members in increasing order, each once.
Two sets with the same members are then the same list. Everything is built from `insert`.
-/

set_option autoImplicit false

namespace SmoothCubical.OrderedSet

variable {α : Type}

/-- Put `x` in its place; a member that compares equal to it stays as it is. -/
def insert (cmp : α → α → Ordering) (x : α) : List α → List α
  | [] => [x]
  | y :: ys =>
    match cmp x y with
    | .lt => x :: y :: ys
    | .eq => y :: ys
    | .gt => y :: insert cmp x ys

/-- The set of the members of a list. -/
def ofList (cmp : α → α → Ordering) (xs : List α) : List α :=
  xs.foldr (insert cmp) []

/-- The set of the members of either set. -/
def union (cmp : α → α → Ordering) (xs ys : List α) : List α :=
  xs.foldr (insert cmp) ys

/-- Dictionary order on lists: the first difference decides, and an initial part comes first. -/
def compareLists (cmp : α → α → Ordering) : List α → List α → Ordering
  | [], [] => .eq
  | [], _ :: _ => .lt
  | _ :: _, [] => .gt
  | x :: xs, y :: ys =>
    match cmp x y with
    | .lt => .lt
    | .eq => compareLists cmp xs ys
    | .gt => .gt

end SmoothCubical.OrderedSet
