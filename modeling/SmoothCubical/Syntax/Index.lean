/-!
# Indices and levels

A variable is written by its index, counted from the nearest binder, and held in values by its
level, counted from the outermost. Under `depth` binders index and level of one variable add up to
`depth - 1`. Both are integers, and only those in range name a variable.
-/

set_option autoImplicit false

namespace SmoothCubical.Index

/-- What a scope binds to an index; the nearest binder comes first. -/
def get? {α : Type} (scope : List α) (index : Int) : Option α :=
  if index < 0 then none else scope[index.toNat]?

/-- The index of a level under `depth` binders, or of the level of an index. -/
def flip (depth level : Int) : Int :=
  depth - 1 - level

/-- Whether an index or level names one of `depth` binders. -/
def inScope (depth index : Int) : Bool :=
  0 ≤ index && index < depth

end SmoothCubical.Index
