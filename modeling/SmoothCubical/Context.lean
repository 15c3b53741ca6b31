import SmoothCubical.Eval.Evaluate

/-!
# Contexts

A context lists the term variables in scope with their types and values, and the interval
variables in scope. A hypothesis has itself as its value, a definition the value it was given;
interval variables are generic. Extending a context leaves it as it was.
-/

set_option autoImplicit false

namespace SmoothCubical

/-- A term variable of a context: its display name and its type. -/
structure Binding where
  name : String
  ty : Value

/-- A typing context, the latest variable first. -/
structure Context where
  bindings : List Binding := []
  env : Env := []
  dims : IntervalEnv := []

namespace Context

/-- The context without variables. -/
def empty : Context := {}

/-- How many term variables are in scope. -/
def depth (ctx : Context) : Int := ctx.bindings.length

/-- How many interval variables are in scope. -/
def dimDepth (ctx : Context) : Int := ctx.dims.length

/-- Whether an interval variable is in scope. -/
def bindsDim (ctx : Context) (index : Int) : Bool :=
  Index.inScope ctx.dimDepth index

/-- The binding of term variable `index`. -/
def find (ctx : Context) (index : Int) : Except Fault Binding :=
  match Index.get? ctx.bindings index with
  | some b => .ok b
  | none => .error (.unboundVariable index)

/-- The value that the next hypothesis of the given type would have. -/
def nextVar (ctx : Context) (ty : Value) : Value :=
  .generic ctx.depth (some ty)

/-- Assume a variable of the given type. -/
def extend (ctx : Context) (name : String) (ty : Value) : Context :=
  { ctx with bindings := ⟨name, ty⟩ :: ctx.bindings, env := .value (ctx.nextVar ty) :: ctx.env }

/-- Define a variable of the given type. -/
def define (ctx : Context) (name : String) (ty value : Value) : Context :=
  { ctx with bindings := ⟨name, ty⟩ :: ctx.bindings, env := .value value :: ctx.env }

/-- The interval variable that `extendDim` would bind. -/
def freshDim (ctx : Context) : Interval := .var ctx.dimDepth

/-- Assume an interval variable. -/
def extendDim (ctx : Context) : Context :=
  { ctx with dims := ctx.freshDim :: ctx.dims }

/-- Names and types of the term variables, the oldest first. -/
def entries (ctx : Context) : List (String × Value) :=
  ctx.bindings.reverse.map fun b => (b.name, b.ty)

/-- A context as it is shown. -/
def text (ctx : Context) : String :=
  let shown := ctx.entries.map fun entry => s!"{entry.1}:{entry.2.text}"
  let terms := String.intercalate ", " shown
  s!"Context(terms=[{terms}], dims={ctx.dims.length})"

end Context

end SmoothCubical
