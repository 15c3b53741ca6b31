import SmoothCubical.Session

/-!
# Demands, and what eliminations do with them

Evaluation, closures and Kan operations call one another without a decreasing argument. They are
written here against an unknown `Call` that meets any demand for a value; `Eval.run` ties the
knot. A law that every rule keeps, given a call that keeps it, is then a law of evaluation.
-/

set_option autoImplicit false

namespace SmoothCubical

/-- A demand for a value. -/
inductive Demand
  /-- Evaluate a term; `nests` says whether that is one more nested evaluation. -/
  | evaluate (nests : Bool) (term : Term) (env : Env) (dims : IntervalEnv)
  /-- Run the body of an abstraction at an argument. -/
  | instantiate (closure : Closure) (argument : Entry)
  /-- Run the body of an interval abstraction at a point. -/
  | instantiateAt (closure : IntervalClosure) (point : Interval)
  /-- Compose in a family from `source` to `target`. -/
  | comp (source target : Interval) (family : Line) (faces : List Tube) (base : Value)
  /-- Move a value along a family from `source` to `target`. -/
  | coe (source target : Interval) (family : Line) (base : Value)

/-- How demands are met, charged to a meter. -/
abbrev Call := MeterId → Demand → Run Value

/-- The demand for the value of a computation that was put off. -/
def Suspension.demand (x : Suspension) : Demand :=
  .evaluate x.nests x.term x.env x.dims

namespace Eval

variable (call : Call)

/-- The value of an entry. A computation that was put off runs at the expense of the meter it was
put off under, and stays put off if it fails. -/
def force : Entry → Run Value
  | .value v => pure v
  | .thunk id => do
    match (← get).cells[id]? with
    | some ⟨_, some v⟩ => return v
    | some ⟨x, none⟩ =>
      let v ← call x.meter x.demand
      Run.settle id v
      return v
    | none => throw (.unknownThunk id)

/-- The entry of term variable `index`. -/
def findEntry (env : Env) (index : Int) : Except Fault Entry :=
  match Index.get? env index with
  | some e => .ok e
  | none => .error (.unboundVariable index)

/-- The value of term variable `index`. -/
def lookup (env : Env) (index : Int) : Run Value := do
  force call (← Run.ofFault (findEntry env index))

/-- The type that a family is at a point. -/
def lineAt (m : MeterId) (family : Line) (point : Interval) : Run Value :=
  match family with
  | .constant ty => pure ty
  | .varying closure _ => call m (.instantiateAt closure point)

/-- Apply a value. A stuck function gives a stuck application, whose type is the codomain at the
argument where the function type is known. -/
def apply (m : MeterId) (function argument : Value) : Run Value :=
  match function with
  | .lam _ body => call m (.instantiate body (.value argument))
  | .stuck neutral (some (.pi _ _ codomain)) => do
    let ty ← call m (.instantiate codomain (.value argument))
    return .stuck (.app neutral argument) (some ty)
  | .stuck neutral _ => return .stuck (.app neutral argument) none
  | v => throw (.notFunction v)

/-- The value of a stuck path between `left` and `right` at a point. -/
def stuckPathAt (neutral : Neutral) (ty left right : Value) : Interval → Value
  | .zero => left
  | .one => right
  | point => .stuck (.pathApp neutral point) (some ty)

/-- Take a path at a point. A stuck path whose type is known reaches its ends. -/
def pathApply (m : MeterId) (path : Value) (point : Interval) : Run Value :=
  match path with
  | .pathLam _ body => call m (.instantiateAt body point)
  | .stuck neutral (some (.path ty left right)) =>
    return stuckPathAt neutral ty left right point
  | .stuck neutral (some (.smoothPath _ ty left right)) =>
    return stuckPathAt neutral ty left right point
  | .stuck neutral _ => return .stuck (.pathApp neutral point) none
  | v => throw (.notPath v point)

end Eval

end SmoothCubical
