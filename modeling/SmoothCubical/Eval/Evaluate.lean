import SmoothCubical.Syntax.Scope
import SmoothCubical.Eval.Kan

/-!
# Evaluation

Terms to values. An argument is put off when its function is known to be an abstraction, and then
computed at most once. `Eval.run` meets every demand, by recursion on how many calls may still
nest; the other functions are its named uses.
-/

set_option autoImplicit false

namespace SmoothCubical.Eval

section Rules

variable (call : Call)

/-- A family closed over its direction. -/
def closeFamily (family : Term) (env : Env) (dims : IntervalEnv) : Run Line := do
  let moves ← Run.ofFault (family.mentions 0)
  return .varying (.body env dims family) (!moves)

/-- One partial element: its formula is evaluated, its body closed over the direction. -/
def closeTube (env : Env) (dims : IntervalEnv) (face : Face × Term) : Run Tube := do
  let φ ← Run.ofFault (face.1.cofibration dims)
  return (φ, .body env dims face.2)

/-- The partial elements of a Kan operation, from left to right. -/
def closeTubes (env : Env) (dims : IntervalEnv) : List (Face × Term) → Run (List Tube)
  | [] => pure []
  | face :: rest => do
    let tube ← closeTube env dims face
    return tube :: (← closeTubes env dims rest)

/-- The value of a term, by its outermost form. -/
def step (m : MeterId) (term : Term) (env : Env) (dims : IntervalEnv) : Run Value := do
  let value (t : Term) : Run Value := call m (.evaluate true t env dims)
  match term with
  | .univ level => return .univ level
  | .var index => lookup call env index
  | .pi name domain codomain => return .pi name (← value domain) (.body env dims codomain)
  | .lam name body => return .lam name (.body env dims body)
  | .app function argument =>
    match ← value function with
    | .lam _ body =>
      let thunk ← Run.suspend ⟨m, false, argument, env, dims⟩
      call m (.instantiate body thunk)
    | f => apply call m f (← value argument)
  | .path ty left right => return .path (← value ty) (← value left) (← value right)
  | .pathLam name body => return .pathLam name (.body env dims body)
  | .pathApp path dim =>
    let p ← value path
    pathApply call m p (← Run.ofFault (IntervalEnv.resolve dims dim))
  | .smoothPath order ty left right =>
    return .smoothPath order (← value ty) (← value left) (← value right)
  | .comp source target family faces base =>
    let line ← closeFamily family env dims
    let start ← value base
    let tubes ← closeTubes env dims faces
    let target ← Run.ofFault (IntervalEnv.resolve dims target)
    let source ← Run.ofFault (IntervalEnv.resolve dims source)
    call m (.comp source target line tubes start)
  | .coe source target family base =>
    let line ← closeFamily family env dims
    let source ← Run.ofFault (IntervalEnv.resolve dims source)
    let target ← Run.ofFault (IntervalEnv.resolve dims target)
    call m (.coe source target line (← value base))
  | .hcomp ty faces base =>
    let ty ← value ty
    let start ← value base
    let tubes ← closeTubes env dims faces
    call m (.comp .zero .one (.constant ty) tubes start)
  | .missing => throw (.fault .missingTerm)

/-- Charge a step and take it. -/
def chargedStep (m : MeterId) (term : Term) (env : Env) (dims : IntervalEnv) : Run Value := do
  Run.charge m
  step call m term env dims

/-- Meet a demand by one rule. -/
def answer (m : MeterId) : Demand → Run Value
  | .evaluate true term env dims => Run.nest m do
    Run.checkDepth m term
    chargedStep call m term env dims
  | .evaluate false term env dims => chargedStep call m term env dims
  | .instantiate closure argument => instantiate call m closure argument
  | .instantiateAt closure point => instantiateAt call m closure point
  | .comp source target family faces base => comp call m source target family faces base
  | .coe source target family base => coe call m source target family base

end Rules

/-- Meet a demand, with at most `frames` calls nested. -/
def run : Nat → Call
  | 0, _, _ => throw (.nonTermination .frames)
  | frames + 1, m, demand => answer (run frames) m demand

/-- The value of a term in its environments. -/
def evaluate (frames : Nat) (m : MeterId) (term : Term) (env : Env) (dims : IntervalEnv) :
    Run Value :=
  run frames m (.evaluate true term env dims)

/-- Composition in the constant family of a type, from `0` to `1`. -/
def hcomp (frames : Nat) (m : MeterId) (ty : Value) (faces : List Tube) (base : Value) :
    Run Value :=
  run frames m (.comp .zero .one (.constant ty) faces base)

end SmoothCubical.Eval
