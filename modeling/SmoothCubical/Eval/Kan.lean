import SmoothCubical.Eval.Demand

/-!
# Kan operations

Composition and coercion of values along a family. A family of function types and a family of
path types are taken apart, pointwise; in any other family the operation stays pending. The shape
of a family is read off at a probe, an interval variable that occurs nowhere else.
-/

set_option autoImplicit false

namespace SmoothCubical.Eval

variable (call : Call)

/-- The domain and codomain of the function type that a family is at a point. -/
def piAt (m : MeterId) (family : Line) (point : Interval) : Run (Value × Closure) := do
  match ← lineAt call m family point with
  | .pi _ domain codomain => return (domain, codomain)
  | ty => throw (.notFunctionType ty)

/-- The type and the two ends of the path type that a family is at a point. -/
def pathTypeAt (m : MeterId) (family : Line) (point : Interval) :
    Run (Value × Value × Value) := do
  match ← lineAt call m family point with
  | .path ty left right => return (ty, left, right)
  | .smoothPath _ ty left right => return (ty, left, right)
  | ty => throw (.notPathType ty)

/-- A moved argument at a point. -/
def carriedAt (m : MeterId) (argument : Carried) (point : Interval) : Run Value :=
  match argument with
  | .mk domain start value => call m (.coe start point domain value)

/-- The tube of the first partial element that is given everywhere. -/
def firstTrue? : List Tube → Option IntervalClosure
  | [] => none
  | (φ, tube) :: rest => if φ.isTrue then some tube else firstTrue? rest

/-- The partial elements that are given somewhere. -/
def possible (faces : List Tube) : List Tube :=
  faces.filter fun face => !face.1.isFalse

/-- Composition. A partial element that is given everywhere is the answer, and where nothing
moves the base is. -/
def comp (m : MeterId) (source target : Interval) (family : Line) (faces : List Tube)
    (base : Value) : Run Value := do
  match firstTrue? faces with
  | some tube => call m (.instantiateAt tube target)
  | none =>
    if target = source then return base
    let faces := possible faces
    match ← lineAt call m family (← Run.probe m) with
    | .pi name _ _ => return .lam name (.comp m source target family faces base)
    | .path _ _ _ => return .pathLam "k" (.comp m source target family faces base)
    | .smoothPath _ _ _ _ => return .pathLam "k" (.comp m source target family faces base)
    | shape =>
      Run.record (.compPending shape)
      let ty ← lineAt call m family target
      return .stuck (.comp source target family faces base) (some ty)

/-- Coercion. Nothing happens where nothing moves, in a constant family and in a universe. -/
def coe (m : MeterId) (source target : Interval) (family : Line) (base : Value) : Run Value := do
  if source = target then return base
  if family.isConstant then return base
  match ← lineAt call m family (← Run.probe m) with
  | .univ _ => return base
  | .pi name _ _ => return .lam name (.coe m source target family base)
  | .path _ _ _ => return .pathLam "k" (.comp m source target family [] base)
  | .smoothPath _ _ _ _ => return .pathLam "k" (.comp m source target family [] base)
  | shape =>
    Run.record (.coePending shape)
    let ty ← lineAt call m family target
    return .stuck (.coe source target family base) (some ty)

/-- The argument `y` of a function over the target, to be moved along the domains of `family`. -/
def carry (m : MeterId) (family : Line) (isConstant : Bool) (target : Interval) (y : Value) :
    Carried :=
  .mk (.varying (.domain m family) isConstant) target y

/-- A composition of functions at an argument: the argument goes back along the domains, and the
values at it are composed along the codomains. -/
def compFunctionAt (m : MeterId) (source target : Interval) (family : Line)
    (faces : List Tube) (base y : Value) : Run Value := do
  let argument := carry m family family.isConstant target y
  let atSource ← carriedAt call m argument source
  let start ← apply call m base atSource
  let tubes := faces.map fun face => (face.1, IntervalClosure.app m face.2 argument)
  call m (.comp source target (.varying (.codomain m family argument) family.isConstant)
    tubes start)

/-- A coercion of functions at an argument. -/
def coeFunctionAt (m : MeterId) (source target : Interval) (family : Line) (base y : Value) :
    Run Value := do
  let argument := carry m family false target y
  let atSource ← carriedAt call m argument source
  let start ← apply call m base atSource
  call m (.coe source target (.varying (.codomain m family argument) false) start)

/-- A composition of paths at a point: the ends of the path type are two more faces. -/
def compPathAt (m : MeterId) (source target : Interval) (family : Line) (faces : List Tube)
    (base : Value) (k : Interval) : Run Value := do
  let start ← pathApply call m base k
  let tubes := faces.map fun face => (face.1, IntervalClosure.pathApp m face.2 k)
  let ends := [(Cofibration.eq k 0, IntervalClosure.left m family),
    (Cofibration.eq k 1, IntervalClosure.right m family)]
  call m (.comp source target (.varying (.element m family) family.isConstant)
    (tubes ++ ends) start)

/-- Run the body of an abstraction at an argument. -/
def instantiate (m : MeterId) (closure : Closure) (argument : Entry) : Run Value := do
  match closure with
  | .body env dims term => call m (.evaluate true term (argument :: env) dims)
  | .comp m source target family faces base =>
    compFunctionAt call m source target family faces base (← force call argument)
  | .coe m source target family base =>
    coeFunctionAt call m source target family base (← force call argument)

/-- Run the body of an interval abstraction at a point. -/
def instantiateAt (m : MeterId) (closure : IntervalClosure) (point : Interval) :
    Run Value := do
  match closure with
  | .body env dims term => call m (.evaluate true term env (point :: dims))
  | .choice atZero atOne generic =>
    match point with
    | .zero => return atZero
    | .one => return atOne
    | .var _ => return generic
  | .domain m family => return (← piAt call m family point).1
  | .codomain m family argument =>
    let (_, codomain) ← piAt call m family point
    let y ← carriedAt call m argument point
    call m (.instantiate codomain (.value y))
  | .element m family => return (← pathTypeAt call m family point).1
  | .left m family => return (← pathTypeAt call m family point).2.1
  | .right m family => return (← pathTypeAt call m family point).2.2
  | .app m tube argument =>
    let function ← call m (.instantiateAt tube point)
    let y ← carriedAt call m argument point
    apply call m function y
  | .pathApp m tube k =>
    let path ← call m (.instantiateAt tube point)
    pathApply call m path k
  | .comp m source target family faces base =>
    compPathAt call m source target family faces base point

end SmoothCubical.Eval
