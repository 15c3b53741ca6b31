import SmoothCubical.Typing.Conversion

/-!
# Partial elements

The conditions on the faces of a Kan operation that are not typing: a formula mentions interval
variables in scope only, overlapping partial elements agree where they overlap, and each agrees
with the base at the source. An overlap is split into clauses; each clause moves some interval
variables to ends, and what is compared is evaluated there.
-/

set_option autoImplicit false

namespace SmoothCubical.Typing

variable (d : Derivation)

/-- Fail if an interval variable is not in scope. -/
def checkDim (ctx : Context) : Dim → Run Unit
  | .var index =>
    if ctx.bindsDim index then pure () else throw (.fault (.unboundDimension index))
  | _ => pure ()

/-- Fail if a formula mentions an interval variable that is not in scope. -/
def checkFormula (ctx : Context) (formula : Face) : Run Unit :=
  match formula.indices.find? fun index => !ctx.bindsDim index with
  | some index => throw (.invalidFace (.unbound formula index))
  | none => pure ()

/-- A partial element whose formula is evaluated. -/
structure PartialElement where
  formula : Face
  body : Term
  cof : Cofibration

/-- The partial elements of a context, from left to right. -/
def partialElements (ctx : Context) : List (Face × Term) → Run (List PartialElement)
  | [] => pure []
  | (formula, body) :: rest => do
    let cof ← Run.ofFault (formula.cofibration ctx.dims)
    return ⟨formula, body, cof⟩ :: (← partialElements ctx rest)

/-- Fail unless two partial elements agree under a clause of their overlap. -/
def checkOverlapOn (ctx : Context) (p q : PartialElement) (c : Clause) : Run Unit := do
  let dims := ctx.freshDim :: IntervalEnv.substitute c ctx.dims
  let u ← Eval.evaluate d.frames d.meter p.body ctx.env dims
  let v ← Eval.evaluate d.frames d.meter q.body ctx.env dims
  if ← Readback.convertible d.frames d.meter ctx.depth (ctx.dimDepth + 1) u v then return ()
  throw (.invalidFace (.overlap p.formula q.formula))

/-- Fail unless two partial elements agree where both are given. -/
def checkOverlap (ctx : Context) (p q : PartialElement) : Run Unit :=
  (p.cof.meet q.cof).clauses.forM (checkOverlapOn d ctx p q)

/-- Fail unless every two partial elements agree where both are given. -/
def checkOverlaps (ctx : Context) : List PartialElement → Run Unit
  | [] => pure ()
  | p :: rest => do
    rest.forM (checkOverlap d ctx p)
    checkOverlaps ctx rest

/-- Fail unless a partial element agrees with the base at the source under a clause. -/
def checkBaseOn (ctx : Context) (source : Dim) (base : Term) (p : PartialElement)
    (c : Clause) : Run Unit := do
  let dims := IntervalEnv.substitute c ctx.dims
  let start ← Run.ofFault (IntervalEnv.resolve dims source)
  let atSource ← Eval.evaluate d.frames d.meter p.body ctx.env (start :: dims)
  let value ← Eval.evaluate d.frames d.meter base ctx.env dims
  if ← conv d ctx atSource value then return ()
  throw (.invalidFace (.base p.formula))

/-- Fail unless a partial element agrees with the base at the source where it is given. -/
def checkBase (ctx : Context) (source : Dim) (base : Term) (p : PartialElement) : Run Unit :=
  p.cof.clauses.forM (checkBaseOn d ctx source base p)

/-- Fail unless the partial elements agree with one another and with the base. -/
def checkAgreement (ctx : Context) (source : Dim) (faces : List (Face × Term)) (base : Term) :
    Run Unit := do
  if d.settings.checkFaceAgreement then
    let parts ← partialElements ctx faces
    checkOverlaps d ctx parts
    parts.forM (checkBase d ctx source base)

end SmoothCubical.Typing
