import SmoothCubical.Typing.Ends
import SmoothCubical.Typing.Faces

/-!
# Judgments

Types are inferred from terms and terms are checked against types, in one recursion on the term:
`judge` with no goal infers, and with a goal checks. Abstractions are only checked; every other
form is inferred, and its type has to stand for the goal if there is one.
-/

set_option autoImplicit false

namespace SmoothCubical.Typing

mutual

/-- Infer the type of a term, or check the term against a goal. -/
def judge (d : Derivation) : Term → Context → Option Value → Run Value
  | .univ level, ctx, goal => conclude d ctx goal (.univ (level + 1))
  | .var index, ctx, goal => do
    let binding ← Run.ofFault (ctx.find index)
    conclude d ctx goal binding.ty
  | .pi name domain codomain, ctx, goal => do
    let i ← universeLevel d ctx (← judge d domain ctx none)
    let inner := ctx.extend name (← eval d ctx domain)
    let j ← universeLevel d inner (← judge d codomain inner none)
    conclude d ctx goal (.univ (max i j))
  | .lam name body, ctx, goal => do
    match goal with
    | none => throw (.cannotInfer (.lam name body))
    | some (.pi _ domain codomain) =>
      let argument := Entry.value (ctx.nextVar domain)
      let ty ← Eval.run d.frames d.meter (.instantiate codomain argument)
      judge d body (ctx.extend name domain) (some ty)
    | some expected => throw (.typeMismatch (.term (← quote d ctx expected)) .function)
  | .app function argument, ctx, goal => do
    match ← judge d function ctx none with
    | .pi _ domain codomain =>
      let _ ← judge d argument ctx (some domain)
      let value ← eval d ctx argument
      let ty ← Eval.run d.frames d.meter (.instantiate codomain (.value value))
      conclude d ctx goal ty
    | ty => throw (.typeMismatch .functionType (.term (← quote d ctx ty)))
  | .path ty left right, ctx, goal => do
    let level ← universeLevel d ctx (← judge d ty ctx none)
    let a ← eval d ctx ty
    let _ ← judge d left ctx (some a)
    let _ ← judge d right ctx (some a)
    conclude d ctx goal (.univ level)
  | .pathLam name body, ctx, goal => do
    match goal with
    | none => throw (.cannotInfer (.pathLam name body))
    | some (.path ty left right) =>
      let _ ← judge d body ctx.extendDim (some ty)
      checkEnds d ctx body left right
      return ty
    | some (.smoothPath _ ty left right) =>
      let _ ← judge d body ctx.extendDim (some ty)
      checkEnds d ctx body left right
      return ty
    | some expected => throw (.typeMismatch (.term (← quote d ctx expected)) .path)
  | .pathApp p dim, ctx, goal => do
    checkDim ctx dim
    match ← judge d p ctx none with
    | .path ty _ _ => conclude d ctx goal ty
    | .smoothPath _ ty _ _ => conclude d ctx goal ty
    | ty => throw (.typeMismatch .pathType (.term (← quote d ctx ty)))
  | .smoothPath order ty left right, ctx, goal => do
    Smoothness.checkOrder d.settings.maxSmoothOrder order
    let level ← universeLevel d ctx (← judge d ty ctx none)
    let a ← eval d ctx ty
    let _ ← judge d left ctx (some a)
    let _ ← judge d right ctx (some a)
    conclude d ctx goal (.univ level)
  | .comp source target family faces base, ctx, goal => do
    let _ ← universeLevel d ctx.extendDim (← judge d family ctx.extendDim none)
    checkDim ctx source
    checkDim ctx target
    let line ← Eval.closeFamily family ctx.env ctx.dims
    let r ← Run.ofFault (IntervalEnv.resolve ctx.dims source)
    let s ← Run.ofFault (IntervalEnv.resolve ctx.dims target)
    let _ ← judge d base ctx (some (← lineAt d line r))
    judgeFaces d faces ctx (← lineAt d line ctx.freshDim)
    checkAgreement d ctx source faces base
    conclude d ctx goal (← lineAt d line s)
  | .coe source target family base, ctx, goal => do
    let _ ← universeLevel d ctx.extendDim (← judge d family ctx.extendDim none)
    checkDim ctx source
    checkDim ctx target
    let line ← Eval.closeFamily family ctx.env ctx.dims
    let r ← Run.ofFault (IntervalEnv.resolve ctx.dims source)
    let s ← Run.ofFault (IntervalEnv.resolve ctx.dims target)
    let _ ← judge d base ctx (some (← lineAt d line r))
    conclude d ctx goal (← lineAt d line s)
  | .hcomp ty faces base, ctx, goal => do
    let _ ← universeLevel d ctx (← judge d ty ctx none)
    let a ← eval d ctx ty
    let _ ← judge d base ctx (some a)
    judgeFaces d faces ctx a
    checkAgreement d ctx .zero faces base
    conclude d ctx goal a
  | .missing, _, _ => throw (.cannotInfer .missing)

/-- Check every formula, and every body against the family along the direction. -/
def judgeFaces (d : Derivation) : List (Face × Term) → Context → Value → Run Unit
  | [], _, _ => pure ()
  | (formula, body) :: rest, ctx, along => do
    checkFormula ctx formula
    let _ ← judge d body ctx.extendDim (some along)
    judgeFaces d rest ctx along

end

/-- The type of a term. -/
def infer (d : Derivation) (ctx : Context) (term : Term) : Run Value :=
  judge d term ctx none

/-- Fail unless a term has the expected type. -/
def check (d : Derivation) (ctx : Context) (term : Term) (expected : Value) : Run Unit := do
  let _ ← judge d term ctx (some expected)

/-- The level of the universe that a type belongs to. -/
def inferUniverse (d : Derivation) (ctx : Context) (term : Term) : Run Int := do
  universeLevel d ctx (← infer d ctx term)

end SmoothCubical.Typing
