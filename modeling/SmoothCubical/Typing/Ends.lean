import SmoothCubical.Typing.Conversion

/-!
# The ends of a path

A path abstraction has a path type only if its body, evaluated at each end of the interval,
converts with the end that the type names.
-/

set_option autoImplicit false

namespace SmoothCubical.Typing

variable (d : Derivation)

/-- Fail unless the body of a path abstraction is `boundary` at an end. -/
def checkEnd (ctx : Context) (body : Term) (point : Interval) (boundary : Value) :
    Run Unit := do
  let actual ← Eval.evaluate d.frames d.meter body ctx.env (point :: ctx.dims)
  if ← conv d ctx actual boundary then return ()
  let wanted ← quote d ctx boundary
  let found ← quote d ctx actual
  throw (.typeMismatch (.term wanted) (.term found))

/-- Fail unless the body of a path abstraction has the given ends. -/
def checkEnds (ctx : Context) (body : Term) (left right : Value) : Run Unit := do
  checkEnd d ctx body .zero left
  checkEnd d ctx body .one right

end SmoothCubical.Typing
