import SmoothCubical.Context
import SmoothCubical.Readback
import SmoothCubical.Smoothness

/-!
# Conversion and subsumption of types

One derivation runs on one meter, under one set of rules. Types are compared by reading them
back. A type may stand for another if the two are convertible, if it is a smaller universe and
universes are cumulative, or if it is a smooth path type of a larger order.
-/

set_option autoImplicit false

namespace SmoothCubical

/-- What a derivation runs on: the calls it may nest, the meter it is charged to, its rules. -/
structure Derivation where
  frames : Nat
  meter : MeterId
  settings : Settings

namespace Typing

variable (d : Derivation)

/-- The value of a term in a context. -/
def eval (ctx : Context) (term : Term) : Run Value :=
  Eval.evaluate d.frames d.meter term ctx.env ctx.dims

/-- A value read back in a context. -/
def quote (ctx : Context) (v : Value) : Run Term :=
  Readback.quote d.frames d.meter ctx.depth ctx.dimDepth v

/-- Whether two values of a context are convertible. -/
def conv (ctx : Context) (v w : Value) : Run Bool :=
  Readback.convertible d.frames d.meter ctx.depth ctx.dimDepth v w

/-- The type that a family is at a point. -/
def lineAt (family : Line) (point : Interval) : Run Value :=
  Eval.lineAt (Eval.run d.frames) d.meter family point

/-- Whether a type that does not convert may still stand for another. A smooth path type is
compared at the order that is expected, if it has that much. -/
def weakens (ctx : Context) (actual expected : Value) : Run Bool :=
  match actual, expected with
  | .univ i, .univ j => return d.settings.cumulative && i ≤ j
  | .smoothPath _ ty left right, .smoothPath k _ _ _ =>
    if actual.isSmooth k then conv d ctx (.smoothPath k ty left right) expected
    else return false
  | _, _ => return false

/-- Fail unless one type may stand for another. -/
def convert (ctx : Context) (actual expected : Value) : Run Unit := do
  if ← conv d ctx actual expected then return ()
  if ← weakens d ctx actual expected then return ()
  Run.record (.mismatch actual expected)
  let wanted ← quote d ctx expected
  let found ← quote d ctx actual
  throw (.typeMismatch (.term wanted) (.term found))

/-- End a judgment that has found a type: it is the answer, or has to stand for the goal. -/
def conclude (ctx : Context) (goal : Option Value) (actual : Value) : Run Value := do
  match goal with
  | none => return actual
  | some expected =>
    convert d ctx actual expected
    return actual

/-- The level of a universe; anything else is no universe. -/
def universeLevel (ctx : Context) : Value → Run Int
  | .univ level => return level
  | ty => do throw (.typeMismatch .univ (.term (← quote d ctx ty)))

end Typing

end SmoothCubical
