import SmoothCubical.Syntax.Face
import SmoothCubical.Syntax.Index

/-!
# Interval values

What a dimension evaluates to: an end of the interval or a generic interval variable, which is
identified by its de Bruijn level. An interval environment lists the values of the interval
variables in scope, index `0` first.
-/

set_option autoImplicit false

namespace SmoothCubical

/-- A point of the interval. -/
inductive Interval
  | zero
  | one
  | var (level : Int)
deriving DecidableEq, Repr, Inhabited

namespace Interval

/-- A point as it is shown. -/
def text : Interval → String
  | .zero => "0"
  | .one => "1"
  | .var level => s!"i@{level}"

/-- The end that the point is, if it is one. -/
def endpoint? : Interval → Option Endpoint
  | .zero => some .zero
  | .one => some .one
  | .var _ => none

end Interval

/-- The values of the interval variables in scope, index `0` first. -/
abbrev IntervalEnv := List Interval

namespace IntervalEnv

/-- The value of interval variable `index`. -/
def find (dims : IntervalEnv) (index : Int) : Except Fault Interval :=
  match Index.get? dims index with
  | some r => .ok r
  | none => .error (.unboundDimension index)

/-- The value of a dimension expression. -/
def resolve (dims : IntervalEnv) : Dim → Except Fault Interval
  | .zero => .ok .zero
  | .one => .ok .one
  | .var index => find dims index
  | .missing => .error .missingDim

/-- An interval environment as it is shown. -/
def text (dims : IntervalEnv) : String :=
  let shown := String.intercalate ", " (dims.map Interval.text)
  s!"DimEnv({shown})"

end IntervalEnv

end SmoothCubical
