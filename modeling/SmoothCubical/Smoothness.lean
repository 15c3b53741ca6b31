import SmoothCubical.Session

/-!
# Orders of smoothness

A smooth path type has an order: how many times its paths are differentiable. Orders are bounded,
and a path that is differentiable `m` times is so `k` times for every `k` up to `m`.
-/

set_option autoImplicit false

namespace SmoothCubical

/-- Fail unless the order of a smooth path type is between `0` and the largest allowed. -/
def Smoothness.checkOrder (largest order : Int) : Run Unit :=
  if order < 0 ∨ largest < order then throw (.smoothness largest order) else pure ()

/-- The order of a smooth path type. -/
def Value.smoothness? : Value → Option Int
  | .smoothPath order _ _ _ => some order
  | _ => none

/-- Whether a value is a smooth path type of at least the required order. -/
def Value.isSmooth (v : Value) (required : Int) : Bool :=
  match v.smoothness? with
  | some order => required ≤ order
  | none => false

end SmoothCubical
