/-!
# Settings

The guards of evaluation and the choices among typing rules. The guards count nested evaluations
and evaluation steps; both are positive.
-/

set_option autoImplicit false

namespace SmoothCubical

/-- How universes are compared. -/
inductive UniverseRule
  /-- Only a universe of the same level will do. -/
  | max
  /-- A smaller universe may stand where a larger one is expected. -/
  | cumulative
deriving DecidableEq, Repr, Inhabited

/-- A rule as it is written. -/
def UniverseRule.text : UniverseRule → String
  | .max => "max"
  | .cumulative => "cumulative"

/-- The guards of evaluation and the choices among typing rules. -/
structure Settings where
  /-- How deeply evaluations may nest. -/
  maxDepth : Nat
  /-- How many steps evaluation may take. -/
  fuel : Nat
  universeRule : UniverseRule
  /-- The largest order that a smooth path type may have. -/
  maxSmoothOrder : Nat
  /-- Whether overlapping partial elements are compared. -/
  checkFaceAgreement : Bool
  maxDepth_pos : 1 ≤ maxDepth
  fuel_pos : 1 ≤ fuel
deriving DecidableEq, Repr

namespace Settings

/-- The settings where nothing else is asked for. -/
def default : Settings where
  maxDepth := 200
  fuel := 1000000
  universeRule := .max
  maxSmoothOrder := 1000
  checkFaceAgreement := true
  maxDepth_pos := Nat.le_of_ble_eq_true rfl
  fuel_pos := Nat.le_of_ble_eq_true rfl

instance : Inhabited Settings := ⟨default⟩

/-- Whether a smaller universe may stand for a larger one. -/
def cumulative (s : Settings) : Bool :=
  s.universeRule == .cumulative

/-- How many calls may be nested: twenty-five for each level of evaluation above a base, and
never more than two hundred thousand. -/
def frameLimit (s : Settings) (base : Int) : Int :=
  min 200000 (base + s.maxDepth * 25)

end Settings

end SmoothCubical
