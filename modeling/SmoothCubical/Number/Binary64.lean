/-!
# Binary floating-point numbers

Numbers of 53 binary digits whose size is limited, and the one that is nearest to a decimal number.
All arithmetic is exact.
-/

set_option autoImplicit false

namespace SmoothCubical

/-- A number of 53 binary digits. -/
inductive Binary64
  /-- The number `mantissa * 2 ^ exponent`, or its negative. -/
  | finite (negative : Bool) (mantissa : Nat) (exponent : Int)
  /-- A number that is too large. -/
  | infinite (negative : Bool)
  /-- No number at all. -/
  | notANumber
deriving DecidableEq, Repr, Inhabited

namespace Binary64

/-- A quotient rounded to the nearest whole number, a half to the even one. -/
def roundQuotient (num den : Nat) : Nat :=
  let q := num / den
  let r := num % den
  if 2 * r < den || (2 * r == den && q % 2 == 0) then q else q + 1

/-- The least exponent. -/
def leastExponent : Int := -1074

/-- All finite numbers are below `2 ^ sizeLimit`. -/
def sizeLimit : Int := 1024

/-- The fraction `num / den * 2 ^ (-e)`, as numerator and denominator. -/
def scale (num den : Nat) : Int → Nat × Nat
  | .ofNat e => (num, den * Nat.pow 2 e)
  | .negSucc e => (num * Nat.pow 2 (e + 1), den)

/-- The exponent at which a positive quotient has 53 binary digits before the point. -/
def quotientExponent (num den : Nat) : Int :=
  let e : Int := num.log2 - den.log2 - 53
  let (num, den) := scale num den e
  if Nat.pow 2 53 * den ≤ num then e + 1 else e

/-- The number nearest to a positive quotient, and to its negative. -/
def ofQuotient (negative : Bool) (num den : Nat) : Binary64 :=
  let e := quotientExponent num den
  let e := if e < leastExponent then leastExponent else e
  let (num, den) := scale num den e
  let mantissa := roundQuotient num den
  if sizeLimit ≤ mantissa.log2 + e then .infinite negative else .finite negative mantissa e

/-- The number nearest to `digits * 10 ^ exponent`, and to its negative. Numbers of more than 310
places are too large and those that start after 330 zeros vanish. -/
def ofDecimal (negative : Bool) (digits : Nat) (exponent : Int) : Binary64 :=
  let places : Int := (Nat.toDigits 10 digits).length + exponent
  if digits = 0 || places < -330 then .finite negative 0 0
  else if 310 < places then .infinite negative
  else match exponent with
    | .ofNat e => ofQuotient negative (digits * Nat.pow 10 e) 1
    | .negSucc e => ofQuotient negative digits (Nat.pow 10 (e + 1))

/-- Whether this is a number that is not too large. -/
def isFinite : Binary64 → Bool
  | .finite _ _ _ => true
  | _ => false

/-- The whole number that this is. -/
def whole? : Binary64 → Option Int
  | .finite negative mantissa exponent =>
    let (num, den) := scale mantissa 1 (-exponent)
    let size : Int := (num / den : Nat)
    if num % den = 0 then some (if negative then -size else size) else none
  | _ => none

end Binary64

end SmoothCubical
