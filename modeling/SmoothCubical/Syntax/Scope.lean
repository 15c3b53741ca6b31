import SmoothCubical.Syntax.Term

/-!
# Moving terms between scopes

`Term.shift` moves a term under further term binders; `Term.mentions` asks whether an interval
variable occurs in it. A family that does not mention its direction is constant. Interval
variables are untouched by `shift`, which goes under path abstractions without raising its cutoff.
-/

set_option autoImplicit false

namespace SmoothCubical.Term

mutual

/-- Add `amount` to every term variable at or above `cutoff`. -/
def shift (amount : Int) : Int → Term → Term
  | _, .univ level => .univ level
  | cutoff, .var index => .var (if index ≥ cutoff then index + amount else index)
  | cutoff, .pi name domain codomain =>
    .pi name (domain.shift amount cutoff) (codomain.shift amount (cutoff + 1))
  | cutoff, .lam name body => .lam name (body.shift amount (cutoff + 1))
  | cutoff, .app function argument =>
    .app (function.shift amount cutoff) (argument.shift amount cutoff)
  | cutoff, .path ty left right =>
    .path (ty.shift amount cutoff) (left.shift amount cutoff) (right.shift amount cutoff)
  | cutoff, .pathLam name body => .pathLam name (body.shift amount cutoff)
  | cutoff, .pathApp p dim => .pathApp (p.shift amount cutoff) dim
  | cutoff, .smoothPath order ty left right =>
    .smoothPath order (ty.shift amount cutoff) (left.shift amount cutoff)
      (right.shift amount cutoff)
  | cutoff, .comp source target family faces base =>
    .comp source target (family.shift amount cutoff) (shiftBranches amount cutoff faces)
      (base.shift amount cutoff)
  | cutoff, .coe source target family base =>
    .coe source target (family.shift amount cutoff) (base.shift amount cutoff)
  | cutoff, .hcomp ty faces base =>
    .hcomp (ty.shift amount cutoff) (shiftBranches amount cutoff faces)
      (base.shift amount cutoff)
  | _, .missing => .missing

/-- Shift every partial element; the formulas have no term variables. -/
def shiftBranches (amount : Int) : Int → List (Face × Term) → List (Face × Term)
  | _, [] => []
  | cutoff, (φ, body) :: rest =>
    (φ, body.shift amount cutoff) :: shiftBranches amount cutoff rest

end

mutual

/-- Whether a term stands at every place that wants one. -/
def isWhole : Term → Bool
  | .univ _ => true
  | .var _ => true
  | .pi _ domain codomain => domain.isWhole && codomain.isWhole
  | .lam _ body => body.isWhole
  | .app function argument => function.isWhole && argument.isWhole
  | .path ty left right => ty.isWhole && left.isWhole && right.isWhole
  | .pathLam _ body => body.isWhole
  | .pathApp p _ => p.isWhole
  | .smoothPath _ ty left right => ty.isWhole && left.isWhole && right.isWhole
  | .comp _ _ family faces base => family.isWhole && wholeBranches faces && base.isWhole
  | .coe _ _ family base => family.isWhole && base.isWhole
  | .hcomp ty faces base => ty.isWhole && wholeBranches faces && base.isWhole
  | .missing => false

/-- Whether every partial element is whole. -/
def wholeBranches : List (Face × Term) → Bool
  | [] => true
  | (_, body) :: rest => body.isWhole && wholeBranches rest

end

/-- `shift` for a term that may have missing parts, which cannot be shifted. -/
def shift? (amount cutoff : Int) (t : Term) : Except Fault Term :=
  if t.isWhole then .ok (t.shift amount cutoff) else .error .missingTerm

/-- The type of functions from `domain` to a codomain that does not depend on the argument. -/
def arrow (domain codomain : Term) : Except Fault Term :=
  (codomain.shift? 1 0).map (.pi "_" domain)

mutual

/-- Whether interval variable `index` occurs free in the term. The search goes from left to right
and ends at the first occurrence, so a missing part to the right of it is not found. -/
def mentions (index : Int) : Term → Except Fault Bool
  | .univ _ => .ok false
  | .var _ => .ok false
  | .pi _ domain codomain => do
    if ← domain.mentions index then return true
    codomain.mentions index
  | .lam _ body => body.mentions index
  | .app function argument => do
    if ← function.mentions index then return true
    argument.mentions index
  | .path ty left right => do
    if ← ty.mentions index then return true
    if ← left.mentions index then return true
    right.mentions index
  | .pathLam _ body => body.mentions (index + 1)
  | .pathApp p dim =>
    if dim.mentions index then .ok true else p.mentions index
  | .smoothPath _ ty left right => do
    if ← ty.mentions index then return true
    if ← left.mentions index then return true
    right.mentions index
  | .comp source target family faces base => do
    if target.mentions index || source.mentions index then return true
    if ← family.mentions (index + 1) then return true
    if ← base.mentions index then return true
    mentionsBranches index faces
  | .coe source target family base => do
    if source.mentions index || target.mentions index then return true
    if ← family.mentions (index + 1) then return true
    base.mentions index
  | .hcomp ty faces base => do
    if ← ty.mentions index then return true
    if ← base.mentions index then return true
    mentionsBranches index faces
  | .missing => .error .missingTerm

/-- Whether interval variable `index` occurs in a formula, or under the direction in a body. -/
def mentionsBranches (index : Int) : List (Face × Term) → Except Fault Bool
  | [] => .ok false
  | (φ, body) :: rest => do
    if φ.mentions index then return true
    if ← body.mentions (index + 1) then return true
    mentionsBranches index rest

end

end SmoothCubical.Term
