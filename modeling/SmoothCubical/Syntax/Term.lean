import SmoothCubical.Syntax.Face

/-!
# Terms

The core language: universes, dependent functions, paths, smooth paths, and the three Kan
operations. Term variables are de Bruijn indices. The family of a Kan operation, and each partial
element it is given, bind its direction as interval index `0`; the formula of a partial element
stands in the scope around the operation.
-/

set_option autoImplicit false

namespace SmoothCubical

/-- A term of the core language. Display names are kept for printing only. -/
inductive Term
  | univ (level : Int)
  | var (index : Int)
  /-- A dependent function type; the codomain binds one term variable. -/
  | pi (name : String) (domain codomain : Term)
  | lam (name : String) (body : Term)
  | app (function argument : Term)
  | path (ty left right : Term)
  /-- A path; the body binds one interval variable. -/
  | pathLam (name : String) (body : Term)
  | pathApp (path : Term) (dim : Dim)
  /-- The type of paths that are differentiable `order` times. -/
  | smoothPath (order : Int) (ty left right : Term)
  /-- Composition in a family, from `source` to `target`. -/
  | comp (source target : Dim) (family : Term) (faces : List (Face × Term)) (base : Term)
  /-- Coercion along a family, from `source` to `target`. -/
  | coe (source target : Dim) (family base : Term)
  /-- Composition in one type, from `0` to `1`. -/
  | hcomp (ty : Term) (faces : List (Face × Term)) (base : Term)
  /-- No term stands here. -/
  | missing
deriving Repr, Inhabited

namespace Term

mutual

/-- A term as it is shown. -/
def text : Term → String
  | .univ level => s!"Type{level}"
  | .var index => s!"x{index}"
  | .pi name domain codomain => s!"(({name} : {domain.text}) → {codomain.text})"
  | .lam name body => s!"λ{name}. {body.text}"
  | .app function argument => s!"({function.text} {argument.text})"
  | .path ty left right => s!"Path {ty.text} {left.text} {right.text}"
  | .pathLam name body => s!"⟨{name}⟩ {body.text}"
  | .pathApp p dim => s!"({p.text} @ {dim.text})"
  | .smoothPath order ty left right =>
    s!"SmoothPath^{order} {ty.text} {left.text} {right.text}"
  | .comp source target family faces base =>
    let shown := String.intercalate ", " (branchTexts faces)
    s!"comp^\x7b{source.text}→{target.text}\x7d (j. {family.text}) [{shown}] {base.text}"
  | .coe source target family base =>
    s!"coe^\x7b{source.text}→{target.text}\x7d (j. {family.text}) {base.text}"
  | .hcomp ty faces base =>
    let shown := String.intercalate ", " (branchTexts faces)
    s!"hcomp {ty.text} [{shown}] {base.text}"
  | .missing => "None"

/-- The partial elements of a Kan operation as they are shown, one by one. -/
def branchTexts : List (Face × Term) → List String
  | [] => []
  | (φ, body) :: rest => s!"{φ.text} ↦ {body.text}" :: branchTexts rest

end

mutual

/-- Equality of terms up to the display names of bound variables. -/
def same : Term → Term → Bool
  | .univ l, .univ l' => l == l'
  | .var i, .var i' => i == i'
  | .pi _ a b, .pi _ a' b' => a.same a' && b.same b'
  | .lam _ b, .lam _ b' => b.same b'
  | .app f a, .app f' a' => f.same f' && a.same a'
  | .path t l r, .path t' l' r' => t.same t' && l.same l' && r.same r'
  | .pathLam _ b, .pathLam _ b' => b.same b'
  | .pathApp p d, .pathApp p' d' => p.same p' && d == d'
  | .smoothPath k t l r, .smoothPath k' t' l' r' =>
    k == k' && t.same t' && l.same l' && r.same r'
  | .comp s t a fs b, .comp s' t' a' fs' b' =>
    s == s' && t == t' && a.same a' && sameBranches fs fs' && b.same b'
  | .coe s t a b, .coe s' t' a' b' => s == s' && t == t' && a.same a' && b.same b'
  | .hcomp t fs b, .hcomp t' fs' b' => t.same t' && sameBranches fs fs' && b.same b'
  | .missing, .missing => true
  | _, _ => false

/-- Equality of lists of partial elements up to display names. -/
def sameBranches : List (Face × Term) → List (Face × Term) → Bool
  | [], [] => true
  | (φ, u) :: rest, (ψ, v) :: rest' => φ == ψ && u.same v && sameBranches rest rest'
  | _, _ => false

end

end Term

end SmoothCubical
