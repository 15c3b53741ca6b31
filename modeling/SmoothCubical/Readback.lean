import SmoothCubical.Eval.Evaluate

/-!
# Reading values back

A value is read back as a term in normal form, under a number of term variables and a number of
interval variables. Levels become indices again. Two values are convertible if they read back to
the same term up to display names.
-/

set_option autoImplicit false

namespace SmoothCubical.Readback

/-- The index of the term variable of a level, under `depth` term variables. -/
def indexOfLevel (depth level : Int) : Except Fault Int :=
  if Index.inScope depth level then .ok (Index.flip depth level)
  else .error (.unboundVariable (Index.flip depth level))

/-- A point of the interval as a dimension, under `dimDepth` interval variables. -/
def dim (dimDepth : Int) : Interval → Except Fault Dim
  | .zero => .ok .zero
  | .one => .ok .one
  | .var level =>
    if Index.inScope dimDepth level then .ok (.var (Index.flip dimDepth level))
    else .error (.unboundDimension (Index.flip dimDepth level))

/-- How values inside a value are read back, under so many term and interval variables. -/
abbrev Reader := Int → Int → Value → Run Term

section Rules

variable (call : Call) (read : Reader)

/-- A family, under one more interval variable. -/
def line (m : MeterId) (depth dimDepth : Int) (family : Line) : Run Term := do
  let ty ← Eval.lineAt call m family (.var dimDepth)
  read depth (dimDepth + 1) ty

/-- Partial elements, from left to right; each formula before its body. -/
def tubes (m : MeterId) (depth dimDepth : Int) : List Tube → Run (List (Face × Term))
  | [] => pure []
  | (φ, tube) :: rest => do
    let face ← Run.ofFault (φ.toFace dimDepth)
    let body ← call m (.instantiateAt tube (.var dimDepth))
    let term ← read depth (dimDepth + 1) body
    return (face, term) :: (← tubes m depth dimDepth rest)

/-- A stuck computation, as an elimination. -/
def neutral (m : MeterId) (depth dimDepth : Int) : Neutral → Run Term
  | .var level => return .var (← Run.ofFault (indexOfLevel depth level))
  | .app function argument => do
    let f ← read depth dimDepth (.stuck function none)
    return .app f (← read depth dimDepth argument)
  | .pathApp path point => do
    let p ← read depth dimDepth (.stuck path none)
    return .pathApp p (← Run.ofFault (dim dimDepth point))
  | .comp source target family faces base => do
    let a ← line call read m depth dimDepth family
    let b ← read depth dimDepth base
    let fs ← tubes call read m depth dimDepth faces
    let t ← Run.ofFault (dim dimDepth target)
    let s ← Run.ofFault (dim dimDepth source)
    return .comp s t a fs b
  | .coe source target family base => do
    let a ← line call read m depth dimDepth family
    let s ← Run.ofFault (dim dimDepth source)
    let t ← Run.ofFault (dim dimDepth target)
    return .coe s t a (← read depth dimDepth base)

/-- A value, by its outermost form. Bodies are read at fresh variables. -/
def value (m : MeterId) (depth dimDepth : Int) : Value → Run Term
  | .univ level => return .univ level
  | .pi name domain codomain => do
    let body ← call m (.instantiate codomain (.value (.generic depth (some domain))))
    let a ← read depth dimDepth domain
    return .pi name a (← read (depth + 1) dimDepth body)
  | .lam name closure => do
    let body ← call m (.instantiate closure (.value (.generic depth none)))
    return .lam name (← read (depth + 1) dimDepth body)
  | .path ty left right => do
    let a ← read depth dimDepth ty
    let l ← read depth dimDepth left
    return .path a l (← read depth dimDepth right)
  | .smoothPath order ty left right => do
    let a ← read depth dimDepth ty
    let l ← read depth dimDepth left
    return .smoothPath order a l (← read depth dimDepth right)
  | .pathLam name closure => do
    let body ← call m (.instantiateAt closure (.var dimDepth))
    return .pathLam name (← read depth (dimDepth + 1) body)
  | .stuck n _ => neutral call read m depth dimDepth n

end Rules

/-- Read a value back, with at most `frames` calls nested. -/
def quote : Nat → MeterId → Reader
  | 0, _ => fun _ _ _ => throw (.nonTermination .frames)
  | frames + 1, m => value (Eval.run frames) (quote frames m) m

/-- Whether two values read back to the same term. -/
def convertible (frames : Nat) (m : MeterId) (depth dimDepth : Int) (v w : Value) :
    Run Bool := do
  let s ← quote frames m depth dimDepth v
  let t ← quote frames m depth dimDepth w
  return s.same t

end SmoothCubical.Readback
