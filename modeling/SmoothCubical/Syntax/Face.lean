import SmoothCubical.OrderedSet
import SmoothCubical.Syntax.Fault

/-!
# Dimensions and face formulas

The syntax of the interval. Interval variables have de Bruijn indices of their own, apart from
those of term variables: index `0` is the nearest path abstraction or Kan direction. A face
formula is built from endpoint equations by conjunction and disjunction.
-/

set_option autoImplicit false

namespace SmoothCubical

/-- One of the two ends of the interval. -/
inductive Endpoint
  | zero
  | one
deriving DecidableEq, Repr, Inhabited

/-- The end as a number. -/
def Endpoint.toInt : Endpoint → Int
  | .zero => 0
  | .one => 1

/-- Only `0` and `1` are ends of the interval. -/
def Endpoint.ofInt? (n : Int) : Option Endpoint :=
  if n = 0 then some .zero else if n = 1 then some .one else none

/-- A dimension expression: an end of the interval or an interval variable. -/
inductive Dim
  | zero
  | one
  | var (index : Int)
  /-- No dimension stands here. -/
  | missing
deriving DecidableEq, Repr, Inhabited

/-- A dimension as it is shown. -/
def Dim.text : Dim → String
  | .zero => "0"
  | .one => "1"
  | .var index => s!"i{index}"
  | .missing => "None"

/-- Whether the dimension is the interval variable `index`. -/
def Dim.mentions (index : Int) : Dim → Bool
  | .var i => i == index
  | _ => false

/-- A face formula: where in the cube a partial element is given. -/
inductive Face
  /-- The whole cube. -/
  | top
  /-- The empty face. -/
  | bottom
  /-- The face on which an interval variable is at an end. -/
  | eq (index : Int) (endpoint : Endpoint)
  | and (left right : Face)
  | or (left right : Face)
  /-- No formula stands here. -/
  | missing
deriving DecidableEq, Repr, Inhabited

namespace Face

/-- The equation `index = endpoint`, refused unless the right side is an end of the interval. -/
def equation (index endpoint : Int) : Except Fault Face :=
  match Endpoint.ofInt? endpoint with
  | some e => .ok (.eq index e)
  | none => .error (.endpointRange endpoint)

/-- A formula as it is shown. -/
def text : Face → String
  | .top => "⊤"
  | .bottom => "⊥"
  | .eq index endpoint => s!"(i{index}={endpoint.toInt})"
  | .and left right => s!"({left.text} ∧ {right.text})"
  | .or left right => s!"({left.text} ∨ {right.text})"
  | .missing => "None"

/-- Whether an equation of the formula is on the interval variable `index`. -/
def mentions (index : Int) : Face → Bool
  | .eq i _ => i == index
  | .and left right => left.mentions index || right.mentions index
  | .or left right => left.mentions index || right.mentions index
  | _ => false

/-- The interval variables that the formula mentions, in increasing order. -/
def indices : Face → List Int
  | .eq index _ => [index]
  | .and left right => OrderedSet.union compare left.indices right.indices
  | .or left right => OrderedSet.union compare left.indices right.indices
  | _ => []

/-- Join `φ` to the formula on its right, if one stands there. -/
def adjoin (op : Face → Face → Face) (φ : Face) : Face → Face
  | .missing => φ
  | ψ => op φ ψ

/-- The formula, or `unit` where none stands. -/
def getD : Face → Face → Face
  | .missing, unit => unit
  | φ, _ => φ

/-- Fold formulas to the right; what is missing at the right end is passed over, and `unit`
stands for a fold over nothing. -/
def foldRight (op : Face → Face → Face) (unit : Face) (faces : List Face) : Face :=
  (faces.foldr (adjoin op) .missing).getD unit

/-- The conjunction of formulas, nested to the right. The empty one is the whole cube. -/
def conjunction (faces : List Face) : Face :=
  foldRight .and .top faces

/-- The disjunction of formulas, nested to the right. The empty one is the empty face. -/
def disjunction (faces : List Face) : Face :=
  foldRight .or .bottom faces

end Face

end SmoothCubical
