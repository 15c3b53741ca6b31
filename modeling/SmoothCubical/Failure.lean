import SmoothCubical.Value

/-!
# Failures

Why a judgment or an evaluation ends without an answer. A failure is a cause; `Failure.message`
is the only place that words it, and `Failure.kind` sorts causes into classes.
-/

set_option autoImplicit false

namespace SmoothCubical

/-- One side of a mismatch: a term read back, or the shape that was wanted. -/
inductive Described
  | term (t : Term)
  | functionType
  | pathType
  | univ
  | function
  | path
deriving Repr, Inhabited

/-- A described side as it is shown. -/
def Described.text : Described → String
  | .term t => t.text
  | .functionType => "a Π type"
  | .pathType => "a path type"
  | .univ => "a universe"
  | .function => "a function"
  | .path => "a path"

/-- Why the partial elements of a Kan operation are refused. -/
inductive FaceProblem
  /-- A formula mentions an interval variable that is not in scope. -/
  | unbound (formula : Face) (index : Int)
  /-- Two partial elements differ where both are given. -/
  | overlap (first second : Face)
  /-- A partial element differs from the base at the source. -/
  | base (formula : Face)
deriving Repr, Inhabited

/-- A problem with faces as it is told. -/
def FaceProblem.text : FaceProblem → String
  | .unbound formula index => s!"{formula.text} mentions unbound interval variable i{index}"
  | .overlap first second =>
    s!"faces {first.text} and {second.text} disagree where they overlap"
  | .base formula => s!"face {formula.text} disagrees with the base at the source"

/-- Which guard has cut an evaluation off. -/
inductive Guard
  /-- Evaluations nest too deeply. -/
  | depth (limit : Nat)
  /-- The steps are spent. -/
  | fuel (limit : Nat)
  /-- Calls nest too deeply. -/
  | frames
deriving DecidableEq, Repr, Inhabited

/-- A guard as it is told. -/
def Guard.text : Guard → String
  | .depth limit => s!"evaluation depth exceeded {limit}"
  | .fuel limit => s!"evaluation fuel of {limit} steps exhausted"
  | .frames => "Python recursion limit reached"

/-- Why there is no answer. -/
inductive Failure
  /-- The syntax has no meaning in its scope. -/
  | fault (cause : Fault)
  | typeMismatch (expected actual : Described)
  /-- The form is only checked, never inferred. -/
  | cannotInfer (term : Term)
  | invalidFace (problem : FaceProblem)
  /-- A family of function types is something else at a point. -/
  | notFunctionType (ty : Value)
  /-- A family of path types is something else at a point. -/
  | notPathType (ty : Value)
  /-- A value that is no function is applied. -/
  | notFunction (value : Value)
  /-- A value that is no path is taken at a point. -/
  | notPath (value : Value) (point : Interval)
  | nonTermination (guard : Guard)
  /-- The order of a smooth path type is out of range. -/
  | smoothness (largest order : Int)
  /-- A term variable is bound to an argument that the session does not hold. -/
  | unknownThunk (id : Nat)
deriving Inhabited

/-- The classes of failures. -/
inductive FailureKind
  | unboundVariable
  | unboundDimension
  | malformed
  | typeMismatch
  | cannotInfer
  | invalidFace
  | invalidKan
  | invalidElimination
  | nonTermination
  | smoothness
deriving DecidableEq, Repr, Inhabited

namespace Failure

/-- The class of a failure. -/
def kind : Failure → FailureKind
  | .fault (.unboundVariable _) => .unboundVariable
  | .fault (.unboundDimension _) => .unboundDimension
  | .fault _ => .malformed
  | .typeMismatch _ _ => .typeMismatch
  | .cannotInfer _ => .cannotInfer
  | .invalidFace _ => .invalidFace
  | .notFunctionType _ => .invalidKan
  | .notPathType _ => .invalidKan
  | .notFunction _ => .invalidElimination
  | .notPath _ _ => .invalidElimination
  | .nonTermination _ => .nonTermination
  | .smoothness _ _ => .smoothness
  | .unknownThunk _ => .malformed

/-- The text of a failure. -/
def message : Failure → String
  | .fault f => f.message
  | .typeMismatch expected actual =>
    s!"Expected type {expected.text}, but got {actual.text}"
  | .cannotInfer term => s!"Cannot infer type for: {term.text}"
  | .invalidFace problem => s!"Invalid face: {problem.text}"
  | .notFunctionType ty =>
    "Invalid Kan operation: type family changes shape along the interval: "
      ++ ty.text ++ " is not a Π type"
  | .notPathType ty =>
    "Invalid Kan operation: type family changes shape along the interval: "
      ++ ty.text ++ " is not a path type"
  | .notFunction value => s!"Invalid elimination: cannot apply non-function value {value.text}"
  | .notPath value point =>
    s!"Invalid elimination: cannot apply non-path value {value.text} to {point.text}"
  | .nonTermination guard => s!"Non-termination: {guard.text}"
  | .smoothness largest order =>
    s!"Smoothness violation: expected C^{largest} but got C^{order}"
  | .unknownThunk id => s!"Unknown thunk: {id}"

end Failure

end SmoothCubical
