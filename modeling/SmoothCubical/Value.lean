import SmoothCubical.Syntax.Term
import SmoothCubical.Cofibration

/-!
# Values

What terms evaluate to. A value is a type former, an abstraction whose body waits in a closure,
or a computation that is stuck on a variable. Closures are data: a term with the environments it
was met in, or the rule of a Kan operation with what it needs. A closure made by a Kan rule
remembers the meter of the evaluation that made it, which pays for running it.

Term variables in values are de Bruijn levels, so values need no shifting.
-/

set_option autoImplicit false

namespace SmoothCubical

/-- The number of a meter: which evaluation pays. -/
abbrev MeterId := Nat

mutual

/-- A value. -/
inductive Value
  | univ (level : Int)
  | pi (name : String) (domain : Value) (codomain : Closure)
  | lam (name : String) (body : Closure)
  | path (ty left right : Value)
  | smoothPath (order : Int) (ty left right : Value)
  | pathLam (name : String) (body : IntervalClosure)
  /-- A stuck computation, with its type where that is known. The type lets eliminations compute
  the type of their result and take a path to its ends; it plays no part in conversion. -/
  | stuck (neutral : Neutral) (ty : Option Value)

/-- A computation that cannot go on. -/
inductive Neutral
  | var (level : Int)
  | app (function : Neutral) (argument : Value)
  | pathApp (path : Neutral) (point : Interval)
  /-- A composition in a family that no rule takes apart. -/
  | comp (source target : Interval) (family : Line)
      (faces : List (Cofibration × IntervalClosure)) (base : Value)
  /-- A coercion along a family that no rule takes apart. -/
  | coe (source target : Interval) (family : Line) (base : Value)

/-- The body of an abstraction over a term variable. -/
inductive Closure
  /-- A term with its environments. -/
  | body (env : List Entry) (dims : List Interval) (term : Term)
  /-- A composition of functions, applied pointwise. -/
  | comp (meter : Nat) (source target : Interval) (family : Line)
      (faces : List (Cofibration × IntervalClosure)) (base : Value)
  /-- A coercion of functions, applied pointwise. -/
  | coe (meter : Nat) (source target : Interval) (family : Line) (base : Value)

/-- The body of an abstraction over an interval variable. -/
inductive IntervalClosure
  /-- A term with its environments. -/
  | body (env : List Entry) (dims : List Interval) (term : Term)
  /-- One value at each end and one at every generic point. -/
  | choice (atZero atOne generic : Value)
  /-- The domain of the function type that the family is at the point. -/
  | domain (meter : Nat) (family : Line)
  /-- The codomain of the function type that the family is at the point, at a moved argument. -/
  | codomain (meter : Nat) (family : Line) (argument : Carried)
  /-- The type of the path type that the family is at the point. -/
  | element (meter : Nat) (family : Line)
  /-- The left end of the path type that the family is at the point. -/
  | left (meter : Nat) (family : Line)
  /-- The right end of the path type that the family is at the point. -/
  | right (meter : Nat) (family : Line)
  /-- A partial function, applied to a moved argument. -/
  | app (meter : Nat) (tube : IntervalClosure) (argument : Carried)
  /-- A partial path, at a point. -/
  | pathApp (meter : Nat) (tube : IntervalClosure) (point : Interval)
  /-- A composition of paths, taken pointwise. -/
  | comp (meter : Nat) (source target : Interval) (family : Line)
      (faces : List (Cofibration × IntervalClosure)) (base : Value)

/-- An argument that is moved along a family of domains from where it is given. -/
inductive Carried
  | mk (domain : Line) (start : Interval) (value : Value)

/-- A type family over one interval variable. -/
inductive Line
  /-- A family given by a closure, with a flag that is set if it ignores its direction. -/
  | varying (closure : IntervalClosure) (isConstant : Bool)
  /-- The same type everywhere. -/
  | constant (ty : Value)

/-- What a term variable is bound to. -/
inductive Entry
  | value (value : Value)
  /-- An argument that is computed when it is first looked at, by its number. -/
  | thunk (id : Nat)

end

instance : Inhabited Value := ⟨.univ 0⟩

/-- The values of the term variables in scope, index `0` first. -/
abbrev Env := List Entry

/-- A partial element: where it is given, and its body over the direction. -/
abbrev Tube := Cofibration × IntervalClosure

namespace Value

/-- A variable of the given level. -/
def generic (level : Int) (ty : Option Value) : Value :=
  .stuck (.var level) ty

end Value

/-- Whether the family is known to ignore its direction. -/
def Line.isConstant : Line → Bool
  | .constant _ => true
  | .varying _ isConstant => isConstant

mutual

/-- A value as it is shown: bodies are left out. -/
def Value.text : Value → String
  | .univ level => s!"Type{level}"
  | .pi name domain _ => s!"(({name} : {domain.text}) → ...)"
  | .lam name _ => s!"λ{name}. ..."
  | .path ty left right => s!"Path {ty.text} {left.text} {right.text}"
  | .smoothPath order ty left right =>
    s!"SmoothPath^{order} {ty.text} {left.text} {right.text}"
  | .pathLam name _ => s!"⟨{name}⟩ ..."
  | .stuck neutral _ => neutral.text

/-- A stuck computation as it is shown. -/
def Neutral.text : Neutral → String
  | .var level => s!"x@{level}"
  | .app function argument => s!"({function.text} {argument.text})"
  | .pathApp path point => s!"({path.text} @ {point.text})"
  | .comp source target _ _ base => s!"<comp {source.text}→{target.text} {base.text}>"
  | .coe source target _ base => s!"<coe {source.text}→{target.text} {base.text}>"

end

/-- A closure as it is shown. -/
def Closure.text : Closure → String
  | .body _ _ _ => "<closure>"
  | _ => "<native-closure>"

/-- A closure over an interval variable as it is shown. -/
def IntervalClosure.text : IntervalClosure → String
  | .body _ _ _ => "<dim-closure>"
  | _ => "<native-dim-closure>"

/-- A family as it is shown. -/
def Line.text : Line → String
  | .varying _ _ => "<type-line>"
  | .constant ty => s!"<const {ty.text}>"

/-- An environment as it is shown. -/
def Env.text (env : Env) : String :=
  s!"Environment({env.length} bindings)"

end SmoothCubical
