import SmoothCubical.Interval

/-!
# Cofibrations: face formulas after evaluation

A cofibration is a face formula in disjunctive normal form over generic interval variables. A
constraint sets a level to an endpoint; a clause is a set of constraints that constrains no level
twice; a cofibration is a set of clauses. Sets are increasing lists, so equal sets are stored
equally. No clause is the empty face, and the empty clause alone is the whole cube.
-/

set_option autoImplicit false

namespace SmoothCubical

/-- A generic interval variable set to an endpoint. -/
structure Constraint where
  level : Int
  endpoint : Int
deriving DecidableEq, Repr, Inhabited

namespace Constraint

/-- Constraints are ordered by level, then by endpoint. -/
def cmp (a b : Constraint) : Ordering :=
  match compare a.level b.level with
  | .eq => compare a.endpoint b.endpoint
  | o => o

/-- A constraint as it is shown. -/
def text (c : Constraint) : String :=
  s!"(i@{c.level}={c.endpoint})"

end Constraint

/-- A conjunction of constraints, in increasing order. -/
abbrev Clause := List Constraint

namespace Clause

/-- No level is constrained twice. -/
def isConsistent : Clause → Bool
  | [] => true
  | c :: rest => rest.all (fun d => d.level != c.level) && isConsistent rest

/-- The conjunction of two clauses. -/
def meet (c d : Clause) : Clause :=
  OrderedSet.union Constraint.cmp c d

/-- A clause as it is shown. -/
def text (c : Clause) : String :=
  String.intercalate " ∧ " (c.map Constraint.text)

/-- The endpoint that the clause sets `level` to; of several, the last. -/
def endpointOf? : Clause → Int → Option Int
  | [], _ => none
  | c :: rest, level =>
    match endpointOf? rest level with
    | some e => some e
    | none => if c.level = level then some c.endpoint else none

end Clause

/-- The interval point with the constrained variables moved to their ends; any endpoint but `0`
stands for the end `1`. -/
def Interval.substitute (c : Clause) : Interval → Interval
  | .var level =>
    match c.endpointOf? level with
    | some e => if e = 0 then .zero else .one
    | none => .var level
  | r => r

/-- The interval environment with the constrained variables moved to their ends. -/
def IntervalEnv.substitute (c : Clause) (dims : IntervalEnv) : IntervalEnv :=
  dims.map (Interval.substitute c)

/-- A face formula after evaluation: a disjunction of clauses, in increasing order. -/
structure Cofibration where
  clauses : List Clause
deriving DecidableEq, Repr, Inhabited

namespace Cofibration

/-- The whole cube. -/
def top : Cofibration := ⟨[[]]⟩

/-- The empty face. -/
def bottom : Cofibration := ⟨[]⟩

/-- Whether the cofibration is the whole cube. -/
def isTrue (φ : Cofibration) : Bool :=
  φ.clauses.contains []

/-- Whether the cofibration is the empty face. -/
def isFalse (φ : Cofibration) : Bool :=
  φ.clauses.isEmpty

/-- The cofibration of a list of clauses: contradictory clauses go, and the empty clause absorbs
all others. -/
def ofClauses (clauses : List Clause) : Cofibration :=
  let consistent := clauses.filter Clause.isConsistent
  if consistent.contains [] then top
  else ⟨OrderedSet.ofList (OrderedSet.compareLists Constraint.cmp) consistent⟩

/-- The face on which a point is at an endpoint. -/
def eq (r : Interval) (endpoint : Int) : Cofibration :=
  match r with
  | .var level => ⟨[[⟨level, endpoint⟩]]⟩
  | .zero => if endpoint = 0 then top else bottom
  | .one => if endpoint = 1 then top else bottom

/-- The intersection of two faces. -/
def meet (φ ψ : Cofibration) : Cofibration :=
  ofClauses (φ.clauses.flatMap fun c => ψ.clauses.map fun d => c.meet d)

/-- The union of two faces. -/
def join (φ ψ : Cofibration) : Cofibration :=
  ofClauses (φ.clauses ++ ψ.clauses)

/-- A cofibration as it is shown. -/
def text (φ : Cofibration) : String :=
  if φ.isFalse then "⊥"
  else if φ.isTrue then "⊤"
  else String.intercalate " ∨ " (φ.clauses.map Clause.text)

end Cofibration

namespace Face

/-- The value of the interval variable of an equation. An index beyond the environment names a
free interval variable, which stays generic; its level is below those in scope. -/
def point (dims : IntervalEnv) (index : Int) : Except Fault Interval :=
  if index < dims.length then IntervalEnv.find dims index
  else .ok (.var (Index.flip dims.length index))

/-- The cofibration of a face formula in an interval environment. -/
def cofibration (dims : IntervalEnv) : Face → Except Fault Cofibration
  | .top => .ok .top
  | .bottom => .ok .bottom
  | .eq index endpoint => (point dims index).map (Cofibration.eq · endpoint.toInt)
  | .and left right => do
    let φ ← left.cofibration dims
    let ψ ← right.cofibration dims
    return φ.meet ψ
  | .or left right => do
    let φ ← left.cofibration dims
    let ψ ← right.cofibration dims
    return φ.join ψ
  | .missing => .error .missingFace

/-- Whether a face formula holds in an interval environment. -/
def holds (dims : IntervalEnv) (face : Face) : Except Fault Bool :=
  (face.cofibration dims).map Cofibration.isTrue

end Face

namespace Cofibration

/-- A constraint as an equation on the interval variable of that level. -/
def equationOf (dimDepth : Int) (c : Constraint) : Except Fault Face :=
  Face.equation (Index.flip dimDepth c.level) c.endpoint

/-- A clause as a conjunction of equations, the nearest interval variable first. -/
def clauseToFace (dimDepth : Int) (c : Clause) : Except Fault Face :=
  (c.reverse.mapM (equationOf dimDepth)).map Face.conjunction

/-- A cofibration as a face formula under `dimDepth` interval variables. -/
def toFace (dimDepth : Int) (φ : Cofibration) : Except Fault Face :=
  (φ.clauses.mapM (clauseToFace dimDepth)).map Face.disjunction

end Cofibration

end SmoothCubical
