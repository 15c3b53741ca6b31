import SmoothCubical.Settings
import SmoothCubical.Failure
import SmoothCubical.Log.Event

/-!
# Sessions

The state that evaluation runs on. A session holds the meters of its evaluations, the arguments
whose computation was put off, and the events recorded so far. A meter counts the steps taken,
the evaluations now nested and the probes drawn. A run either answers or fails, and leaves a
session behind in both cases, so what a failed run has spent stays spent.
-/

set_option autoImplicit false

namespace SmoothCubical

/-- The account of one evaluation. -/
structure Meter where
  settings : Settings := .default
  /-- The evaluations now nested. -/
  depth : Nat := 0
  /-- The steps taken. -/
  steps : Nat := 0
  /-- The probes drawn. -/
  probes : Nat := 0
deriving Inhabited

/-- A computation that was put off. -/
structure Suspension where
  meter : MeterId
  /-- Whether running it counts as one more nested evaluation. -/
  nests : Bool
  term : Term
  env : Env
  dims : IntervalEnv

/-- An argument: the computation that was put off, and its value once it was looked at. -/
structure Cell where
  suspension : Suspension
  value : Option Value := none

/-- Whether an argument keeps its value once it is computed. -/
inductive Sharing
  /-- It is computed at most once. -/
  | byNeed
  /-- It is computed each time it is looked at. -/
  | byName
deriving DecidableEq, Repr, Inhabited

/-- The state that evaluation runs on. -/
structure Session where
  meters : Array Meter := #[]
  cells : Array Cell := #[]
  /-- The events so far, the latest first. -/
  events : List Event := []
  sharing : Sharing := .byNeed
deriving Inhabited

/-- A run on a session, which answers or fails. -/
abbrev Run := EStateM Failure Session

namespace Session

/-- The account of a meter. -/
def meter (s : Session) (m : MeterId) : Meter :=
  s.meters[m]?.getD {}

/-- Change the account of a meter. -/
def modifyMeter (s : Session) (m : MeterId) (f : Meter → Meter) : Session :=
  { s with meters := s.meters.modify m f }

/-- The events in the order in which they were recorded. -/
def history (s : Session) : List Event :=
  s.events.reverse

/-- An entry as it is shown; an argument that was not looked at yet shows nothing of itself. -/
def entryText (s : Session) : Entry → String
  | .value v => v.text
  | .thunk id =>
    match s.cells[id]? with
    | some ⟨_, some v⟩ => v.text
    | _ => "<thunk>"

/-- Whether the value of an entry is at hand. -/
def isForced (s : Session) : Entry → Bool
  | .value _ => true
  | .thunk id =>
    match s.cells[id]? with
    | some ⟨_, some _⟩ => true
    | _ => false

end Session

namespace Run

/-- Give up for a fault of syntax. -/
def ofFault {α : Type} : Except Fault α → Run α
  | .ok a => pure a
  | .error f => throw (.fault f)

/-- Start an account under the given settings. -/
def openMeter (settings : Settings) : Run MeterId := do
  let m := (← get).meters.size
  modify fun s => { s with meters := s.meters.push { settings } }
  return m

/-- Record an event. -/
def record (e : Event) : Run Unit :=
  modify fun s => { s with events := e :: s.events }

/-- Charge one step, and fail once more steps are taken than there is fuel. -/
def charge (m : MeterId) : Run Unit := do
  modify fun s => s.modifyMeter m fun a => { a with steps := a.steps + 1 }
  let a := (← get).meter m
  if a.steps > a.settings.fuel then throw (.nonTermination (.fuel a.settings.fuel))

/-- Fail if evaluations nest too deeply, and record the term that was to be evaluated. -/
def checkDepth (m : MeterId) (term : Term) : Run Unit := do
  let a := (← get).meter m
  if a.depth > a.settings.maxDepth then
    record (.depthLimit term)
    throw (.nonTermination (.depth a.settings.maxDepth))

/-- Run one level deeper, and come back up whether the run answers or fails. -/
def nest {α : Type} (m : MeterId) (run : Run α) : Run α := fun s =>
  match run (s.modifyMeter m fun a => { a with depth := a.depth + 1 }) with
  | .ok v s => .ok v (s.modifyMeter m fun a => { a with depth := a.depth - 1 })
  | .error e s => .error e (s.modifyMeter m fun a => { a with depth := a.depth - 1 })

/-- Probes are interval variables that stand far below any level in scope. -/
def probeBase : Int := -1073741824

/-- Draw an interval variable that differs from all in scope and from all drawn before. -/
def probe (m : MeterId) : Run Interval := do
  let n := ((← get).meter m).probes
  modify fun s => s.modifyMeter m fun a => { a with probes := a.probes + 1 }
  return .var (probeBase - n)

/-- Put a computation off. -/
def suspend (x : Suspension) : Run Entry := do
  let id := (← get).cells.size
  modify fun s => { s with cells := s.cells.push { suspension := x } }
  return .thunk id

/-- Keep the value of an argument, if arguments are shared. -/
def settle (id : Nat) (v : Value) : Run Unit :=
  modify fun s =>
    match s.sharing with
    | .byNeed => { s with cells := s.cells.modify id fun c => { c with value := some v } }
    | .byName => s

end Run

end SmoothCubical
