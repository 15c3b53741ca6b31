import SmoothCubical.OrderedSet
import SmoothCubical.Log.Event
import SmoothCubical.Text.Blank
import SmoothCubical.Text.Case

/-!
# Log filters

A filter is written as a level and, for parts of the kernel, a level or `false`, separated by
commas. It is parsed without looking at the levels; a sink is a filter whose levels all exist. The
nearest part that encloses the one an event comes from decides about the event.
-/

set_option autoImplicit false

namespace SmoothCubical.Log

/-- How important a record is. -/
inductive Level
  | trace
  | debug
  | info
  | success
  | warning
  | error
  | critical
deriving DecidableEq, Repr, Inhabited

namespace Level

/-- Levels are ordered by rank. -/
def rank : Level → Nat
  | .trace => 5
  | .debug => 10
  | .info => 20
  | .success => 25
  | .warning => 30
  | .error => 40
  | .critical => 50

/-- The level of a name in capitals. -/
def ofName? (name : String) : Option Level :=
  if name = "TRACE" then some .trace
  else if name = "DEBUG" then some .debug
  else if name = "INFO" then some .info
  else if name = "SUCCESS" then some .success
  else if name = "WARNING" then some .warning
  else if name = "ERROR" then some .error
  else if name = "CRITICAL" then some .critical
  else none

end Level

/-- What a filter says about a part of the kernel. -/
inductive Rule (α : Type)
  /-- Nothing is kept. -/
  | silent
  /-- What is at least this important is kept. -/
  | atLeast (level : α)
deriving DecidableEq, Repr, Inhabited

/-- A filter as it is written. -/
structure Filter where
  /-- The name of the level for all parts. -/
  level : String := "info"
  /-- The rules for parts, in the order in which they were first named. -/
  parts : List (String × Rule String) := []
deriving Repr, Inhabited

namespace Filter

/-- Set the rule for a part; a part that has one keeps its place. -/
def putRule {α : Type} (part : String) (rule : α) : List (String × α) → List (String × α)
  | [] => [(part, rule)]
  | entry :: rest =>
    if entry.1 = part then (part, rule) :: rest else entry :: putRule part rule rest

/-- Take one item of a filter in; an empty item says nothing. -/
def addItem (f : Filter) (item : List Char) : Filter :=
  match Text.trim Text.isBlank item with
  | [] => f
  | cs =>
    match Text.cut? '=' cs with
    | none => { f with level := String.ofList cs }
    | some (part, level) =>
      let part := String.ofList (Text.trim Text.isBlank part)
      let level := Text.trim Text.isBlank level
      let rule : Rule String :=
        if level = "false".toList then .silent
        else .atLeast (String.ofList (Text.upper level))
      { f with parts := putRule part rule f.parts }

/-- The filter that a text describes. Letters count as small. -/
def parse (s : String) : Filter :=
  (Text.split ',' (Text.lower s.toList)).foldl addItem {}

/-- The rules for parts, by name. -/
def sortedParts (f : Filter) : List (String × Rule String) :=
  OrderedSet.ofList (fun a b => compare a.1 b.1) f.parts

end Filter

/-- A level name that does not exist. -/
inductive FilterProblem
  | level (name : String)
  | partLevel (part name : String)
deriving DecidableEq, Repr, Inhabited

/-- The text of a problem with a filter. -/
def FilterProblem.message : FilterProblem → String
  | .level name => s!"Level '{name}' does not exist"
  | .partLevel part name =>
    s!"The filter dict contains a module '{part}' associated to a level name "
      ++ s!"which does not exist: '{name}'"

/-- A filter whose levels all exist. -/
structure Sink where
  level : Level
  parts : List (String × Rule Level)

namespace Sink

/-- The rules for parts, with levels in place of names. -/
def rules : List (String × Rule String) → Except FilterProblem (List (String × Rule Level))
  | [] => .ok []
  | (part, .silent) :: rest => return (part, .silent) :: (← rules rest)
  | (part, .atLeast name) :: rest =>
    match Level.ofName? name with
    | some level => return (part, .atLeast level) :: (← rules rest)
    | none => .error (.partLevel part name)

/-- The sink of a filter. The levels of parts are looked at first. -/
def ofFilter (f : Filter) : Except FilterProblem Sink := do
  let parts ← rules f.parts
  let name := String.ofList (Text.upper f.level.toList)
  match Level.ofName? name with
  | some level => return ⟨level, parts⟩
  | none => .error (.level name)

/-- The sink that is in place after a filter was put in place a number of times. The first time
counts, and without one there is no sink. -/
def afterTimes (times : Int) (f : Filter) : Except FilterProblem (Option Sink) :=
  if times ≤ 0 then .ok none else (ofFilter f).map some

/-- The parts that enclose a part, nearest first; the last is the part without a name. -/
def enclosing (part : String) : List String :=
  let pieces := Text.split '.' part.toList
  let rec go : List (List Char) → List String
    | [] => [""]
    | piece :: outer =>
      String.ofList (List.intercalate ['.'] (outer.reverse ++ [piece])) :: go outer
  go pieces.reverse

/-- The rule of the nearest of some parts that has one. -/
def nearest? (rules : List (String × Rule Level)) : List String → Option (Rule Level)
  | [] => none
  | part :: outer =>
    match rules.lookup part with
    | some rule => some rule
    | none => nearest? rules outer

/-- Whether a record of the given level from a part of the kernel is kept. -/
def keeps (s : Sink) (level : Level) (part : String) : Bool :=
  s.level.rank ≤ level.rank &&
    match nearest? s.parts (enclosing part) with
    | some .silent => false
    | some (.atLeast least) => least.rank ≤ level.rank
    | none => true

/-- The events that a sink keeps. All events are for debugging. -/
def keptEvents (s : Sink) (events : List Event) : List Event :=
  events.filter fun e => s.keeps .debug e.part

/-- The events that are kept where there may be no sink. -/
def kept : Option Sink → List Event → List Event
  | some s, events => s.keptEvents events
  | none, _ => []

end Sink

end SmoothCubical.Log
