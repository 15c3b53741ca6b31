import SmoothCubical.Settings
import SmoothCubical.Number.Binary64
import SmoothCubical.Text.Case
import SmoothCubical.Text.WholeNumber

/-!
# Loading settings

Settings come from values given by name and from environment variables, both in any mixture of
small and capital letters; a given value wins, and a field that neither names keeps its default.
Every field is read by its own rule, and all fields that cannot be read are reported, in the order
of the fields.
-/

set_option autoImplicit false

namespace SmoothCubical.Settings

/-- The fields of the settings, in order. -/
inductive Field
  | maxDepth
  | fuel
  | universeRule
  | maxSmoothOrder
  | checkFaceAgreement
deriving DecidableEq, Repr, Inhabited

/-- The name by which a field is given. -/
def Field.name : Field → String
  | .maxDepth => "max_depth"
  | .fuel => "fuel"
  | .universeRule => "universe_rule"
  | .maxSmoothOrder => "max_smooth_order"
  | .checkFaceAgreement => "check_face_agreement"

/-- The name of the environment variable of a field, in small letters. -/
def Field.variableName (f : Field) : String :=
  "cubekernel_" ++ f.name

/-- A value that is given for a field, before it is read. -/
inductive Given
  | integer (n : Int)
  | float (x : Binary64)
  | text (s : String)
  | truth (b : Bool)
  /-- Something that no field can be read from. -/
  | other
deriving DecidableEq, Repr, Inhabited

/-- Why a field cannot be read. -/
inductive Problem
  /-- The number is below the least value of the field. -/
  | belowLeast
  /-- The text is no whole number. -/
  | integerText
  /-- This is no number. -/
  | integerKind
  /-- The number is not whole. -/
  | integerFraction
  /-- The number is too large to be read. -/
  | integerSize
  /-- The number is infinite or none. -/
  | notFinite
  /-- This is none of the names of the rules. -/
  | ruleName
  /-- The text or number is no truth value. -/
  | truthText
  /-- This is no truth value. -/
  | truthKind
deriving DecidableEq, Repr, Inhabited

/-- The code of a problem. -/
def Problem.code : Problem → String
  | .belowLeast => "greater_than_equal"
  | .integerText => "int_parsing"
  | .integerKind => "int_type"
  | .integerFraction => "int_from_float"
  | .integerSize => "int_parsing_size"
  | .notFinite => "finite_number"
  | .ruleName => "literal_error"
  | .truthText => "bool_parsing"
  | .truthKind => "bool_type"

/-- Numbers that fit a machine word lie strictly between this and its negative, or equal the
latter. -/
def wordBound : Int := 9223372036854775808

/-- Read a whole number from a binary one, which has to lie strictly inside the range of a word. -/
def readFloat (x : Binary64) : Except Problem Int :=
  if x.isFinite then
    match x.whole? with
    | some n => if -wordBound < n && n < wordBound then .ok n else .error .integerSize
    | none => .error .integerFraction
  else .error .notFinite

/-- Read a whole number. -/
def readInt : Given → Except Problem Int
  | .integer n => .ok n
  | .float x => readFloat x
  | .text s =>
    match Text.wholeNumber s.toList with
    | .ok n => .ok n
    | .error .malformed => .error .integerText
    | .error .tooLong => .error .integerSize
  | .truth b => .ok (if b then 1 else 0)
  | .other => .error .integerKind

/-- Read a number that is at least `least`. -/
def readNat (least : Nat) (g : Given) : Except Problem { n : Nat // least ≤ n } := do
  let n ← readInt g
  if h : least ≤ n then return ⟨n.toNat, by omega⟩ else .error .belowLeast

/-- Read the name of a rule, which has to be exact. -/
def readRule : Given → Except Problem UniverseRule
  | .text s =>
    if s = "max" then .ok .max
    else if s = "cumulative" then .ok .cumulative
    else .error .ruleName
  | _ => .error .ruleName

/-- The texts that stand for false, in small letters. -/
def falseTexts : List String := ["0", "f", "n", "no", "off", "false"]

/-- The texts that stand for true, in small letters. -/
def trueTexts : List String := ["1", "t", "y", "yes", "on", "true"]

/-- Read a truth value from a number. -/
def truthOfInt (n : Int) : Except Problem Bool :=
  if n = 0 then .ok false else if n = 1 then .ok true else .error .truthText

/-- Read a truth value. -/
def readBool : Given → Except Problem Bool
  | .truth b => .ok b
  | .text s =>
    let t := s.map Char.toLower
    if falseTexts.contains t then .ok false
    else if trueTexts.contains t then .ok true
    else .error .truthText
  | .integer n => if -wordBound ≤ n && n < wordBound then truthOfInt n else .error .truthKind
  | .float x =>
    match readFloat x with
    | .ok n => truthOfInt n
    | .error _ => .error .truthKind
  | .other => .error .truthKind

/-- The first of some entries with a name, which counts in small letters. -/
def named? {α : Type} (name : String) (entries : List (String × α)) : Option α :=
  (entries.find? fun e => String.ofList (Text.lower e.1.toList) == name).map (·.2)

/-- What is given for a field: the first value of its name, or else the last variable. -/
def given? (values : List (String × Given)) (envVars : List (String × String)) (f : Field) :
    Option Given :=
  match named? f.name values with
  | some g => some g
  | none => (named? f.variableName envVars.reverse).map .text

/-- A field as it is given and read, or its default. -/
def readField {α : Type} (read : Given → Except Problem α) (default : α) :
    Option Given → Except Problem α
  | some g => read g
  | none => .ok default

/-- The problem of a field, if it has one. -/
def problemOf {α : Type} (f : Field) : Except Problem α → List (Field × Problem)
  | .ok _ => []
  | .error p => [(f, p)]

/-- The settings given by name and by environment variables, or what is wrong with them. -/
def load (values : List (String × Given)) (envVars : List (String × String)) :
    Except (List (Field × Problem)) Settings :=
  let given := given? values envVars
  let depth := readField (readNat 1) ⟨default.maxDepth, default.maxDepth_pos⟩ (given .maxDepth)
  let fuel := readField (readNat 1) ⟨default.fuel, default.fuel_pos⟩ (given .fuel)
  let rule := readField readRule default.universeRule (given .universeRule)
  let order := readField (readNat 0) ⟨default.maxSmoothOrder, Nat.zero_le _⟩
    (given .maxSmoothOrder)
  let agreement := readField readBool default.checkFaceAgreement (given .checkFaceAgreement)
  match depth, fuel, rule, order, agreement with
  | .ok depth, .ok fuel, .ok rule, .ok order, .ok agreement =>
    .ok ⟨depth.1, fuel.1, rule, order.1, agreement, depth.2, fuel.2⟩
  | _, _, _, _, _ =>
    .error (problemOf .maxDepth depth ++ problemOf .fuel fuel ++ problemOf .universeRule rule
      ++ problemOf .maxSmoothOrder order ++ problemOf .checkFaceAgreement agreement)

end SmoothCubical.Settings
