import SmoothCubical.Text.Blank

/-!
# Whole numbers in texts

A whole number is written plainly as digits without a zero in front, after a minus sign if it is
negative. A text may also have space around the number, a plus sign, zeros in front, a fraction of
nothing but zeros, and single underscores; it is then read as the plain text that is left without
them.
-/

set_option autoImplicit false

namespace SmoothCubical.Text

/-- Why a text cannot be read as a whole number. -/
inductive NumberFault
  /-- The text is not written as a whole number. -/
  | malformed
  /-- The text has too many digits. -/
  | tooLong
deriving DecidableEq, Repr, Inhabited

/-- The most digits that a plainly written number may have. -/
def digitLimit : Nat := 4300

/-- The number that digits spell. -/
def ofDigits (cs : List Char) : Nat :=
  cs.foldl (fun n c => 10 * n + (c.toNat - 48)) 0

/-- The size of a plainly written number. The count of its digits is looked at before what comes
after them. -/
def plainSize (cs : List Char) : Except NumberFault Nat :=
  match cs with
  | ['0'] => .ok 0
  | '0' :: _ => .error .malformed
  | _ =>
    let digits := cs.takeWhile Char.isDigit
    if digitLimit < digits.length then .error .tooLong
    else if digits.isEmpty || digits.length < cs.length then .error .malformed
    else .ok (ofDigits digits)

/-- The number that is written plainly. -/
def plainNumber : List Char → Except NumberFault Int
  | '-' :: rest => (plainSize rest).map fun n => -(n : Int)
  | cs => (plainSize cs).map Int.ofNat

/-- Pass over zeros and underscores, the last of which is given. It stays when a point or the end
comes next, and only a digit, a minus sign or a point may come next at all. -/
def passZeros? (last : Char) : List Char → Option (List Char)
  | [] => some [last]
  | c :: rest =>
    if c = '0' || c = '_' then passZeros? c rest
    else if c.isDigit || c = '-' then some (c :: rest)
    else if c = '.' then some (last :: c :: rest)
    else none

/-- A text without the zeros in front of a number. -/
def withoutZeros? : List Char → Option (List Char)
  | [] => none
  | c :: rest =>
    if c = '0' then passZeros? c rest
    else if c.isDigit || c = '-' then some (c :: rest)
    else none

/-- A text without a fraction that is nothing but zeros, of which there is at least one. -/
def withoutFraction (cs : List Char) : List Char :=
  match cut? '.' cs with
  | some (whole, c :: fraction) => if (c :: fraction).all (· == '0') then whole else cs
  | _ => cs

/-- Whether each underscore stands alone between two other characters, when one was just read or
not. -/
def underscoresApart : Bool → List Char → Bool
  | justRead, [] => !justRead
  | justRead, c :: rest =>
    if c = '_' then !justRead && underscoresApart true rest else underscoresApart false rest

/-- A text without underscores, if each stands alone inside it. -/
def withoutUnderscores (cs : List Char) : List Char :=
  if underscoresApart true cs then cs.filter (· != '_') else cs

/-- The size of a number, plainly written. -/
def cleanedSize? (cs : List Char) : Option (List Char) :=
  (withoutZeros? cs).map fun cs => withoutUnderscores (withoutFraction cs)

/-- A number, plainly written if it can be. -/
def cleaned? (cs : List Char) : Option (List Char) :=
  match trim isSpace cs with
  | '+' :: '-' :: _ => none
  | '+' :: rest => cleanedSize? rest
  | '-' :: rest => (cleanedSize? rest).map ('-' :: ·)
  | cs => cleanedSize? cs

/-- The whole number that a text spells. Only a text that needs no cleaning is told to be too
long. -/
def wholeNumber (cs : List Char) : Except NumberFault Int :=
  match plainNumber cs with
  | .ok n => .ok n
  | .error .tooLong => .error .tooLong
  | .error .malformed =>
    match (cleaned? cs).map plainNumber with
    | some (.ok n) => .ok n
    | _ => .error .malformed

end SmoothCubical.Text
