import SmoothCubical.Text.Case.Pairs
import SmoothCubical.Text.Case.Context

/-!
# Small and capital letters

Texts in small letters and texts in capitals. A letter may become several, and the small form of a
capital sigma depends on the letters around it.
-/

set_option autoImplicit false

namespace SmoothCubical.Text

/-- The code point of the small letter of a capital; any other code point stays. -/
def lowerCode (n : Nat) : Nat :=
  match (pairedCapitals ++ otherCapitals).find? (·.contains n) with
  | some r => r.forth n
  | none => n

/-- The code point of the capital of a small letter; any other code point stays. -/
def upperCode (n : Nat) : Nat :=
  match pairedCapitals.find? fun r => r.contains (r.back n) with
  | some r => r.back n
  | none =>
    match otherSmalls.find? (·.contains n) with
    | some r => r.forth n
    | none => n

/-- The small sigma at the end of a word: a letter comes before it and none after it. The text
before is given from its end. -/
def sigma (before after : List Char) : Char :=
  if meetsCased before && !meetsCased after then 'ς' else 'σ'

/-- The small form of a character between two texts, the one before given from its end. A capital I
with a dot keeps the dot as a mark of its own. -/
def lowerChar (before : List Char) (c : Char) (after : List Char) : List Char :=
  if c = 'Σ' then [sigma before after]
  else if c = 'İ' then ['i', '\u0307']
  else [Char.ofNat (lowerCode c.toNat)]

/-- The small form of a text that follows another one, which is given from its end. -/
def lowerAfter (before : List Char) : List Char → List Char
  | [] => []
  | c :: rest => lowerChar before c rest ++ lowerAfter (c :: before) rest

/-- A text in small letters. -/
def lower (cs : List Char) : List Char :=
  lowerAfter [] cs

/-- A character in capitals. -/
def upperChar (c : Char) : List Char :=
  match expandedCapitals.lookup c.toNat with
  | some codes => codes.map Char.ofNat
  | none => [Char.ofNat (upperCode c.toNat)]

/-- A text in capitals. -/
def upper (cs : List Char) : List Char :=
  cs.flatMap upperChar

end SmoothCubical.Text
