/-!
# Ill-formed syntax

The causes for which a piece of syntax has no meaning in its scope: an index that nothing binds,
or a part that is missing. They need no value to be described.
-/

set_option autoImplicit false

namespace SmoothCubical

/-- Why a piece of syntax has no meaning where it stands. -/
inductive Fault
  /-- No term variable has this index. -/
  | unboundVariable (index : Int)
  /-- No interval variable has this index. -/
  | unboundDimension (index : Int)
  /-- A term was wanted where none stands. -/
  | missingTerm
  /-- A dimension was wanted where none stands. -/
  | missingDim
  /-- A face formula was wanted where none stands. -/
  | missingFace
  /-- An equation sets an interval variable to something that is no endpoint. -/
  | endpointRange (endpoint : Int)
deriving DecidableEq, Repr, Inhabited

/-- The text of a fault. -/
def Fault.message : Fault → String
  | .unboundVariable index => s!"Unbound variable with de Bruijn index {index}"
  | .unboundDimension index => s!"Unbound interval variable with de Bruijn index {index}"
  | .missingTerm => "Unknown term: None"
  | .missingDim => "Unknown dimension: None"
  | .missingFace => "Unknown face formula: None"
  | .endpointRange endpoint => s!"Face endpoint must be 0 or 1, got {endpoint}"

end SmoothCubical
