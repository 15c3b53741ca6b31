import SmoothCubical.Value

/-!
# Events

What a run records about itself: cut-off evaluations, Kan operations that stay pending, and types
that do not convert. Each event belongs to a part of the kernel, by whose name it can be silenced.
-/

set_option autoImplicit false

namespace SmoothCubical

/-- Something worth recording about a run. -/
inductive Event
  /-- Evaluation of the term would nest too deeply. -/
  | depthLimit (term : Term)
  /-- No rule takes a composition in a family of this shape apart. -/
  | compPending (shape : Value)
  /-- No rule takes a coercion along a family of this shape apart. -/
  | coePending (shape : Value)
  /-- One type was found where another was expected. -/
  | mismatch (actual expected : Value)
deriving Inhabited

namespace Event

/-- The name of the part of the kernel that records the event. -/
def part : Event → String
  | .depthLimit _ => "cubekernel.eval.machine"
  | .compPending _ => "cubekernel.eval.kan"
  | .coePending _ => "cubekernel.eval.kan"
  | .mismatch _ _ => "cubekernel.core.checker"

/-- The text of an event. -/
def message : Event → String
  | .depthLimit term => s!"eval.depth_limit term={term.text}"
  | .compPending shape => s!"kan.comp.pending shape={shape.text}"
  | .coePending shape => s!"kan.coe.pending shape={shape.text}"
  | .mismatch actual expected =>
    s!"checker.convert.mismatch actual={actual.text} expected={expected.text}"

end Event

end SmoothCubical
