import SmoothCubical.Typing.Judgment

/-!
# The kernel

Evaluation, typing, normal forms and conversion, each on a meter of its own: calls share neither
steps nor depth. All of them run on one session, so that a value of one call can be used in
another. `frames` bounds how many calls may nest.
-/

set_option autoImplicit false

namespace SmoothCubical.Kernel

/-- A derivation on a new meter. -/
def derivation (frames : Nat) (settings : Settings) : Run Derivation := do
  let m ← Run.openMeter settings
  return ⟨frames, m, settings⟩

/-- The value of a term in its environments. -/
def evaluate (frames : Nat) (settings : Settings) (term : Term) (env : Env)
    (dims : IntervalEnv) : Run Value := do
  let m ← Run.openMeter settings
  Eval.evaluate frames m term env dims

/-- The type of a term. -/
def infer (frames : Nat) (settings : Settings) (ctx : Context) (term : Term) : Run Value := do
  let d ← derivation frames settings
  Typing.infer d ctx term

/-- Fail unless a term has the expected type. -/
def check (frames : Nat) (settings : Settings) (ctx : Context) (term : Term)
    (expected : Value) : Run Unit := do
  let d ← derivation frames settings
  Typing.check d ctx term expected

/-- Fail unless the second term is a type and the first has it. -/
def checkTerm (frames : Nat) (settings : Settings) (ctx : Context) (term expected : Term) :
    Run Unit := do
  let d ← derivation frames settings
  let _ ← Typing.inferUniverse d ctx expected
  Typing.check d ctx term (← Typing.eval d ctx expected)

/-- The normal form of a term. -/
def normalize (frames : Nat) (settings : Settings) (ctx : Context) (term : Term) :
    Run Term := do
  let m ← Run.openMeter settings
  let v ← Eval.evaluate frames m term ctx.env ctx.dims
  Readback.quote frames m ctx.depth ctx.dimDepth v

/-- A value read back under so many term and interval variables. -/
def quote (frames : Nat) (settings : Settings) (depth dimDepth : Int) (v : Value) :
    Run Term := do
  let m ← Run.openMeter settings
  Readback.quote frames m depth dimDepth v

/-- Whether two values of a context are convertible. -/
def convertible (frames : Nat) (settings : Settings) (ctx : Context) (v w : Value) :
    Run Bool := do
  let m ← Run.openMeter settings
  Readback.convertible frames m ctx.depth ctx.dimDepth v w

end SmoothCubical.Kernel
