import SmoothCubical.Proofs.Declarations

/-!
# Idle coercions

A coercion along a family that does not mention its direction has the value of its base
(`evaluate_coe_idle`). Whether a family mentions its direction is read off its term when the
family is closed. A family that rules derive from another, such as the codomains of a family of
function types, has no term: it is taken to move although it may be the same type everywhere, and
a coercion along it stays pending.

Read back, such a family is a term again, which does not mention the direction. So normal forms
hold coercions that are idle, and whoever evaluates a normal form loses them. Types are evaluated,
so the normal form of a typed term need not have its type (`normal_form_loses_type`).
-/

set_option autoImplicit false

namespace SmoothCubical

/-! ## The law of idle coercions -/

/-- Along a family that is flagged constant, values stay what they are. -/
theorem Eval.coe_of_isConstant (call : Call) (m : MeterId) {a : Line} (ha : a.isConstant = true)
    (s t : Interval) (v : Value) : coe call m s t a v = pure v := by
  unfold coe
  simp only [ha, if_true, ite_self]

/-- The step that evaluates an idle coercion evaluates its base and is done. -/
theorem step_coe_idle (frames : Nat) (m : MeterId) {s t : Dim} {a b : Term} {env : Env}
    {dims : IntervalEnv} {r r' : Interval} (ha : a.mentions 0 = .ok false)
    (hs : IntervalEnv.resolve dims s = .ok r) (ht : IntervalEnv.resolve dims t = .ok r') :
    Eval.step (Eval.run (frames + 1)) m (.coe s t a b) env dims =
      Eval.run (frames + 1) m (.evaluate true b env dims) := by
  have hclosed : Eval.closeFamily a env dims = pure (.varying (.body env dims a) true) := by
    unfold Eval.closeFamily
    rw [ha]
    rfl
  have hcoe (v : Value) : Eval.run (frames + 1) m
      (.coe r r' (.varying (.body env dims a) true) v) = pure v :=
    Eval.coe_of_isConstant (Eval.run frames) m rfl r r' v
  unfold Eval.step
  simp only [hclosed, hs, ht, Run.ofFault, pure_bind]
  simp only [hcoe, bind_pure]

/-- An idle coercion has the value of its base, found one level deeper and at one more step. -/
theorem evaluate_coe_idle (frames : Nat) (m : MeterId) {s t : Dim} {a b : Term} {env : Env}
    {dims : IntervalEnv} {r r' : Interval} (ha : a.mentions 0 = .ok false)
    (hs : IntervalEnv.resolve dims s = .ok r) (ht : IntervalEnv.resolve dims t = .ok r') :
    Eval.evaluate (frames + 2) m (.coe s t a b) env dims =
      Run.nest m (do
        Run.checkDepth m (.coe s t a b)
        Run.charge m
        Eval.evaluate (frames + 1) m b env dims) := by
  change Run.nest m (do
    Run.checkDepth m (.coe s t a b)
    Eval.chargedStep (Eval.run (frames + 1)) m (.coe s t a b) env dims) = _
  unfold Eval.chargedStep
  rw [step_coe_idle frames m ha hs ht]
  rfl

/-! ## A normal form without its type -/

/-- Types `A0` and `A1` with a path `p` between them, a type `B` and a function `f : A0 → B`. -/
def functionOverPath : List Declaration :=
  [.hypothesis "A0" (.univ 0), .hypothesis "A1" (.univ 0),
    .hypothesis "p" (.path (.univ 0) (.var 1) (.var 0)), .hypothesis "B" (.univ 0),
    .hypothesis "f" (.pi "_" (.var 3) (.var 1))]

/-- The function `f`, moved along the function types from `p @ i` to `B`. The codomains of this
family are `B` throughout. -/
def movedFunction : Term :=
  .coe .zero .one (.pi "x" (.pathApp (.var 2) (.var 0)) (.var 2)) (.var 0)

/-- To `functionOverPath`, a type `P g` for each function `g : A1 → B` and elements `h g` of
them. -/
def predicateOnFunctions : List Declaration :=
  functionOverPath ++
    [.hypothesis "P" (.pi "_" (.pi "_" (.var 3) (.var 2)) (.univ 0)),
      .hypothesis "h" (.pi "g" (.pi "_" (.var 4) (.var 3)) (.app (.var 1) (.var 0)))]

/-- The element `h` at the moved function. -/
def elementAtMoved : Term :=
  .app (.var 0) (.coe .zero .one (.pi "x" (.pathApp (.var 4) (.var 0)) (.var 4)) (.var 2))

/-- The normal form of a typed term need not have its type: the type of `elementAtMoved` names the
moved function with its pending coercion, the type of the normal form names it without. -/
theorem normal_form_loses_type :
    answer? (do
      let ctx ← declare 100 .default predicateOnFunctions .empty
      let ty ← Kernel.infer 100 .default ctx elementAtMoved
      let n ← Kernel.normalize 100 .default ctx elementAtMoved
      failureKind? (Kernel.check 100 .default ctx n ty)) = some (some .typeMismatch) := by
  decide +kernel

end SmoothCubical
