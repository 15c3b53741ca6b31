import SmoothCubical.Kernel
import SmoothCubical.Proofs.Lockstep.Reading

/-!
# The kernel in step

Kernel calls on matching terms in corresponding contexts go in step, and the failures that
correspond are of one kind.
-/

set_option autoImplicit false

namespace SmoothCubical.Correspondence

variable {C : Correspondence} {V D : Int → Int → Prop}

/-- A new meter has the same number on both sides. -/
theorem openMeter_inStep (settings : Settings) :
    C.InStep (· = ·) (Run.openMeter settings) (Run.openMeter settings) := by
  intro s s' hs
  refine .ok (congrArg Array.size hs.meters) ⟨?_, hs.sharing, hs.size, hs.later, hs.cells⟩
  exact congrArg (·.push { settings }) hs.meters

/-- New evaluators evaluate matching terms in step. -/
theorem evaluate_inStep {env env' : Env} {dims dims' : IntervalEnv}
    (henv : C.Environments V env env') (hdims : C.Dims D dims dims') {t t' : Term}
    (ht : Term.Matches C V D t t') (frames : Nat) (settings : Settings) :
    C.InStep C.Values (Kernel.evaluate frames settings t env dims)
      (Kernel.evaluate frames settings t' env' dims') := by
  refine (openMeter_inStep settings).bind fun m m' hm => ?_
  subst hm
  exact run_inStep frames m _ _ (.evaluate henv hdims ht)

/-- Matching terms are normalized in step, in contexts that correspond. -/
theorem normalize_inStep {ctx ctx' : Context} (henv : C.Environments V ctx.env ctx'.env)
    (hdims : C.Dims D ctx.dims ctx'.dims) (hdepth : C.Reads ctx.depth ctx'.depth)
    (hcount : ctx.dimDepth = ctx'.dimDepth) {t t' : Term} (ht : Term.Matches C V D t t')
    (frames : Nat) (settings : Settings) :
    C.InStep (C.ReadMatch ctx.depth ctx'.depth) (Kernel.normalize frames settings ctx t)
      (Kernel.normalize frames settings ctx' t') := by
  refine (openMeter_inStep settings).bind fun m m' hm => ?_
  subst hm
  refine (run_inStep frames m _ _ (.evaluate henv hdims ht)).bind fun v v' hv => ?_
  rw [← hcount]
  exact quote_inStep m frames hdepth ctx.dimDepth hv

/-- Failures that correspond are of one kind. -/
theorem Failures.kind_eq {e e' : Failure} (h : C.Failures e e') : e.kind = e'.kind := by
  cases h with
  | fault hf => cases hf <;> rfl
  | _ => rfl

end SmoothCubical.Correspondence
