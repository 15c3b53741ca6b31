import SmoothCubical.Proofs.Scope.Safety
import SmoothCubical.Proofs.Termination.Typing
import SmoothCubical.Proofs.Weakening

/-!
# The kernel finishes

Whatever the settings, the kernel finishes with an answer or an error, of any term, in any context
that was put together from values of terms (`kernel_terminates`). Nothing is asked of the terms:
they need have no type, and need not be in scope.

Each question to the kernel opens an account. What was regular stays so as there are more of them,
so a session that is only ever asked questions stays regular, with the contexts that were put
together in it (`Context.Declared.regular`).
-/

set_option autoImplicit false

namespace SmoothCubical

/-- The second session is regular, and has the accounts of the first. -/
structure Session.StaysRegular (s s' : Session) : Prop where
  regular : s'.Regular s'.meters.size
  size : s.meters.size ≤ s'.meters.size

namespace Run

variable {α β : Type} {P : α → Session → Prop} {Q : β → Session → Prop} {s : Session}

/-- However many calls may nest, the run leaves a regular session, and an answer as `P` says; if
enough may, it finishes. -/
structure Concludes (P : α → Session → Prop) (x : Nat → Run α) (s : Session) : Prop where
  continues : ∀ frames, s.StaysRegular ((x frames).after s)
  answers : ∀ {frames : Nat} {a : α} {s' : Session}, x frames s = .ok a s' → P a s'
  terminates : Terminates x s

/-- A run on the accounts that are there. -/
theorem Ends.concludes {k : Nat} {C : Nat → Session → Prop} {P' : α → Session → Prop}
    {x : Nat → Run α} (hx : Ends k C P x s) (hs : s.Regular k)
    (hP : ∀ a s', s'.meters.size = k → P a s' → P' a s') : Concludes P' x s := by
  refine ⟨fun frames => ?_, fun {frames a s'} hrun => ?_, hx.terminates⟩
  · have hout := hx.orderly frames
    cases hrun : x frames s with
    | ok a s' =>
      rw [hrun] at hout
      rw [after_ok hrun]
      exact ⟨hout.1.size.symm ▸ hout.1, Nat.le_of_eq (hs.size.trans hout.1.size.symm)⟩
    | error e s' =>
      rw [hrun] at hout
      rw [after_error hrun]
      exact ⟨hout.1.size.symm ▸ hout.1, Nat.le_of_eq (hs.size.trans hout.1.size.symm)⟩
  · have hout := hx.orderly frames
    rw [hrun] at hout
    exact hP a s' hout.1.size hout.2.2

/-- What a run that concludes leaves behind when it answers. -/
theorem Concludes.ok {x : Nat → Run α} {frames : Nat} {a : α} {s' : Session}
    (hx : Concludes P x s) (hrun : x frames s = .ok a s') : s.StaysRegular s' ∧ P a s' := by
  have hs' := hx.continues frames
  rw [after_ok hrun] at hs'
  exact ⟨hs', hx.answers hrun⟩

/-- Runs that conclude, one after the other, conclude as a whole. -/
theorem Concludes.bind {x : Nat → Run α} {f : Nat → α → Run β} (hx : Concludes P x s)
    (hf : ∀ a s', s.StaysRegular s' → P a s' → Concludes Q (fun n => f n a) s') :
    Concludes Q (fun n => x n >>= f n) s := by
  have rest {frames : Nat} {a : α} {s' : Session} (hrun : x frames s = .ok a s') :
      s.StaysRegular s' ∧ Concludes Q (fun n => f n a) s' := by
    obtain ⟨hs', ha⟩ := hx.ok hrun
    exact ⟨hs', hf a s' hs' ha⟩
  refine ⟨fun frames => ?_, fun {frames b s''} hrun => ?_, ?_⟩
  · cases hrun : x frames s with
    | ok a s' =>
      rw [after_bind_ok hrun]
      obtain ⟨hs', hrest⟩ := rest hrun
      have hs'' := hrest.continues frames
      exact ⟨hs''.regular, Nat.le_trans hs'.size hs''.size⟩
    | error e s' =>
      rw [after_bind_error hrun]
      have hs' := hx.continues frames
      rwa [after_error hrun] at hs'
  · obtain ⟨a, s', hx', hf'⟩ := bind_eq_ok.1 hrun
    exact (rest hx').2.answers hf'
  · exact hx.terminates.bind fun n a s' hrun => (rest hrun).2.terminates

/-- To answer at once concludes in a regular session. -/
theorem Concludes.pure (hs : s.Regular s.meters.size) {a : α} (ha : P a s) :
    Concludes P (fun _ => Pure.pure a) s :=
  (Ends.pure (C := fun _ _ => True) hs ha).concludes hs fun _ _ _ ha => ha

/-- A new account is the last of one more. -/
theorem concludes_openMeter (hs : s.Regular s.meters.size) (settings : Settings) :
    Concludes (fun m s' => m < s'.meters.size) (fun _ => openMeter settings) s := by
  have hopen : openMeter settings s =
      .ok s.meters.size { s with meters := s.meters.push { settings } } := rfl
  have hle : s.meters.size ≤ s.meters.size + 1 := Nat.le_succ _
  refine ⟨fun _ => ?_, fun {_ m s'} hrun => ?_, 0, _, ?_, fun _ _ => hopen⟩
  · rw [after_ok hopen]
    refine ⟨⟨rfl, ?_, ?_, ?_⟩, ?_⟩ <;> simp only [Array.size_push]
    · intro id c hc
      exact Nat.lt_of_lt_of_le (hs.meter id c hc) hle
    · intro id c hc e he
      exact (hs.env id c hc e he).mono hle
    · intro id x v hc
      exact (hs.value id x v hc).mono hle
    · exact hle
  · rw [hopen] at hrun
    cases hrun
    simp
  · intro s' heq
    cases heq

end Run

/-! ## Questions to the kernel -/

namespace Kernel

open Run

variable {ctx : Context} {s : Session} (hs : s.Regular s.meters.size)
  (hctx : ctx.Regular s.meters.size) (settings : Settings)
include hs hctx

/-- Evaluation on an account of its own concludes, with a regular value. -/
theorem concludes_evaluate (t : Term) (dims : IntervalEnv) :
    Concludes (fun v s' => v.Regular s'.meters.size)
      (fun n => evaluate n settings t ctx.env dims) s := by
  refine (concludes_openMeter hs settings).bind fun m s₁ hs₁ hm => ?_
  have henv := (hctx.mono hs₁.size).env
  have hrun := Typing.finishes_evaluate hm hs₁.regular t henv dims
  exact hrun.concludes hs₁.regular fun v s' hsize hv => hsize.symm ▸ hv

/-- Normalization on accounts of its own concludes. -/
theorem concludes_normalize (t : Term) :
    Concludes (fun _ _ => True) (fun n => normalize n settings ctx t) s := by
  refine (concludes_openMeter hs settings).bind fun m s₁ hs₁ hm => ?_
  have henv := (hctx.mono hs₁.size).env
  have hrun := (Typing.finishes_evaluate hm hs₁.regular t henv ctx.dims).bind
    fun v s₂ hs₂ _ hv => Readback.quote_finishes hm ctx.depth ctx.dimDepth hv hs₂
  exact hrun.concludes hs₁.regular fun _ _ _ _ => trivial

omit hctx in
/-- Conversion of regular values on an account of its own concludes. -/
theorem concludes_convertible {v w : Value} (hv : v.Regular s.meters.size)
    (hw : w.Regular s.meters.size) :
    Concludes (fun _ _ => True) (fun n => convertible n settings ctx v w) s := by
  refine (concludes_openMeter hs settings).bind fun m s₁ hs₁ hm => ?_
  have hrun := Readback.convertible_finishes hm ctx.depth ctx.dimDepth (hv.mono hs₁.size)
    (hw.mono hs₁.size) hs₁.regular
  exact hrun.concludes hs₁.regular fun _ _ _ _ => trivial

omit hctx in
/-- A derivation runs on an account of its own. -/
theorem concludes_derivation {α : Type} {P : α → Session → Prop} {f : Derivation → Run α}
    (hf : ∀ m s', s.StaysRegular s' → m < s'.meters.size →
      Concludes P (fun n => f ⟨n, m, settings⟩) s') :
    Concludes P (fun n => derivation n settings >>= f) s :=
  (concludes_openMeter hs settings).bind hf

/-- Inference on an account of its own concludes, with a regular type. -/
theorem concludes_infer (t : Term) :
    Concludes (fun v s' => v.Regular s'.meters.size) (fun n => infer n settings ctx t) s := by
  refine concludes_derivation hs settings fun m s₁ hs₁ hm => ?_
  have hrun := (Typing.judge_finishes hm settings t).infers hs₁.regular (hctx.mono hs₁.size)
  exact hrun.concludes hs₁.regular fun v s' hsize hv => hsize.symm ▸ hv

/-- The check against a regular type concludes on an account of its own. -/
theorem concludes_check (t : Term) {ty : Value} (hty : ty.Regular s.meters.size) :
    Concludes (fun _ _ => True) (fun n => check n settings ctx t ty) s := by
  refine concludes_derivation hs settings fun m s₁ hs₁ hm => ?_
  have hrun := (Typing.judge_finishes hm settings t).checks hs₁.regular (hctx.mono hs₁.size)
    (hty.mono hs₁.size)
  have hdone := hrun.bind (f := fun _ _ => pure ()) (Q := fun _ _ => True)
    fun _ s₂ hs₂ _ _ => .pure hs₂ trivial
  exact hdone.concludes hs₁.regular fun _ _ _ _ => trivial

/-- The check against a term as a type concludes on an account of its own. -/
theorem concludes_checkTerm (t expected : Term) :
    Concludes (fun _ _ => True) (fun n => checkTerm n settings ctx t expected) s := by
  refine concludes_derivation hs settings fun m s₁ hs₁ hm => ?_
  have hctx₁ := hctx.mono hs₁.size
  have huniverse : Finishes s₁.meters.size (fun _ _ => True)
      (fun n => Typing.inferUniverse ⟨n, m, settings⟩ ctx expected) s₁ :=
    ((Typing.judge_finishes hm settings expected).infers hs₁.regular hctx₁).bind
      fun _ _ hs₂ _ hty => Typing.finishes_universeLevel hm settings hs₂ ctx hty
  have hrun : Finishes s₁.meters.size (fun _ _ => True) (fun n => do
      let _ ← Typing.inferUniverse ⟨n, m, settings⟩ ctx expected
      Typing.check ⟨n, m, settings⟩ ctx t (← Typing.eval ⟨n, m, settings⟩ ctx expected)) s₁ := by
    refine huniverse.bind fun _ s₂ hs₂ _ _ => ?_
    refine (Typing.finishes_evaluate hm hs₂ expected hctx₁.env ctx.dims).bind ?_
    intro ty s₃ hs₃ _ hty
    refine ((Typing.judge_finishes hm settings t).checks hs₃ hctx₁ hty).bind ?_
    exact fun _ s₄ hs₄ _ _ => .pure hs₄ trivial
  exact hrun.concludes hs₁.regular fun _ _ _ _ => trivial

/-- Whether two terms convert is decided. -/
theorem concludes_convertTerms (t t' : Term) :
    Concludes (fun _ _ => True) (fun n => convertTerms n settings ctx t t') s := by
  refine (concludes_evaluate hs hctx settings t ctx.dims).bind fun v s₁ hs₁ hv => ?_
  have hctx₁ := hctx.mono hs₁.size
  refine (concludes_evaluate hs₁.regular hctx₁ settings t' ctx.dims).bind fun v' s₂ hs₂ hv' => ?_
  exact concludes_convertible hs₂.regular settings (hv.mono hs₂.size) hv'

/-- Whatever is asked is answered. -/
theorem concludes_request (q : Request) :
    Concludes (fun _ _ => True) (fun n => q.run n settings ctx) s := by
  cases q with
  | evaluate t =>
    refine (concludes_evaluate hs hctx settings t ctx.dims).bind fun _ s₁ hs₁ _ => ?_
    exact .pure hs₁.regular trivial
  | normalize t =>
    refine (concludes_normalize hs hctx settings t).bind fun _ s₁ hs₁ _ => ?_
    exact .pure hs₁.regular trivial
  | infer t =>
    refine (concludes_infer hs hctx settings t).bind fun _ s₁ hs₁ _ => ?_
    exact .pure hs₁.regular trivial
  | checkTerm t expected => exact concludes_checkTerm hs hctx settings t expected
  | check t expected =>
    refine (concludes_evaluate hs hctx settings expected ctx.dims).bind fun ty s₁ hs₁ hty => ?_
    exact concludes_check hs₁.regular (hctx.mono hs₁.size) settings t hty
  | convert t t' =>
    refine (concludes_convertTerms hs hctx settings t t').bind fun _ s₁ hs₁ _ => ?_
    exact .pure hs₁.regular trivial

omit settings in
/-- An evaluator of the session computes a regular value. -/
theorem concludes_evaluateOn {m : MeterId} (hm : m < s.meters.size) (t : Term) :
    Concludes (fun v s' => v.Regular s'.meters.size)
      (fun n => Eval.evaluate n m t ctx.env ctx.dims) s :=
  (Typing.finishes_evaluate hm hs t hctx.env ctx.dims).concludes hs
    fun _ _ hsize hv => hsize.symm ▸ hv

omit settings in
/-- An entry is added with regular values, if evaluation gives some. -/
theorem concludes_addBy {evaluate : Nat → Term → Run Value}
    (hevaluate : ∀ t s', s.StaysRegular s' → Concludes (fun v s' => v.Regular s'.meters.size)
      (fun n => evaluate n t) s') (x : Declaration) :
    Concludes (fun ctx' s' => ctx'.Regular s'.meters.size)
      (fun n => x.addBy (evaluate n) ctx) s := by
  have hstart : s.StaysRegular s := ⟨hs, Nat.le_refl _⟩
  cases x with
  | hypothesis name ty =>
    refine (hevaluate ty s hstart).bind fun a s₁ hs₁ ha => ?_
    exact .pure hs₁.regular ((hctx.mono hs₁.size).extend name ha)
  | definition name ty value =>
    refine (hevaluate ty s hstart).bind fun a s₁ hs₁ ha => ?_
    have hctx₁ := hctx.mono hs₁.size
    refine (hevaluate value s₁ hs₁).bind fun v s₂ hs₂ hv => ?_
    exact .pure hs₂.regular ((hctx₁.mono hs₂.size).define name (ha.mono hs₂.size) hv)
  | dimension => exact .pure hs hctx.extendDim

end Kernel

/-! ## Contexts that are put together from values of terms -/

/-- The kernel was asked something about the context and any terms, or about regular values. It may
have failed. -/
inductive Context.Asked (ctx : Context) (s : Session) : Session → Prop
  | request (frames : Nat) (settings : Settings) (q : Request) :
      Asked ctx s ((q.run frames settings ctx).after s)
  | check (frames : Nat) (settings : Settings) (t : Term) {ty : Value} :
      ty.Regular s.meters.size → Asked ctx s ((Kernel.check frames settings ctx t ty).after s)
  | convertible (frames : Nat) (settings : Settings) {v w : Value} :
      v.Regular s.meters.size → w.Regular s.meters.size →
        Asked ctx s ((Kernel.convertible frames settings ctx v w).after s)

/-- However the context was put together, it is regular, and so is the session. -/
theorem Context.Declared.regular {admits : Context → Declaration → Prop} {ctx : Context}
    {s : Session} (h : ctx.Declared admits Context.Asked s) :
    s.Regular s.meters.size ∧ ctx.Regular s.meters.size := by
  induction h with
  | empty sharing =>
    refine ⟨⟨rfl, by simp, by simp, by simp⟩, ?_, ?_⟩ <;> simp [Context.empty]
  | @entry ctx ctx' s s' evaluate x _ _ hevaluates hadd ih =>
    obtain ⟨hs, hctx⟩ := ih
    have hlater {s₁ : Session} (hs₁ : s.StaysRegular s₁) := hctx.mono hs₁.size
    cases hevaluates with
    | new frames settings =>
      have hadds := Kernel.concludes_addBy hs hctx (fun t s₁ hs₁ =>
        Kernel.concludes_evaluate hs₁.regular (hlater hs₁) settings t ctx.dims) x
      exact (hadds.ok hadd).imp_left (·.regular)
    | @used frames m hm =>
      have hadds := Kernel.concludes_addBy hs hctx (fun t s₁ hs₁ =>
        Kernel.concludes_evaluateOn hs₁.regular (hlater hs₁) (Nat.lt_of_lt_of_le hm hs₁.size) t) x
      exact (hadds.ok hadd).imp_left (·.regular)
  | meanwhile _ hasked ih =>
    obtain ⟨hs, hctx⟩ := ih
    have kept {s' : Session} (hs' : Session.StaysRegular _ s') := And.intro hs'.regular
      (hctx.mono hs'.size)
    cases hasked with
    | request frames settings q =>
      exact kept ((Kernel.concludes_request hs hctx settings q).continues frames)
    | check frames settings t hty =>
      exact kept ((Kernel.concludes_check hs hctx settings t hty).continues frames)
    | convertible frames settings hv hw =>
      exact kept ((Kernel.concludes_convertible hs settings hv hw).continues frames)

/-! ## Termination -/

/-- A run that is cut off for want of calls, although they may nest deeper than the bound, has taken
a step. -/
def Run.StepsWithin {α : Type} (bound : Nat) (x : Nat → Run α) (s : Session) : Prop :=
  ∀ (frames : Nat) (s' : Session), bound < frames →
    x frames s = .error (.nonTermination .frames) s' → s'.left < s.left

/-- A run that ends and is prompt takes a step before its calls nest beyond the bound. -/
theorem Run.Ends.stepsWithin {α : Type} {k bound : Nat} {P : α → Session → Prop}
    {x : Nat → Run α} {s : Session} (hx : Ends k (Prompt s.left (bound + 1)) P x s) :
    StepsWithin bound x s := by
  intro frames s' hbound hrun
  have hout := hx.orderly frames
  rw [hrun] at hout
  exact hout.2.2 rfl hbound

/-- The kernel finishes. In a context that was put together from values of terms, by new evaluators
or by some that were in use, and whatever the kernel was asked before, evaluation, normal forms,
type inference and checking finish for every term, and conversion for any two values that the kernel
builds: if enough calls may nest, the outcome is an answer or an error and stays the same when more
may. That is so for every fuel and every nesting depth.

No chain of calls goes on for ever at the expense of finitely many steps, be it through the rules
of Kan operations, their closures and partial elements, type families, arguments that were put
off or reading back: wherever a demand is met or a value read back, calls that nest deeper than
the weight of the demand or the size of the value have taken a step. -/
theorem kernel_terminates {ctx : Context} {s : Session}
    (hctx : ctx.Declared (fun _ _ => True) Context.Asked s) (settings : Settings) :
    (∀ (t : Term) (dims : IntervalEnv),
      Run.Terminates (fun frames => Kernel.evaluate frames settings t ctx.env dims) s ∧
      ∀ (frames : Nat) (v : Value) (s' : Session),
        Kernel.evaluate frames settings t ctx.env dims s = .ok v s' →
          v.Regular s'.meters.size) ∧
    (∀ t : Term, Run.Terminates (fun frames => Kernel.normalize frames settings ctx t) s) ∧
    (∀ t : Term,
      Run.Terminates (fun frames => Kernel.infer frames settings ctx t) s ∧
      ∀ (frames : Nat) (ty : Value) (s' : Session),
        Kernel.infer frames settings ctx t s = .ok ty s' → ty.Regular s'.meters.size) ∧
    (∀ (t : Term) (ty : Value), ty.Regular s.meters.size →
      Run.Terminates (fun frames => Kernel.check frames settings ctx t ty) s) ∧
    (∀ t expected : Term,
      Run.Terminates (fun frames => Kernel.checkTerm frames settings ctx t expected) s) ∧
    (∀ v w : Value, v.Regular s.meters.size → w.Regular s.meters.size →
      Run.Terminates (fun frames => Kernel.convertible frames settings ctx v w) s) ∧
    (∀ (s₁ : Session) (m : MeterId), s₁.Regular s₁.meters.size → m < s₁.meters.size →
      (∀ d : Demand, d.Regular s₁.meters.size →
        Run.StepsWithin d.weight (fun frames => Eval.run frames m d) s₁) ∧
      ∀ (depth dimDepth : Int) (v : Value), v.Regular s₁.meters.size →
        Run.StepsWithin (v.size + 1) (fun frames => Readback.quote frames m depth dimDepth v)
          s₁) := by
  obtain ⟨hs, hregular⟩ := hctx.regular
  refine ⟨?evaluate, ?normalize, ?infer, ?check, ?checkTerm, ?convertible, ?chains⟩
  case evaluate =>
    intro t dims
    have hrun := Kernel.concludes_evaluate hs hregular settings t dims
    exact ⟨hrun.terminates, fun _ _ _ => hrun.answers⟩
  case normalize => exact fun t => (Kernel.concludes_normalize hs hregular settings t).terminates
  case infer =>
    intro t
    have hrun := Kernel.concludes_infer hs hregular settings t
    exact ⟨hrun.terminates, fun _ _ _ => hrun.answers⟩
  case check =>
    exact fun t ty hty => (Kernel.concludes_check hs hregular settings t hty).terminates
  case checkTerm =>
    exact fun t expected =>
      (Kernel.concludes_checkTerm hs hregular settings t expected).terminates
  case convertible =>
    exact fun v w hv hw => (Kernel.concludes_convertible hs settings hv hw).terminates
  case chains =>
    intro s₁ m hs₁ hm
    constructor
    · exact fun d hd => (Eval.run_ends hm hd hs₁).stepsWithin
    · exact fun depth dimDepth v hv => (Readback.quote_ends hm depth dimDepth hv hs₁).stepsWithin

/-- A function that applies its argument to itself, applied to itself: it has no type and no normal
form. -/
def selfApplication : Term :=
  let applied := Term.lam "x" (.app (.var 0) (.var 0))
  .app applied applied

/-- To normalize the self-application finishes. The composition of functions has a value, and
whether that is convertible with itself is decided, in the session that it was evaluated in. -/
theorem kernel_terminates_composedFunction :
    ∃ (ctx : Context) (s s' : Session) (v : Value),
      ctx.Declared (fun _ _ => True) Context.Asked s ∧
      Run.Terminates (fun frames => Kernel.normalize frames .default ctx selfApplication) s ∧
      Kernel.evaluate 60 .default composedFunction ctx.env ctx.dims s = .ok v s' ∧
      v.Regular s'.meters.size ∧
      Run.Terminates (fun frames => Kernel.convertible frames .default ctx v v) s' := by
  have hanswer : answer? (do
      let ctx ← Declaration.addAll 60 .default loopWithFunction .empty
      (Request.evaluate composedFunction).run 60 .default ctx) = some () := by
    decide +kernel
  obtain ⟨s', hrun⟩ := answer?_eq_some hanswer
  obtain ⟨ctx, s, hadd, hrequest⟩ := Run.bind_eq_ok.1 hrun
  obtain ⟨v, s₁, hv, hdone⟩ := Run.bind_eq_ok.1 hrequest
  cases hdone
  have hctx : ctx.Declared (fun _ _ => True) Context.Asked s :=
    Context.Declared.addAll (.empty .byNeed) (fun _ _ _ => trivial) hadd
  have hctx' : ctx.Declared (fun _ _ => True) Context.Asked s' := by
    rw [← Run.after_ok hrequest]
    exact .meanwhile hctx (.request 60 .default (.evaluate composedFunction))
  obtain ⟨hevaluate, hnormalize, _⟩ := kernel_terminates hctx .default
  have hregular := (hevaluate composedFunction ctx.dims).2 60 v s' hv
  have hconvertible := (kernel_terminates hctx' .default).2.2.2.2.2.1
  exact ⟨ctx, s, s', v, hctx, hnormalize selfApplication, hv, hregular,
    hconvertible v v hregular hregular⟩

end SmoothCubical
