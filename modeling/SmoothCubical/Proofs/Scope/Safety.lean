import SmoothCubical.Proofs.IdleCoercion
import SmoothCubical.Proofs.Scope.Typing

/-!
# Scope safety

In a context that was declared with terms in scope, whatever is asked about terms in scope is
answered without a fault of syntax, and normal forms are in scope again (`scope_safe`). In
particular no probe is left in a normal form.
-/

set_option autoImplicit false

namespace SmoothCubical

/-- Whether the terms of an entry are in scope of the context that it is added to. -/
def Declaration.isScoped (ctx : Context) : Declaration → Bool
  | .hypothesis _ ty => ctx.isScoped ty
  | .definition _ ty value => ctx.isScoped ty && ctx.isScoped value
  | .dimension => true

/-- Whether the terms that a request is about are in scope of the context. -/
def Request.isScoped (ctx : Context) : Request → Bool
  | .evaluate t => ctx.isScoped t
  | .normalize t => ctx.isScoped t
  | .infer t => ctx.isScoped t
  | .checkTerm t expected => ctx.isScoped t && ctx.isScoped expected
  | .check t expected => ctx.isScoped t && ctx.isScoped expected
  | .convert t t' => ctx.isScoped t && ctx.isScoped t'

/-- Something was asked about terms in scope of the context. It may have failed. -/
def Context.Asks (ctx : Context) (s s' : Session) : Prop :=
  ∃ (frames : Nat) (settings : Settings) (q : Request),
    q.isScoped ctx = true ∧ s' = (q.run frames settings ctx).after s

/-! ## The kernel in scope -/

/-- A ground on which the kernel may be asked something: it has all meters, and nothing on it is
read back unless terms may be out of scope. -/
structure Scope.IsGround (g : Scope) : Prop where
  meter : ∀ m, g.meter m
  fits : g.Fits 0 0

/-- Nothing but their own variables is a ground for contexts. -/
theorem Scope.own_isGround : own.IsGround :=
  ⟨fun _ => trivial, own_fits⟩

/-- Every derivation runs on a ground. -/
theorem Scope.IsGround.on {g : Scope} (hg : g.IsGround) (d : Derivation) : d.On g :=
  ⟨hg.meter d.meter, hg.fits⟩

namespace Kernel

open Run Eval

variable {g : Scope} {ctx : Context} {s : Session}

/-- A derivation is opened without looking at anything. -/
theorem safe_derivation (hs : s.Sound) (frames : Nat) (settings : Settings) :
    Safe g.lax (fun _ _ => True) (derivation frames settings) s := by
  apply (safe_openMeter hs settings).bind
  intro m s₁ hs₁ _
  exact safe_pure hs₁.sound trivial

variable (hg : g.IsGround)
include hg

/-- A term in scope has a value in scope. -/
theorem safe_evaluate (hs : s.Sound) (hctx : ctx.In g s) {t : Term} (ht : ctx.Scopes g t)
    (frames : Nat) (settings : Settings) :
    Safe g.lax (InScope (ctx.scope g)) (evaluate frames settings t ctx.env ctx.dims) s := by
  apply (safe_openMeter hs settings).bind
  intro m s₁ hs₁ _
  exact Typing.safe_evaluate (hg.meter m) hs₁.sound (hctx.mono hs₁) hctx.points ht frames

/-- A term in scope has a value in scope, whichever evaluator computes it. -/
theorem safe_evaluatesBy {s₀ : Session} {evaluate : Term → Run Value}
    (hevaluates : ctx.EvaluatesBy s₀ evaluate) (hs : s.Sound) (hctx : ctx.In g s) {t : Term}
    (ht : ctx.Scopes g t) : Safe g.lax (InScope (ctx.scope g)) (evaluate t) s := by
  cases hevaluates with
  | new frames settings => exact safe_evaluate hg hs hctx ht frames settings
  | used frames _ => exact Typing.safe_evaluate (hg.meter _) hs hctx hctx.points ht frames

/-- The normal form of a term in scope is in scope. -/
theorem safe_normalize (hs : s.Sound) (hctx : ctx.In g s) {t : Term} (ht : ctx.Scopes g t)
    (frames : Nat) (settings : Settings) :
    Safe g.lax (fun _ n => ctx.Scopes g n) (normalize frames settings ctx t) s := by
  apply (safe_openMeter hs settings).bind
  intro m s₁ hs₁ _
  apply (Typing.safe_evaluate (hg.meter m) hs₁.sound (hctx.mono hs₁) hctx.points ht frames).bind
  intro v s₂ hs₂ hv
  exact Readback.quote_safe m frames (S := ctx.scope g) hs₂.sound (hg.meter m)
    (ctx.scope_fits hg.fits) hv

/-- Terms in scope are compared without a fault of syntax. -/
theorem safe_convertTerms (hs : s.Sound) (hctx : ctx.In g s) {t t' : Term} (ht : ctx.Scopes g t)
    (ht' : ctx.Scopes g t') (frames : Nat) (settings : Settings) :
    Safe g.lax (fun _ _ => True) (convertTerms frames settings ctx t t') s := by
  apply (safe_evaluate hg hs hctx ht frames settings).bind
  intro v s₁ hs₁ hv
  apply (safe_evaluate hg hs₁.sound (hctx.mono hs₁) ht' frames settings).bind
  intro v' s₂ hs₂ hv'
  apply (safe_openMeter hs₂.sound settings).bind
  intro m s₃ hs₃ _
  have hv₃ := hv.mono ((hs₂.trans hs₃).le _)
  exact Typing.safe_convertible (hg.on ⟨frames, m, settings⟩) hs₃.sound hv₃ (hv'.mono (hs₃.le _))

/-- Whatever is asked about terms in scope is answered without a fault of syntax. -/
theorem safe_request (hs : s.Sound) (hctx : ctx.In g s) {q : Request}
    (hq : g.lax ∨ q.isScoped ctx = true) (frames : Nat) (settings : Settings) :
    Safe g.lax (fun _ _ => True) (q.run frames settings ctx) s := by
  cases q with
  | evaluate t =>
    apply (safe_evaluate hg hs hctx hq frames settings).bind
    intro _ s₁ hs₁ _
    exact safe_pure hs₁.sound trivial
  | normalize t =>
    apply (safe_normalize hg hs hctx hq frames settings).bind
    intro _ s₁ hs₁ _
    exact safe_pure hs₁.sound trivial
  | infer t =>
    have hinfer : Safe g.lax (fun _ _ => True) (infer frames settings ctx t) s := by
      apply (safe_derivation hs frames settings).bind
      intro d s₁ hs₁ _
      have hty := (Typing.judge_safe (hg.on d) t).infers hs₁.sound (hctx.mono hs₁) hq
      exact hty.mono fun _ _ _ => trivial
    apply hinfer.bind
    intro _ s₁ hs₁ _
    exact safe_pure hs₁.sound trivial
  | checkTerm t expected =>
    simp only [Request.isScoped, Bool.and_eq_true, or_and_left] at hq
    apply (safe_derivation hs frames settings).bind
    intro d s₁ hs₁ _
    have huniverse : Safe g.lax (fun _ _ => True) (Typing.inferUniverse d ctx expected) s₁ := by
      apply ((Typing.judge_safe (hg.on d) expected).infers hs₁.sound (hctx.mono hs₁) hq.2).bind
      intro ty s₂ hs₂ hty
      exact Typing.safe_universeLevel (hg.on d) hs₂.sound hty
    apply huniverse.bind
    intro _ s₂ hs₂ _
    have hctx₂ := hctx.mono (hs₁.trans hs₂)
    apply (Typing.safe_eval (hg.on d) hs₂.sound hctx₂ hq.2).bind
    intro ty s₃ hs₃ hty
    apply ((Typing.judge_safe (hg.on d) t).checks hs₃.sound (hctx₂.mono hs₃) hq.1 hty).bind
    intro _ s₄ hs₄ _
    exact safe_pure hs₄.sound trivial
  | check t expected =>
    simp only [Request.isScoped, Bool.and_eq_true, or_and_left] at hq
    apply (safe_evaluate hg hs hctx hq.2 frames settings).bind
    intro ty s₁ hs₁ hty
    apply (safe_derivation hs₁.sound frames settings).bind
    intro d s₂ hs₂ _
    apply ((Typing.judge_safe (hg.on d) t).checks hs₂.sound (hctx.mono (hs₁.trans hs₂)) hq.1
      (hty.mono (hs₂.le _))).bind
    intro _ s₃ hs₃ _
    exact safe_pure hs₃.sound trivial
  | convert t t' =>
    simp only [Request.isScoped, Bool.and_eq_true, or_and_left] at hq
    apply (safe_convertTerms hg hs hctx hq.1 hq.2 frames settings).bind
    intro _ s₁ hs₁ _
    exact safe_pure hs₁.sound trivial

end Kernel

/-! ## Contexts that are declared in scope -/

/-- The context is in scope of its own variables and of the ground, in a session that is sound. -/
structure Context.SoundlyIn (g : Scope) (ctx : Context) (s : Session) : Prop where
  session : s.Sound
  context : ctx.In g s

namespace Context.SoundlyIn

variable {g : Scope} {ctx ctx' : Context} {s s' : Session}

/-- The empty context, before anything was asked. -/
theorem empty (g : Scope) (sharing : Sharing) : Context.SoundlyIn g .empty { sharing } where
  session id x v hc := by simp at hc
  context := ⟨nofun, nofun, nofun, .inr rfl⟩

/-- An entry in scope may be added. -/
theorem entry (h : ctx.SoundlyIn g s) (hg : g.IsGround) {evaluate : Term → Run Value}
    (hevaluates : ctx.EvaluatesBy s evaluate) {x : Declaration}
    (hx : g.lax ∨ x.isScoped ctx = true) (hadd : x.addBy evaluate ctx s = .ok ctx' s') :
    ctx'.SoundlyIn g s' := by
  obtain ⟨hs, hctx⟩ := h
  cases Declaration.added hadd with
  | hypothesis ha =>
    obtain ⟨hs₁, ha⟩ := (Kernel.safe_evaluatesBy hg hevaluates hs hctx hx).ok ha
    exact ⟨hs₁.sound, (hctx.mono hs₁).extend _ ha⟩
  | definition ha hv =>
    simp only [Declaration.isScoped, Bool.and_eq_true, or_and_left] at hx
    obtain ⟨hs₁, ha⟩ := (Kernel.safe_evaluatesBy hg hevaluates hs hctx hx.1).ok ha
    have hctx₁ := hctx.mono hs₁
    obtain ⟨hs₂, hv⟩ := (Kernel.safe_evaluatesBy hg hevaluates hs₁.sound hctx₁ hx.2).ok hv
    exact ⟨hs₂.sound, (hctx₁.mono hs₂).define _ (ha.mono (hs₂.le _)) hv⟩
  | dimension => exact ⟨hs, hctx.extendDim⟩

/-- Something in scope may be asked. -/
theorem request (h : ctx.SoundlyIn g s) (hg : g.IsGround) {q : Request}
    (hq : g.lax ∨ q.isScoped ctx = true) (frames : Nat) (settings : Settings) :
    ctx.SoundlyIn g ((q.run frames settings ctx).after s) := by
  have hleads := (Kernel.safe_request hg h.session h.context hq frames settings).after
  exact ⟨hleads.sound, h.context.mono hleads⟩

end Context.SoundlyIn

/-- A context that is declared in scope is in scope of its own variables, and its session is
sound. -/
theorem Context.Declared.inScope {ctx : Context} {s : Session}
    (h : ctx.Declared (fun ctx x => x.isScoped ctx = true) Context.Asks s) :
    ctx.SoundlyIn .own s := by
  induction h with
  | empty sharing => exact .empty .own sharing
  | entry x _ hx hevaluates hadd ih =>
    exact ih.entry Scope.own_isGround hevaluates (.inr hx) hadd
  | meanwhile _ hasked ih =>
    obtain ⟨frames, settings, q, hq, rfl⟩ := hasked
    exact ih.request Scope.own_isGround (.inr hq) frames settings

/-- Whether the terms of each entry are in scope of the variables before it. -/
def Declaration.areScoped : Nat → Nat → List Declaration → Bool
  | _, _, [] => true
  | depth, count, .hypothesis _ ty :: rest =>
    ty.isScoped depth count && areScoped (depth + 1) count rest
  | depth, count, .definition _ ty value :: rest =>
    ty.isScoped depth count && value.isScoped depth count && areScoped (depth + 1) count rest
  | depth, count, .dimension :: rest => areScoped depth (count + 1) rest

/-- Entries in scope, each of the variables before it, may be added one after the other. -/
theorem Context.Declared.addScoped {frames : Nat} {settings : Settings} :
    ∀ {xs : List Declaration} {ctx ctx' : Context} {s s' : Session},
      ctx.Declared (fun ctx x => x.isScoped ctx = true) Context.Asks s →
      Declaration.areScoped ctx.bindings.length ctx.dims.length xs = true →
      Declaration.addAll frames settings xs ctx s = .ok ctx' s' →
      ctx'.Declared (fun ctx x => x.isScoped ctx = true) Context.Asks s'
  | [], _, _, _, _, h, _, hrun => by
    cases hrun
    exact h
  | x :: xs, ctx, _, _, _, h, hxs, hrun => by
    obtain ⟨ctx₁, s₁, hadd, hrest⟩ := Run.bind_eq_ok.1 hrun
    cases Declaration.added hadd with
    | @hypothesis name ty _ _ _ =>
      simp only [Declaration.areScoped, Bool.and_eq_true] at hxs
      exact (h.add (x := .hypothesis name ty) hxs.1 hadd).addScoped hxs.2 hrest
    | @definition name ty value _ _ _ _ _ _ =>
      simp only [Declaration.areScoped, Bool.and_eq_true] at hxs
      have hx : Declaration.isScoped ctx (.definition name ty value) = true := by
        simp [Declaration.isScoped, Context.isScoped, hxs.1]
      exact (h.add hx hadd).addScoped hxs.2 hrest
    | dimension => exact (h.add (x := .dimension) rfl hadd).addScoped hxs hrest

/-! ## Safety -/

/-- Whether a failure of the class says that syntax has no meaning in its scope. -/
def FailureKind.isSyntactic : FailureKind → Bool
  | .unboundVariable => true
  | .unboundDimension => true
  | .malformed => true
  | _ => false

/-- A failure that is allowed where all is in scope is no failure of syntax. -/
theorem Failure.AllowedIf.isSyntactic {e : Failure} (h : e.AllowedIf False) :
    e.kind.isSyntactic = false := by
  cases e with
  | fault f => exact h.elim
  | unknownThunk id => exact h.elim
  | _ => rfl

/-- Scope safety. In a context declared in scope, at any time, a request about terms in scope does
not fail for a reason of syntax, and a normal form is in scope of the context again. The entries
may have been evaluated by new evaluators or by some that were in use. -/
theorem scope_safe {ctx : Context} {s : Session}
    (hctx : ctx.Declared (fun ctx x => x.isScoped ctx = true) Context.Asks s) (frames : Nat)
    (settings : Settings) :
    (∀ q : Request, q.isScoped ctx = true → ∀ (e : Failure) (s' : Session),
      q.run frames settings ctx s = .error e s' → e.kind.isSyntactic = false) ∧
    ∀ t : Term, ctx.isScoped t = true → ∀ (n : Term) (s' : Session),
      Kernel.normalize frames settings ctx t s = .ok n s' → ctx.isScoped n = true := by
  obtain ⟨hs, hin⟩ := hctx.inScope
  have hg := Scope.own_isGround
  constructor
  · intro q hq e s' hrun
    exact ((Kernel.safe_request hg hs hin (.inr hq) frames settings).error hrun).2.isSyntactic
  · intro t ht n s' hrun
    exact ((Kernel.safe_normalize hg hs hin (.inr ht) frames settings).ok hrun).2.resolve_left id

/-- A type `A`, a path `p` from it to itself, a function `f` on it and an interval variable. -/
def loopWithFunction : List Declaration :=
  [.hypothesis "A" (.univ 0), .hypothesis "p" (.path (.univ 0) (.var 0) (.var 0)),
    .hypothesis "f" (.pi "y" (.var 1) (.var 2)), .dimension]

/-- The composition of `f` with itself on both ends of the interval variable, in the functions from
`p` to `p`. -/
def composedFunction : Term :=
  .comp .zero .one (.pi "y" (.pathApp (.var 1) (.var 0)) (.pathApp (.var 2) (.var 0)))
    [(.or (.eq 0 .zero) (.eq 0 .one), .var 0)] (.var 0)

/-- Its normal form: the shape of the family was looked at, and the two ends were kept. -/
def composedFunctionNormal : Term :=
  let carried (r : Dim) : Term := .coe .one r (.pathApp (.var 2) (.var 0)) (.var 0)
  .lam "y" (.comp .zero .one (.pathApp (.var 2) (.var 0))
    [(.or (.eq 0 .zero) (.eq 0 .one), .app (.var 1) (carried (.var 0)))]
    (.app (.var 1) (carried .zero)))

/-- The composition is normalized safely, in scope of the context that it is declared in. -/
theorem scope_safe_composedFunction :
    ∃ (ctx : Context) (s : Session),
      ctx.Declared (fun ctx x => x.isScoped ctx = true) Context.Asks s ∧
      ctx.isScoped composedFunction = true ∧
      (∀ (e : Failure) (s' : Session),
        (Request.infer composedFunction).run 60 .default ctx s = .error e s' →
          e.kind.isSyntactic = false) ∧
      ∃ (n : Term) (s' : Session), Kernel.normalize 60 .default ctx composedFunction s = .ok n s' ∧
        n.same composedFunctionNormal = true ∧ ctx.isScoped n = true := by
  have hrun : answer? (do
      let ctx ← Declaration.addAll 60 .default loopWithFunction .empty
      let n ← Kernel.normalize 60 .default ctx composedFunction
      return (ctx.isScoped composedFunction, n.same composedFunctionNormal)) =
        some (true, true) := by
    decide +kernel
  obtain ⟨s', hrun⟩ := answer?_eq_some hrun
  obtain ⟨ctx, s, hctx, hrun⟩ := Run.bind_eq_ok.1 hrun
  obtain ⟨n, s₁, hn, hret⟩ := Run.bind_eq_ok.1 hrun
  obtain ⟨hpair, _⟩ := EStateM.Result.ok.inj hret
  obtain ⟨ht, hsame⟩ := Prod.mk.inj hpair
  have hdeclared := Context.Declared.addScoped (.empty .byNeed) (by decide) hctx
  have hsafe := scope_safe hdeclared 60 .default
  exact ⟨ctx, s, hdeclared, ht, hsafe.1 (.infer composedFunction) ht, n, s₁, hn, hsame,
    hsafe.2 composedFunction ht n s₁ hn⟩

end SmoothCubical
