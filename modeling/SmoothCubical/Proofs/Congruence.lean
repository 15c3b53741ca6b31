import SmoothCubical.Proofs.Beta.NormalForm
import SmoothCubical.Proofs.ConstantFamily
import SmoothCubical.Proofs.Lockstep.Kernel

/-!
# Conversion and application

Conversion is kept by application in two cases (`convertible_congruent`).

Of two settled terms conversion sees all but their idle coercions (`yields_convertTerms`). Where
there are none, terms that convert are the same up to display names, and evaluation does not look
at names: the two are applied to any argument in step, and end alike (`settled_congruent`).

Between pure terms nothing computes but the application of abstractions, and definitions unfold.
Terms that convert then have a common reduct, and so have the two applications: if both are
normalized, it is to the same term (`pure_congruent`). The two functions may be written in quite
different ways, and each of the calls may be made at any time.

With Kan operations that are not settled, conversion is not kept (`convertible_not_congruent`).
-/

set_option autoImplicit false

namespace SmoothCubical

/-! ## What conversion sees of settled terms -/

/-- Conversion compares settled terms as they stand without their idle coercions, unless it fails.
-/
theorem yields_convertTerms {ctx : Context} (hctx : ctx.Assembled) {typeFree : Bool} {t t' : Term}
    (ht : ctx.isSettled typeFree t = true) (ht' : ctx.isSettled typeFree t' = true)
    (frames : Nat) (settings : Settings) (s : Session) :
    Run.Yields typeFree (· = t.dropIdle.same t'.dropIdle)
      (convertTerms frames settings ctx t t') s := by
  have evaluates {t : Term} (ht : ctx.isSettled typeFree t = true) (s : Session) :
      Run.Yields typeFree
        (Mirrors typeFree (Env.roles ctx.env) (.generic ctx.dims.length) t.dropIdle)
        (Kernel.evaluate frames settings t ctx.env ctx.dims) s :=
    Run.yields_openMeter_bind fun _ _ hm => yields_evaluate hctx ht frames hm
  refine (evaluates ht s).bind fun v s₁ _ hv => ?_
  refine (evaluates ht' s₁).bind fun v' s₂ _ hv' => ?_
  refine Run.yields_openMeter_bind fun m s₃ hm => ?_
  rw [hctx.depth_eq]
  refine (Readback.quote_readsBack typeFree m frames hv hm).bind fun u s₄ hs₄ hu => ?_
  refine (Readback.quote_readsBack typeFree m frames hv' (hs₄.opened hm)).bind
    fun u' s₅ _ hu' => ?_
  exact Run.yields_pure (by rw [hu, hu'])

/-! ## Application -/

/-- Two ways to normalize end alike: with terms that are the same up to display names, or with
failures of one kind. -/
def EndAlike (x y : EStateM.Result Failure Session Term) : Prop :=
  match x, y with
  | .ok t _, .ok t' _ => t.same t' = true
  | .error e _, .error e' _ => e.kind = e'.kind
  | _, _ => False

open Correspondence in
/-- Terms that are the same up to display names normalize alike. -/
theorem normalize_same {ctx : Context} (henv : Env.Built ctx.env) {t t' : Term}
    (ht : t.same t' = true) (frames : Nat) (settings : Settings) {s : Session} (hs : s.Built) :
    EndAlike (Kernel.normalize frames settings ctx t s)
      (Kernel.normalize frames settings ctx t' s) := by
  have extends_ := names_extends_same
  have hlevel (l l' : Int) : names.level l l' ↔ l = l' := Iff.rfl
  have hrun := normalize_inStep (henv.environments.extend extends_) (Dims.refl ctx.dims)
    (.refl hlevel ctx.depth) rfl (Term.matches_of_same (fun _ => rfl) (fun _ => rfl) ht) frames
    settings s s (hs.sessions.extend extends_ id)
  generalize Kernel.normalize frames settings ctx t s = x at hrun ⊢
  generalize Kernel.normalize frames settings ctx t' s = y at hrun ⊢
  cases hrun with
  | error he _ => exact he.kind_eq
  | ok hn _ =>
    exact hn.same (fun _ _ hij => hij.eq hlevel) fun _ _ hij => hij

/-- Settled functions without idle coercions that convert end alike at every argument. -/
theorem settled_congruent {ctx : Context} (hctx : ctx.Assembled) (henv : Env.Built ctx.env)
    {f g : Term} (hf : ctx.isSettled false f = true) (hg : ctx.isSettled false g = true)
    (hfi : f.hasIdle = false) (hgi : g.hasIdle = false) {frames : Nat} {settings : Settings}
    {s₀ s₁ : Session} (hconv : convertTerms frames settings ctx f g s₀ = .ok true s₁)
    (a : Term) {s : Session} (hs : s.Built) :
    EndAlike (Kernel.normalize frames settings ctx (.app f a) s)
      (Kernel.normalize frames settings ctx (.app g a) s) := by
  have hsame := yields_convertTerms hctx hf hg frames settings s₀
  unfold Run.Yields at hsame
  rw [hconv, f.dropIdle_eq_self_iff.2 hfi, g.dropIdle_eq_self_iff.2 hgi] at hsame
  have hfg : (Term.app f a).same (.app g a) = true := by
    have ha : a.same a = true :=
      (a.matches_same (fun _ => rfl) fun _ => rfl).same (fun _ _ hij => hij) fun _ _ hij => hij
    simp only [Term.same, ← hsame.2, ha, Bool.and_self]
  exact normalize_same henv hfg frames settings hs

/-- Two ways to normalize answer alike: if both answer, the terms are the same up to display names.
-/
def AnswerAlike (x y : EStateM.Result Failure Session Term) : Prop :=
  match x, y with
  | .ok t _, .ok t' _ => t.same t' = true
  | _, _ => True

/-- Pure functions that convert answer alike at every pure argument, in a context whose definitions
are pure. -/
theorem pure_congruent {ctx : Context} {s₀ s₁ : Session}
    (hctx : ctx.Declared (fun _ x => x.isPure = true) Context.Requests s₀) {f g a : Term}
    (hf : f.isPure = true) (hg : g.isPure = true) (ha : a.isPure = true) {frames : Nat}
    {settings : Settings} (hconv : convertTerms frames settings ctx f g s₀ = .ok true s₁)
    {s s' : Session} (hs : ctx.Leads s₀ s) (hs' : ctx.Leads s₀ s') (frames₁ frames₂ : Nat)
    (settings₁ settings₂ : Settings) :
    AnswerAlike (Kernel.normalize frames₁ settings₁ ctx (.app f a) s)
      (Kernel.normalize frames₂ settings₂ ctx (.app g a) s') := by
  obtain ⟨σ, hstands⟩ := hctx.standsFor
  obtain ⟨u, hfu, hgu⟩ := hstands.convertTerms_join hf hg hconv
  have hfa : (Term.app f a).isPure = true := Bool.and_eq_true_iff.2 ⟨hf, ha⟩
  have hga : (Term.app g a).isPure = true := Bool.and_eq_true_iff.2 ⟨hg, ha⟩
  unfold AnswerAlike
  split
  · next hn hn' =>
    exact (hstands.leads hs).normalize_same (hstands.leads hs') hfa hga
      (.app .function hfu (.refl _)) (.app .function hgu (.refl _)) hn hn'
  · trivial

/-- Conversion is kept by application. Between settled functions without idle coercions, both
applications end alike from one session, at any argument. Between pure functions, both applications
answer alike at pure arguments, whatever else was asked before each of them, if the definitions of
the context are pure. -/
theorem convertible_congruent {ctx : Context} {f g : Term} {frames : Nat} {settings : Settings}
    {s₀ s₁ : Session} (hconv : convertTerms frames settings ctx f g s₀ = .ok true s₁) (a : Term) :
    (ctx.Assembled → Env.Built ctx.env →
      ctx.isSettled false f = true → ctx.isSettled false g = true →
      f.hasIdle = false → g.hasIdle = false → ∀ s : Session, s.Built →
        EndAlike (Kernel.normalize frames settings ctx (.app f a) s)
          (Kernel.normalize frames settings ctx (.app g a) s)) ∧
    (ctx.Declared (fun _ x => x.isPure = true) Context.Requests s₀ →
      f.isPure = true → g.isPure = true → a.isPure = true →
      ∀ s s' : Session, ctx.Leads s₀ s → ctx.Leads s₀ s' →
      ∀ (frames₁ frames₂ : Nat) (settings₁ settings₂ : Settings),
        AnswerAlike (Kernel.normalize frames₁ settings₁ ctx (.app f a) s)
          (Kernel.normalize frames₂ settings₂ ctx (.app g a) s')) := by
  constructor
  · intro hctx henv hf hg hfi hgi s hs
    exact settled_congruent hctx henv hf hg hfi hgi hconv a hs
  · intro hctx hf hg ha s s' hs hs'
    exact pure_congruent hctx hf hg ha hconv hs hs'

/-- A type `A`, a path `p` from it to itself and an element `x` of it. -/
def loopContext : Context :=
  let a := Value.generic 0 (some (.univ 0))
  ((Context.empty.extend "A" (.univ 0)).extend "p" (.path (.univ 0) a a)).extend "x" a

/-- The function that moves its argument along `p`. -/
def moveAlongLoop (name : String) : Term :=
  .lam name (.coe .zero .one (.pathApp (.var 2) (.var 0)) (.var 0))

/-- A type `A`, the identity on it by definition, and an element `x` of it. -/
def identityDefined : List Declaration :=
  [.hypothesis "A" (.univ 0), .definition "id" (.pi "_" (.var 0) (.var 0)) (.lam "y" (.var 0)),
    .hypothesis "x" (.var 1)]

/-- The identity, applied twice to the element of a function's argument. -/
def identityTwice : Term :=
  .lam "y" (.app (.var 2) (.app (.var 2) (.var 0)))

/-- Functions that move their argument along the same path convert and end alike at `x`. The
function that unfolds `id` twice converts with the one that gives its argument back, and then the
two are normalized at `x`, one after the other, to the same term. -/
theorem convertible_congruent_loop :
    (∃ s₁, convertTerms 40 .default loopContext (moveAlongLoop "y") (moveAlongLoop "z") {} =
      .ok true s₁) ∧
    EndAlike
      (Kernel.normalize 40 .default loopContext (.app (moveAlongLoop "y") (.var 0)) {})
      (Kernel.normalize 40 .default loopContext (.app (moveAlongLoop "z") (.var 0)) {}) ∧
    ∃ ctx s₀ s₁ n s₂ n' s₃, Declaration.addAll 40 .default identityDefined .empty {} = .ok ctx s₀ ∧
      convertTerms 40 .default ctx identityTwice (.lam "z" (.var 0)) s₀ = .ok true s₁ ∧
      Kernel.normalize 40 .default ctx (.app identityTwice (.var 0)) s₁ = .ok n s₂ ∧
      Kernel.normalize 40 .default ctx (.app (.lam "z" (.var 0)) (.var 0)) s₂ = .ok n' s₃ ∧
      n.same n' = true := by
  have hctx : loopContext.Assembled := .extend _ _ (.extend _ _ (.extend _ _ .empty))
  have henv : Env.Built loopContext.env := by
    have hA : Correspondence.same.Values (.generic 0 (some (.univ 0)))
        (.generic 0 (some (.univ 0))) := .typed (.var rfl) .univ
    intro e he
    simp only [loopContext, Context.extend, Context.empty, List.mem_cons, List.not_mem_nil,
      or_false] at he
    rcases he with rfl | rfl | rfl
    · exact .value (.typed (.var rfl) hA)
    · exact .value (.typed (.var rfl) (.path .univ hA hA))
    · exact .value (.typed (.var rfl) .univ)
  have hs : Session.Built {} := by simp [Session.Built]
  obtain ⟨s₁, hconv⟩ : ∃ s₁, convertTerms 40 .default loopContext (moveAlongLoop "y")
      (moveAlongLoop "z") {} = .ok true s₁ := ⟨_, rfl⟩
  have hloop := (convertible_congruent hconv (.var 0)).1 hctx henv (by decide) (by decide)
    (by decide) (by decide) {} hs
  refine ⟨⟨s₁, hconv⟩, hloop, ?_⟩
  have hanswer : answer? (do
      let ctx ← Declaration.addAll 40 .default identityDefined .empty
      let same ← convertTerms 40 .default ctx identityTwice (.lam "z" (.var 0))
      let _ ← Kernel.normalize 40 .default ctx (.app identityTwice (.var 0))
      let _ ← Kernel.normalize 40 .default ctx (.app (.lam "z" (.var 0)) (.var 0))
      return same) = some true := by
    decide +kernel
  obtain ⟨s₃, hrun⟩ := answer?_eq_some hanswer
  obtain ⟨ctx, s₀, hadd, hrun⟩ := Run.bind_eq_ok.1 hrun
  obtain ⟨same, s₁, hconv, hrun⟩ := Run.bind_eq_ok.1 hrun
  obtain ⟨n, s₂, hn, hrun⟩ := Run.bind_eq_ok.1 hrun
  obtain ⟨n', _, hn', hanswered⟩ := Run.bind_eq_ok.1 hrun
  cases hanswered
  have hdeclared : ctx.Declared (fun _ x => x.isPure = true) Context.Requests s₀ :=
    Context.Declared.addAll (.empty .byNeed) (fun _ => by decide) hadd
  have hs₁ : ctx.Leads s₀ s₁ := .single (.convert hconv)
  have hs₂ : ctx.Leads s₀ s₂ := hs₁.tail (.normalize hn)
  have hanswers := (convertible_congruent hconv (.var 0)).2 hdeclared (by decide) (by decide)
    (by decide) s₁ s₂ hs₁ hs₂ 40 40 .default .default
  rw [hn, hn'] at hanswers
  exact ⟨ctx, s₀, s₁, n, s₂, n', s₃, hadd, hconv, hn, hn', hanswers⟩

/-- Types `X` and `Y` with a path `p` between them, the function `K` that takes two types to the
second, and an interval variable. -/
def secondType : List Declaration :=
  [.hypothesis "X" (.univ 0), .hypothesis "Y" (.univ 0),
    .hypothesis "p" (.path (.univ 0) (.var 1) (.var 0)),
    .definition "K" (.pi "_" (.univ 0) (.pi "_" (.univ 0) (.univ 0)))
      (.lam "_" (.lam "A" (.var 0))),
    .dimension]

/-- The function that composes in its first argument, along a family that is the term given. -/
def composeIn (family : Term) : Term :=
  .lam "A" (.lam "a" (.comp .zero .one family [(.eq 0 .zero, .var 0)] (.var 0)))

/-- Functions that convert need not do so at an argument. Composition in `A` and composition in
`K (p @ i) A` read back alike while `A` is a variable. At `X → X` both are functions, and only the
second moves its argument along a family that it takes to move. -/
theorem convertible_not_congruent :
    answer? (do
      let f := composeIn (.var 1)
      let g := composeIn (.app (.app (.var 2) (.pathApp (.var 3) (.var 0))) (.var 1))
      let x := Term.pi "_" (.var 3) (.var 3)
      let ctx ← declare 100 .default secondType .empty
      let vf ← Kernel.evaluate 100 .default f ctx.env ctx.dims
      let vg ← Kernel.evaluate 100 .default g ctx.env ctx.dims
      let same ← Kernel.convertible 100 .default ctx vf vg
      let wf ← Kernel.evaluate 100 .default (.app f x) ctx.env ctx.dims
      let wg ← Kernel.evaluate 100 .default (.app g x) ctx.env ctx.dims
      return (same, ← Kernel.convertible 100 .default ctx wf wg)) = some (true, false) := by
  decide +kernel

end SmoothCubical
