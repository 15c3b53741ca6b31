import SmoothCubical.Proofs.Beta.Reading
import SmoothCubical.Proofs.Stability.NormalForm
import SmoothCubical.Proofs.TypingLaws

/-!
# Normal forms of pure terms

In a context whose definitions are pure, the variables stand for skeletons, and these stay the same
whatever is asked in between (`Context.StandsFor.leads`). So a pure term has one skeleton, and its
normal form has a normal one that this reduces to. By confluence there is only one: whenever and
however often a pure term is normalized, the answers are the same up to display names, and so they
are for two terms whose skeletons reduce to one (`Context.StandsFor.normalize_same`).
-/

set_option autoImplicit false

namespace SmoothCubical

open Skeleton Name

/-! ## Normal reducts -/

namespace Term.IsReduct

variable {d e : Nat} {u u' : Skeleton} {n n' : Term}

/-- A normal reduct is one of whatever is reduced to in between. -/
theorem after (h : n.IsReduct d e u) (hn : n.isNormal d e = true) (hu : Reduces u u') :
    n.IsReduct d e u' := by
  have hnormal : (n.skeleton (named (levels d)) (named (points e))).isNormal = true :=
    isNormal_skeleton (by simpa [levels, points] using hn)
  exact ⟨h.pure, hu.after h.reduces hnormal⟩

/-- Normal reducts of one skeleton are the same up to display names. -/
theorem same (h : n.IsReduct d e u) (h' : n'.IsReduct d e u) (hn : n.isNormal d e = true)
    (hn' : n'.isNormal d e = true) : n.same n' = true := by
  have hlevels : (levels d).Nodup := nodup_countdown (fun _ _ => Name.level.inj) d
  have hpoints : (points e).Nodup := nodup_countdown (fun _ _ => Name.point.inj) e
  have hlength : (levels d).length = d := Index.length_countdown d
  have hcount : (points e).length = e := Index.length_countdown e
  rw [← hlength, ← hcount] at hn hn'
  refine same_of_skeleton hlevels hpoints h.pure h'.pure hn hn' ?_
  exact h.reduces.unique h'.reduces (isNormal_skeleton hn) (isNormal_skeleton hn')

end Term.IsReduct

/-! ## Contexts -/

/-- Whether the entry puts something pure into scope: a definition by a pure term, or a variable. -/
def Declaration.isPure : Declaration → Bool
  | .definition _ _ value => value.isPure
  | _ => true

/-- The variables of the context stand for the skeletons. -/
structure Context.Means (ctx : Context) (σ : List Skeleton) (M : Meaning) : Prop where
  assembled : ctx.Assembled
  env : Env.Denotes M ctx.env σ
  below : ∀ u ∈ σ, u.Below ctx.depth ctx.dimDepth

namespace Context.Means

variable {ctx : Context} {σ : List Skeleton} {M M' : Meaning}

/-- The variables stand for the same if more arguments get a meaning. -/
theorem mono (h : ctx.Means σ M) (hM : M.Le M') : ctx.Means σ M' :=
  ⟨h.assembled, h.env.mono hM, h.below⟩

/-- The interval variables of the context are generic. -/
theorem isGeneric (h : ctx.Means σ M) : ctx.dims.IsGeneric := by
  rw [h.assembled.dims_eq]
  exact IntervalEnv.isGeneric_generic _

/-- What the variables stand for has names of the context only, if there is one more of them. -/
theorem below_mono (h : ctx.Means σ M) {ctx' : Context} (hdepth : ctx.depth ≤ ctx'.depth)
    (hdims : ctx.dimDepth ≤ ctx'.dimDepth) : ∀ u ∈ σ, u.Below ctx'.depth ctx'.dimDepth :=
  fun u hu => (h.below u hu).mono hdepth hdims

/-- A hypothesis stands for its name. -/
theorem extend (h : ctx.Means σ M) (x : String) (ty : Value) :
    (ctx.extend x ty).Means (.var (.level ctx.depth) :: σ) M := by
  have hdepth : (ctx.extend x ty).depth = ctx.depth + 1 := Int.natCast_succ _
  refine ⟨.extend x ty h.assembled, h.env.cons (.value (.stuck .var)), ?_⟩
  refine List.forall_mem_cons.2 ⟨?_, h.below_mono (by omega) (Int.le_refl _)⟩
  rw [hdepth]
  exact Int.lt_succ ctx.depth

/-- A definition stands for what its value does. -/
theorem define (h : ctx.Means σ M) (x : String) (ty : Value) {v : Value} {u : Skeleton}
    (hv : v.Denotes M u) (hu : u.Below ctx.depth ctx.dimDepth) :
    (ctx.define x ty v).Means (u :: σ) M := by
  have hdepth : (ctx.define x ty v).depth = ctx.depth + 1 := Int.natCast_succ _
  refine ⟨.define x ty v h.assembled, h.env.cons (.value hv), ?_⟩
  refine List.forall_mem_cons.2 ⟨?_, h.below_mono (by omega) (Int.le_refl _)⟩
  exact hu.mono (by omega) (Int.le_refl _)

/-- With an interval variable more, the variables stand for the same. -/
theorem extendDim (h : ctx.Means σ M) : ctx.extendDim.Means σ M := by
  have hdims : ctx.extendDim.dimDepth = ctx.dimDepth + 1 := Int.natCast_succ _
  exact ⟨.extendDim h.assembled, h.env, h.below_mono (Int.le_refl _) (by omega)⟩

/-- The skeleton of a term has names of the context only. -/
theorem below_skeleton (h : ctx.Means σ M) (t : Term) :
    (t.skeleton σ ctx.dims.skeletons).Below ctx.depth ctx.dimDepth := by
  refine t.below_skeleton h.below fun u hu => ?_
  obtain ⟨r, hr, rfl⟩ := List.mem_map.1 hu
  rw [h.assembled.dims_eq, IntervalEnv.generic_eq_countdown] at hr
  obtain ⟨l, hl, rfl⟩ := Index.mem_countdown hr
  exact Int.ofNat_lt.2 hl

/-- A pure term is evaluated to a reduct of its skeleton. -/
theorem finds_eval (h : ctx.Means σ M) {t : Term} (ht : t.isPure = true) (frames : Nat)
    (m : MeterId) :
    Run.Finds M (fun M' v => v.Computes M' (t.skeleton σ ctx.dims.skeletons))
      (Eval.evaluate frames m t ctx.env ctx.dims) :=
  (Eval.run_finds frames).finds m (.evaluate h.env h.isGeneric ht)

/-- So it is by whichever evaluator. -/
theorem finds_evaluate (h : ctx.Means σ M) {s : Session} {evaluate : Term → Run Value}
    (hevaluates : ctx.EvaluatesBy s evaluate) {t : Term} (ht : t.isPure = true) :
    Run.Finds M (fun M' v => v.Computes M' (t.skeleton σ ctx.dims.skeletons)) (evaluate t) := by
  cases hevaluates with
  | new frames settings =>
    refine (Run.finds_openMeter settings).bind fun m M' hM _ => ?_
    exact (h.mono hM).finds_eval ht frames m
  | used frames _ => exact h.finds_eval ht frames _

/-- A value that computes the skeleton of a term is read back as a reduct. -/
theorem finds_quote (h : ctx.Means σ M) {t : Term} {v : Value}
    (hv : v.Computes M (t.skeleton σ ctx.dims.skeletons)) (frames : Nat) (m : MeterId) :
    Run.Finds M (fun _ n => n.IsReduct ctx.bindings.length ctx.dims.length
        (t.skeleton σ ctx.dims.skeletons))
      (Readback.quote frames m ctx.depth ctx.dimDepth v) := by
  obtain ⟨u, hu, hv⟩ := hv
  refine (Readback.quote_finds m frames hv ?_).mono fun _ n hn => hn.before hu
  exact (h.below_skeleton t).reduces hu

/-- A pure term is normalized to a reduct of its skeleton. -/
theorem finds_normalize (h : ctx.Means σ M) {t : Term} (ht : t.isPure = true) (frames : Nat)
    (settings : Settings) :
    Run.Finds M (fun _ n => n.IsReduct ctx.bindings.length ctx.dims.length
        (t.skeleton σ ctx.dims.skeletons))
      (Kernel.normalize frames settings ctx t) := by
  refine (Run.finds_openMeter settings).bind fun m M₁ hM₁ _ => ?_
  refine ((h.mono hM₁).finds_eval ht frames m).bind fun v M₂ hM₂ hv => ?_
  exact (h.mono (hM₁.trans hM₂)).finds_quote hv frames m

/-- To convert pure terms is to compare reducts of their skeletons, up to display names. -/
theorem finds_convertTerms (h : ctx.Means σ M) {t t' : Term} (ht : t.isPure = true)
    (ht' : t'.isPure = true) (frames : Nat) (settings : Settings) :
    Run.Finds M (fun _ same => ∃ n n' : Term, same = n.same n' ∧
        n.IsReduct ctx.bindings.length ctx.dims.length (t.skeleton σ ctx.dims.skeletons) ∧
        n'.IsReduct ctx.bindings.length ctx.dims.length (t'.skeleton σ ctx.dims.skeletons))
      (convertTerms frames settings ctx t t') := by
  have hevaluates :
      ctx.EvaluatesBy {} fun t => Kernel.evaluate frames settings t ctx.env ctx.dims :=
    .new frames settings
  refine (h.finds_evaluate hevaluates ht).bind fun v M₁ hM₁ hv => ?_
  have h₁ := h.mono hM₁
  refine (h₁.finds_evaluate hevaluates ht').bind fun v' M₂ hM₂ hv' => ?_
  refine (Run.finds_openMeter settings).bind fun m M₃ hM₃ _ => ?_
  have h₃ := h₁.mono (hM₂.trans hM₃)
  refine (h₃.finds_quote (hv.mono (hM₂.trans hM₃)) frames m).bind fun n M₄ hM₄ hn => ?_
  refine ((h₃.mono hM₄).finds_quote (hv'.mono (hM₃.trans hM₄)) frames m).bind
    fun n' M₅ _ hn' => ?_
  exact Run.finds_pure ⟨n, n', rfl, hn, hn'⟩

end Context.Means

/-! ## Contexts in sessions -/

/-- In the session, the variables of the context stand for the skeletons. -/
def Context.StandsFor (ctx : Context) (σ : List Skeleton) (s : Session) : Prop :=
  ∃ M, s.Means M ∧ ctx.Means σ M

/-- The second session was reached from the first by asking about terms of the context, any number
of times. -/
def Context.Leads (ctx : Context) : Session → Session → Prop :=
  Relation.ReflTransGen ctx.Requests

/-- Whatever is asked keeps what arguments mean. -/
theorem Request.keepsMeaning (q : Request) (frames : Nat) (settings : Settings) (ctx : Context) :
    Run.Keeps Session.KeepsMeaning (q.run frames settings ctx) :=
  q.law_run (fun frames => (Eval.run_finds frames).law) (fun _ _ => .of_cells rfl) frames settings
    ctx

namespace Context.StandsFor

variable {ctx ctx' : Context} {σ : List Skeleton} {s s' : Session}

/-- In a session that follows, the variables stand for the same. -/
theorem of_keeps (h : ctx.StandsFor σ s) (hs : s.KeepsMeaning s') : ctx.StandsFor σ s' := by
  obtain ⟨M, hmeans, hctx⟩ := h
  obtain ⟨M', hfollows⟩ := hs M hmeans
  exact ⟨M', hfollows.means, hctx.mono (hfollows.le hmeans)⟩

/-- Whatever is asked, the variables stand for the same afterwards. -/
theorem request (h : ctx.StandsFor σ s) (hrequest : ctx.Requests s s') : ctx.StandsFor σ s' := by
  obtain ⟨frames, settings, q, rfl⟩ := hrequest
  exact h.of_keeps (q.keepsMeaning frames settings ctx s)

/-- However much is asked, the variables stand for the same afterwards. -/
theorem leads (h : ctx.StandsFor σ s) (hleads : ctx.Leads s s') : ctx.StandsFor σ s' := by
  induction hleads with
  | refl => exact h
  | tail _ hrequest ih => exact ih.request hrequest

/-- An entry more stands for something, if it is pure. -/
theorem entry (h : ctx.StandsFor σ s) {evaluate : Term → Run Value}
    (hevaluates : ctx.EvaluatesBy s evaluate) {x : Declaration} (hx : x.isPure = true)
    (hadd : x.addBy evaluate ctx s = .ok ctx' s') : ∃ σ', ctx'.StandsFor σ' s' := by
  have hkeeps (t : Term) : Run.Keeps Session.KeepsMeaning (evaluate t) := by
    have hrun := fun frames => (Eval.run_finds frames).keeps
    cases hevaluates with
    | new frames settings =>
      exact Run.Keeps.bind (fun _ => .of_cells rfl) fun m => hrun frames m _
    | used frames _ => exact hrun frames _ _
  cases Declaration.added hadd with
  | @hypothesis name ty a _ ha =>
    have hafter := hkeeps ty s
    rw [Run.after_ok ha] at hafter
    obtain ⟨M, hs, hctx⟩ := h.of_keeps hafter
    exact ⟨_, M, hs, hctx.extend name a⟩
  | @definition name ty t a v s₁ _ ha hv =>
    have hafter := hkeeps ty s
    rw [Run.after_ok ha] at hafter
    obtain ⟨M, hs, hctx⟩ := h.of_keeps hafter
    obtain ⟨M', hfollows, u, hu, hdenotes⟩ := hctx.finds_evaluate hevaluates hx s₁ hs v s' hv
    have hbelow := (hctx.below_skeleton t).reduces hu
    exact ⟨_, M', hfollows.means, (hctx.mono (hfollows.le hs)).define name a hdenotes hbelow⟩
  | dimension =>
    obtain ⟨M, hs, hctx⟩ := h
    exact ⟨σ, M, hs, hctx.extendDim⟩

end Context.StandsFor

/-- The variables of a context whose definitions are pure stand for skeletons, whatever was asked
while it was put together. -/
theorem Context.Declared.standsFor {ctx : Context} {s : Session}
    (h : ctx.Declared (fun _ x => x.isPure = true) Context.Requests s) :
    ∃ σ, ctx.StandsFor σ s := by
  induction h with
  | empty sharing =>
    have hempty : Context.Means .empty [] fun _ => none :=
      ⟨.empty, fun _ _ he => (List.not_mem_nil (Index.mem_of_get? he)).elim, nofun⟩
    exact ⟨[], fun _ => none, nofun, hempty⟩
  | entry x _ hx hevaluates hadd ih =>
    obtain ⟨σ, ih⟩ := ih
    exact ih.entry hevaluates hx hadd
  | meanwhile _ hrequest ih =>
    obtain ⟨σ, ih⟩ := ih
    exact ⟨σ, ih.request hrequest⟩

/-! ## Normal forms -/

namespace Context.StandsFor

variable {ctx : Context} {σ : List Skeleton} {s s' : Session} {t t' n n' : Term} {frames : Nat}
  {settings : Settings}

/-- The normal form of a pure term is a normal reduct of its skeleton. -/
theorem normalize_isReduct (h : ctx.StandsFor σ s) (ht : t.isPure = true)
    (hn : Kernel.normalize frames settings ctx t s = .ok n s') :
    n.IsReduct ctx.bindings.length ctx.dims.length (t.skeleton σ ctx.dims.skeletons) ∧
      n.isNormal ctx.bindings.length ctx.dims.length = true := by
  obtain ⟨M, hs, hctx⟩ := h
  obtain ⟨M', -, hreduct⟩ := hctx.finds_normalize ht frames settings s hs n s' hn
  have hdepth : (Env.roles ctx.env).length = ctx.bindings.length :=
    Int.ofNat_inj.1 hctx.assembled.depth_eq.symm
  exact ⟨hreduct, hdepth ▸ normalize_isNormal hctx.assembled hn⟩

/-- Pure terms that convert have a common reduct. -/
theorem convertTerms_join (h : ctx.StandsFor σ s) (ht : t.isPure = true) (ht' : t'.isPure = true)
    (hconv : convertTerms frames settings ctx t t' s = .ok true s') :
    ∃ u, Reduces (t.skeleton σ ctx.dims.skeletons) u ∧
      Reduces (t'.skeleton σ ctx.dims.skeletons) u := by
  obtain ⟨M, hs, hctx⟩ := h
  obtain ⟨M', -, n, n', hsame, hn, hn'⟩ :=
    hctx.finds_convertTerms ht ht' frames settings s hs true s' hconv
  refine ⟨_, hn.reduces, ?_⟩
  rw [Term.skeleton_of_same hsame.symm]
  exact hn'.reduces

end Context.StandsFor

/-- Pure terms whose skeletons have a common reduct are normalized to terms that are the same up to
display names, whenever both are. -/
theorem Context.StandsFor.normalize_same {ctx : Context} {σ : List Skeleton}
    {s₁ s₂ s₁' s₂' : Session} (h₁ : ctx.StandsFor σ s₁) (h₂ : ctx.StandsFor σ s₂)
    {t t' n n' : Term} (ht : t.isPure = true) (ht' : t'.isPure = true) {u : Skeleton}
    (hu : Reduces (t.skeleton σ ctx.dims.skeletons) u)
    (hu' : Reduces (t'.skeleton σ ctx.dims.skeletons) u) {frames frames' : Nat}
    {settings settings' : Settings}
    (hn : Kernel.normalize frames settings ctx t s₁ = .ok n s₁')
    (hn' : Kernel.normalize frames' settings' ctx t' s₂ = .ok n' s₂') : n.same n' = true := by
  obtain ⟨hreduct, hnormal⟩ := h₁.normalize_isReduct ht hn
  obtain ⟨hreduct', hnormal'⟩ := h₂.normalize_isReduct ht' hn'
  exact (hreduct.after hnormal hu).same (hreduct'.after hnormal' hu') hnormal hnormal'

end SmoothCubical
