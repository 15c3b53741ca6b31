import SmoothCubical.Proofs.Likeness.Reading
import SmoothCubical.Proofs.Relaxation.Rules
import SmoothCubical.Proofs.TypingLaws

/-!
# Judgments that leave comparisons out

A derivation that does not compare partial elements does not run the computations that the
comparison would have run. So the session it goes on in is another one: fewer steps are spent and
fewer probes drawn, and arguments are not yet computed that were. In sessions that are alike the
derivation still follows the one under stricter rules, unless a guard cuts it off
(`judge_follows`): where the first answers, the second does, with a type that is alike. No guard
does if the first computes arguments each time it looks at them and the second may spend as much.
-/

set_option autoImplicit false

namespace SmoothCubical

/-! ## Judgments advance the session -/

namespace Run

variable {m : MeterId} {α : Type}

instance (c : Prop) [Decidable c] (x y : Run α) [hx : Advancing m x] [hy : Advancing m y] :
    Advancing m (if c then x else y) := by
  split
  · exact hx
  · exact hy

instance (f : α → Run Unit) [∀ a, Advancing m (f a)] (xs : List α) :
    Advancing m (xs.forM f) := by
  induction xs with
  | nil => exact inferInstanceAs (Advancing m (pure ()))
  | cons x rest ih => exact inferInstanceAs (Advancing m (f x >>= fun _ => rest.forM f))

end Run

namespace Typing

open Run

variable {m : MeterId} {d : Derivation}

instance (ctx : Context) (t : Term) : Advancing m (eval d ctx t) := by
  unfold eval
  infer_instance

instance (ctx : Context) (v : Value) : Advancing m (quote d ctx v) :=
  ⟨law_quote (Eval.continues_law m) d ctx v⟩

instance (ctx : Context) (v w : Value) : Advancing m (conv d ctx v w) :=
  ⟨law_conv (Eval.continues_law m) d ctx v w⟩

instance (a : Line) (r : Interval) : Advancing m (lineAt d a r) := by
  unfold lineAt
  infer_instance

instance (ctx : Context) (v w : Value) : Advancing m (weakens d ctx v w) :=
  ⟨law_weakens (Eval.continues_law m) d ctx v w⟩

instance (ctx : Context) (v w : Value) : Advancing m (convert d ctx v w) :=
  ⟨law_convert (Eval.continues_law m) d ctx v w⟩

instance (ctx : Context) (goal : Option Value) (v : Value) :
    Advancing m (conclude d ctx goal v) :=
  ⟨law_conclude (Eval.continues_law m) d ctx goal v⟩

instance (ctx : Context) (v : Value) : Advancing m (universeLevel d ctx v) :=
  ⟨law_universeLevel (Eval.continues_law m) d ctx v⟩

instance (ctx : Context) (body : Term) (r : Interval) (v : Value) :
    Advancing m (checkEnd d ctx body r v) :=
  ⟨law_checkEnd (Eval.continues_law m) d ctx body r v⟩

instance (ctx : Context) (body : Term) (l r : Value) : Advancing m (checkEnds d ctx body l r) :=
  ⟨law_checkEnds (Eval.continues_law m) d ctx body l r⟩

instance (ctx : Context) (r : Dim) : Advancing m (checkDim ctx r) :=
  ⟨law_checkDim (Eval.continues_law m) ctx r⟩

instance (ctx : Context) (φ : Face) : Advancing m (checkFormula ctx φ) :=
  ⟨law_checkFormula (Eval.continues_law m) ctx φ⟩

instance (largest order : Int) : Advancing m (Smoothness.checkOrder largest order) :=
  ⟨law_checkOrder (Eval.continues_law m) largest order⟩

instance (ctx : Context) (fs : List (Face × Term)) : Advancing m (partialElements ctx fs) :=
  ⟨law_partialElements (Eval.continues_law m) ctx fs⟩

instance (ctx : Context) (p q : PartialElement) (c : Clause) :
    Advancing m (checkOverlapOn d ctx p q c) :=
  ⟨law_checkOverlapOn (Eval.continues_law m) d ctx p q c⟩

instance (ctx : Context) (p q : PartialElement) : Advancing m (checkOverlap d ctx p q) :=
  ⟨law_checkOverlap (Eval.continues_law m) d ctx p q⟩

instance (ctx : Context) (ps : List PartialElement) : Advancing m (checkOverlaps d ctx ps) :=
  ⟨law_checkOverlaps (Eval.continues_law m) d ctx ps⟩

instance (ctx : Context) (source : Dim) (base : Term) (p : PartialElement) (c : Clause) :
    Advancing m (checkBaseOn d ctx source base p c) :=
  ⟨law_checkBaseOn (Eval.continues_law m) d ctx source base p c⟩

instance (ctx : Context) (source : Dim) (base : Term) (p : PartialElement) :
    Advancing m (checkBase d ctx source base p) :=
  ⟨law_checkBase (Eval.continues_law m) d ctx source base p⟩

instance (ctx : Context) (source : Dim) (fs : List (Face × Term)) (base : Term) :
    Advancing m (checkAgreement d ctx source fs base) :=
  ⟨law_checkAgreement (Eval.continues_law m) d ctx source fs base⟩

instance (t : Term) (ctx : Context) (goal : Option Value) : Advancing m (judge d t ctx goal) :=
  ⟨law_judge (Eval.continues_law m) d t ctx goal⟩

instance (fs : List (Face × Term)) (ctx : Context) (along : Value) :
    Advancing m (judgeFaces d fs ctx along) :=
  ⟨law_judgeFaces (Eval.continues_law m) d fs ctx along⟩

instance (ctx : Context) (t : Term) : Advancing m (infer d ctx t) := by
  unfold infer
  infer_instance

instance (ctx : Context) (t : Term) (v : Value) : Advancing m (check d ctx t v) := by
  unfold check
  infer_instance

instance (ctx : Context) (t : Term) : Advancing m (inferUniverse d ctx t) :=
  ⟨law_inferUniverse (Eval.continues_law m) d (law_judge (Eval.continues_law m) d t) ctx⟩

end Typing

/-! ## Runs that follow -/

namespace Likeness

/-- Where the first run answers, the second gives an answer so related, unless it is cut off. If the
comparison is strict, it is not cut off and spends no more. It is asked that the runs can be
compared. -/
def Follows (L : Likeness) (strict : Prop) {α β : Type} (R : α → β → Prop) (x : Run α)
    (s : Session) (y : Run β) (s' : Session) : Prop :=
  s.Ready L.meter L.origin L.left (x.after s) → s'.Ready L.meter L.origin' L.right (y.after s') →
    (strict → s.Outspends L.meter s') →
    ∀ a t, x s = .ok a t → Outcome L.meter L.loose strict R (.ok a t) (y s')

variable {L : Likeness} {strict : Prop} {α β γ δ : Type} {P : α → β → Prop} {R : γ → δ → Prop}
  {s s' : Session}

/-- Runs that end alike follow each other. -/
theorem Follows.of_alike {x : Run α} {y : Run β}
    (h : ∀ limit, L.Alike strict limit P x s y s') : L.Follows strict P x s y s' := by
  intro hs hs' hahead a t hx
  rw [← hx]
  exact h _ hs hs' (Nat.le_refl _) hahead

/-- Runs that answer at once with related answers follow each other. -/
theorem Follows.pure {a : α} {b : β} (h : P a b) :
    L.Follows strict P (pure a : Run α) s (pure b : Run β) s' :=
  .of_alike fun _ => .pure h

/-- A run that does not answer is followed by any other. -/
theorem Follows.of_ne_ok {x : Run α} {y : Run β} (hx : ∀ a t, x s ≠ .ok a t) :
    L.Follows strict P x s y s' :=
  fun _ _ _ a t h => (hx a t h).elim

/-- A run is followed by one that answers at once where it does. -/
theorem Follows.of_answers {x : Run α} {y : Run β} [hxm : Run.Advancing L.meter x]
    (h : ∀ a t, x s = .ok a t → ∃ b, y s' = .ok b s' ∧ P a b) : L.Follows strict P x s y s' := by
  intro _ _ hahead a t hx
  obtain ⟨b, hy, hab⟩ := h a t hx
  have hadvances := (hxm.keeps s).toAdvances
  rw [Run.after_ok hx] at hadvances
  rw [hy]
  exact .ok hab fun hstrict => outspends_advance (hahead hstrict) hadvances

/-- A run that follows another does so for every wider relation on their answers. -/
theorem Follows.mono {P' : α → β → Prop} {x : Run α} {y : Run β}
    (h : L.Follows strict P x s y s') (hP : ∀ a b, P a b → P' a b) :
    L.Follows strict P' x s y s' :=
  fun hs hs' hahead a t hx => (h hs hs' hahead a t hx).mono hP

/-- A run that goes on where the other does follows it. -/
theorem Follows.andThen {x : Run α} {y : Run β} {f : α → Run γ} {g : β → Run δ}
    [hxm : Run.Advancing L.meter x] [hym : Run.Advancing L.meter y]
    (hxy : L.Follows strict P x s y s') (hfm : ∀ a, Run.Advancing L.meter (f a))
    (hgm : ∀ b, Run.Advancing L.meter (g b))
    (hfg : ∀ a t b t', P a b → L.Follows strict R (f a) t (g b) t') :
    L.Follows strict R (x >>= f) s (y >>= g) s' := by
  intro hs hs' hahead c r hrun
  obtain ⟨a, t, hx, hf⟩ := Run.bind_eq_ok.1 hrun
  have hend := precedes_bind x hfm s
  have hend' := precedes_bind y hgm s'
  have hmid := hs.advance (hxm.keeps s) hend
  have hmid' := hs'.advance (hym.keeps s') hend'
  have hout := hxy (hs.shorten hend) (hs'.shorten hend') hahead a t hx
  rw [Run.after_ok hx, Run.after_bind_ok hx] at hmid
  cases hy : y s' with
  | ok b t' =>
    rw [hy] at hout
    rw [Run.after_ok hy, Run.after_bind_ok hy] at hmid'
    rw [Run.bind_ok hy]
    cases hout with
    | ok hab hahead' => exact hfg a t b t' hab hmid hmid' hahead' c r hf
  | error e t' =>
    rw [hy] at hout
    rw [Run.bind_error hy]
    cases hout with
    | cut' he hstrict => exact .cut' he hstrict

/-- Runs that follow each other and go on to do so follow each other as a whole. -/
theorem Follows.bind {x : Run α} {y : Run β} {f : α → Run γ} {g : β → Run δ}
    [Run.Advancing L.meter x] [Run.Advancing L.meter y]
    [hfm : ∀ a, Run.Advancing L.meter (f a)] [hgm : ∀ b, Run.Advancing L.meter (g b)]
    (hxy : L.Follows strict P x s y s')
    (hfg : ∀ a t b t', P a b → L.Follows strict R (f a) t (g b) t') :
    L.Follows strict R (x >>= f) s (y >>= g) s' :=
  hxy.andThen hfm hgm hfg

/-- What is done for each member of a list is followed if it is so for each. -/
theorem Follows.forM {f g : α → Run Unit} [∀ a, Run.Advancing L.meter (f a)]
    [∀ a, Run.Advancing L.meter (g a)]
    (h : ∀ a t t', L.Follows strict (fun _ _ => True) (f a) t (g a) t') (xs : List α) :
    L.Follows strict (fun _ _ => True) (xs.forM f) s (xs.forM g) s' := by
  induction xs generalizing s s' with
  | nil => exact .pure trivial
  | cons x rest ih => exact (h x s s').bind fun _ _ _ _ _ => ih

/-! ## Contexts that are alike -/

/-- Contexts with types and values that are alike, and the same points, none of which is a probe. -/
structure Contexts (L : Likeness) (ctx ctx' : Context) : Prop where
  length : ctx.bindings.length = ctx'.bindings.length
  types : ∀ i : Nat,
    Option.Rel (fun b b' => L.Values b.ty b'.ty) ctx.bindings[i]? ctx'.bindings[i]?
  env : L.Environments ctx.env ctx'.env
  dims : ctx'.dims = ctx.dims
  points : ∀ r ∈ ctx.dims, r.On (0 ≤ ·)

namespace Contexts

variable {ctx ctx' : Context} (h : L.Contexts ctx ctx')
include h

/-- Contexts that are alike are of one depth. -/
theorem depth_eq : ctx'.depth = ctx.depth :=
  congrArg Int.ofNat h.length.symm

/-- Contexts that are alike have as many interval variables. -/
theorem dimDepth_eq : ctx'.dimDepth = ctx.dimDepth := by
  unfold Context.dimDepth
  rw [h.dims]

/-- Contexts that are alike have the same interval variable to add next. -/
theorem freshDim_eq : ctx'.freshDim = ctx.freshDim := by
  unfold Context.freshDim
  rw [h.dimDepth_eq]

/-- A variable has alike types in contexts that are alike, or is unbound in both. -/
theorem find (i : Int) :
    L.Answers (fun b b' => L.Values b.ty b'.ty) (ctx.find i) (ctx'.find i) := by
  have hget := get?_rel h.types i
  unfold Context.find
  generalize Index.get? ctx.bindings i = x at hget ⊢
  generalize Index.get? ctx'.bindings i = y at hget ⊢
  cases hget with
  | none => exact .error fun _ => rfl
  | some hty => exact .ok hty

/-- Contexts that are alike can be extended by hypotheses of alike types. -/
theorem extend (x : String) {a a' : Value} (ha : L.Values a a') :
    L.Contexts (ctx.extend x a) (ctx'.extend x a') where
  length := congrArg (· + 1) h.length
  types i := by
    cases i with
    | zero => exact .some ha
    | succ i => exact h.types i
  env := by
    refine .cons (.value ?_) h.env
    unfold Context.nextVar
    rw [h.depth_eq]
    exact .typed .var ha
  dims := h.dims
  points := h.points

/-- Contexts that are alike can be extended by an interval variable. -/
theorem extendDim : L.Contexts ctx.extendDim ctx'.extendDim where
  length := h.length
  types := h.types
  env := h.env
  dims := by
    unfold Context.extendDim
    rw [h.freshDim_eq, h.dims]
  points r hr := by
    rcases List.mem_cons.1 hr with rfl | hr
    · exact Int.natCast_nonneg _
    · exact h.points r hr

/-- Contexts that are alike bind the same dimensions. -/
theorem checkDim_eq (r : Dim) : Typing.checkDim ctx' r = Typing.checkDim ctx r := by
  unfold Typing.checkDim Context.bindsDim
  rw [h.dimDepth_eq]

/-- Contexts that are alike bind the same interval variables of a face formula. -/
theorem checkFormula_eq (φ : Face) : Typing.checkFormula ctx' φ = Typing.checkFormula ctx φ := by
  unfold Typing.checkFormula Context.bindsDim
  rw [h.dimDepth_eq]

/-- In contexts that are alike a system is taken apart into the same partial elements. -/
theorem partialElements_eq (fs : List (Face × Term)) :
    Typing.partialElements ctx' fs = Typing.partialElements ctx fs := by
  induction fs with
  | nil => rfl
  | cons face rest ih =>
    unfold Typing.partialElements
    rw [h.dims, ih]

end Contexts

/-! ## Derivations -/

/-- A derivation on the meter of a likeness. -/
abbrev derivation (L : Likeness) (frames : Nat) (settings : Settings) : Derivation :=
  ⟨frames, L.meter, settings⟩

/-- Derivations with so many frames can be compared: no probes are in play, the second goes by
relaxed rules, and if the comparison is strict, as many frames are there. -/
structure Relaxing (L : Likeness) (strict : Prop) (f f' : Nat) (σ τ : Settings) : Prop where
  noProbes : L.Exact
  frames : strict → f' = f
  rules : σ.RelaxesTo τ

open Typing

variable {f f' : Nat} {σ τ : Settings} {ctx ctx' : Context}

/-! ## Questions about syntax -/

/-- The same question about syntax is answered by the same. -/
theorem follows_ofFault (x : Except Fault α) :
    L.Follows strict (· = ·) (Run.ofFault x) s (Run.ofFault x) s' :=
  .of_alike fun _ => .ofFault (.refl (fun _ => rfl) x)

/-- A point of an interval environment that has no probes is none. -/
theorem follows_resolve {dims : IntervalEnv} (hdims : ∀ r ∈ dims, r.On (0 ≤ ·)) (d : Dim) :
    L.Follows strict (fun r r' => r = r' ∧ r.On (0 ≤ ·)) (Run.ofFault (dims.resolve d)) s
      (Run.ofFault (dims.resolve d)) s' := by
  cases hr : dims.resolve d with
  | ok r => exact .pure ⟨rfl, IntervalEnv.resolve_on hdims hr⟩
  | error e => exact .of_ne_ok nofun

/-- The check of a dimension is followed. -/
theorem follows_checkDim (hctx : L.Contexts ctx ctx') (r : Dim) :
    L.Follows strict (fun _ _ => True) (checkDim ctx r) s (checkDim ctx' r) s' := by
  rw [hctx.checkDim_eq]
  unfold checkDim
  split
  · rename_i i
    by_cases hbound : ctx.bindsDim i = true
    · simp only [hbound, if_true]
      exact .pure trivial
    · simp only [hbound]
      exact .of_ne_ok nofun
  · exact .pure trivial

/-- The check of a face formula is followed. -/
theorem follows_checkFormula (hctx : L.Contexts ctx ctx') (φ : Face) :
    L.Follows strict (fun _ _ => True) (checkFormula ctx φ) s (checkFormula ctx' φ) s' := by
  rw [hctx.checkFormula_eq]
  unfold checkFormula
  split
  · exact .of_ne_ok nofun
  · exact .pure trivial

/-- The check of an order of smoothness is followed under relaxed rules. -/
theorem follows_checkOrder (hτ : σ.RelaxesTo τ) (order : Int) :
    L.Follows strict (fun _ _ => True) (Smoothness.checkOrder σ.maxSmoothOrder order) s
      (Smoothness.checkOrder τ.maxSmoothOrder order) s' :=
  .of_answers fun a _ h => ⟨a, checkOrder_relaxed hτ h, trivial⟩

/-- The taking apart of a system is followed, with the same parts. -/
theorem follows_partialElements (hctx : L.Contexts ctx ctx') (fs : List (Face × Term)) :
    L.Follows strict (· = ·) (partialElements ctx fs) s (partialElements ctx' fs) s' := by
  rw [hctx.partialElements_eq]
  induction fs generalizing s s' with
  | nil => exact .pure rfl
  | cons face rest ih =>
    unfold partialElements
    apply (follows_ofFault _).bind
    rintro c t _ t' rfl
    apply ih.bind
    rintro ps t₁ _ t₁' rfl
    exact .pure rfl

/-- The level of a universe is found again for a type that is alike. -/
theorem follows_universeLevel {v v' : Value} (hv : L.Values v v') :
    L.Follows strict (· = ·) (universeLevel (L.derivation f σ) ctx v) s
      (universeLevel (L.derivation f' τ) ctx' v') s' := by
  cases hv with
  | univ => exact .pure rfl
  | _ => exact .of_ne_ok (refuse_ne_ok _ ctx _ _ s)

/-! ## Conversion -/

section Rules

variable [L.Faithful] (hL : L.Relaxing strict f f' σ τ)
include hL

/-- A term is evaluated alike in alike environments, at points that are no probes. -/
theorem follows_evaluate {env env' : Env} (henv : L.Environments env env') {dims : IntervalEnv}
    (hdims : ∀ r ∈ dims, r.On (0 ≤ ·)) (t : Term) :
    L.Follows strict L.Values (Eval.evaluate f L.meter t env dims) s
      (Eval.evaluate f' L.meter t env' dims) s' := by
  refine .of_alike fun limit => ?_
  have hdemands : L.Demands (.evaluate true t env dims) (.evaluate true t env' dims) :=
    .evaluate henv (Dims.refl (L.fixed_of_nonneg hL.noProbes) hdims) (.refl t)
  exact run_calls hL.frames limit L _ _ s s' hdemands trivial trivial

/-- The evaluation of a term is followed, with a value that is alike. -/
theorem follows_eval (hctx : L.Contexts ctx ctx') (t : Term) :
    L.Follows strict L.Values (eval (L.derivation f σ) ctx t) s
      (eval (L.derivation f' τ) ctx' t) s' := by
  unfold eval
  rw [hctx.dims]
  exact follows_evaluate hL hctx.env hctx.points t

/-- The instantiation of an abstraction is followed, with a value that is alike. -/
theorem follows_instantiate {c c' : Closure} (hc : L.Closures c c') {v v' : Value}
    (hv : L.Values v v') :
    L.Follows strict L.Values (Eval.run f L.meter (.instantiate c (.value v))) s
      (Eval.run f' L.meter (.instantiate c' (.value v'))) s' :=
  .of_alike fun limit =>
    run_calls hL.frames limit L _ _ s s' (.instantiate hc (.value hv)) trivial trivial

/-- The look-up of a family at a point is followed, with a type that is alike. -/
theorem follows_lineAt {a a' : Line} (ha : L.Lines a a') {r : Interval} (hr : r.On (0 ≤ ·)) :
    L.Follows strict L.Values (lineAt (L.derivation f σ) a r) s
      (lineAt (L.derivation f' τ) a' r) s' := by
  refine .of_alike fun limit => ?_
  exact alike_lineAt (run_calls hL.frames limit) ha (points_refl (L.fixed_of_nonneg hL.noProbes) hr)

/-- Conversion gives the same verdict on values that are alike. -/
theorem follows_conv (hctx : L.Contexts ctx ctx') {v v' w w' : Value} (hv : L.Values v v')
    (hw : L.Values w w') :
    L.Follows strict (· = ·) (conv (L.derivation f σ) ctx v w) s
      (conv (L.derivation f' τ) ctx' v' w') s' := by
  unfold conv
  rw [hctx.depth_eq, hctx.dimDepth_eq]
  exact .of_alike fun limit => alike_convertible hL.noProbes hL.frames (Int.natCast_nonneg _) hv hw

/-- What may stand for another type still may under relaxed rules. -/
theorem follows_weakens (hctx : L.Contexts ctx ctx') {v v' w w' : Value}
    (hv : L.Values v v') (hw : L.Values w w') :
    L.Follows strict (fun b b' => b = true → b' = true) (weakens (L.derivation f σ) ctx v w) s
      (weakens (L.derivation f' τ) ctx' v' w') s' := by
  have hno {x y : Bool} (hx : x = false) : L.Follows strict (fun b b' => b = true → b' = true)
      (pure x : Run Bool) s (pure y : Run Bool) s' := by
    refine .pure fun htrue => ?_
    rw [hx] at htrue
    cases htrue
  cases hv with
  | univ =>
    cases hw with
    | univ =>
      refine .pure fun htrue => ?_
      obtain ⟨hrule, hle⟩ := Bool.and_eq_true_iff.1 htrue
      exact Bool.and_eq_true_iff.2 ⟨hL.rules.cumulative hrule, hle⟩
    | _ => exact hno rfl
  | @smoothPath order _ _ _ _ _ _ ha hl hr =>
    cases hw with
    | @smoothPath order' _ _ _ _ _ _ ha' hl' hr' =>
      have hsmooth (a l r : Value) :
          (Value.smoothPath order a l r).isSmooth order' = decide (order' ≤ order) := rfl
      by_cases hle : order' ≤ order
      · simp only [weakens, hsmooth, hle, decide_true, if_true]
        refine (follows_conv hL hctx (.smoothPath ha hl hr) (.smoothPath ha' hl' hr')).mono ?_
        rintro b _ rfl
        exact id
      · simp only [weakens, hsmooth, hle, decide_false]
        exact hno rfl
    | _ => exact hno rfl
  | _ => exact hno rfl

/-- Types that pass for each other are followed by alike ones that do, under relaxed rules. -/
theorem follows_convert (hctx : L.Contexts ctx ctx') {v v' w w' : Value}
    (hv : L.Values v v') (hw : L.Values w w') :
    L.Follows strict (fun _ _ => True) (convert (L.derivation f σ) ctx v w) s
      (convert (L.derivation f' τ) ctx' v' w') s' := by
  unfold convert
  apply (follows_conv hL hctx hv hw).bind
  rintro b t _ t' rfl
  cases b with
  | true => exact .pure trivial
  | false =>
    apply (follows_weakens hL hctx hv hw).bind
    intro b t b' t' hb
    cases b with
    | true =>
      rw [hb rfl]
      exact .pure trivial
    | false =>
      refine .of_ne_ok fun a r h => ?_
      obtain ⟨_, _, _, h⟩ := Run.bind_eq_ok.1 h
      exact report_ne_ok _ ctx v w _ a r h

/-- A judgment that concludes is followed by one that does, with a type that is alike. -/
theorem follows_conclude (hctx : L.Contexts ctx ctx')
    {goal goal' : Option Value} (hgoal : Option.Rel L.Values goal goal') {v v' : Value}
    (hv : L.Values v v') :
    L.Follows strict L.Values (conclude (L.derivation f σ) ctx goal v) s
      (conclude (L.derivation f' τ) ctx' goal' v') s' := by
  cases hgoal with
  | none => exact .pure hv
  | some hw =>
    apply (follows_convert hL hctx hv hw).bind
    intro _ _ _ _ _
    exact .pure hv

/-! ## Ends and partial elements -/

/-- A body that ends as it should does so in a context that is alike. -/
theorem follows_checkEnd (hctx : L.Contexts ctx ctx') (body : Term) {r : Interval}
    (hr : r.On (0 ≤ ·)) {v v' : Value} (hv : L.Values v v') :
    L.Follows strict (fun _ _ => True) (checkEnd (L.derivation f σ) ctx body r v) s
      (checkEnd (L.derivation f' τ) ctx' body r v') s' := by
  have hdims : ∀ r' ∈ r :: ctx.dims, r'.On (0 ≤ ·) := List.forall_mem_cons.2 ⟨hr, hctx.points⟩
  unfold checkEnd
  rw [hctx.dims]
  apply (follows_evaluate hL hctx.env hdims body).bind
  intro w t w' t' hw
  apply (follows_conv hL hctx hw hv).bind
  rintro b t₁ _ t₁' rfl
  cases b with
  | true => exact .pure trivial
  | false => exact .of_ne_ok (report_ne_ok _ ctx w v t₁)

/-- A body that ends as it should at both ends does so in a context that is alike. -/
theorem follows_checkEnds (hctx : L.Contexts ctx ctx') (body : Term) {l l' r r' : Value}
    (hl : L.Values l l') (hr : L.Values r r') :
    L.Follows strict (fun _ _ => True) (checkEnds (L.derivation f σ) ctx body l r) s
      (checkEnds (L.derivation f' τ) ctx' body l' r') s' := by
  apply (follows_checkEnd hL hctx body (r := .zero) trivial hl).bind
  intro _ _ _ _ _
  exact follows_checkEnd hL hctx body (r := .one) trivial hr

/-- Partial elements that agree on a clause do so in a context that is alike. -/
theorem follows_checkOverlapOn (hctx : L.Contexts ctx ctx') (p q : PartialElement) (c : Clause) :
    L.Follows strict (fun _ _ => True) (checkOverlapOn (L.derivation f σ) ctx p q c) s
      (checkOverlapOn (L.derivation f' τ) ctx' p q c) s' := by
  have hdims : ∀ r ∈ ctx.freshDim :: ctx.dims.substitute c, r.On (0 ≤ ·) :=
    List.forall_mem_cons.2 ⟨Int.natCast_nonneg _, IntervalEnv.substitute_on c hctx.points⟩
  unfold checkOverlapOn
  rw [hctx.dims, hctx.freshDim_eq, hctx.depth_eq, hctx.dimDepth_eq]
  apply (follows_evaluate hL hctx.env hdims p.body).bind
  intro u t u' t' hu
  apply (follows_evaluate hL hctx.env hdims q.body).bind
  intro v t₁ v' t₁' hv
  have hnonneg : 0 ≤ ctx.dimDepth + 1 := Int.natCast_nonneg (ctx.dims.length + 1)
  apply (Follows.of_alike fun limit => alike_convertible hL.noProbes hL.frames hnonneg hu hv).bind
  rintro b t₂ _ t₂' rfl
  cases b with
  | true => exact .pure trivial
  | false => exact .of_ne_ok nofun

/-- Partial elements that agree with each other do so in a context that is alike. -/
theorem follows_checkOverlaps (hctx : L.Contexts ctx ctx') (ps : List PartialElement) :
    L.Follows strict (fun _ _ => True) (checkOverlaps (L.derivation f σ) ctx ps) s
      (checkOverlaps (L.derivation f' τ) ctx' ps) s' := by
  induction ps generalizing s s' with
  | nil => exact .pure trivial
  | cons p rest ih =>
    have hrest (q : PartialElement) (t t' : Session) :
        L.Follows strict (fun _ _ => True) (checkOverlap (L.derivation f σ) ctx p q) t
          (checkOverlap (L.derivation f' τ) ctx' p q) t' :=
      .forM (fun c _ _ => follows_checkOverlapOn hL hctx p q c) _
    apply (Follows.forM hrest rest).bind
    intro _ _ _ _ _
    exact ih

/-- How the formula is written shows only where the comparison fails. -/
theorem follows_checkBaseOn (hctx : L.Contexts ctx ctx') (source : Dim) (base : Term)
    {p q : PartialElement} (hbody : q.body = p.body) (c : Clause) :
    L.Follows strict (fun _ _ => True) (checkBaseOn (L.derivation f σ) ctx source base p c) s
      (checkBaseOn (L.derivation f' τ) ctx' source base q c) s' := by
  have hdims := IntervalEnv.substitute_on c hctx.points
  unfold checkBaseOn
  rw [hctx.dims, hbody]
  apply (follows_resolve hdims source).bind
  rintro r t _ t' ⟨rfl, hr⟩
  apply (follows_evaluate hL hctx.env (List.forall_mem_cons.2 ⟨hr, hdims⟩) p.body).bind
  intro u t₁ u' t₁' hu
  apply (follows_evaluate hL hctx.env hdims base).bind
  intro v t₂ v' t₂' hv
  apply (follows_conv hL hctx hu hv).bind
  rintro b t₃ _ t₃' rfl
  cases b with
  | true => exact .pure trivial
  | false => exact .of_ne_ok nofun

/-- Where partial elements are no longer compared there is nothing that could fail. -/
theorem follows_checkAgreement (hctx : L.Contexts ctx ctx') (source : Dim)
    (fs : List (Face × Term)) (base : Term) :
    L.Follows strict (fun _ _ => True) (checkAgreement (L.derivation f σ) ctx source fs base) s
      (checkAgreement (L.derivation f' τ) ctx' source fs base) s' := by
  cases hoff : τ.checkFaceAgreement with
  | false =>
    refine .of_answers fun _ _ _ => ⟨(), ?_, trivial⟩
    simp only [checkAgreement, hoff]
    rfl
  | true =>
    simp only [checkAgreement, hoff, hL.rules.checkFaceAgreement hoff, if_true]
    apply (follows_partialElements hctx fs).bind
    rintro ps t _ t' rfl
    apply (follows_checkOverlaps hL hctx ps).bind
    intro _ t₁ _ t₁' _
    refine .forM (fun p _ _ => ?_) ps
    exact .forM (fun c _ _ => follows_checkBaseOn hL hctx source base rfl c) _

end Rules

/-! ## Judgments -/

/-- In contexts that are alike and against goals that are alike, a judgment on the term is followed
by the one under relaxed rules. -/
def FollowedJudgment (L : Likeness) (strict : Prop) (f f' : Nat) (σ τ : Settings) (t : Term) :
    Prop :=
  ∀ (ctx ctx' : Context) (goal goal' : Option Value) (s s' : Session), L.Contexts ctx ctx' →
    Option.Rel L.Values goal goal' →
    L.Follows strict L.Values (judge (L.derivation f σ) t ctx goal) s
      (judge (L.derivation f' τ) t ctx' goal') s'

/-- Where a judgment is followed, so is inference. -/
theorem FollowedJudgment.infers {t : Term} (h : L.FollowedJudgment strict f f' σ τ t)
    (hctx : L.Contexts ctx ctx') :
    L.Follows strict L.Values (judge (L.derivation f σ) t ctx none) s
      (judge (L.derivation f' τ) t ctx' none) s' :=
  h ctx ctx' none none s s' hctx .none

/-- Where a judgment is followed, so is the check against a type. -/
theorem FollowedJudgment.checks {t : Term} (h : L.FollowedJudgment strict f f' σ τ t)
    (hctx : L.Contexts ctx ctx') {v v' : Value} (hv : L.Values v v') :
    L.Follows strict L.Values (judge (L.derivation f σ) t ctx (some v)) s
      (judge (L.derivation f' τ) t ctx' (some v')) s' :=
  h ctx ctx' (some v) (some v') s s' hctx (.some hv)

/-- Two elements are checked against a type, plain or smooth. -/
theorem follows_pathType [L.Faithful] (hL : L.Relaxing strict f f' σ τ) {a l r : Term}
    (ha : L.FollowedJudgment strict f f' σ τ a) (hl : L.FollowedJudgment strict f f' σ τ l)
    (hr : L.FollowedJudgment strict f f' σ τ r) (hctx : L.Contexts ctx ctx')
    {goal goal' : Option Value} (hgoal : Option.Rel L.Values goal goal') :
    L.Follows strict L.Values
      (do let level ← universeLevel (L.derivation f σ) ctx (← judge (L.derivation f σ) a ctx none)
          let v ← eval (L.derivation f σ) ctx a
          let _ ← judge (L.derivation f σ) l ctx (some v)
          let _ ← judge (L.derivation f σ) r ctx (some v)
          conclude (L.derivation f σ) ctx goal (.univ level)) s
      (do let level ← universeLevel (L.derivation f' τ) ctx'
            (← judge (L.derivation f' τ) a ctx' none)
          let v ← eval (L.derivation f' τ) ctx' a
          let _ ← judge (L.derivation f' τ) l ctx' (some v)
          let _ ← judge (L.derivation f' τ) r ctx' (some v)
          conclude (L.derivation f' τ) ctx' goal' (.univ level)) s' := by
  apply (ha.infers hctx).bind
  intro ty t₁ ty' t₁' hty
  apply (follows_universeLevel hty).bind
  rintro i t₂ _ t₂' rfl
  apply (follows_eval hL hctx a).bind
  intro v t₃ v' t₃' hv
  apply (hl.checks hctx hv).bind
  intro _ t₄ _ t₄' _
  apply (hr.checks hctx hv).bind
  intro _ t₅ _ t₅' _
  exact follows_conclude hL hctx hgoal .univ

/-- A Kan operation finds the family and the two points that it goes between. -/
theorem follows_kanLine (hL : L.Exact) {a : Term} (ha : L.FollowedJudgment strict f f' σ τ a)
    (hctx : L.Contexts ctx ctx') (source target : Dim)
    {next next' : Line → Interval → Interval → Run Value}
    [∀ line r r', Run.Advancing L.meter (next line r r')]
    [∀ line r r', Run.Advancing L.meter (next' line r r')]
    (hnext : ∀ line line' r r' t t', L.Lines line line' → r.On (0 ≤ ·) → r'.On (0 ≤ ·) →
      L.Follows strict L.Values (next line r r') t (next' line' r r') t') :
    L.Follows strict L.Values
      (do let _ ← universeLevel (L.derivation f σ) ctx.extendDim
            (← judge (L.derivation f σ) a ctx.extendDim none)
          checkDim ctx source
          checkDim ctx target
          let line ← Eval.closeFamily a ctx.env ctx.dims
          let r ← Run.ofFault (IntervalEnv.resolve ctx.dims source)
          let r' ← Run.ofFault (IntervalEnv.resolve ctx.dims target)
          next line r r') s
      (do let _ ← universeLevel (L.derivation f' τ) ctx'.extendDim
            (← judge (L.derivation f' τ) a ctx'.extendDim none)
          checkDim ctx' source
          checkDim ctx' target
          let line ← Eval.closeFamily a ctx'.env ctx'.dims
          let r ← Run.ofFault (IntervalEnv.resolve ctx'.dims source)
          let r' ← Run.ofFault (IntervalEnv.resolve ctx'.dims target)
          next' line r r') s' := by
  have hfamily {t t' : Session} : L.Follows strict L.Lines (Eval.closeFamily a ctx.env ctx.dims) t
      (Eval.closeFamily a ctx'.env ctx.dims) t' := by
    refine .of_alike fun limit => ?_
    exact alike_closeFamily (a.matches_same (fun _ => rfl) (Under.refl fun _ => rfl)) hctx.env
      (Dims.refl (L.fixed_of_nonneg hL) hctx.points)
  rw [hctx.dims]
  apply (ha.infers hctx.extendDim).bind
  intro ty t₁ ty' t₁' hty
  apply (follows_universeLevel hty).bind
  rintro i t₂ _ t₂' rfl
  apply (follows_checkDim hctx source).bind
  intro _ t₃ _ t₃' _
  apply (follows_checkDim hctx target).bind
  intro _ t₄ _ t₄' _
  apply hfamily.bind
  intro line t₅ line' t₅' hline
  apply (follows_resolve hctx.points source).bind
  rintro r t₆ _ t₆' ⟨rfl, hr⟩
  apply (follows_resolve hctx.points target).bind
  rintro r' t₇ _ t₇' ⟨rfl, hr'⟩
  exact hnext line line' r r' t₇ t₇' hline hr hr'

mutual

/-- In sessions that are alike, a judgment under relaxed rules answers where the other does, with a
type that is alike, unless it is cut off. -/
theorem judge_follows [L.Faithful] (hL : L.Relaxing strict f f' σ τ) :
    ∀ t : Term, L.FollowedJudgment strict f f' σ τ t
  | .univ _ => fun _ _ _ _ _ _ hctx hgoal => follows_conclude hL hctx hgoal .univ
  | .var i => by
    intro ctx ctx' goal goal' s s' hctx hgoal
    unfold judge
    apply (Follows.of_alike fun _ => .ofFault (hctx.find i)).bind
    intro b t b' t' hb
    exact follows_conclude hL hctx hgoal hb
  | .pi x a b => by
    intro ctx ctx' goal goal' s s' hctx hgoal
    unfold judge
    apply ((judge_follows hL a).infers hctx).bind
    intro ty t₁ ty' t₁' hty
    apply (follows_universeLevel hty).bind
    rintro i t₂ _ t₂' rfl
    apply (follows_eval hL hctx a).bind
    intro v t₃ v' t₃' hv
    apply ((judge_follows hL b).infers (hctx.extend x hv)).bind
    intro ty t₄ ty' t₄' hty
    apply (follows_universeLevel hty).bind
    rintro j t₅ _ t₅' rfl
    exact follows_conclude hL hctx hgoal .univ
  | .lam x b => by
    intro ctx ctx' goal goal' s s' hctx hgoal
    unfold judge
    cases hgoal with
    | none => exact .of_ne_ok nofun
    | some hg =>
      cases hg with
      | @pi y dom dom' cod cod' hdom hcod =>
        have hvar : L.Values (ctx.nextVar dom) (ctx'.nextVar dom') := by
          unfold Context.nextVar
          rw [hctx.depth_eq]
          exact .typed .var hdom
        apply (follows_instantiate hL hcod hvar).bind
        intro ty t₁ ty' t₁' hty
        exact (judge_follows hL b).checks (hctx.extend x hdom) hty
      | _ => exact .of_ne_ok (refuse_ne_ok _ ctx _ _ s)
  | .app g a => by
    intro ctx ctx' goal goal' s s' hctx hgoal
    unfold judge
    refine ((judge_follows hL g).infers hctx).andThen (fun ty => ?_) (fun ty => ?_) ?_
    · split <;> infer_instance
    · split <;> infer_instance
    intro ty t₁ ty' t₁' hty
    cases hty with
    | pi hdom hcod =>
      apply ((judge_follows hL a).checks hctx hdom).bind
      intro _ t₂ _ t₂' _
      apply (follows_eval hL hctx a).bind
      intro v t₃ v' t₃' hv
      apply (follows_instantiate hL hcod hv).bind
      intro ty t₄ ty' t₄' hty
      exact follows_conclude hL hctx hgoal hty
    | _ => exact .of_ne_ok (refuse_ne_ok _ ctx _ _ t₁)
  | .path a l r => by
    intro ctx ctx' goal goal' s s' hctx hgoal
    unfold judge
    exact follows_pathType hL (judge_follows hL a) (judge_follows hL l)
      (judge_follows hL r) hctx hgoal
  | .pathLam x b => by
    intro ctx ctx' goal goal' s s' hctx hgoal
    have ends {a a' l l' r r' : Value} (ha : L.Values a a') (hl : L.Values l l')
        (hr : L.Values r r') :
        L.Follows strict L.Values
          (do let _ ← judge (L.derivation f σ) b ctx.extendDim (some a)
              checkEnds (L.derivation f σ) ctx b l r
              return a) s
          (do let _ ← judge (L.derivation f' τ) b ctx'.extendDim (some a')
              checkEnds (L.derivation f' τ) ctx' b l' r'
              return a') s' := by
      apply ((judge_follows hL b).checks hctx.extendDim ha).bind
      intro _ t₁ _ t₁' _
      apply (follows_checkEnds hL hctx b hl hr).bind
      intro _ t₂ _ t₂' _
      exact .pure ha
    unfold judge
    cases hgoal with
    | none => exact .of_ne_ok nofun
    | some hg =>
      cases hg with
      | path ha hl hr => exact ends ha hl hr
      | smoothPath ha hl hr => exact ends ha hl hr
      | _ => exact .of_ne_ok (refuse_ne_ok _ ctx _ _ s)
  | .pathApp p r => by
    intro ctx ctx' goal goal' s s' hctx hgoal
    unfold judge
    refine (follows_checkDim hctx r).andThen (fun _ => ?_) (fun _ => ?_) fun _ t₁ _ t₁' _ => ?_
    · refine @Run.Advancing.bind _ _ _ _ _ inferInstance fun ty => ?_
      split <;> infer_instance
    · refine @Run.Advancing.bind _ _ _ _ _ inferInstance fun ty => ?_
      split <;> infer_instance
    refine ((judge_follows hL p).infers hctx).andThen (fun ty => ?_) (fun ty => ?_) ?_
    · split <;> infer_instance
    · split <;> infer_instance
    intro ty t₂ ty' t₂' hty
    cases hty with
    | path ha _ _ => exact follows_conclude hL hctx hgoal ha
    | smoothPath ha _ _ => exact follows_conclude hL hctx hgoal ha
    | _ => exact .of_ne_ok (refuse_ne_ok _ ctx _ _ t₂)
  | .smoothPath order a l r => by
    intro ctx ctx' goal goal' s s' hctx hgoal
    unfold judge
    apply (follows_checkOrder hL.rules order).bind
    intro _ t₁ _ t₁' _
    exact follows_pathType hL (judge_follows hL a) (judge_follows hL l)
      (judge_follows hL r) hctx hgoal
  | .comp source target a fs b => by
    intro ctx ctx' goal goal' s s' hctx hgoal
    unfold judge
    apply follows_kanLine hL.noProbes (judge_follows hL a) hctx
    intro line line' r r' t t' hline hr hr'
    apply (follows_lineAt hL hline hr).bind
    intro start t₁ start' t₁' hstart
    apply ((judge_follows hL b).checks hctx hstart).bind
    intro _ t₂ _ t₂' _
    rw [hctx.freshDim_eq]
    apply (follows_lineAt hL hline (r := ctx.freshDim) (Int.natCast_nonneg _)).bind
    intro along t₃ along' t₃' halong
    apply (judgeFaces_follows hL fs hctx halong).bind
    intro _ t₄ _ t₄' _
    apply (follows_checkAgreement hL hctx source fs b).bind
    intro _ t₅ _ t₅' _
    apply (follows_lineAt hL hline hr').bind
    intro ty t₆ ty' t₆' hty
    exact follows_conclude hL hctx hgoal hty
  | .coe source target a b => by
    intro ctx ctx' goal goal' s s' hctx hgoal
    unfold judge
    apply follows_kanLine hL.noProbes (judge_follows hL a) hctx
    intro line line' r r' t t' hline hr hr'
    apply (follows_lineAt hL hline hr).bind
    intro start t₁ start' t₁' hstart
    apply ((judge_follows hL b).checks hctx hstart).bind
    intro _ t₂ _ t₂' _
    apply (follows_lineAt hL hline hr').bind
    intro ty t₃ ty' t₃' hty
    exact follows_conclude hL hctx hgoal hty
  | .hcomp a fs b => by
    intro ctx ctx' goal goal' s s' hctx hgoal
    unfold judge
    apply ((judge_follows hL a).infers hctx).bind
    intro ty t₁ ty' t₁' hty
    apply (follows_universeLevel hty).bind
    rintro i t₂ _ t₂' rfl
    apply (follows_eval hL hctx a).bind
    intro v t₃ v' t₃' hv
    apply ((judge_follows hL b).checks hctx hv).bind
    intro _ t₄ _ t₄' _
    apply (judgeFaces_follows hL fs hctx hv).bind
    intro _ t₅ _ t₅' _
    apply (follows_checkAgreement hL hctx .zero fs b).bind
    intro _ t₆ _ t₆' _
    exact follows_conclude hL hctx hgoal hv
  | .missing => fun _ _ _ _ _ _ _ _ => .of_ne_ok nofun

/-- A system that is accepted is accepted under relaxed rules, in a context that is alike. -/
theorem judgeFaces_follows [L.Faithful] (hL : L.Relaxing strict f f' σ τ) :
    ∀ (fs : List (Face × Term)) {ctx ctx' : Context} {along along' : Value} {s s' : Session},
      L.Contexts ctx ctx' → L.Values along along' →
      L.Follows strict (fun _ _ => True) (judgeFaces (L.derivation f σ) fs ctx along) s
        (judgeFaces (L.derivation f' τ) fs ctx' along') s'
  | [], _, _, _, _, _, _, _, _ => .pure trivial
  | (φ, u) :: rest, ctx, ctx', along, along', s, s', hctx, halong => by
    unfold judgeFaces
    apply (follows_checkFormula hctx φ).bind
    intro _ t₁ _ t₁' _
    apply ((judge_follows hL u).checks hctx.extendDim halong).bind
    intro _ t₂ _ t₂' _
    exact judgeFaces_follows hL rest hctx halong

end

end Likeness

end SmoothCubical
