import SmoothCubical.Proofs.Guards.Typing

/-!
# Relaxed rules of typing

Three rules can be relaxed: universes may be cumulative, smooth path types may have larger orders,
and partial elements need not be compared where they overlap. The first two only ever spare a
derivation a failure. So long as it does not fail it takes the very same steps under the relaxed
rules (`judge_below`), and it leaves the session as it would have, but for the rules that are
written in its account (`derivation_relaxed`). The third is another matter: a comparison that is
left out has run computations, the values of which would have been kept.
-/

set_option autoImplicit false

namespace SmoothCubical

/-- The second settings have the same guards, and rules as strict as those of the first or less. -/
structure Settings.RelaxesTo (a b : Settings) : Prop where
  maxDepth : a.maxDepth = b.maxDepth
  fuel : a.fuel = b.fuel
  universeRule :
    a.universeRule = b.universeRule ∨ a.universeRule = .max ∧ b.universeRule = .cumulative
  maxSmoothOrder : a.maxSmoothOrder ≤ b.maxSmoothOrder
  checkFaceAgreement : b.checkFaceAgreement = true → a.checkFaceAgreement = true

namespace Settings

/-- Settings are as relaxed as themselves. -/
theorem RelaxesTo.refl (a : Settings) : a.RelaxesTo a :=
  ⟨rfl, rfl, .inl rfl, Nat.le_refl _, id⟩

/-- Where universes are cumulative they stay so under relaxed rules. -/
theorem RelaxesTo.cumulative {a b : Settings} (h : a.RelaxesTo b) (ha : a.cumulative = true) :
    b.cumulative = true := by
  unfold Settings.cumulative at ha ⊢
  rcases h.universeRule with heq | ⟨_, hb⟩
  · rwa [← heq]
  · rw [hb]
    rfl

/-- The guards are kept, and the rules of typing are free. -/
def sameGuards : Widening where
  rel a b := a.maxDepth = b.maxDepth ∧ a.fuel = b.fuel
  refl _ := ⟨rfl, rfl⟩
  maxDepth h := Nat.le_of_eq h.1
  fuel h := Nat.le_of_eq h.2

end Settings

/-- Where the first run answers, the second gives the same answer and leaves the same session. -/
def Run.Below {α : Type} (x y : Run α) : Prop :=
  ∀ s a t, x s = .ok a t → y s = .ok a t

/-- The derivation under other rules. -/
def Derivation.under (d : Derivation) (settings : Settings) : Derivation :=
  { d with settings }

namespace Run.Below

variable {α β : Type}

/-- A run answers where it answers. -/
theorem refl (x : Run α) : Below x x :=
  fun _ _ _ h => h

/-- If each part answers where the other does, so does the sequence. -/
theorem bind {x y : Run α} {f g : α → Run β} (hxy : Below x y) (hfg : ∀ a, Below (f a) (g a)) :
    Below (x >>= f) (y >>= g) := by
  intro s b t h
  obtain ⟨a, s₁, hx, hf⟩ := Run.bind_eq_ok.1 h
  exact Run.bind_eq_ok.2 ⟨a, s₁, hxy s a s₁ hx, hfg a s₁ b t hf⟩

end Run.Below

/-! ## Judgments -/

namespace Typing

open Run

/-- A report of a mismatch is no answer. -/
theorem report_ne_ok (d : Derivation) (ctx : Context) (v w : Value) (s : Session) (a : Unit)
    (t : Session) :
    (do let wanted ← quote d ctx w
        let found ← quote d ctx v
        throw (.typeMismatch (.term wanted) (.term found)) : Run Unit) s ≠ .ok a t := by
  intro h
  obtain ⟨_, _, _, h⟩ := Run.bind_eq_ok.1 h
  obtain ⟨_, _, _, h⟩ := Run.bind_eq_ok.1 h
  cases h

/-- Nor is the report of a value of the wrong shape. -/
theorem refuse_ne_ok {α : Type} (d : Derivation) (ctx : Context) (v : Value) (f : Term → Failure)
    (s : Session) (a : α) (t : Session) :
    (do throw (f (← quote d ctx v)) : Run α) s ≠ .ok a t := by
  intro h
  obtain ⟨_, _, _, h⟩ := Run.bind_eq_ok.1 h
  cases h

/-- An order that was admitted still is. -/
theorem checkOrder_relaxed {σ τ : Settings} (hτ : σ.RelaxesTo τ) {order : Int} {s s' t : Session}
    {a : Unit} (h : Smoothness.checkOrder σ.maxSmoothOrder order s = .ok a t) :
    Smoothness.checkOrder τ.maxSmoothOrder order s' = .ok a s' := by
  have hle : (σ.maxSmoothOrder : Int) ≤ (τ.maxSmoothOrder : Int) := Int.ofNat_le.2 hτ.maxSmoothOrder
  unfold Smoothness.checkOrder at h ⊢
  split at h
  · cases h
  · rw [if_neg (by omega)]
    rfl

section Rules

variable {d : Derivation} {τ : Settings} (hτ : d.settings.RelaxesTo τ)
include hτ

/-- A type that may stand for another still may. -/
theorem weakens_relaxed {ctx : Context} {v w : Value} {s t : Session}
    (h : weakens d ctx v w s = .ok true t) : weakens (d.under τ) ctx v w s = .ok true t := by
  unfold weakens at h ⊢
  split at h
  · obtain ⟨htrue, rfl⟩ := EStateM.Result.ok.inj h
    obtain ⟨hrule, hle⟩ := Bool.and_eq_true_iff.1 htrue
    have hrule' : (d.under τ).settings.cumulative = true := hτ.cumulative hrule
    simp only [hrule', hle]
    rfl
  · exact h
  · cases h

/-- Types that pass for each other do so under relaxed rules. -/
theorem convert_below (ctx : Context) (v w : Value) :
    Below (convert d ctx v w) (convert (d.under τ) ctx v w) := by
  intro s a t h
  obtain ⟨b, s₁, hb, h⟩ := Run.bind_eq_ok.1 h
  refine Run.bind_eq_ok.2 ⟨b, s₁, hb, ?_⟩
  cases b with
  | true => exact h
  | false =>
    obtain ⟨b', s₂, hb', h⟩ := Run.bind_eq_ok.1 h
    cases b' with
    | true => exact Run.bind_eq_ok.2 ⟨true, s₂, weakens_relaxed hτ hb', h⟩
    | false =>
      obtain ⟨_, s₃, _, h⟩ := Run.bind_eq_ok.1 h
      exact (report_ne_ok d ctx v w s₃ a t h).elim

/-- A judgment that concludes does so under relaxed rules. -/
theorem conclude_below (ctx : Context) (goal : Option Value) (v : Value) :
    Below (conclude d ctx goal v) (conclude (d.under τ) ctx goal v) := by
  cases goal with
  | none => exact .refl _
  | some w => exact (convert_below hτ ctx v w).bind fun _ => .refl _

/-- An order of smoothness that is allowed is so under relaxed rules. -/
theorem checkOrder_below (order : Int) :
    Below (Smoothness.checkOrder d.settings.maxSmoothOrder order)
      (Smoothness.checkOrder (d.under τ).settings.maxSmoothOrder order) := by
  intro s a t h
  have hsame : t = s := by
    unfold Smoothness.checkOrder at h
    split at h <;> cases h
    rfl
  rw [hsame]
  exact checkOrder_relaxed hτ h

end Rules

/-- The level of a universe does not depend on the rules. -/
theorem universeLevel_under (d : Derivation) (τ : Settings) (ctx : Context) (v : Value) :
    universeLevel (d.under τ) ctx v = universeLevel d ctx v := by
  cases v <;> rfl

/-- Whether partial elements agree does not depend on the rules. -/
theorem checkOverlaps_under (d : Derivation) (τ : Settings) (ctx : Context)
    (ps : List PartialElement) : checkOverlaps (d.under τ) ctx ps = checkOverlaps d ctx ps := by
  induction ps with
  | nil => rfl
  | cons p rest ih =>
    unfold checkOverlaps
    rw [ih]
    rfl

/-- If both rules compare partial elements, or neither does, they are compared in the same way. -/
theorem checkAgreement_under {d : Derivation} {τ : Settings}
    (h : d.settings.checkFaceAgreement = τ.checkFaceAgreement) (ctx : Context) (source : Dim)
    (fs : List (Face × Term)) (base : Term) :
    checkAgreement (d.under τ) ctx source fs base = checkAgreement d ctx source fs base := by
  have hrule : (d.under τ).settings.checkFaceAgreement = d.settings.checkFaceAgreement := h.symm
  unfold checkAgreement
  simp only [hrule, checkOverlaps_under]
  rfl

mutual

/-- Under relaxed rules a judgment takes the same steps, so long as partial elements are compared
as before and the judgment does not fail. -/
theorem judge_below {d : Derivation} {τ : Settings} (hτ : d.settings.RelaxesTo τ)
    (hagree : d.settings.checkFaceAgreement = τ.checkFaceAgreement) :
    ∀ (t : Term) (ctx : Context) (goal : Option Value),
      Below (judge d t ctx goal) (judge (d.under τ) t ctx goal)
  | .univ _, ctx, goal => conclude_below hτ ctx goal _
  | .var i, ctx, goal =>
    (Below.refl (ofFault (ctx.find i))).bind fun b => conclude_below hτ ctx goal b.ty
  | .pi x a b, ctx, goal => by
    unfold judge
    simp only [universeLevel_under]
    refine (judge_below hτ hagree a ctx none).bind fun ty => (Below.refl _).bind fun i => ?_
    refine (Below.refl (eval d ctx a)).bind fun v => ?_
    refine (judge_below hτ hagree b (ctx.extend x v) none).bind fun ty' => ?_
    exact (Below.refl _).bind fun j => conclude_below hτ ctx goal _
  | .lam x b, ctx, goal => by
    unfold judge
    split
    · exact .refl _
    · exact (Below.refl _).bind fun ty => judge_below hτ hagree b _ (some ty)
    · exact .refl _
  | .app f a, ctx, goal => by
    unfold judge
    refine (judge_below hτ hagree f ctx none).bind fun ty => ?_
    split
    · refine (judge_below hτ hagree a ctx _).bind fun _ => ?_
      refine (Below.refl (eval d ctx a)).bind fun v => (Below.refl _).bind fun ty' => ?_
      exact conclude_below hτ ctx goal ty'
    · exact .refl _
  | .path a l r, ctx, goal => by
    unfold judge
    simp only [universeLevel_under]
    refine (judge_below hτ hagree a ctx none).bind fun ty => (Below.refl _).bind fun i => ?_
    refine (Below.refl (eval d ctx a)).bind fun v => ?_
    refine (judge_below hτ hagree l ctx (some v)).bind fun _ => ?_
    exact (judge_below hτ hagree r ctx (some v)).bind fun _ => conclude_below hτ ctx goal _
  | .pathLam x b, ctx, goal => by
    unfold judge
    split
    · exact .refl _
    · exact (judge_below hτ hagree b ctx.extendDim _).bind fun _ => .refl _
    · exact (judge_below hτ hagree b ctx.extendDim _).bind fun _ => .refl _
    · exact .refl _
  | .pathApp p r, ctx, goal => by
    unfold judge
    refine (Below.refl (checkDim ctx r)).bind fun _ => ?_
    refine (judge_below hτ hagree p ctx none).bind fun ty => ?_
    split
    · exact conclude_below hτ ctx goal _
    · exact conclude_below hτ ctx goal _
    · exact .refl _
  | .smoothPath order a l r, ctx, goal => by
    unfold judge
    simp only [universeLevel_under]
    refine (checkOrder_below hτ order).bind fun _ => ?_
    refine (judge_below hτ hagree a ctx none).bind fun ty => (Below.refl _).bind fun i => ?_
    refine (Below.refl (eval d ctx a)).bind fun v => ?_
    refine (judge_below hτ hagree l ctx (some v)).bind fun _ => ?_
    exact (judge_below hτ hagree r ctx (some v)).bind fun _ => conclude_below hτ ctx goal _
  | .comp s t a fs b, ctx, goal => by
    unfold judge
    simp only [universeLevel_under, checkAgreement_under hagree]
    refine (judge_below hτ hagree a ctx.extendDim none).bind fun ty => ?_
    refine (Below.refl _).bind fun _ => (Below.refl (checkDim ctx s)).bind fun _ => ?_
    refine (Below.refl (checkDim ctx t)).bind fun _ => (Below.refl _).bind fun line => ?_
    refine (Below.refl _).bind fun r => (Below.refl _).bind fun r' => ?_
    refine (Below.refl (lineAt d line r)).bind fun start => ?_
    refine (judge_below hτ hagree b ctx (some start)).bind fun _ => ?_
    refine (Below.refl (lineAt d line ctx.freshDim)).bind fun along => ?_
    refine (judgeFaces_below hτ hagree fs ctx along).bind fun _ => (Below.refl _).bind fun _ => ?_
    exact (Below.refl (lineAt d line r')).bind fun ty => conclude_below hτ ctx goal ty
  | .coe s t a b, ctx, goal => by
    unfold judge
    simp only [universeLevel_under]
    refine (judge_below hτ hagree a ctx.extendDim none).bind fun ty => ?_
    refine (Below.refl _).bind fun _ => (Below.refl (checkDim ctx s)).bind fun _ => ?_
    refine (Below.refl (checkDim ctx t)).bind fun _ => (Below.refl _).bind fun line => ?_
    refine (Below.refl _).bind fun r => (Below.refl _).bind fun r' => ?_
    refine (Below.refl (lineAt d line r)).bind fun start => ?_
    refine (judge_below hτ hagree b ctx (some start)).bind fun _ => ?_
    exact (Below.refl (lineAt d line r')).bind fun ty => conclude_below hτ ctx goal ty
  | .hcomp a fs b, ctx, goal => by
    unfold judge
    simp only [universeLevel_under, checkAgreement_under hagree]
    refine (judge_below hτ hagree a ctx none).bind fun ty => (Below.refl _).bind fun _ => ?_
    refine (Below.refl (eval d ctx a)).bind fun v => ?_
    refine (judge_below hτ hagree b ctx (some v)).bind fun _ => ?_
    refine (judgeFaces_below hτ hagree fs ctx v).bind fun _ => (Below.refl _).bind fun _ => ?_
    exact conclude_below hτ ctx goal v
  | .missing, _, _ => .refl _

/-- A system that is accepted is accepted under relaxed rules, if partial elements are compared as
before. -/
theorem judgeFaces_below {d : Derivation} {τ : Settings} (hτ : d.settings.RelaxesTo τ)
    (hagree : d.settings.checkFaceAgreement = τ.checkFaceAgreement) :
    ∀ (fs : List (Face × Term)) (ctx : Context) (along : Value),
      Below (judgeFaces d fs ctx along) (judgeFaces (d.under τ) fs ctx along)
  | [], _, _ => .refl _
  | (φ, u) :: rest, ctx, along => by
    unfold judgeFaces
    refine (Below.refl (checkFormula ctx φ)).bind fun _ => ?_
    refine (judge_below hτ hagree u ctx.extendDim (some along)).bind fun _ => ?_
    exact judgeFaces_below hτ hagree rest ctx along

end

end Typing

/-! ## The kernel -/

section Kernel

open Run

/-- What is judged on a new meter can be judged under relaxed rules, and the session is left as it
would have been but for the rules in the accounts. -/
theorem derivation_relaxed {σ τ : Settings} (hτ : σ.RelaxesTo τ) {frames : Nat} {α : Type}
    {f : Derivation → Run α} (hf : ∀ m, Below (f ⟨frames, m, σ⟩) (f ⟨frames, m, τ⟩))
    (hsame : ∀ m, CompletesBy Settings.sameGuards (f ⟨frames, m, τ⟩) (f ⟨frames, m, τ⟩))
    {s r : Session} {a : α} (hrun : (Kernel.derivation frames σ >>= f) s = .ok a r) :
    ∃ r', (Kernel.derivation frames τ >>= f) s = .ok a r' ∧ r.Widens Settings.sameGuards r' := by
  have hbelow : (openMeter σ >>= fun m => f ⟨frames, m, τ⟩) s = .ok a r :=
    Below.bind (.refl (openMeter σ)) hf s a r hrun
  have hout := openMeter_completesBy (ρ := Settings.sameGuards) ⟨hτ.maxDepth, hτ.fuel⟩ hsame s s
    (.refl s)
  rw [hbelow] at hout
  generalize hrun' : (openMeter τ >>= fun m => f ⟨frames, m, τ⟩) s = y at hout
  cases hout with
  | ok hr => exact ⟨_, hrun', hr⟩

/-- A value is read back as before in a session that differs in the rules in its accounts. -/
theorem quote_sameGuards {σ τ : Settings} (hτ : σ.RelaxesTo τ) {r r' q : Session}
    (hr : r.Widens Settings.sameGuards r') {frames : Nat} {depth dimDepth : Int} {v : Value}
    {n : Term} (hrun : Kernel.quote frames σ depth dimDepth v r = .ok n q) :
    ∃ q', Kernel.quote frames τ depth dimDepth v r' = .ok n q' := by
  have hread (m : MeterId) : CompletesBy Settings.sameGuards
      (Readback.quote frames m depth dimDepth v) (Readback.quote frames m depth dimDepth v) :=
    Readback.quote_completes m (Nat.le_refl frames) depth dimDepth v
  have hout := openMeter_completesBy (ρ := Settings.sameGuards) ⟨hτ.maxDepth, hτ.fuel⟩ hread r r' hr
  change SameUnlessCut _ (Kernel.quote frames σ depth dimDepth v r)
    (Kernel.quote frames τ depth dimDepth v r') at hout
  rw [hrun] at hout
  generalize Kernel.quote frames τ depth dimDepth v r' = y at hout
  cases hout with
  | ok _ => exact ⟨_, rfl⟩

end Kernel

end SmoothCubical
