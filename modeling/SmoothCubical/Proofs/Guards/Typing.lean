import SmoothCubical.Kernel
import SmoothCubical.Proofs.IdleCoercion
import SmoothCubical.Proofs.Guards.Evaluation

/-!
# Guards only cut off

A judgment does under looser guards what it does under tighter ones, unless it is cut off
(`judge_completes`): the guards are looked at by evaluation and reading back only, and the rules of
typing are the same. So a larger nesting depth, more fuel and more calls that may nest never change
an answer of the kernel, nor an error other than a cut-off, nor what is spent on either
(`guards_only_cut_off`).
-/

set_option autoImplicit false

namespace SmoothCubical

/-- The second derivation runs on the same meter and by the same rules, under looser guards. -/
structure Derivation.Loosens (d d' : Derivation) : Prop where
  frames : d.frames ≤ d'.frames
  meter : d.meter = d'.meter
  settings : d.settings.Loosens d'.settings

/-- A derivation is as loose as itself. -/
theorem Derivation.Loosens.refl (d : Derivation) : d.Loosens d :=
  ⟨Nat.le_refl _, rfl, .refl _⟩

namespace Typing

open Run

variable {ρ : Settings.Widening}

section Rules

variable {d d' : Derivation} (hd : d.Loosens d')
include hd

/-! ## Conversion -/

/-- What a derivation evaluates, one with looser guards evaluates in the same way. -/
theorem evaluate_completes (t : Term) (env : Env) (dims : IntervalEnv) :
    CompletesBy ρ (Eval.evaluate d.frames d.meter t env dims)
      (Eval.evaluate d'.frames d'.meter t env dims) := by
  rw [← hd.meter]
  exact Eval.run_completes hd.frames d.meter _

/-- What a derivation instantiates, one with looser guards instantiates in the same way. -/
theorem instantiate_completes (c : Closure) (e : Entry) :
    CompletesBy ρ (Eval.run d.frames d.meter (.instantiate c e))
      (Eval.run d'.frames d'.meter (.instantiate c e)) := by
  rw [← hd.meter]
  exact Eval.run_completes hd.frames d.meter _

/-- What a derivation reads back, one with looser guards reads back in the same way. -/
theorem quote_completes (ctx : Context) (v : Value) :
    CompletesBy ρ (quote d ctx v) (quote d' ctx v) := by
  unfold quote
  rw [← hd.meter]
  exact Readback.quote_completes d.meter hd.frames ctx.depth ctx.dimDepth v

/-- What a derivation compares, one with looser guards compares in the same way. -/
theorem convertible_completes (depth count : Int) (v w : Value) :
    CompletesBy ρ (Readback.convertible d.frames d.meter depth count v w)
      (Readback.convertible d'.frames d'.meter depth count v w) := by
  rw [← hd.meter]
  exact Readback.convertible_completes d.meter hd.frames depth count v w

/-- Families are looked up in the same way under looser guards. -/
theorem lineAt_completes (a : Line) (r : Interval) :
    CompletesBy ρ (lineAt d a r) (lineAt d' a r) := by
  unfold lineAt
  rw [← hd.meter]
  exact Eval.lineAt_completes (Eval.run_completes hd.frames) d.meter a r

/-- Whether one type may stand for another without converting is answered in the same way under
looser guards. -/
theorem weakens_completes (ctx : Context) (v w : Value) :
    CompletesBy ρ (weakens d ctx v w) (weakens d' ctx v w) := by
  have hrule : d.settings.cumulative = d'.settings.cumulative := by
    unfold Settings.cumulative
    rw [hd.settings.universeRule]
  unfold weakens
  rw [hrule]
  split
  · exact .pure _
  · split
    · exact convertible_completes hd _ _ _ _
    · exact .pure _
  · exact .pure _

/-- Two types that are not what they should be are read back to be reported. -/
theorem report_completes (ctx : Context) (expected actual : Value) :
    CompletesBy ρ
      (do let wanted ← quote d ctx expected
          let found ← quote d ctx actual
          throw (.typeMismatch (.term wanted) (.term found)) : Run Unit)
      (do let wanted ← quote d' ctx expected
          let found ← quote d' ctx actual
          throw (.typeMismatch (.term wanted) (.term found))) := by
  refine (quote_completes hd ctx expected).bind fun _ => ?_
  exact (quote_completes hd ctx actual).bind fun _ => .throw _

/-- Types pass for each other in the same way under looser guards. -/
theorem convert_completes (ctx : Context) (v w : Value) :
    CompletesBy ρ (convert d ctx v w) (convert d' ctx v w) := by
  unfold convert
  refine (convertible_completes hd ctx.depth ctx.dimDepth v w).bind fun b => ?_
  split
  · exact .pure ()
  · refine (weakens_completes hd ctx v w).bind fun b => ?_
    split
    · exact .pure ()
    · exact (record_completes _).bind fun _ => report_completes hd ctx w v

/-- A judgment concludes in the same way under looser guards. -/
theorem conclude_completes (ctx : Context) (goal : Option Value) (v : Value) :
    CompletesBy ρ (conclude d ctx goal v) (conclude d' ctx goal v) := by
  cases goal with
  | none => exact .pure v
  | some g => exact (convert_completes hd ctx v g).bind fun _ => .pure v

/-- A value of the wrong shape is read back to be reported. -/
theorem refuse_completes {α : Type} (ctx : Context) (v : Value) (f : Term → Failure) :
    CompletesBy ρ (do throw (f (← quote d ctx v)) : Run α) (do throw (f (← quote d' ctx v))) :=
  (quote_completes hd ctx v).bind fun _ => .throw _

/-- The level of a universe is found in the same way under looser guards. -/
theorem universeLevel_completes (ctx : Context) (v : Value) :
    CompletesBy ρ (universeLevel d ctx v) (universeLevel d' ctx v) := by
  unfold universeLevel
  split
  · exact .pure _
  · exact refuse_completes hd ctx _ _

/-! ## The ends of paths and partial elements -/

/-- A body is checked at an end of a path in the same way under looser guards. -/
theorem checkEnd_completes (ctx : Context) (body : Term) (r : Interval) (v : Value) :
    CompletesBy ρ (checkEnd d ctx body r v) (checkEnd d' ctx body r v) := by
  unfold checkEnd
  refine (evaluate_completes hd body ctx.env (r :: ctx.dims)).bind fun w => ?_
  refine (convertible_completes hd ctx.depth ctx.dimDepth w v).bind fun b => ?_
  split
  · exact .pure ()
  · exact report_completes hd ctx v w

/-- A body is checked at both ends of a path in the same way under looser guards. -/
theorem checkEnds_completes (ctx : Context) (body : Term) (l r : Value) :
    CompletesBy ρ (checkEnds d ctx body l r) (checkEnds d' ctx body l r) :=
  (checkEnd_completes hd ctx body .zero l).bind fun _ => checkEnd_completes hd ctx body .one r

omit hd in
/-- A dimension is checked without a look at any guard. -/
theorem checkDim_completes (ctx : Context) (r : Dim) :
    CompletesBy ρ (checkDim ctx r) (checkDim ctx r) := by
  unfold checkDim
  split
  · split
    · exact .pure ()
    · exact .throw _
  · exact .pure ()

omit hd in
/-- A face formula is checked without a look at any guard. -/
theorem checkFormula_completes (ctx : Context) (φ : Face) :
    CompletesBy ρ (checkFormula ctx φ) (checkFormula ctx φ) := by
  unfold checkFormula
  split
  · exact .throw _
  · exact .pure ()

omit hd in
/-- An order of smoothness is checked without a look at any guard. -/
theorem checkOrder_completes (largest order : Int) :
    CompletesBy ρ (Smoothness.checkOrder largest order) (Smoothness.checkOrder largest order) := by
  unfold Smoothness.checkOrder
  split
  · exact .throw _
  · exact .pure ()

omit hd in
/-- A system is taken apart without a look at any guard. -/
theorem partialElements_completes (ctx : Context) (fs : List (Face × Term)) :
    CompletesBy ρ (partialElements ctx fs) (partialElements ctx fs) := by
  induction fs with
  | nil => exact .pure _
  | cons face rest ih => exact (CompletesBy.ofFault _).bind fun _ => ih.bind fun _ => .pure _

/-- Partial elements are compared on one clause in the same way under looser guards. -/
theorem checkOverlapOn_completes (ctx : Context) (p q : PartialElement) (c : Clause) :
    CompletesBy ρ (checkOverlapOn d ctx p q c) (checkOverlapOn d' ctx p q c) := by
  unfold checkOverlapOn
  refine (evaluate_completes hd p.body ctx.env _).bind fun u => ?_
  refine (evaluate_completes hd q.body ctx.env _).bind fun v => ?_
  refine (convertible_completes hd ctx.depth (ctx.dimDepth + 1) u v).bind fun b => ?_
  split
  · exact .pure ()
  · exact .throw _

/-- Partial elements are compared with each other in the same way under looser guards. -/
theorem checkOverlaps_completes (ctx : Context) (ps : List PartialElement) :
    CompletesBy ρ (checkOverlaps d ctx ps) (checkOverlaps d' ctx ps) := by
  induction ps with
  | nil => exact .pure ()
  | cons p rest ih =>
    refine CompletesBy.bind (.forM (fun q => .forM (fun c => ?_) _) rest) fun _ => ih
    exact checkOverlapOn_completes hd ctx p q c

/-- A partial element is compared with the base in the same way under looser guards. -/
theorem checkBaseOn_completes (ctx : Context) (source : Dim) (base : Term) (p : PartialElement)
    (c : Clause) :
    CompletesBy ρ (checkBaseOn d ctx source base p c) (checkBaseOn d' ctx source base p c) := by
  unfold checkBaseOn
  refine (CompletesBy.ofFault _).bind fun r => ?_
  refine (evaluate_completes hd p.body ctx.env _).bind fun u => ?_
  refine (evaluate_completes hd base ctx.env _).bind fun v => ?_
  refine (convertible_completes hd ctx.depth ctx.dimDepth u v).bind fun b => ?_
  split
  · exact .pure ()
  · exact .throw _

/-- A system is compared with itself and with the base in the same way under looser guards. -/
theorem checkAgreement_completes (ctx : Context) (source : Dim) (fs : List (Face × Term))
    (base : Term) :
    CompletesBy ρ (checkAgreement d ctx source fs base) (checkAgreement d' ctx source fs base) := by
  unfold checkAgreement
  rw [hd.settings.checkFaceAgreement]
  split
  · refine (partialElements_completes ctx fs).bind fun ps => ?_
    refine (checkOverlaps_completes hd ctx ps).bind fun _ => ?_
    exact .forM (fun p => .forM (checkBaseOn_completes hd ctx source base p) _) ps
  · exact .pure ()

/-! ## Judgments -/

/-- Under looser guards the term is judged as before, against any goal. -/
def CompletingJudgment (ρ : Settings.Widening) (d d' : Derivation) (t : Term) : Prop :=
  ∀ (ctx : Context) (goal : Option Value), CompletesBy ρ (judge d t ctx goal) (judge d' t ctx goal)

/-- Two elements are checked against a type, plain or smooth. -/
theorem pathType_completes {a l r : Term} (ha : CompletingJudgment ρ d d' a)
    (hl : CompletingJudgment ρ d d' l) (hr : CompletingJudgment ρ d d' r) (ctx : Context)
    (goal : Option Value) :
    CompletesBy ρ
      (do let level ← universeLevel d ctx (← judge d a ctx none)
          let v ← eval d ctx a
          let _ ← judge d l ctx (some v)
          let _ ← judge d r ctx (some v)
          conclude d ctx goal (.univ level))
      (do let level ← universeLevel d' ctx (← judge d' a ctx none)
          let v ← eval d' ctx a
          let _ ← judge d' l ctx (some v)
          let _ ← judge d' r ctx (some v)
          conclude d' ctx goal (.univ level)) := by
  refine (ha ctx none).bind fun ty => (universeLevel_completes hd ctx ty).bind fun i => ?_
  refine (evaluate_completes hd a ctx.env ctx.dims).bind fun v => ?_
  refine (hl ctx (some v)).bind fun _ => (hr ctx (some v)).bind fun _ => ?_
  exact conclude_completes hd ctx goal _

/-- A Kan operation finds the family and the two points that it goes between. -/
theorem kanLine_completes {a : Term} (ha : CompletingJudgment ρ d d' a) (ctx : Context)
    (source target : Dim) {f g : Line → Interval → Interval → Run Value}
    (hfg : ∀ line r r', CompletesBy ρ (f line r r') (g line r r')) :
    CompletesBy ρ
      (do let _ ← universeLevel d ctx.extendDim (← judge d a ctx.extendDim none)
          checkDim ctx source
          checkDim ctx target
          let line ← Eval.closeFamily a ctx.env ctx.dims
          let r ← ofFault (IntervalEnv.resolve ctx.dims source)
          let r' ← ofFault (IntervalEnv.resolve ctx.dims target)
          f line r r')
      (do let _ ← universeLevel d' ctx.extendDim (← judge d' a ctx.extendDim none)
          checkDim ctx source
          checkDim ctx target
          let line ← Eval.closeFamily a ctx.env ctx.dims
          let r ← ofFault (IntervalEnv.resolve ctx.dims source)
          let r' ← ofFault (IntervalEnv.resolve ctx.dims target)
          g line r r') := by
  refine (ha ctx.extendDim none).bind fun ty => ?_
  refine (universeLevel_completes hd ctx.extendDim ty).bind fun _ => ?_
  refine (checkDim_completes ctx source).bind fun _ => ?_
  refine (checkDim_completes ctx target).bind fun _ => ?_
  refine (Eval.closeFamily_completes a ctx.env ctx.dims).bind fun line => ?_
  exact (CompletesBy.ofFault _).bind fun r => (CompletesBy.ofFault _).bind fun r' => hfg line r r'

end Rules

mutual

/-- A judgment under looser guards is the same one, unless it is cut off. -/
theorem judge_completes {d d' : Derivation} (hd : d.Loosens d') :
    ∀ t : Term, CompletingJudgment ρ d d' t
  | .univ _ => fun ctx goal => conclude_completes hd ctx goal _
  | .var i => fun ctx goal =>
    (CompletesBy.ofFault (ctx.find i)).bind fun b => conclude_completes hd ctx goal b.ty
  | .pi x a b => by
    intro ctx goal
    unfold judge
    refine (judge_completes hd a ctx none).bind fun ty => ?_
    refine (universeLevel_completes hd ctx ty).bind fun i => ?_
    refine (evaluate_completes hd a ctx.env ctx.dims).bind fun v => ?_
    refine (judge_completes hd b (ctx.extend x v) none).bind fun ty' => ?_
    refine (universeLevel_completes hd (ctx.extend x v) ty').bind fun j => ?_
    exact conclude_completes hd ctx goal _
  | .lam x b => by
    intro ctx goal
    unfold judge
    split
    · exact .throw _
    · refine (instantiate_completes hd _ _).bind fun ty => ?_
      exact judge_completes hd b _ (some ty)
    · exact refuse_completes hd ctx _ _
  | .app f a => by
    intro ctx goal
    unfold judge
    refine (judge_completes hd f ctx none).bind fun ty => ?_
    split
    · refine (judge_completes hd a ctx _).bind fun _ => ?_
      refine (evaluate_completes hd a ctx.env ctx.dims).bind fun v => ?_
      refine (instantiate_completes hd _ _).bind fun ty' => ?_
      exact conclude_completes hd ctx goal ty'
    · exact refuse_completes hd ctx _ _
  | .path a l r => by
    intro ctx goal
    unfold judge
    exact pathType_completes hd (judge_completes hd a) (judge_completes hd l)
      (judge_completes hd r) ctx goal
  | .pathLam x b => by
    intro ctx goal
    have ends (ty l r : Value) : CompletesBy ρ
        (do let _ ← judge d b ctx.extendDim (some ty)
            checkEnds d ctx b l r
            return ty)
        (do let _ ← judge d' b ctx.extendDim (some ty)
            checkEnds d' ctx b l r
            return ty) := by
      refine (judge_completes hd b ctx.extendDim (some ty)).bind fun _ => ?_
      exact (checkEnds_completes hd ctx b l r).bind fun _ => .pure ty
    unfold judge
    split
    · exact .throw _
    · exact ends _ _ _
    · exact ends _ _ _
    · exact refuse_completes hd ctx _ _
  | .pathApp p r => by
    intro ctx goal
    unfold judge
    refine (checkDim_completes ctx r).bind fun _ => ?_
    refine (judge_completes hd p ctx none).bind fun ty => ?_
    split
    · exact conclude_completes hd ctx goal _
    · exact conclude_completes hd ctx goal _
    · exact refuse_completes hd ctx _ _
  | .smoothPath order a l r => by
    intro ctx goal
    unfold judge
    rw [hd.settings.maxSmoothOrder]
    refine (checkOrder_completes _ order).bind fun _ => ?_
    exact pathType_completes hd (judge_completes hd a) (judge_completes hd l)
      (judge_completes hd r) ctx goal
  | .comp s t a fs b => by
    intro ctx goal
    unfold judge
    apply kanLine_completes hd (judge_completes hd a)
    intro line r r'
    refine (lineAt_completes hd line r).bind fun start => ?_
    refine (judge_completes hd b ctx (some start)).bind fun _ => ?_
    refine (lineAt_completes hd line ctx.freshDim).bind fun along => ?_
    refine (judgeFaces_completes hd fs ctx along).bind fun _ => ?_
    refine (checkAgreement_completes hd ctx s fs b).bind fun _ => ?_
    exact (lineAt_completes hd line r').bind fun ty => conclude_completes hd ctx goal ty
  | .coe s t a b => by
    intro ctx goal
    unfold judge
    apply kanLine_completes hd (judge_completes hd a)
    intro line r r'
    refine (lineAt_completes hd line r).bind fun start => ?_
    refine (judge_completes hd b ctx (some start)).bind fun _ => ?_
    exact (lineAt_completes hd line r').bind fun ty => conclude_completes hd ctx goal ty
  | .hcomp a fs b => by
    intro ctx goal
    unfold judge
    refine (judge_completes hd a ctx none).bind fun ty => ?_
    refine (universeLevel_completes hd ctx ty).bind fun _ => ?_
    refine (evaluate_completes hd a ctx.env ctx.dims).bind fun v => ?_
    refine (judge_completes hd b ctx (some v)).bind fun _ => ?_
    refine (judgeFaces_completes hd fs ctx v).bind fun _ => ?_
    refine (checkAgreement_completes hd ctx .zero fs b).bind fun _ => ?_
    exact conclude_completes hd ctx goal v
  | .missing => fun _ _ => .throw _

/-- A system is judged in the same way under looser guards. -/
theorem judgeFaces_completes {d d' : Derivation} (hd : d.Loosens d') :
    ∀ (fs : List (Face × Term)) (ctx : Context) (along : Value),
    CompletesBy ρ (judgeFaces d fs ctx along) (judgeFaces d' fs ctx along)
  | [], _, _ => .pure ()
  | (φ, u) :: rest, ctx, along => by
    unfold judgeFaces
    refine (checkFormula_completes ctx φ).bind fun _ => ?_
    refine (judge_completes hd u ctx.extendDim (some along)).bind fun _ => ?_
    exact judgeFaces_completes hd rest ctx along

end

end Typing

/-! ## The kernel -/

section Kernel

open Run

variable {frames frames' : Nat} {settings settings' : Settings}

/-- Both open an account, under its number in the one and the other. -/
theorem openMeter_completesBy {ρ : Settings.Widening} (h : ρ.rel settings settings')
    {α : Type} {f g : MeterId → Run α} (hfg : ∀ m, CompletesBy ρ (f m) (g m)) :
    CompletesBy ρ (openMeter settings >>= f) (openMeter settings' >>= g) := by
  intro s s' hs
  change SameUnlessCut ρ (f s.meters.size _) (g s'.meters.size _)
  rw [← hs.size_eq]
  exact hfg _ _ _ (hs.openMeter h)

/-- A run on a new account is completed by one on a looser account. -/
theorem openMeter_completes (h : settings.Loosens settings') {α : Type} {f g : MeterId → Run α}
    (hfg : ∀ m, Completes (f m) (g m)) (s s' : Session) (hs : s.Loosens s') :
    SameUnlessCutOff ((openMeter settings >>= f) s) ((openMeter settings' >>= g) s') :=
  (openMeter_completesBy (ρ := Settings.loosening) h hfg s s' (Session.loosens_iff.1 hs)).loosens

/-- A new derivation is completed by one with looser guards. -/
theorem derivation_completes (hframes : frames ≤ frames') (h : settings.Loosens settings')
    {α : Type} {f g : Derivation → Run α}
    (hfg : ∀ d d', d.Loosens d' → Completes (f d) (g d')) (s s' : Session) (hs : s.Loosens s') :
    SameUnlessCutOff ((Kernel.derivation frames settings >>= f) s)
      ((Kernel.derivation frames' settings' >>= g) s') := by
  have hboth (m : MeterId) := hfg ⟨frames, m, settings⟩ ⟨frames', m, settings'⟩ ⟨hframes, rfl, h⟩
  exact openMeter_completes h hboth s s' hs

end Kernel

/-- The guards only ever cut off. Whatever the kernel is asked, in whatever session, larger guards
and more calls that may nest leave the outcome as it is, unless a guard has cut it off: the same
value, term or verdict, or the same error, and the same steps spent by every meter.

Both runs start from one session. Of two calls that are made one after the other the second may end
otherwise: the closures that the first leaves in kept arguments remember its evaluator, with its
guards and its probes. -/
theorem guards_only_cut_off {frames frames' : Nat} {settings settings' : Settings}
    (hframes : frames ≤ frames') (hsettings : settings.Loosens settings') (s : Session) :
    (∀ (t : Term) (env : Env) (dims : IntervalEnv),
      SameUnlessCutOff (Kernel.evaluate frames settings t env dims s)
        (Kernel.evaluate frames' settings' t env dims s)) ∧
    (∀ (ctx : Context) (t : Term),
      SameUnlessCutOff (Kernel.normalize frames settings ctx t s)
        (Kernel.normalize frames' settings' ctx t s)) ∧
    (∀ (ctx : Context) (t : Term),
      SameUnlessCutOff (Kernel.infer frames settings ctx t s)
        (Kernel.infer frames' settings' ctx t s)) ∧
    (∀ (ctx : Context) (t : Term) (expected : Value),
      SameUnlessCutOff (Kernel.check frames settings ctx t expected s)
        (Kernel.check frames' settings' ctx t expected s)) ∧
    (∀ (ctx : Context) (t expected : Term),
      SameUnlessCutOff (Kernel.checkTerm frames settings ctx t expected s)
        (Kernel.checkTerm frames' settings' ctx t expected s)) ∧
    (∀ (ctx : Context) (v w : Value),
      SameUnlessCutOff (Kernel.convertible frames settings ctx v w s)
        (Kernel.convertible frames' settings' ctx v w s)) := by
  have hs := Session.Loosens.refl s
  refine ⟨?evaluate, ?normalize, ?infer, ?check, ?checkTerm, ?convertible⟩
  case evaluate =>
    intro t env dims
    exact openMeter_completes hsettings (fun m => Eval.run_completes hframes m _) s s hs
  case normalize =>
    intro ctx t
    refine openMeter_completes hsettings (fun m => ?_) s s hs
    refine (Eval.run_completes hframes m _).bind fun v => ?_
    exact Readback.quote_completes m hframes ctx.depth ctx.dimDepth v
  case infer =>
    intro ctx t
    refine derivation_completes hframes hsettings (fun d d' hd => ?_) s s hs
    exact Typing.judge_completes hd t ctx none
  case check =>
    intro ctx t expected
    refine derivation_completes hframes hsettings (fun d d' hd => ?_) s s hs
    exact (Typing.judge_completes hd t ctx (some expected)).bind fun _ => .pure ()
  case checkTerm =>
    intro ctx t expected
    refine derivation_completes hframes hsettings (fun d d' hd => ?_) s s hs
    have huniverse : Run.Completes (Typing.inferUniverse d ctx expected)
        (Typing.inferUniverse d' ctx expected) :=
      (Typing.judge_completes hd expected ctx none).bind (Typing.universeLevel_completes hd ctx)
    refine huniverse.bind fun _ => ?_
    refine (Typing.evaluate_completes hd expected ctx.env ctx.dims).bind fun ty => ?_
    exact (Typing.judge_completes hd t ctx (some ty)).bind fun _ => .pure ()
  case convertible =>
    intro ctx v w
    refine openMeter_completes hsettings (fun m => ?_) s s hs
    exact Readback.convertible_completes m hframes ctx.depth ctx.dimDepth v w

/-- The smallest guards under which the element at the moved function is normalized. -/
def tightGuards : Settings where
  maxDepth := 5
  fuel := 45
  universeRule := .max
  maxSmoothOrder := 1000
  checkFaceAgreement := true
  maxDepth_pos := Nat.le_of_ble_eq_true rfl
  fuel_pos := Nat.le_of_ble_eq_true rfl

/-- The element at the moved function has the same normal form under the tight guards and under the
usual ones, at the same expense. -/
theorem guards_only_cut_off_elementAtMoved :
    ∃ (ctx : Context) (s : Session) (n : Term) (s₁ s₂ : Session),
      tightGuards.Loosens .default ∧
      Kernel.normalize 11 tightGuards ctx elementAtMoved s = .ok n s₁ ∧
      Kernel.normalize 100 .default ctx elementAtMoved s = .ok n s₂ ∧ s₁.Loosens s₂ := by
  have hanswer : answer? (do
      let ctx ← Declaration.addAll 100 .default predicateOnFunctions .empty
      let _ ← Kernel.normalize 11 tightGuards ctx elementAtMoved) = some () := by
    decide +kernel
  obtain ⟨s', hrun⟩ := answer?_eq_some hanswer
  obtain ⟨ctx, s, hadd, hrest⟩ := Run.bind_eq_ok.1 hrun
  obtain ⟨n, s₁, hn, _⟩ := Run.bind_eq_ok.1 hrest
  have hloosens : tightGuards.Loosens .default := ⟨by decide, by decide, rfl, rfl, rfl⟩
  have hsame := (guards_only_cut_off (by decide : 11 ≤ 100) hloosens s).2.1 ctx elementAtMoved
  rw [hn] at hsame
  generalize hn' : Kernel.normalize 100 .default ctx elementAtMoved s = y at hsame
  cases hsame with
  | @ok _ _ s₂ hs => exact ⟨ctx, s, n, s₁, s₂, hloosens, hn, hn', hs⟩

end SmoothCubical
