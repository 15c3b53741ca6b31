import SmoothCubical.Proofs.Declarations

/-!
# Laws of typing

A law of runs that all of evaluation obeys is obeyed by typing (`Typing.law_judge`), since to judge
does nothing to a session but evaluate, read back and record. If it is obeyed by opening a meter
too, it is obeyed by whatever can be asked of the kernel (`Request.law_run`). So the rules of typing
are gone through once, as those of evaluation are, for any such law.
-/

set_option autoImplicit false

namespace SmoothCubical

namespace Typing

open Run Eval

section Rules

variable {Φ : {α : Type} → Run α → Prop} (h : ∀ frames, Law (Eval.run frames) Φ) (d : Derivation)
include h

/-- To go through a list obeys the law if each step does. -/
theorem law_forM {α : Type} {f : α → Run Unit} (hf : ∀ a, Φ (f a)) (xs : List α) :
    Φ (xs.forM f) := by
  induction xs with
  | nil => exact (h 0).pure _
  | cons x xs ih => exact (h 0).bind (hf x) fun _ => ih

/-- To read a value back obeys the law. -/
theorem law_quote (ctx : Context) (v : Value) : Φ (quote d ctx v) :=
  Readback.law_quote h d.frames d.meter _ _ v

/-- To convert two values obeys the law. -/
theorem law_conv (ctx : Context) (v w : Value) : Φ (conv d ctx v w) :=
  Readback.law_convertible h d.frames d.meter _ _ v w

/-- To refuse a value after it was read back obeys the law. -/
theorem law_refuse {α : Type} (ctx : Context) (v : Value) {f : Term → Failure}
    (hf : ∀ t, (f t).isSpent = false) : Φ (do throw (f (← quote d ctx v)) : Run α) :=
  (h 0).bind (law_quote h d ctx v) fun t => (h 0).throw (hf t)

/-- To report two values after they were read back obeys the law. -/
theorem law_report {α : Type} (ctx : Context) (v w : Value) :
    Φ (do
      let wanted ← quote d ctx v
      let found ← quote d ctx w
      throw (.typeMismatch (.term wanted) (.term found)) : Run α) :=
  (h 0).bind (law_quote h d ctx v) fun _ => (h 0).bind (law_quote h d ctx w) fun _ =>
    (h 0).throw rfl

/-- To ask whether a type may stand for another obeys the law. -/
theorem law_weakens (ctx : Context) (v w : Value) : Φ (weakens d ctx v w) := by
  unfold weakens
  split
  · exact (h 0).pure _
  · split
    · exact law_conv h d ctx _ _
    · exact (h 0).pure _
  · exact (h 0).pure _

/-- To make a type stand for another obeys the law. -/
theorem law_convert (ctx : Context) (v w : Value) : Φ (convert d ctx v w) := by
  unfold convert
  refine (h 0).bind (law_conv h d ctx v w) fun same => ?_
  cases same with
  | true => exact (h 0).pure _
  | false =>
    refine (h 0).bind (law_weakens h d ctx v w) fun weaker => ?_
    cases weaker with
    | true => exact (h 0).pure _
    | false => exact (h 0).bind ((h 0).record _) fun _ => law_report h d ctx w v

/-- To end a judgment obeys the law. -/
theorem law_conclude (ctx : Context) (goal : Option Value) (v : Value) :
    Φ (conclude d ctx goal v) := by
  cases goal with
  | none => exact (h 0).pure v
  | some g => exact (h 0).bind (law_convert h d ctx v g) fun _ => (h 0).pure v

/-- To ask for the level of a universe obeys the law. -/
theorem law_universeLevel (ctx : Context) (v : Value) : Φ (universeLevel d ctx v) := by
  unfold universeLevel
  split
  · exact (h 0).pure _
  · exact law_refuse h d ctx _ fun _ => rfl

/-- To ask for the universe of a type obeys the law if to judge the type does. -/
theorem law_inferUniverse {t : Term} (ht : ∀ ctx goal, Φ (judge d t ctx goal)) (ctx : Context) :
    Φ (inferUniverse d ctx t) :=
  (h 0).bind (ht ctx none) fun ty => law_universeLevel h d ctx ty

/-- To check an end of a path obeys the law. -/
theorem law_checkEnd (ctx : Context) (body : Term) (point : Interval) (boundary : Value) :
    Φ (checkEnd d ctx body point boundary) := by
  unfold checkEnd
  refine (h 0).bind ((h d.frames).call _ _) fun v => ?_
  refine (h 0).bind (law_conv h d ctx v boundary) fun same => ?_
  cases same with
  | true => exact (h 0).pure _
  | false => exact law_report h d ctx boundary v

/-- To check both ends of a path obeys the law. -/
theorem law_checkEnds (ctx : Context) (body : Term) (l r : Value) :
    Φ (checkEnds d ctx body l r) :=
  (h 0).bind (law_checkEnd h d ctx body .zero l) fun _ => law_checkEnd h d ctx body .one r

/-- To check a dimension obeys the law. -/
theorem law_checkDim (ctx : Context) (r : Dim) : Φ (checkDim ctx r) := by
  unfold checkDim
  split
  · split
    · exact (h 0).pure _
    · exact (h 0).throw rfl
  · exact (h 0).pure _

/-- To check a formula obeys the law. -/
theorem law_checkFormula (ctx : Context) (φ : Face) : Φ (checkFormula ctx φ) := by
  unfold checkFormula
  split
  · exact (h 0).throw rfl
  · exact (h 0).pure _

/-- To check an order of smoothness obeys the law. -/
theorem law_checkOrder (largest order : Int) : Φ (Smoothness.checkOrder largest order) := by
  unfold Smoothness.checkOrder
  split
  · exact (h 0).throw rfl
  · exact (h 0).pure _

/-- To find where partial elements are defined obeys the law. -/
theorem law_partialElements (ctx : Context) (fs : List (Face × Term)) :
    Φ (partialElements ctx fs) := by
  induction fs with
  | nil => exact (h 0).pure _
  | cons face rest ih =>
    exact (h 0).bind (law_ofFault (h 0) _) fun _ => (h 0).bind ih fun _ => (h 0).pure _

/-- To compare two partial elements on a clause obeys the law. -/
theorem law_checkOverlapOn (ctx : Context) (p q : PartialElement) (c : Clause) :
    Φ (checkOverlapOn d ctx p q c) := by
  refine (h 0).bind ((h d.frames).call _ _) fun u => ?_
  refine (h 0).bind ((h d.frames).call _ _) fun v => ?_
  refine (h 0).bind (Readback.law_convertible h _ _ _ _ u v) fun same => ?_
  cases same with
  | true => exact (h 0).pure _
  | false => exact (h 0).throw rfl

/-- To compare two partial elements obeys the law. -/
theorem law_checkOverlap (ctx : Context) (p q : PartialElement) : Φ (checkOverlap d ctx p q) :=
  law_forM h (law_checkOverlapOn h d ctx p q) _

/-- To compare partial elements with each other obeys the law. -/
theorem law_checkOverlaps (ctx : Context) (ps : List PartialElement) :
    Φ (checkOverlaps d ctx ps) := by
  induction ps with
  | nil => exact (h 0).pure _
  | cons p rest ih =>
    exact (h 0).bind (law_forM h (law_checkOverlap h d ctx p) rest) fun _ => ih

/-- To compare a partial element with the base on a clause obeys the law. -/
theorem law_checkBaseOn (ctx : Context) (source : Dim) (base : Term) (p : PartialElement)
    (c : Clause) : Φ (checkBaseOn d ctx source base p c) := by
  refine (h 0).bind (law_ofFault (h 0) _) fun r => (h 0).bind ((h d.frames).call _ _) fun u => ?_
  refine (h 0).bind ((h d.frames).call _ _) fun v => ?_
  refine (h 0).bind (law_conv h d ctx u v) fun same => ?_
  cases same with
  | true => exact (h 0).pure _
  | false => exact (h 0).throw rfl

/-- To compare a partial element with the base obeys the law. -/
theorem law_checkBase (ctx : Context) (source : Dim) (base : Term) (p : PartialElement) :
    Φ (checkBase d ctx source base p) :=
  law_forM h (law_checkBaseOn h d ctx source base p) _

/-- To check that partial elements agree obeys the law. -/
theorem law_checkAgreement (ctx : Context) (source : Dim) (fs : List (Face × Term)) (base : Term) :
    Φ (checkAgreement d ctx source fs base) := by
  unfold checkAgreement
  split
  · refine (h 0).bind (law_partialElements h ctx fs) fun ps => ?_
    refine (h 0).bind (law_checkOverlaps h d ctx ps) fun _ => ?_
    exact law_forM h (law_checkBase h d ctx source base) ps
  · exact (h 0).pure _

/-- To judge the parts of a type of paths obeys the law if each judgment does. -/
theorem law_pathType {a l r : Term} (ha : ∀ ctx goal, Φ (judge d a ctx goal))
    (hl : ∀ ctx goal, Φ (judge d l ctx goal)) (hr : ∀ ctx goal, Φ (judge d r ctx goal))
    (ctx : Context) (goal : Option Value) :
    Φ (do
      let level ← universeLevel d ctx (← judge d a ctx none)
      let v ← eval d ctx a
      let _ ← judge d l ctx (some v)
      let _ ← judge d r ctx (some v)
      conclude d ctx goal (.univ level)) := by
  refine (h 0).bind (ha _ _) fun ty => (h 0).bind (law_universeLevel h d ctx ty) fun _ => ?_
  refine (h 0).bind ((h d.frames).call _ _) fun v => (h 0).bind (hl _ _) fun _ => ?_
  exact (h 0).bind (hr _ _) fun _ => law_conclude h d ctx goal _

/-- To judge the family of a Kan operation obeys the law if what comes after does. -/
theorem law_kanLine {a : Term} (ha : ∀ ctx goal, Φ (judge d a ctx goal)) (ctx : Context)
    (source target : Dim) {f : Line → Interval → Interval → Run Value}
    (hf : ∀ line r r', Φ (f line r r')) :
    Φ (do
      let _ ← universeLevel d ctx.extendDim (← judge d a ctx.extendDim none)
      checkDim ctx source
      checkDim ctx target
      let line ← Eval.closeFamily a ctx.env ctx.dims
      let r ← ofFault (IntervalEnv.resolve ctx.dims source)
      let r' ← ofFault (IntervalEnv.resolve ctx.dims target)
      f line r r') := by
  refine (h 0).bind (ha _ _) fun ty => (h 0).bind (law_universeLevel h d _ ty) fun _ => ?_
  refine (h 0).bind (law_checkDim h ctx source) fun _ => ?_
  refine (h 0).bind (law_checkDim h ctx target) fun _ => ?_
  refine (h 0).bind (law_closeFamily (h 0) a _ _) fun line => ?_
  refine (h 0).bind (law_ofFault (h 0) _) fun r => (h 0).bind (law_ofFault (h 0) _) fun r' => ?_
  exact hf line r r'

end Rules

mutual

/-- Every judgment obeys a law that all of evaluation obeys. -/
theorem law_judge {Φ : {α : Type} → Run α → Prop} (h : ∀ frames, Law (Eval.run frames) Φ)
    (d : Derivation) : ∀ (t : Term) (ctx : Context) (goal : Option Value), Φ (judge d t ctx goal)
  | .univ _, ctx, goal => law_conclude h d ctx goal _
  | .var i, ctx, goal => (h 0).bind (law_ofFault (h 0) _) fun _ => law_conclude h d ctx goal _
  | .pi x a b, ctx, goal => by
    unfold judge
    refine (h 0).bind (law_judge h d a _ _) fun ty => ?_
    refine (h 0).bind (law_universeLevel h d ctx ty) fun i => ?_
    refine (h 0).bind ((h d.frames).call _ _) fun v => (h 0).bind (law_judge h d b _ _) fun ty => ?_
    refine (h 0).bind (law_universeLevel h d _ ty) fun j => ?_
    exact law_conclude h d ctx goal _
  | .lam x b, ctx, goal => by
    unfold judge
    split
    · exact (h 0).throw rfl
    · exact (h 0).bind ((h d.frames).call _ _) fun ty => law_judge h d b _ _
    · exact law_refuse h d ctx _ fun _ => rfl
  | .app f a, ctx, goal => by
    unfold judge
    refine (h 0).bind (law_judge h d f _ _) fun ty => ?_
    split
    · refine (h 0).bind (law_judge h d a _ _) fun _ => ?_
      refine (h 0).bind ((h d.frames).call _ _) fun v => ?_
      exact (h 0).bind ((h d.frames).call _ _) fun ty => law_conclude h d ctx goal ty
    · exact law_refuse h d ctx _ fun _ => rfl
  | .path a l r, ctx, goal => by
    unfold judge
    exact law_pathType h d (law_judge h d a) (law_judge h d l) (law_judge h d r) ctx goal
  | .pathLam x b, ctx, goal => by
    have ends (ty l r : Value) : Φ (do
        let _ ← judge d b ctx.extendDim (some ty)
        checkEnds d ctx b l r
        return ty) :=
      (h 0).bind (law_judge h d b _ _) fun _ =>
        (h 0).bind (law_checkEnds h d ctx b l r) fun _ => (h 0).pure ty
    unfold judge
    split
    · exact (h 0).throw rfl
    · exact ends _ _ _
    · exact ends _ _ _
    · exact law_refuse h d ctx _ fun _ => rfl
  | .pathApp p r, ctx, goal => by
    unfold judge
    refine (h 0).bind (law_checkDim h ctx r) fun _ => (h 0).bind (law_judge h d p _ _) fun ty => ?_
    split
    · exact law_conclude h d ctx goal _
    · exact law_conclude h d ctx goal _
    · exact law_refuse h d ctx _ fun _ => rfl
  | .smoothPath order a l r, ctx, goal => by
    unfold judge
    refine (h 0).bind (law_checkOrder h _ order) fun _ => ?_
    exact law_pathType h d (law_judge h d a) (law_judge h d l) (law_judge h d r) ctx goal
  | .comp source target a fs b, ctx, goal => by
    unfold judge
    refine law_kanLine h d (law_judge h d a) ctx source target fun line r r' => ?_
    refine (h 0).bind (law_lineAt (h d.frames) _ line r) fun ty => ?_
    refine (h 0).bind (law_judge h d b _ _) fun _ => ?_
    refine (h 0).bind (law_lineAt (h d.frames) _ line _) fun along => ?_
    refine (h 0).bind (law_judgeFaces h d fs ctx along) fun _ => ?_
    refine (h 0).bind (law_checkAgreement h d ctx source fs b) fun _ => ?_
    exact (h 0).bind (law_lineAt (h d.frames) _ line r') fun ty => law_conclude h d ctx goal ty
  | .coe source target a b, ctx, goal => by
    unfold judge
    refine law_kanLine h d (law_judge h d a) ctx source target fun line r r' => ?_
    refine (h 0).bind (law_lineAt (h d.frames) _ line r) fun ty => ?_
    refine (h 0).bind (law_judge h d b _ _) fun _ => ?_
    exact (h 0).bind (law_lineAt (h d.frames) _ line r') fun ty => law_conclude h d ctx goal ty
  | .hcomp a fs b, ctx, goal => by
    unfold judge
    refine (h 0).bind (law_judge h d a _ _) fun ty => ?_
    refine (h 0).bind (law_universeLevel h d ctx ty) fun _ => ?_
    refine (h 0).bind ((h d.frames).call _ _) fun v => (h 0).bind (law_judge h d b _ _) fun _ => ?_
    refine (h 0).bind (law_judgeFaces h d fs ctx v) fun _ => ?_
    refine (h 0).bind (law_checkAgreement h d ctx .zero fs b) fun _ => ?_
    exact law_conclude h d ctx goal v
  | .missing, _, _ => (h 0).throw rfl

/-- So does the judgment on partial elements. -/
theorem law_judgeFaces {Φ : {α : Type} → Run α → Prop} (h : ∀ frames, Law (Eval.run frames) Φ)
    (d : Derivation) :
    ∀ (fs : List (Face × Term)) (ctx : Context) (along : Value), Φ (judgeFaces d fs ctx along)
  | [], _, _ => (h 0).pure _
  | (φ, u) :: rest, ctx, along => by
    unfold judgeFaces
    refine (h 0).bind (law_checkFormula h ctx φ) fun _ => ?_
    refine (h 0).bind (law_judge h d u _ _) fun _ => ?_
    exact law_judgeFaces h d rest ctx along

end

end Typing

/-! ## Whatever is asked -/

/-- Whatever is asked of the kernel obeys a law that all of evaluation obeys and that is obeyed by
opening a meter. -/
theorem Request.law_run {Φ : {α : Type} → Run α → Prop}
    (h : ∀ frames, Eval.Law (Eval.run frames) Φ)
    (hopen : ∀ settings, Φ (Run.openMeter settings)) (q : Request) (frames : Nat)
    (settings : Settings) (ctx : Context) : Φ (q.run frames settings ctx) := by
  have hevaluate (t : Term) : Φ (Kernel.evaluate frames settings t ctx.env ctx.dims) :=
    (h 0).bind (hopen settings) fun m => (h frames).call m _
  have hderivation : Φ (Kernel.derivation frames settings) :=
    (h 0).bind (hopen settings) fun m => (h 0).pure _
  cases q with
  | evaluate t => exact (h 0).bind (hevaluate t) fun _ => (h 0).pure _
  | normalize t =>
    have hnormalize : Φ (Kernel.normalize frames settings ctx t) :=
      (h 0).bind (hopen settings) fun m => (h 0).bind ((h frames).call m _) fun v =>
        Readback.law_quote h frames m _ _ v
    exact (h 0).bind hnormalize fun _ => (h 0).pure _
  | infer t =>
    have hinfer : Φ (Kernel.infer frames settings ctx t) :=
      (h 0).bind hderivation fun d => Typing.law_judge h d t ctx none
    exact (h 0).bind hinfer fun _ => (h 0).pure _
  | checkTerm t expected =>
    refine (h 0).bind hderivation fun d => ?_
    have huniverse := Typing.law_inferUniverse h d (Typing.law_judge h d expected) ctx
    refine (h 0).bind huniverse fun _ => (h 0).bind ((h d.frames).call _ _) fun ty => ?_
    exact (h 0).bind (Typing.law_judge h d t ctx (some ty)) fun _ => (h 0).pure _
  | check t expected =>
    refine (h 0).bind (hevaluate expected) fun ty => (h 0).bind hderivation fun d => ?_
    exact (h 0).bind (Typing.law_judge h d t ctx (some ty)) fun _ => (h 0).pure _
  | convert t t' =>
    have hconvert : Φ (convertTerms frames settings ctx t t') :=
      (h 0).bind (hevaluate t) fun v => (h 0).bind (hevaluate t') fun v' =>
        (h 0).bind (hopen settings) fun m => Readback.law_convertible h frames m _ _ v v'
    exact (h 0).bind hconvert fun _ => (h 0).pure _

end SmoothCubical
