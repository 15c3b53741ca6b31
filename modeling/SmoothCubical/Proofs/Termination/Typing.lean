import SmoothCubical.Typing.Judgment
import SmoothCubical.Proofs.Termination.Reading

/-!
# Judgments finish

Typing is a recursion on the term, which evaluates and reads back on the way. In a regular context
and against a regular goal, every judgment finishes, of any term, and the type it finds is regular
(`judge_finishes`). A derivation is given for each number of calls that may nest, so a rule is a
family of runs here.
-/

set_option autoImplicit false

namespace SmoothCubical

/-- The values and the types of the variables are regular. -/
structure Context.Regular (k : Nat) (ctx : Context) : Prop where
  env : ∀ e ∈ ctx.env, e.Regular k
  types : ∀ b ∈ ctx.bindings, b.ty.Regular k

namespace Context.Regular

variable {k : Nat} {ctx : Context} (h : ctx.Regular k)
include h

/-- A regular context is so with more accounts. -/
theorem mono {k' : Nat} (hk : k ≤ k') : ctx.Regular k' :=
  ⟨fun e he => (h.env e he).mono hk, fun b hb => (h.types b hb).mono hk⟩

/-- A regular context can be extended by a hypothesis of a regular type. -/
theorem extend (x : String) {ty : Value} (hty : ty.Regular k) : (ctx.extend x ty).Regular k where
  env := List.forall_mem_cons.2 ⟨.value (.typed .var hty), h.env⟩
  types := List.forall_mem_cons.2 ⟨hty, h.types⟩

/-- A regular context can be extended by a regular definition. -/
theorem define (x : String) {ty v : Value} (hty : ty.Regular k) (hv : v.Regular k) :
    (ctx.define x ty v).Regular k where
  env := List.forall_mem_cons.2 ⟨.value hv, h.env⟩
  types := List.forall_mem_cons.2 ⟨hty, h.types⟩

/-- A regular context can be extended by an interval variable. -/
theorem extendDim : ctx.extendDim.Regular k :=
  ⟨h.env, h.types⟩

/-- What is found in a regular context has a regular type. -/
theorem find {i : Int} {b : Binding} (hb : ctx.find i = .ok b) : b.ty.Regular k := by
  unfold Context.find at hb
  split at hb
  · rename_i hget
    cases hb
    exact h.types _ (Index.mem_of_get? hget)
  · cases hb

end Context.Regular

namespace Typing

open Run

section Rules

variable {k : Nat} {m : MeterId} (hm : m < k) (settings : Settings) {ctx : Context} {s : Session}
  (hs : s.Regular k)
include hm hs

/-! ## Conversion -/

/-- Evaluation in a regular environment finishes, with a regular value. -/
theorem finishes_evaluate (t : Term) {env : Env} (henv : ∀ e ∈ env, e.Regular k)
    (dims : IntervalEnv) :
    Finishes k (fun v _ => v.Regular k) (fun n => Eval.evaluate n m t env dims) s :=
  Eval.run_finishes hm (.evaluate henv) hs

/-- To instantiate a regular codomain by a regular value finishes. -/
theorem finishes_codomain {c : Closure} (hc : c.Regular k) {v : Value} (hv : v.Regular k) :
    Finishes k (fun v _ => v.Regular k) (fun n => Eval.run n m (.instantiate c (.value v))) s :=
  Eval.run_finishes hm (.instantiate hc (.value hv)) hs

/-- To read a regular value back in a context finishes. -/
theorem finishes_quote (ctx : Context) {v : Value} (hv : v.Regular k) :
    Finishes k (fun _ _ => True) (fun n => quote ⟨n, m, settings⟩ ctx v) s :=
  Readback.quote_finishes hm ctx.depth ctx.dimDepth hv hs

/-- To compare regular values in a context finishes. -/
theorem finishes_conv (ctx : Context) {v w : Value} (hv : v.Regular k) (hw : w.Regular k) :
    Finishes k (fun _ _ => True) (fun n => conv ⟨n, m, settings⟩ ctx v w) s :=
  Readback.convertible_finishes hm ctx.depth ctx.dimDepth hv hw hs

/-- To look a regular family up at a point finishes. -/
theorem finishes_typeAt {a : Line} (ha : a.Regular k) (r : Interval) :
    Finishes k (fun v _ => v.Regular k) (fun n => lineAt ⟨n, m, settings⟩ a r) s := by
  have hat := Eval.ends_lineAt (Eval.serves_run k (s.left + 1) 0) hs hm ha r
    (.inl (Nat.lt_succ_self _))
  exact hat.finishes.mono fun _ _ _ hv => hv.1

/-- To ask whether a regular type may stand for another without converting finishes. -/
theorem finishes_weakens (ctx : Context) {v w : Value} (hv : v.Regular k) (hw : w.Regular k) :
    Finishes k (fun _ _ => True) (fun n => weakens ⟨n, m, settings⟩ ctx v w) s := by
  unfold weakens
  dsimp only
  split
  · exact .pure hs trivial
  · split
    · cases hv with
      | smoothPath ha hl hr => exact finishes_conv hm settings hs ctx (.smoothPath ha hl hr) hw
    · exact .pure hs trivial
  · exact .pure hs trivial

/-- Two types that are not what they should be are read back to be reported. -/
theorem finishes_report {α : Type} {P : α → Session → Prop} (ctx : Context) {v w : Value}
    (hv : v.Regular k) (hw : w.Regular k) :
    Finishes k P (fun n => do
      let wanted ← quote ⟨n, m, settings⟩ ctx v
      let found ← quote ⟨n, m, settings⟩ ctx w
      throw (.typeMismatch (.term wanted) (.term found))) s := by
  refine (finishes_quote hm settings hs ctx hv).bind fun _ s₁ hs₁ _ _ => ?_
  exact (finishes_quote hm settings hs₁ ctx hw).bind fun _ s₂ hs₂ _ _ => .throw hs₂ rfl

/-- To make a regular type stand for another finishes, also if it fails. -/
theorem finishes_convert (ctx : Context) {v w : Value} (hv : v.Regular k) (hw : w.Regular k) :
    Finishes k (fun _ _ => True) (fun n => convert ⟨n, m, settings⟩ ctx v w) s := by
  unfold convert
  refine (finishes_conv hm settings hs ctx hv hw).bind fun same s₁ hs₁ _ _ => ?_
  cases same with
  | true => exact .pure hs₁ trivial
  | false =>
    refine (finishes_weakens hm settings hs₁ ctx hv hw).bind fun weaker s₂ hs₂ _ _ => ?_
    cases weaker with
    | true => exact .pure hs₂ trivial
    | false =>
      refine (ends_record hs₂ _).bind fun _ s₃ hs₃ _ _ => ?_
      exact finishes_report hm settings hs₃ ctx hw hv

/-- A judgment that has found a regular type answers with it. -/
theorem finishes_conclude (ctx : Context) {goal : Option Value} (hgoal : ∀ g ∈ goal, g.Regular k)
    {v : Value} (hv : v.Regular k) :
    Finishes k (fun v _ => v.Regular k) (fun n => conclude ⟨n, m, settings⟩ ctx goal v) s := by
  cases goal with
  | none => exact .pure hs hv
  | some g =>
    refine (finishes_convert hm settings hs ctx hv (hgoal g rfl)).bind fun _ s₁ hs₁ _ _ => ?_
    exact .pure hs₁ hv

/-- A value of the wrong shape is read back to be reported. -/
theorem finishes_refuse {α : Type} {P : α → Session → Prop} (ctx : Context) {v : Value}
    (hv : v.Regular k) {f : Term → Failure} (hf : ∀ t, (f t).isFrames = false) :
    Finishes k P (fun n => do throw (f (← quote ⟨n, m, settings⟩ ctx v))) s :=
  (finishes_quote hm settings hs ctx hv).bind fun t _ hs₁ _ _ => .throw hs₁ (hf t)

/-- To ask for the level of a universe finishes. -/
theorem finishes_universeLevel (ctx : Context) {v : Value} (hv : v.Regular k) :
    Finishes k (fun _ _ => True) (fun n => universeLevel ⟨n, m, settings⟩ ctx v) s := by
  unfold universeLevel
  split
  · exact .pure hs trivial
  · exact finishes_refuse hm settings hs ctx hv fun _ => rfl

/-! ## The ends of paths and partial elements -/

/-- To check a body at an end of a path finishes. -/
theorem finishes_checkEnd (hctx : ctx.Regular k) (body : Term) (r : Interval) {v : Value}
    (hv : v.Regular k) :
    Finishes k (fun _ _ => True) (fun n => checkEnd ⟨n, m, settings⟩ ctx body r v) s := by
  unfold checkEnd
  refine (finishes_evaluate hm hs body hctx.env _).bind fun w s₁ hs₁ _ hw => ?_
  refine (finishes_conv hm settings hs₁ ctx hw hv).bind fun same s₂ hs₂ _ _ => ?_
  cases same with
  | true => exact .pure hs₂ trivial
  | false => exact finishes_report hm settings hs₂ ctx hv hw

/-- To check a body at both ends of a path finishes. -/
theorem finishes_checkEnds (hctx : ctx.Regular k) (body : Term) {l r : Value} (hl : l.Regular k)
    (hr : r.Regular k) :
    Finishes k (fun _ _ => True) (fun n => checkEnds ⟨n, m, settings⟩ ctx body l r) s :=
  (finishes_checkEnd hm settings hs hctx body .zero hl).bind fun _ _ hs₁ _ _ =>
    finishes_checkEnd hm settings hs₁ hctx body .one hr

omit hm in
/-- To check a dimension finishes, since nothing is called. -/
theorem finishes_checkDim (ctx : Context) (r : Dim) :
    Finishes k (fun _ _ => True) (fun _ => checkDim ctx r) s := by
  unfold checkDim
  split
  · split
    · exact .pure hs trivial
    · exact .throw hs rfl
  · exact .pure hs trivial

omit hm in
/-- To check a face formula finishes, since nothing is called. -/
theorem finishes_checkFormula (ctx : Context) (φ : Face) :
    Finishes k (fun _ _ => True) (fun _ => checkFormula ctx φ) s := by
  unfold checkFormula
  split
  · exact .throw hs rfl
  · exact .pure hs trivial

omit hm in
/-- To check an order of smoothness finishes, since nothing is called. -/
theorem finishes_checkOrder (largest order : Int) :
    Finishes k (fun _ _ => True) (fun _ => Smoothness.checkOrder largest order) s := by
  unfold Smoothness.checkOrder
  split
  · exact .throw hs rfl
  · exact .pure hs trivial

omit hm in
/-- To take a system apart finishes, since nothing is called. -/
theorem finishes_partialElements (ctx : Context) (fs : List (Face × Term)) :
    Finishes k (fun _ _ => True) (fun _ => partialElements ctx fs) s := by
  induction fs generalizing s with
  | nil => exact .pure hs trivial
  | cons face rest ih =>
    refine (ends_ofFault hs _).bind fun _ s₁ hs₁ _ _ => ?_
    exact (ih hs₁).bind fun _ s₂ hs₂ _ _ => .pure hs₂ trivial

/-- To compare two partial elements on a clause finishes. -/
theorem finishes_checkOverlapOn (hctx : ctx.Regular k) (p q : PartialElement) (c : Clause) :
    Finishes k (fun _ _ => True) (fun n => checkOverlapOn ⟨n, m, settings⟩ ctx p q c) s := by
  unfold checkOverlapOn
  refine (finishes_evaluate hm hs p.body hctx.env _).bind fun u s₁ hs₁ _ hu => ?_
  refine (finishes_evaluate hm hs₁ q.body hctx.env _).bind fun v s₂ hs₂ _ hv => ?_
  refine (Readback.convertible_finishes hm _ _ hu hv hs₂).bind fun same s₃ hs₃ _ _ => ?_
  cases same with
  | true => exact .pure hs₃ trivial
  | false => exact .throw hs₃ rfl

/-- To compare partial elements with one another finishes. -/
theorem finishes_checkOverlaps (hctx : ctx.Regular k) (ps : List PartialElement) :
    Finishes k (fun _ _ => True) (fun n => checkOverlaps ⟨n, m, settings⟩ ctx ps) s := by
  induction ps generalizing s with
  | nil => exact .pure hs trivial
  | cons p rest ih =>
    have hrest : Finishes k (fun _ _ => True)
        (fun n => rest.forM (checkOverlap ⟨n, m, settings⟩ ctx p)) s := by
      refine .forM rest (fun q s₁ hs₁ => ?_) hs
      refine .forM _ (fun c s₂ hs₂ => ?_) hs₁
      exact finishes_checkOverlapOn hm settings hs₂ hctx p q c
    exact hrest.bind fun _ s₁ hs₁ _ _ => ih hs₁

/-- To compare a partial element with the base on a clause finishes. -/
theorem finishes_checkBaseOn (hctx : ctx.Regular k) (source : Dim) (base : Term)
    (p : PartialElement) (c : Clause) :
    Finishes k (fun _ _ => True) (fun n => checkBaseOn ⟨n, m, settings⟩ ctx source base p c) s := by
  unfold checkBaseOn
  refine (ends_ofFault hs _).bind fun r s₁ hs₁ _ _ => ?_
  refine (finishes_evaluate hm hs₁ p.body hctx.env _).bind fun u s₂ hs₂ _ hu => ?_
  refine (finishes_evaluate hm hs₂ base hctx.env _).bind fun v s₃ hs₃ _ hv => ?_
  refine (finishes_conv hm settings hs₃ ctx hu hv).bind fun same s₄ hs₄ _ _ => ?_
  cases same with
  | true => exact .pure hs₄ trivial
  | false => exact .throw hs₄ rfl

/-- To check that a system agrees finishes. -/
theorem finishes_checkAgreement (hctx : ctx.Regular k) (source : Dim) (fs : List (Face × Term))
    (base : Term) :
    Finishes k (fun _ _ => True) (fun n => checkAgreement ⟨n, m, settings⟩ ctx source fs base)
      s := by
  unfold checkAgreement
  by_cases hchecked : settings.checkFaceAgreement = true
  · simp only [hchecked, if_true]
    refine (finishes_partialElements hs ctx fs).bind fun ps s₁ hs₁ _ _ => ?_
    refine (finishes_checkOverlaps hm settings hs₁ hctx ps).bind fun _ s₂ hs₂ _ _ => ?_
    refine .forM ps (fun p s₃ hs₃ => ?_) hs₂
    refine .forM _ (fun c s₄ hs₄ => ?_) hs₃
    exact finishes_checkBaseOn hm settings hs₄ hctx source base p c
  · simp only [hchecked]
    exact .pure hs trivial

end Rules

/-! ## Judgments -/

section Judgments

variable {k : Nat} {m : MeterId} (hm : m < k) (settings : Settings)

/-- In regular contexts the term is judged to have a regular type or fails, against any regular
goal. -/
def JudgedRegular (k : Nat) (m : MeterId) (settings : Settings) (t : Term) : Prop :=
  ∀ (ctx : Context) (goal : Option Value) (s : Session), s.Regular k → ctx.Regular k →
    (∀ g ∈ goal, g.Regular k) →
      Finishes k (fun v _ => v.Regular k) (fun n => judge ⟨n, m, settings⟩ t ctx goal) s

variable {settings} in
/-- Where judgments finish, inference does. -/
theorem JudgedRegular.infers {t : Term} (ht : JudgedRegular k m settings t) {ctx : Context}
    {s : Session} (hs : s.Regular k) (hctx : ctx.Regular k) :
    Finishes k (fun v _ => v.Regular k) (fun n => judge ⟨n, m, settings⟩ t ctx none) s :=
  ht ctx none s hs hctx nofun

variable {settings} in
/-- Where judgments finish, the check against a regular type does. -/
theorem JudgedRegular.checks {t : Term} (ht : JudgedRegular k m settings t) {ctx : Context}
    {s : Session} (hs : s.Regular k) (hctx : ctx.Regular k) {g : Value} (hg : g.Regular k) :
    Finishes k (fun v _ => v.Regular k) (fun n => judge ⟨n, m, settings⟩ t ctx (some g)) s := by
  refine ht ctx (some g) s hs hctx fun g' hg' => ?_
  cases hg'
  exact hg

include hm

/-- Two elements are checked against a type, plain or smooth. -/
theorem finishes_pathType {a l r : Term} (ha : JudgedRegular k m settings a)
    (hl : JudgedRegular k m settings l) (hr : JudgedRegular k m settings r) {ctx : Context}
    {s : Session} (hs : s.Regular k) (hctx : ctx.Regular k) {goal : Option Value}
    (hgoal : ∀ g ∈ goal, g.Regular k) :
    Finishes k (fun v _ => v.Regular k) (fun n => do
      let level ← universeLevel ⟨n, m, settings⟩ ctx (← judge ⟨n, m, settings⟩ a ctx none)
      let v ← eval ⟨n, m, settings⟩ ctx a
      let _ ← judge ⟨n, m, settings⟩ l ctx (some v)
      let _ ← judge ⟨n, m, settings⟩ r ctx (some v)
      conclude ⟨n, m, settings⟩ ctx goal (.univ level)) s := by
  refine (ha.infers hs hctx).bind fun ty s₁ hs₁ _ hty => ?_
  refine (finishes_universeLevel hm settings hs₁ ctx hty).bind fun i s₂ hs₂ _ _ => ?_
  refine (finishes_evaluate hm hs₂ a hctx.env ctx.dims).bind fun v s₃ hs₃ _ hv => ?_
  refine (hl.checks hs₃ hctx hv).bind fun _ s₄ hs₄ _ _ => ?_
  refine (hr.checks hs₄ hctx hv).bind fun _ s₅ hs₅ _ _ => ?_
  exact finishes_conclude hm settings hs₅ ctx hgoal .univ

/-- A Kan operation finds the family and the two points that it goes between. -/
theorem finishes_kanLine {a : Term} (ha : JudgedRegular k m settings a) {ctx : Context}
    {s : Session} (hs : s.Regular k) (hctx : ctx.Regular k) (source target : Dim)
    {f : Nat → Line → Interval → Interval → Run Value}
    (hf : ∀ line r r' s', s'.Regular k → line.Regular k →
      Finishes k (fun v _ => v.Regular k) (fun n => f n line r r') s') :
    Finishes k (fun v _ => v.Regular k) (fun n => do
      let _ ← universeLevel ⟨n, m, settings⟩ ctx.extendDim
        (← judge ⟨n, m, settings⟩ a ctx.extendDim none)
      checkDim ctx source
      checkDim ctx target
      let line ← Eval.closeFamily a ctx.env ctx.dims
      let r ← ofFault (IntervalEnv.resolve ctx.dims source)
      let r' ← ofFault (IntervalEnv.resolve ctx.dims target)
      f n line r r') s := by
  refine (ha.infers hs hctx.extendDim).bind fun ty s₁ hs₁ _ hty => ?_
  refine (finishes_universeLevel hm settings hs₁ ctx.extendDim hty).bind fun _ s₂ hs₂ _ _ => ?_
  refine (finishes_checkDim hs₂ ctx source).bind fun _ s₃ hs₃ _ _ => ?_
  refine (finishes_checkDim hs₃ ctx target).bind fun _ s₄ hs₄ _ _ => ?_
  refine (Eval.ends_closeFamily hs₄ a hctx.env ctx.dims).bind fun line s₅ hs₅ _ hline => ?_
  refine (ends_ofFault hs₅ _).bind fun r s₆ hs₆ _ _ => ?_
  exact (ends_ofFault hs₆ _).bind fun r' s₇ hs₇ _ _ => hf line r r' s₇ hs₇ hline

end Judgments

mutual

/-- Every judgment of a term in a regular context finishes. -/
theorem judge_finishes {k : Nat} {m : MeterId} (hm : m < k) (settings : Settings) :
    ∀ t : Term, JudgedRegular k m settings t
  | .univ _ => fun _ _ _ hs _ hgoal => finishes_conclude hm settings hs _ hgoal .univ
  | .var i => by
    intro ctx goal s hs hctx hgoal
    unfold judge
    have hfind : Finishes k (fun b _ => b.ty.Regular k) (fun _ => ofFault (ctx.find i)) s :=
      .ofFault hs fun _ => hctx.find
    exact hfind.bind fun b s₁ hs₁ _ hb => finishes_conclude hm settings hs₁ ctx hgoal hb
  | .pi x a b => by
    intro ctx goal s hs hctx hgoal
    unfold judge
    refine ((judge_finishes hm settings a).infers hs hctx).bind fun ty s₁ hs₁ _ hty => ?_
    refine (finishes_universeLevel hm settings hs₁ ctx hty).bind fun i s₂ hs₂ _ _ => ?_
    refine (finishes_evaluate hm hs₂ a hctx.env ctx.dims).bind fun v s₃ hs₃ _ hv => ?_
    have hinner := hctx.extend x hv
    refine ((judge_finishes hm settings b).infers hs₃ hinner).bind fun ty s₄ hs₄ _ hty => ?_
    refine (finishes_universeLevel hm settings hs₄ _ hty).bind fun j s₅ hs₅ _ _ => ?_
    exact finishes_conclude hm settings hs₅ ctx hgoal .univ
  | .lam x b => by
    intro ctx goal s hs hctx hgoal
    unfold judge
    cases goal with
    | none => exact .throw hs rfl
    | some g =>
      have hg := hgoal g rfl
      have hrefuse : Finishes k (fun (v : Value) _ => v.Regular k) (fun n => do
          throw (.typeMismatch (.term (← quote ⟨n, m, settings⟩ ctx g)) .function)) s :=
        finishes_refuse hm settings hs ctx hg fun _ => rfl
      cases hg with
      | pi hdom henv =>
        refine (finishes_codomain hm hs (.body henv) (.typed .var hdom)).bind ?_
        intro ty s₁ hs₁ _ hty
        exact (judge_finishes hm settings b).checks hs₁ (hctx.extend x hdom) hty
      | _ => exact hrefuse
  | .app f a => by
    intro ctx goal s hs hctx hgoal
    unfold judge
    refine ((judge_finishes hm settings f).infers hs hctx).bind fun ty s₁ hs₁ _ hty => ?_
    have hrefuse : Finishes k (fun (v : Value) _ => v.Regular k) (fun n => do
        throw (.typeMismatch .functionType (.term (← quote ⟨n, m, settings⟩ ctx ty)))) s₁ :=
      finishes_refuse hm settings hs₁ ctx hty fun _ => rfl
    cases hty with
    | pi hdom henv =>
      refine ((judge_finishes hm settings a).checks hs₁ hctx hdom).bind fun _ s₂ hs₂ _ _ => ?_
      refine (finishes_evaluate hm hs₂ a hctx.env ctx.dims).bind fun v s₃ hs₃ _ hv => ?_
      refine (finishes_codomain hm hs₃ (.body henv) hv).bind fun ty s₄ hs₄ _ hty => ?_
      exact finishes_conclude hm settings hs₄ ctx hgoal hty
    | _ => exact hrefuse
  | .path a l r => by
    intro ctx goal s hs hctx hgoal
    unfold judge
    exact finishes_pathType hm settings (judge_finishes hm settings a)
      (judge_finishes hm settings l) (judge_finishes hm settings r) hs hctx hgoal
  | .pathLam x b => by
    intro ctx goal s hs hctx hgoal
    have ends {ty l r : Value} (hty : ty.Regular k) (hl : l.Regular k) (hr : r.Regular k) :
        Finishes k (fun v _ => v.Regular k) (fun n => do
          let _ ← judge ⟨n, m, settings⟩ b ctx.extendDim (some ty)
          checkEnds ⟨n, m, settings⟩ ctx b l r
          return ty) s := by
      refine ((judge_finishes hm settings b).checks hs hctx.extendDim hty).bind ?_
      intro _ s₁ hs₁ _ _
      refine (finishes_checkEnds hm settings hs₁ hctx b hl hr).bind fun _ s₂ hs₂ _ _ => ?_
      exact .pure hs₂ hty
    unfold judge
    cases goal with
    | none => exact .throw hs rfl
    | some g =>
      have hg := hgoal g rfl
      have hrefuse : Finishes k (fun (v : Value) _ => v.Regular k) (fun n => do
          throw (.typeMismatch (.term (← quote ⟨n, m, settings⟩ ctx g)) .path)) s :=
        finishes_refuse hm settings hs ctx hg fun _ => rfl
      cases hg with
      | path hty hl hr => exact ends hty hl hr
      | smoothPath hty hl hr => exact ends hty hl hr
      | _ => exact hrefuse
  | .pathApp p r => by
    intro ctx goal s hs hctx hgoal
    unfold judge
    refine (finishes_checkDim hs ctx r).bind fun _ s₁ hs₁ _ _ => ?_
    refine ((judge_finishes hm settings p).infers hs₁ hctx).bind fun ty s₂ hs₂ _ hty => ?_
    have hrefuse : Finishes k (fun (v : Value) _ => v.Regular k) (fun n => do
        throw (.typeMismatch .pathType (.term (← quote ⟨n, m, settings⟩ ctx ty)))) s₂ :=
      finishes_refuse hm settings hs₂ ctx hty fun _ => rfl
    cases hty with
    | path hty _ _ => exact finishes_conclude hm settings hs₂ ctx hgoal hty
    | smoothPath hty _ _ => exact finishes_conclude hm settings hs₂ ctx hgoal hty
    | _ => exact hrefuse
  | .smoothPath order a l r => by
    intro ctx goal s hs hctx hgoal
    unfold judge
    refine (finishes_checkOrder hs settings.maxSmoothOrder order).bind fun _ s₁ hs₁ _ _ => ?_
    exact finishes_pathType hm settings (judge_finishes hm settings a)
      (judge_finishes hm settings l) (judge_finishes hm settings r) hs₁ hctx hgoal
  | .comp source target a fs b => by
    intro ctx goal s hs hctx hgoal
    unfold judge
    apply finishes_kanLine hm settings (judge_finishes hm settings a) hs hctx
    intro line r r' s₁ hs₁ hline
    refine (finishes_typeAt hm settings hs₁ hline r).bind fun start s₂ hs₂ _ hstart => ?_
    refine ((judge_finishes hm settings b).checks hs₂ hctx hstart).bind fun _ s₃ hs₃ _ _ => ?_
    refine (finishes_typeAt hm settings hs₃ hline _).bind fun along s₄ hs₄ _ halong => ?_
    refine (judgeFaces_finishes hm settings fs hs₄ hctx halong).bind fun _ s₅ hs₅ _ _ => ?_
    refine (finishes_checkAgreement hm settings hs₅ hctx source fs b).bind fun _ s₆ hs₆ _ _ => ?_
    refine (finishes_typeAt hm settings hs₆ hline r').bind fun ty s₇ hs₇ _ hty => ?_
    exact finishes_conclude hm settings hs₇ ctx hgoal hty
  | .coe source target a b => by
    intro ctx goal s hs hctx hgoal
    unfold judge
    apply finishes_kanLine hm settings (judge_finishes hm settings a) hs hctx
    intro line r r' s₁ hs₁ hline
    refine (finishes_typeAt hm settings hs₁ hline r).bind fun start s₂ hs₂ _ hstart => ?_
    refine ((judge_finishes hm settings b).checks hs₂ hctx hstart).bind fun _ s₃ hs₃ _ _ => ?_
    refine (finishes_typeAt hm settings hs₃ hline r').bind fun ty s₄ hs₄ _ hty => ?_
    exact finishes_conclude hm settings hs₄ ctx hgoal hty
  | .hcomp a fs b => by
    intro ctx goal s hs hctx hgoal
    unfold judge
    refine ((judge_finishes hm settings a).infers hs hctx).bind fun ty s₁ hs₁ _ hty => ?_
    refine (finishes_universeLevel hm settings hs₁ ctx hty).bind fun _ s₂ hs₂ _ _ => ?_
    refine (finishes_evaluate hm hs₂ a hctx.env ctx.dims).bind fun v s₃ hs₃ _ hv => ?_
    refine ((judge_finishes hm settings b).checks hs₃ hctx hv).bind fun _ s₄ hs₄ _ _ => ?_
    refine (judgeFaces_finishes hm settings fs hs₄ hctx hv).bind fun _ s₅ hs₅ _ _ => ?_
    refine (finishes_checkAgreement hm settings hs₅ hctx .zero fs b).bind fun _ s₆ hs₆ _ _ => ?_
    exact finishes_conclude hm settings hs₆ ctx hgoal hv
  | .missing => fun _ _ _ hs _ _ => .throw hs rfl

/-- The judgment on a system finishes. -/
theorem judgeFaces_finishes {k : Nat} {m : MeterId} (hm : m < k) (settings : Settings) :
    ∀ (fs : List (Face × Term)) {ctx : Context} {along : Value} {s : Session}, s.Regular k →
      ctx.Regular k → along.Regular k →
      Finishes k (fun _ _ => True) (fun n => judgeFaces ⟨n, m, settings⟩ fs ctx along) s
  | [], _, _, _, hs, _, _ => .pure hs trivial
  | (φ, u) :: rest, ctx, along, s, hs, hctx, halong => by
    unfold judgeFaces
    refine (finishes_checkFormula hs ctx φ).bind fun _ s₁ hs₁ _ _ => ?_
    refine ((judge_finishes hm settings u).checks hs₁ hctx.extendDim halong).bind ?_
    intro _ s₂ hs₂ _ _
    exact judgeFaces_finishes hm settings rest hs₂ hctx halong

end

end Typing

end SmoothCubical
