import SmoothCubical.Proofs.Stability.NormalForm

/-!
# Plain terms are their own normal forms

A term is plain if it has no Kan operation, applies no abstraction, and takes no path abstraction
and no path to an end. In a context of hypotheses and interval variables, evaluation finds nothing
to compute in it, and reading back restores it as it was written (`plain_term_is_normal_form`).

A term is read at each binder in the environment of one more variable. What a variable has for a
type depends on the binder, and the type of an elimination is found by running closures about which
nothing is known. Neither matters, since no type is ever read back.
-/

set_option autoImplicit false

namespace SmoothCubical

/-- Whether the term has no Kan operation and nothing to compute, whatever its variables are. -/
def Term.isPlain : Term → Bool
  | .univ _ => true
  | .var _ => true
  | .pi _ domain codomain => domain.isPlain && codomain.isPlain
  | .lam _ body => body.isPlain
  | .app function argument => function.form != .lam && function.isPlain && argument.isPlain
  | .path ty left right => ty.isPlain && left.isPlain && right.isPlain
  | .pathLam _ body => body.isPlain
  | .pathApp p dim => p.form != .pathLam && p.isPlain && dim != .zero && dim != .one
  | .smoothPath _ ty left right => ty.isPlain && left.isPlain && right.isPlain
  | _ => false

/-! ## Environments of variables -/

/-- Every variable stands for itself, with any type or none. -/
inductive Env.OfVariables : Env → Prop
  | nil : OfVariables []
  | cons {env : Env} (ty : Option Value) :
      OfVariables env → OfVariables (.value (.generic env.length ty) :: env)

/-- Each entry of an environment of variables is the variable of its level. -/
theorem Env.OfVariables.get? {env : Env} (h : env.OfVariables) {i : Int} {e : Entry}
    (hget : Index.get? env i = some e) :
    ∃ ty, e = .value (.generic (Index.flip env.length i) ty) := by
  induction h generalizing i with
  | nil => simp [Index.get?] at hget
  | @cons env ty _ ih =>
    rcases Index.get?_cons_eq_some hget with ⟨rfl, rfl⟩ | ⟨j, _, rfl, hbehind⟩
    · exact ⟨ty, congrArg (Entry.value <| .generic · ty) (Index.flip_zero env.length).symm⟩
    · obtain ⟨ty', rfl⟩ := ih hbehind
      exact ⟨ty', congrArg (Entry.value <| .generic · ty') (Index.flip_succ env.length j).symm⟩

/-! ## Values that depict plain terms -/

mutual

/-- The value is that of a plain term under so many term and interval variables, part by part. -/
inductive Depicts : Nat → Nat → Term → Value → Prop
  | univ {depth count : Nat} (level : Int) : Depicts depth count (.univ level) (.univ level)
  | pi {count : Nat} {x : String} {a b : Term} {A : Value} {env : Env} :
      Depicts env.length count a A → env.OfVariables → b.isPlain = true →
      Depicts env.length count (.pi x a b) (.pi x A (.body env (IntervalEnv.generic count) b))
  | lam {count : Nat} {x : String} {b : Term} {env : Env} : env.OfVariables → b.isPlain = true →
      Depicts env.length count (.lam x b) (.lam x (.body env (IntervalEnv.generic count) b))
  | path {depth count : Nat} {a l r : Term} {A L R : Value} : Depicts depth count a A →
      Depicts depth count l L → Depicts depth count r R →
      Depicts depth count (.path a l r) (.path A L R)
  | smoothPath {depth count : Nat} {k : Int} {a l r : Term} {A L R : Value} :
      Depicts depth count a A → Depicts depth count l L → Depicts depth count r R →
      Depicts depth count (.smoothPath k a l r) (.smoothPath k A L R)
  | pathLam {count : Nat} {x : String} {b : Term} {env : Env} : env.OfVariables →
      b.isPlain = true →
      Depicts env.length count (.pathLam x b) (.pathLam x (.body env (IntervalEnv.generic count) b))
  | stuck {depth count : Nat} {t : Term} {n : Neutral} (ty : Option Value) :
      DepictsStuck depth count t n → Depicts depth count t (.stuck n ty)

/-- The same for stuck computations. -/
inductive DepictsStuck : Nat → Nat → Term → Neutral → Prop
  | var {depth count : Nat} {i : Int} : Index.inScope depth i = true →
      DepictsStuck depth count (.var i) (.var (Index.flip depth i))
  | app {depth count : Nat} {f a : Term} {n : Neutral} {v : Value} :
      DepictsStuck depth count f n → Depicts depth count a v →
      DepictsStuck depth count (.app f a) (.app n v)
  | pathApp {depth count : Nat} {p : Term} {d : Dim} {n : Neutral} {r : Interval} :
      DepictsStuck depth count p n → IntervalEnv.resolve (.generic count) d = .ok r →
      DepictsStuck depth count (.pathApp p d) (.pathApp n r)

end

/-- A value has the form of the term that it depicts. -/
theorem Depicts.form_eq {depth count : Nat} {t : Term} {v : Value} (h : Depicts depth count t v) :
    v.form = t.form := by
  cases h with
  | stuck ty hn => cases hn <;> rfl
  | _ => rfl

/-! ## Evaluating plain terms -/

namespace Eval

open Run

/-- A call that evaluates plain terms to values that depict them, and of which nothing else is known
but that it lets the session grow. -/
structure Depicting (call : Call) : Prop where
  grows : KeepingCall Session.Grows call
  meets : ∀ {env : Env} {count : Nat} {nests : Bool} {t : Term} {m : MeterId} {s : Session},
    env.OfVariables → t.isPlain = true →
    Yields false (Depicts env.length count t) (call m (.evaluate nests t env (.generic count))) s

/-- To fail is no answer. -/
theorem yields_throw {α : Type} {P : α → Prop} (e : Failure) {s : Session} :
    Yields false P (throw e : Run α) s :=
  nofun

section Rules

variable {call : Call} (hcall : Depicting call) {m : MeterId} {env : Env} {count : Nat}
  {s : Session}

include hcall in
/-- An application that does not compute is stuck, whatever its type. -/
theorem yields_plainApply {depth : Nat} {f a : Term} {v w : Value}
    (hv : Depicts depth count f v) (hlam : f.form ≠ .lam) (hw : Depicts depth count a w) :
    Yields false (Depicts depth count (.app f a)) (apply call m v w) s := by
  rw [← hv.form_eq] at hlam
  cases hv with
  | stuck ty hn =>
    unfold apply
    split
    · rename_i heq
      cases heq
    · rename_i heq
      cases heq
      refine ((hcall.grows m _).yields rfl).bind fun B s₁ _ _ => ?_
      exact yields_pure (.stuck _ (.app hn hw))
    · rename_i heq
      cases heq
      exact yields_pure (.stuck _ (.app hn hw))
    · exact yields_throw _
  | lam => exact (hlam rfl).elim
  | _ => exact yields_throw _

/-- A path that does not compute is stuck at a generic point. -/
theorem yields_plainPathApply {depth : Nat} {p : Term} {d : Dim} {v : Value} {level : Int}
    (hv : Depicts depth count p v) (hlam : p.form ≠ .pathLam)
    (hd : IntervalEnv.resolve (.generic count) d = .ok (.var level)) :
    Yields false (Depicts depth count (.pathApp p d)) (pathApply call m v (.var level)) s := by
  rw [← hv.form_eq] at hlam
  cases hv with
  | stuck ty hn =>
    unfold pathApply
    split
    · rename_i heq
      cases heq
    · rename_i heq
      cases heq
      exact yields_pure (.stuck _ (.pathApp hn hd))
    · rename_i heq
      cases heq
      exact yields_pure (.stuck _ (.pathApp hn hd))
    · rename_i heq
      cases heq
      exact yields_pure (.stuck _ (.pathApp hn hd))
    · exact yields_throw _
  | pathLam => exact (hlam rfl).elim
  | _ => exact yields_throw _

/-- A variable is looked up as itself. -/
theorem yields_variable (henv : env.OfVariables) (i : Int) :
    Yields false (Depicts env.length count (.var i)) (lookup call env i) s := by
  unfold lookup findEntry
  cases hget : Index.get? env i with
  | none => exact yields_throw _
  | some e =>
    obtain ⟨ty, rfl⟩ := henv.get? hget
    exact yields_pure (.stuck ty (.var (Index.inScope_of_get? hget)))

include hcall in
/-- One step of evaluation takes a plain term to a value that depicts it. -/
theorem yields_plainStep (henv : env.OfVariables) {t : Term} (ht : t.isPlain = true) :
    Yields false (Depicts env.length count t) (step call m t env (.generic count)) s := by
  have value {t : Term} (ht : t.isPlain = true) {s : Session} :
      Yields false (Depicts env.length count t)
        (call m (.evaluate true t env (.generic count))) s :=
    hcall.meets henv ht
  cases t with
  | univ level => exact yields_pure (.univ level)
  | var i => exact yields_variable henv i
  | pi x a b =>
    simp only [Term.isPlain, Bool.and_eq_true] at ht
    refine (value ht.1).bind fun A s₁ _ hA => ?_
    exact yields_pure (.pi hA henv ht.2)
  | lam x b => exact yields_pure (.lam henv ht)
  | app f a =>
    simp only [Term.isPlain, Bool.and_eq_true, bne_iff_ne] at ht
    obtain ⟨⟨hlam, hf⟩, ha⟩ := ht
    refine (value hf).bind fun v s₁ _ hv => ?_
    have hargument : Yields false (Depicts env.length count (.app f a))
        (call m (.evaluate true a env (.generic count)) >>= fun w => apply call m v w) s₁ :=
      (value ha).bind fun w s₂ _ hw => yields_plainApply hcall hv hlam hw
    have hform := hv.form_eq
    cases v with
    | lam => exact (hlam hform.symm).elim
    | _ => exact hargument
  | path a l r =>
    simp only [Term.isPlain, Bool.and_eq_true] at ht
    refine (value ht.1.1).bind fun A s₁ _ hA => ?_
    refine (value ht.1.2).bind fun L s₂ _ hL => ?_
    refine (value ht.2).bind fun R s₃ _ hR => ?_
    exact yields_pure (.path hA hL hR)
  | pathLam x b => exact yields_pure (.pathLam henv ht)
  | pathApp p d =>
    simp only [Term.isPlain, Bool.and_eq_true, bne_iff_ne] at ht
    obtain ⟨⟨⟨hlam, hp⟩, hzero⟩, hone⟩ := ht
    refine (value hp).bind fun v s₁ _ hv => ?_
    cases d with
    | zero => exact (hzero rfl).elim
    | one => exact (hone rfl).elim
    | missing => exact yields_throw _
    | var i =>
      cases hr : IntervalEnv.resolve (.generic count) (.var i) with
      | error e => exact yields_throw _
      | ok r =>
        have hmem := Index.mem_of_get? (IntervalEnv.find_eq_ok.1 hr)
        obtain ⟨level, rfl⟩ := IntervalEnv.isGeneric_generic count r hmem
        exact yields_plainPathApply hv hlam hr
  | smoothPath k a l r =>
    simp only [Term.isPlain, Bool.and_eq_true] at ht
    refine (value ht.1.1).bind fun A s₁ _ hA => ?_
    refine (value ht.1.2).bind fun L s₂ _ hL => ?_
    refine (value ht.2).bind fun R s₃ _ hR => ?_
    exact yields_pure (.smoothPath hA hL hR)
  | comp | coe | hcomp | missing => cases ht

end Rules

/-- Plain terms are evaluated to values that depict them if calls do so. -/
theorem answer_depicting {call : Call} (hcall : Depicting call) : Depicting (answer call) where
  grows := law_answer (grows_law hcall.grows)
  meets {env count nests t m s} henv ht := by
    cases nests with
    | true =>
      refine Yields.nest fun s₁ _ => (yields_checkDepth m t).bind fun _ s₂ _ _ => ?_
      exact (yields_charge m).bind fun _ s₃ _ _ => yields_plainStep hcall henv ht
    | false => exact (yields_charge m).bind fun _ s₁ _ _ => yields_plainStep hcall henv ht

/-- Whatever the number of calls that may nest, plain terms have values that depict them. -/
theorem run_depicting : ∀ frames, Depicting (run frames)
  | 0 => ⟨run_grows 0, fun _ _ => yields_guard _⟩
  | frames + 1 => answer_depicting (run_depicting frames)

end Eval

/-! ## Reading plain terms back -/

namespace Readback

open Run Eval

/-- A reader that gives back the plain term that a value depicts. -/
def Restores (read : Reader) : Prop :=
  ∀ {depth count : Nat} {t : Term} {v : Value} {s : Session},
    Depicts depth count t v → Yields false (· = t) (read depth count v) s

section Rules

variable {frames : Nat} {m : MeterId} {read : Reader} (hread : Restores read)
  {count : Nat} {s : Session}

/-- The body of a binder over terms, at a variable of whatever type. -/
theorem yields_body {env : Env} (henv : env.OfVariables) {b : Term} (hb : b.isPlain = true)
    (ty : Option Value) :
    Yields false (Depicts (env.length + 1) count b)
      (run frames m (.instantiate (.body env (IntervalEnv.generic count) b)
        (.value (.generic env.length ty)))) s := by
  cases frames with
  | zero => exact yields_guard _
  | succ frames => exact (run_depicting frames).meets (.cons ty henv) hb

/-- The body of a binder over the interval, at the next interval variable. -/
theorem yields_bodyAt {env : Env} (henv : env.OfVariables) {b : Term} (hb : b.isPlain = true) :
    Yields false (Depicts env.length (count + 1) b)
      (run frames m (.instantiateAt (.body env (IntervalEnv.generic count) b) (.var count))) s := by
  cases frames with
  | zero => exact yields_guard _
  | succ frames => exact (run_depicting frames).meets henv hb

include hread

/-- A stuck computation is read back to the plain term that it depicts. -/
theorem yields_plainNeutral {depth : Nat} {t : Term} {n : Neutral}
    (h : DepictsStuck depth count t n) :
    Yields false (· = t) (neutral (run frames) read m depth count n) s := by
  cases h with
  | @var _ _ i hi =>
    have hindex : indexOfLevel depth (Index.flip depth i) = .ok i := by
      simp only [indexOfLevel, Index.inScope_flip, hi, if_true, Index.flip_flip]
    unfold neutral
    dsimp only
    rw [hindex]
    exact yields_pure rfl
  | app hf ha =>
    refine (hread (.stuck none hf)).bind fun f s₁ _ ef => ?_
    refine (hread ha).bind fun a s₂ _ ea => ?_
    exact yields_pure (by rw [ef, ea])
  | pathApp hp hd =>
    refine (hread (.stuck none hp)).bind fun p s₁ _ ep => ?_
    rw [dim_of_resolve hd]
    exact yields_pure (by rw [ep])

/-- One layer of reading back restores plain terms if what it calls does. -/
theorem restores_value : Restores (value (run frames) read m) := by
  intro depth count t v s h
  cases h with
  | univ level => exact yields_pure rfl
  | @pi _ x a b A env hA henv hb =>
    refine (yields_body henv hb (some A)).bind fun w s₁ _ hw => ?_
    refine (hread hA).bind fun a s₂ _ ea => ?_
    refine (hread hw).bind fun b s₃ _ eb => ?_
    exact yields_pure (by rw [ea, eb])
  | @lam _ x b env henv hb =>
    refine (yields_body henv hb none).bind fun w s₁ _ hw => ?_
    refine (hread hw).bind fun b s₂ _ eb => ?_
    exact yields_pure (by rw [eb])
  | path ha hl hr =>
    refine (hread ha).bind fun a s₁ _ ea => ?_
    refine (hread hl).bind fun l s₂ _ el => ?_
    refine (hread hr).bind fun r s₃ _ er => ?_
    exact yields_pure (by rw [ea, el, er])
  | smoothPath ha hl hr =>
    refine (hread ha).bind fun a s₁ _ ea => ?_
    refine (hread hl).bind fun l s₂ _ el => ?_
    refine (hread hr).bind fun r s₃ _ er => ?_
    exact yields_pure (by rw [ea, el, er])
  | @pathLam _ x b env henv hb =>
    refine (yields_bodyAt henv hb).bind fun w s₁ _ hw => ?_
    refine (hread hw).bind fun b s₂ _ eb => ?_
    exact yields_pure (by rw [eb])
  | stuck ty hn => exact yields_plainNeutral hread hn

end Rules

/-- Whatever the number of calls that may nest, a value that depicts a plain term is read back as
that term. -/
theorem quote_restores (m : MeterId) : ∀ frames, Restores (quote frames m)
  | 0 => fun _ => yields_guard _
  | frames + 1 => restores_value (quote_restores m frames)

end Readback

/-! ## Contexts of hypotheses -/

/-- A context that is built up from hypotheses, with any types, and interval variables. -/
inductive Context.Hypothetical : Context → Prop
  | empty : Hypothetical .empty
  | extend {ctx : Context} (name : String) (ty : Value) :
      Hypothetical ctx → Hypothetical (ctx.extend name ty)
  | extendDim {ctx : Context} : Hypothetical ctx → Hypothetical ctx.extendDim

namespace Context.Hypothetical

variable {ctx : Context}

/-- A context of hypotheses and interval variables is put together as a context should be. -/
theorem assembled (h : ctx.Hypothetical) : ctx.Assembled := by
  induction h with
  | empty => exact .empty
  | extend name ty _ ih => exact ih.extend name ty
  | extendDim _ ih => exact ih.extendDim

/-- The environment of a context of hypotheses is one of variables. -/
theorem ofVariables (h : ctx.Hypothetical) : ctx.env.OfVariables := by
  induction h with
  | empty => exact .nil
  | @extend ctx name ty hctx ih =>
    have hdepth : ctx.depth = ctx.env.length := by
      rw [hctx.assembled.depth_eq, Env.length_roles]
    change Env.OfVariables (.value (.generic ctx.depth (some ty)) :: ctx.env)
    rw [hdepth]
    exact .cons (some ty) ih
  | extendDim _ ih => exact ih

end Context.Hypothetical

/-- A plain term is its own normal form in every context of hypotheses and interval variables: what
normalizing it returns, if it returns, is the term itself, with its display names. -/
theorem plain_term_is_normal_form {ctx : Context} (hctx : ctx.Hypothetical) {n : Term}
    (hn : n.isPlain = true) {frames : Nat} {settings : Settings} {s s' : Session} {n' : Term}
    (hrun : Kernel.normalize frames settings ctx n s = .ok n' s') : n' = n := by
  have hdepth : ctx.depth = ctx.env.length := by
    rw [hctx.assembled.depth_eq, Env.length_roles]
  have hyields : Run.Yields false (· = n) (Kernel.normalize frames settings ctx n) s := by
    refine Run.yields_openMeter_bind fun m s₁ _ => ?_
    rw [hctx.assembled.dims_eq]
    refine ((Eval.run_depicting frames).meets hctx.ofVariables hn).bind fun v s₂ _ hv => ?_
    rw [hdepth]
    exact Readback.quote_restores m frames hv
  unfold Run.Yields at hyields
  rw [hrun] at hyields
  exact hyields.2

/-- Functions from the path `p` at an interval variable, which take `f` at their first argument and
then at that interval variable. -/
def functionAtPoint : Term :=
  .pi "x" (.pathApp (.var 2) (.var 0))
    (.lam "y" (.pathLam "i" (.pathApp (.app (.var 2) (.var 1)) (.var 1))))

/-- A function of paths, applied at an interval variable, is its own normal form. -/
theorem plain_term_is_normal_form_functionAtPoint :
    ∃ s', Kernel.normalize 100 .default overPath.extendDim functionAtPoint {} =
      .ok functionAtPoint s' := by
  have hctx : overPath.extendDim.Hypothetical :=
    .extendDim (.extend _ _ (.extend _ _ (.extend _ _ (.extend _ _ (.extend _ _ .empty)))))
  have hplain : functionAtPoint.isPlain = true := rfl
  have hanswer : (answer? (Kernel.normalize 100 .default overPath.extendDim
      functionAtPoint)).isSome = true := by
    decide +kernel
  obtain ⟨n, hn⟩ := Option.isSome_iff_exists.1 hanswer
  obtain ⟨s', hrun⟩ := answer?_eq_some hn
  obtain rfl := plain_term_is_normal_form hctx hplain hrun
  exact ⟨s', hrun⟩

end SmoothCubical
