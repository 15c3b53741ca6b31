import SmoothCubical.Proofs.Stability.Evaluation
import SmoothCubical.Proofs.Stability.Shape

/-!
# Normal forms are stable but for idle coercions

A value that mirrors a settled term reads back as that term, so a settled term normalizes to
itself without its idle coercions (`yields_normalize`). Normal forms are normal in shape whatever
they come from (`normalize_isNormal`). So a normal form in which nothing is left to compute
normalizes to itself exactly if it has no idle coercion (`normal_form_stable_iff`).
-/

set_option autoImplicit false

namespace SmoothCubical

/-! ## The interval variables of a context -/

/-- There are as many generic interval variables as was asked. -/
@[simp] theorem IntervalEnv.length_generic (count : Nat) :
    (IntervalEnv.generic count).length = count := by
  rw [generic_eq_countdown, Index.length_countdown]

/-- A generic interval variable stands for the level of its index. -/
theorem IntervalEnv.get?_generic {count : Nat} {i : Int}
    (hi : Index.inScope count i = true) :
    Index.get? (IntervalEnv.generic count) i = some (.var (Index.flip count i)) := by
  rw [generic_eq_countdown]
  exact Index.get?_countdown hi

/-- Generic interval variables are below their number. -/
theorem IntervalEnv.lt_of_mem_generic {count : Nat} {level : Int}
    (h : .var level ∈ IntervalEnv.generic count) : level < count := by
  rw [generic_eq_countdown] at h
  obtain ⟨l, hl, heq⟩ := Index.mem_countdown h
  cases heq
  omega

/-- Generic interval variables are spread in every session. -/
theorem Spread.generic {m : MeterId} {s : Session} (hm : m < s.meters.size) (count : Nat) :
    Spread m (.generic count) s := by
  induction count with
  | zero => exact ⟨hm, List.nodup_nil, nofun⟩
  | succ count ih =>
    refine ih.cons (fun hmem => ?_) ?_
    · exact Int.lt_irrefl _ (IntervalEnv.lt_of_mem_generic hmem)
    · simp only [Run.probeBase]
      omega

namespace Readback

open Run Eval

/-- A dimension that was resolved among generic interval variables is read back to itself. -/
theorem dim_of_resolve {count : Nat} {d : Dim} {r : Interval}
    (h : IntervalEnv.resolve (.generic count) d = .ok r) : dim count r = .ok d := by
  cases d with
  | zero =>
    cases h
    rfl
  | one =>
    cases h
    rfl
  | missing => cases h
  | var i =>
    have hget := IntervalEnv.find_eq_ok.1 h
    have hscope := Index.inScope_of_get? hget
    rw [IntervalEnv.length_generic] at hscope
    rw [IntervalEnv.get?_generic hscope] at hget
    cases hget
    simp only [dim, Index.inScope_flip, hscope, if_true, Index.flip_flip]

/-- Values that mirror a settled term are read back as that term. -/
def ReadsBack (typeFree : Bool) (m : MeterId) (read : Reader) : Prop :=
  ∀ {roles : List Role} {count : Nat} {t : Term} {v : Value} {s : Session},
    Mirrors typeFree roles (.generic count) t v → m < s.meters.size →
    Yields typeFree (· = t) (read roles.length count v) s

section Rules

variable {typeFree : Bool} {m : MeterId} {call : Call} {read : Reader}
  (hcall : Steady typeFree call) (hread : ReadsBack typeFree m read) {roles : List Role}
  {count : Nat} {env : Env} {s : Session} (hm : m < s.meters.size)

include hcall hread hm

/-- A family is read back without its idle coercions. -/
theorem yields_line {a : Term} {flag : Bool}
    (ha : a.isSettled typeFree roles ((IntervalEnv.generic count).length + 1) = true)
    (henv : Env.Stands roles env) :
    Yields typeFree (· = a.dropIdle)
      (line call read m roles.length count
        (.varying (.body env (IntervalEnv.generic count) a) flag)) s := by
  unfold line
  have hdims := Spread.generic hm (count + 1)
  refine (hcall.meets (.instantiateAt ha henv) hdims).bind fun v s₁ hs₁ hv => ?_
  exact hread hv (hs₁.opened hm)

/-- A settled system that was closed is read back to itself without its idle coercions. -/
theorem yields_tubes {fs : List (Face × Term)} {closed : List Tube}
    (hfs : Term.settledBranches typeFree roles (IntervalEnv.generic count).length fs = true)
    (henv : Env.Stands roles env) (hclosed : Closes env (.generic count) fs closed) :
    Yields typeFree (· = Term.dropIdleBranches fs)
      (tubes call read m roles.length count closed) s := by
  induction hclosed generalizing s with
  | nil => exact yields_pure rfl
  | @cons φ u c fs closed hc _ ih =>
    obtain ⟨hφ, hu, hfs⟩ := Term.settledBranches_cons hfs
    obtain ⟨c', hc', _, _, hface⟩ := Face.cofibration_of_isSettled hφ
    rw [IntervalEnv.length_generic] at hc' hface
    rw [hc] at hc'
    cases hc'
    unfold tubes
    rw [hface]
    refine Yields.bind (yields_pure (P := (· = φ)) rfl) fun ψ s₀ hs₀ hψ => ?_
    have hdims := Spread.generic (hs₀.opened hm) (count + 1)
    refine (hcall.meets (.instantiateAt hu henv) hdims).bind fun v s₁ hs₁ hv => ?_
    have hm₁ := (hs₀.trans hs₁).opened hm
    refine (hread hv hm₁).bind fun t s₂ hs₂ ht => ?_
    refine (ih (hs₂.opened hm₁) hfs).bind fun rest s₃ _ hrest => ?_
    exact yields_pure (by rw [hψ, ht, hrest, Term.dropIdleBranches])

/-- A stuck computation is read back to the term that it mirrors. -/
theorem yields_neutral {t : Term} {n : Neutral}
    (h : MirrorsStuck typeFree roles (.generic count) t n) :
    Yields typeFree (· = t) (neutral call read m roles.length count n) s := by
  -- What is eliminated is read back on its own, as a stuck computation without a type.
  have hhead : ∀ {t n s}, MirrorsStuck typeFree roles (.generic count) t n →
      m < s.meters.size →
      Yields typeFree (· = t) (read roles.length count (.stuck n none)) s :=
    fun hn hm => hread (.stuck hn fun _ => nofun) hm
  cases h with
  | @var i hi =>
    have hindex : indexOfLevel roles.length (Index.flip roles.length i) = .ok i := by
      simp only [indexOfLevel, Index.inScope_flip, hi, if_true, Index.flip_flip]
    unfold neutral
    dsimp only
    rw [hindex]
    exact yields_pure rfl
  | app hf ha =>
    refine (hhead hf hm).bind fun f s₁ hs₁ ef => ?_
    refine (hread ha (hs₁.opened hm)).bind fun a s₂ _ ea => ?_
    exact yields_pure (by rw [ef, ea])
  | pathApp hp hd =>
    refine (hhead hp hm).bind fun p s₁ hs₁ ep => ?_
    rw [dim_of_resolve hd]
    exact yields_pure (by rw [ep])
  | comp hfree hd hd' henv ha hfs hclosed hb =>
    have hclosed := hclosed (by rw [IntervalEnv.length_generic])
    refine (yields_line hcall hread hm ha henv).bind fun a s₁ hs₁ ea => ?_
    have hm₁ := hs₁.opened hm
    refine (hread hb hm₁).bind fun b s₂ hs₂ eb => ?_
    have hm₂ := hs₂.opened hm₁
    refine (yields_tubes hcall hread hm₂ hfs henv hclosed).bind fun fs s₃ hs₃ efs => ?_
    rw [dim_of_resolve hd, dim_of_resolve hd']
    exact yields_pure (by rw [ea, eb, efs])
  | coe hfree hd hd' henv ha hb =>
    refine (yields_line hcall hread hm ha henv).bind fun a s₁ hs₁ ea => ?_
    rw [dim_of_resolve hd, dim_of_resolve hd']
    refine (hread hb (hs₁.opened hm)).bind fun b s₂ _ eb => ?_
    exact yields_pure (by rw [ea, eb])

/-- One layer of reading back gives the term that a value mirrors, if what it calls does. -/
theorem yields_readValue {t : Term} {v : Value}
    (h : Mirrors typeFree roles (.generic count) t v) :
    Yields typeFree (· = t) (value call read m roles.length count v) s := by
  have hdims := Spread.generic hm count
  cases h with
  | univ level => exact yields_pure rfl
  | @pi x a b A env hA henv hb =>
    rw [← hA.form_eq] at hb
    have hfits := Role.fits_ofType roles.length A
    refine (hcall.meets (.instantiate hb hfits henv) hdims).bind fun v s₁ hs₁ hv => ?_
    have hm₁ := hs₁.opened hm
    refine (hread hA hm₁).bind fun a s₂ hs₂ ea => ?_
    refine (hread hv (hs₂.opened hm₁)).bind fun b s₃ _ eb => ?_
    exact yields_pure (by rw [ea, eb])
  | @lam x b env henv hb =>
    have hfits : Role.inert.Fits roles.length (.value (.generic roles.length none)) :=
      .inert nofun
    refine (hcall.meets (.instantiate hb hfits henv) hdims).bind fun v s₁ hs₁ hv => ?_
    refine (hread hv (hs₁.opened hm)).bind fun b s₂ _ eb => ?_
    exact yields_pure (by rw [eb])
  | path ha hl hr =>
    refine (hread ha hm).bind fun a s₁ hs₁ ea => ?_
    have hm₁ := hs₁.opened hm
    refine (hread hl hm₁).bind fun l s₂ hs₂ el => ?_
    refine (hread hr (hs₂.opened hm₁)).bind fun r s₃ _ er => ?_
    exact yields_pure (by rw [ea, el, er])
  | smoothPath ha hl hr =>
    refine (hread ha hm).bind fun a s₁ hs₁ ea => ?_
    have hm₁ := hs₁.opened hm
    refine (hread hl hm₁).bind fun l s₂ hs₂ el => ?_
    refine (hread hr (hs₂.opened hm₁)).bind fun r s₃ _ er => ?_
    exact yields_pure (by rw [ea, el, er])
  | @pathLam x b env henv hb =>
    have hdims' := Spread.generic hm (count + 1)
    refine (hcall.meets (.instantiateAt hb henv) hdims').bind fun v s₁ hs₁ hv => ?_
    refine (hread hv (hs₁.opened hm)).bind fun b s₂ _ eb => ?_
    exact yields_pure (by rw [eb])
  | stuck hn _ => exact yields_neutral hcall hread hm hn

end Rules

/-- Whatever the number of calls that may nest, values that mirror a settled term are read back as
that term. -/
theorem quote_readsBack (typeFree : Bool) (m : MeterId) :
    ∀ frames, ReadsBack typeFree m (quote frames m)
  | 0 => fun _ _ => yields_guard _
  | frames + 1 => fun hv hm =>
    yields_readValue (run_steady typeFree frames) (quote_readsBack typeFree m frames) hm hv

end Readback

/-! ## Contexts -/

/-- A context that is built up from hypotheses, definitions and interval variables. -/
inductive Context.Assembled : Context → Prop
  | empty : Assembled .empty
  | extend {ctx : Context} (name : String) (ty : Value) :
      Assembled ctx → Assembled (ctx.extend name ty)
  | define {ctx : Context} (name : String) (ty value : Value) :
      Assembled ctx → Assembled (ctx.define name ty value)
  | extendDim {ctx : Context} : Assembled ctx → Assembled ctx.extendDim

/-- The role of the variable of the level, by its entry. -/
def Entry.role (level : Nat) : Entry → Role
  | .value (.stuck (.var l) ty) =>
    if l = level then
      match ty with
      | some A => .ofType A.form
      | none => .inert
    else .defined
  | _ => .defined

def Env.roles : Env → List Role
  | [] => []
  | e :: env => e.role env.length :: roles env

/-- Whether a term is settled in the context. -/
def Context.isSettled (ctx : Context) (typeFree : Bool) (t : Term) : Bool :=
  t.isSettled typeFree (Env.roles ctx.env) ctx.dims.length

/-- Whether nothing is left to compute in a normal form of the context but idle coercions. -/
def Context.isQuiet (ctx : Context) (typeFree : Bool) (t : Term) : Bool :=
  t.isQuiet typeFree (Env.roles ctx.env) ctx.dims.length

/-- There is a role for each entry. -/
theorem Env.length_roles : ∀ env : Env, (Env.roles env).length = env.length
  | [] => rfl
  | _ :: env => congrArg (· + 1) (length_roles env)

/-- An entry fits the role that is read off it. -/
theorem Entry.role_fits (level : Nat) (e : Entry) : (e.role level).Fits level e := by
  unfold Entry.role
  split
  · rename_i l ty
    split
    · rename_i hl
      subst hl
      cases ty with
      | none => exact .inert nofun
      | some A => exact Role.fits_ofType level A
    · exact .defined _
  · exact .defined _

/-- An environment stands for itself, by the roles that are read off it. -/
theorem Env.stands_roles : ∀ env : Env, Env.Stands (Env.roles env) env
  | [] => .nil
  | e :: env => by
    refine .cons ?_ (stands_roles env)
    rw [length_roles]
    exact e.role_fits env.length

namespace Context.Assembled

variable {ctx : Context}

/-- A context is as deep as its environment is long. -/
theorem depth_eq (h : ctx.Assembled) : ctx.depth = (Env.roles ctx.env).length := by
  induction h with
  | empty => rfl
  | extend name ty _ ih =>
    have := ih
    simp only [Context.depth, Context.extend, Env.length_roles, List.length_cons] at this ⊢
    omega
  | define name ty value _ ih =>
    have := ih
    simp only [Context.depth, Context.define, Env.length_roles, List.length_cons] at this ⊢
    omega
  | extendDim _ ih => exact ih

/-- The interval variables of a context stand for themselves. -/
theorem dims_eq (h : ctx.Assembled) : ctx.dims = .generic ctx.dims.length := by
  induction h with
  | empty => rfl
  | extend _ _ _ ih => exact ih
  | define _ _ _ _ ih => exact ih
  | @extendDim ctx _ ih =>
    change .var ctx.dims.length :: ctx.dims = .var ctx.dims.length :: IntervalEnv.generic _
    rw [← ih]

end Context.Assembled

section Normalize

variable {ctx : Context} (hctx : ctx.Assembled) {typeFree : Bool} {t : Term}
  (ht : ctx.isSettled typeFree t = true) (frames : Nat)

include hctx ht

/-- A settled term is evaluated, in a context, to a value that mirrors it. -/
theorem yields_evaluate {m : MeterId} {s : Session} (hm : m < s.meters.size) :
    Run.Yields typeFree
      (Mirrors typeFree (Env.roles ctx.env) (.generic ctx.dims.length) t.dropIdle)
      (Eval.evaluate frames m t ctx.env ctx.dims) s := by
  have hdims : Spread m ctx.dims s := by
    rw [hctx.dims_eq]
    exact .generic hm _
  have hask : Asks typeFree (Env.roles ctx.env) ctx.dims
      (.evaluate true t ctx.env ctx.dims) t.dropIdle := .evaluate ht (Env.stands_roles ctx.env)
  refine ((Eval.run_steady typeFree frames).meets hask hdims).mono fun v hv => ?_
  rwa [hctx.dims_eq] at hv

/-- A settled term is normalized to itself without its idle coercions. -/
theorem yields_normalize (settings : Settings) (s : Session) :
    Run.Yields typeFree (· = t.dropIdle) (Kernel.normalize frames settings ctx t) s := by
  refine Run.yields_openMeter_bind fun m s₁ hm => ?_
  refine (yields_evaluate hctx ht frames hm).bind fun v s₂ hs₂ hv => ?_
  rw [hctx.depth_eq]
  exact Readback.quote_readsBack typeFree m frames hv (hs₂.opened hm)

end Normalize

/-- Normal forms are normal in shape. -/
theorem normalize_isNormal {ctx : Context} (hctx : ctx.Assembled) {t n : Term} {frames : Nat}
    {settings : Settings} {s s' : Session}
    (hn : Kernel.normalize frames settings ctx t s = .ok n s') :
    n.isNormal (Env.roles ctx.env).length ctx.dims.length = true := by
  have hrun : Run.Yields false
      (fun n => n.isNormal (Env.roles ctx.env).length ctx.dims.length = true)
      (Kernel.normalize frames settings ctx t) s := by
    refine Run.yields_openMeter_bind fun m s₁ _ => ?_
    refine ((Eval.run_grows frames m _).yields rfl).bind fun v s₂ _ _ => ?_
    rw [hctx.depth_eq]
    exact (Readback.quote_isNormal m frames _ _ v s₂).mono fun n hn => hn.1
  unfold Run.Yields at hrun
  rw [hn] at hrun
  exact hrun.2

/-- A normal form in which nothing is left to compute normalizes to itself without its idle
coercions. So it is its own normal form exactly if it has none. If no type of a part of it has to
be computed, then nothing but a guard against running forever keeps it from being normalized. -/
theorem normal_form_stable_iff {ctx : Context} (hctx : ctx.Assembled) {t n : Term} {frames : Nat}
    {settings : Settings} {s s₁ : Session}
    (hn : Kernel.normalize frames settings ctx t s = .ok n s₁)
    (quiet : ctx.isQuiet false n = true) (frames' : Nat) (settings' : Settings) (s' : Session) :
    match Kernel.normalize frames' settings' ctx n s' with
    | .ok n' _ => n' = n.dropIdle ∧ (n' = n ↔ n.hasIdle = false)
    | .error e _ => ctx.isQuiet true n = true → e.kind = .nonTermination := by
  have hnormal := normalize_isNormal hctx hn
  have settled {typeFree : Bool} (h : ctx.isQuiet typeFree n = true) :
      ctx.isSettled typeFree n = true :=
    Bool.and_eq_true_iff.2 ⟨hnormal, h⟩
  have hrun := yields_normalize hctx (settled quiet) frames' settings' s'
  unfold Run.Yields at hrun
  cases heq : Kernel.normalize frames' settings' ctx n s' with
  | ok n' s'' =>
    rw [heq] at hrun
    obtain ⟨_, rfl⟩ := hrun
    exact ⟨rfl, n.dropIdle_eq_self_iff⟩
  | error e s'' =>
    -- The same run once more, now in a term of which no part is asked for its type.
    intro hfree
    have hguard := yields_normalize hctx (settled hfree) frames' settings' s'
    unfold Run.Yields at hguard
    rw [heq] at hguard
    exact hguard rfl

/-- The context of `functionOverPath`, put together by hand. -/
def overPath : Context :=
  let a := Value.generic 0 (some (.univ 0))
  let ctx := (((Context.empty.extend "A0" (.univ 0)).extend "A1" (.univ 0)).extend "p"
    (.path (.univ 0) a (.generic 1 (some (.univ 0))))).extend "B" (.univ 0)
  ctx.extend "f" (.pi "_" a (.body ctx.env [] (.var 1)))

/-- The normal form of `movedFunction`, with a coercion along `B`. -/
def movedFunctionNormal : Term :=
  .lam "x" (.coe .zero .one (.var 2)
    (.app (.var 1) (.coe .one .zero (.pathApp (.var 3) (.var 0)) (.var 0))))

/-- The normal form of the moved function is quiet and has an idle coercion, which normalizing it
drops. -/
theorem normal_form_stable_iff_moved :
    ∃ s₁, Kernel.normalize 100 .default overPath movedFunction {} =
        .ok movedFunctionNormal s₁ ∧
      overPath.isQuiet false movedFunctionNormal = true ∧ movedFunctionNormal.hasIdle = true ∧
      ∃ n s₂, Kernel.normalize 100 .default overPath movedFunctionNormal {} = .ok n s₂ ∧
        n = movedFunctionNormal.dropIdle ∧ n ≠ movedFunctionNormal := by
  have hctx : overPath.Assembled :=
    .extend _ _ (.extend _ _ (.extend _ _ (.extend _ _ (.extend _ _ .empty))))
  have hquiet : overPath.isQuiet false movedFunctionNormal = true := by decide
  have hidle : movedFunctionNormal.hasIdle = true := by decide
  obtain ⟨s₁, hn⟩ : ∃ s₁, Kernel.normalize 100 .default overPath movedFunction {} =
      .ok movedFunctionNormal s₁ := ⟨_, rfl⟩
  have hanswer : (answer? (Kernel.normalize 100 .default overPath
      movedFunctionNormal)).isSome = true := by
    decide +kernel
  have hstable := normal_form_stable_iff hctx hn hquiet 100 .default {}
  refine ⟨s₁, hn, hquiet, hidle, ?_⟩
  unfold answer? at hanswer
  cases heq : Kernel.normalize 100 .default overPath movedFunctionNormal {} with
  | error e s => simp [heq] at hanswer
  | ok n s =>
    rw [heq] at hstable
    refine ⟨n, s, rfl, hstable.1, fun h => ?_⟩
    rw [hstable.2.1 h] at hidle
    cases hidle

/-- A term need not convert with its normal form, nor is the normal form its own. The moved
function has a pending coercion along `B` in its normal form, and normalizing again drops it. -/
theorem normal_form_not_convertible :
    answer? (do
      let ctx ← declare 100 .default functionOverPath .empty
      let n ← Kernel.normalize 100 .default ctx movedFunction
      let n' ← Kernel.normalize 100 .default ctx n
      let v ← Kernel.evaluate 100 .default movedFunction ctx.env ctx.dims
      let w ← Kernel.evaluate 100 .default n ctx.env ctx.dims
      return (n.same n', ← Kernel.convertible 100 .default ctx v w)) = some (false, false) := by
  decide +kernel

end SmoothCubical
