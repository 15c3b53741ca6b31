import SmoothCubical.Proofs.Evaluator.Accounting
import SmoothCubical.Proofs.Stability.NormalForm

/-!
# Contexts are coherent

A context lists the types of its term variables, their values, and its interval variables. Whatever
hypotheses, definitions and interval variables it is put together from, and in whatever order, the
three lists stay aligned (`context_coherent`): a hypothesis evaluates to the variable of its own
level with its own type, a definition to the value that it was given, and an interval variable to
itself.

The level of a hypothesis is its place among all term variables, definitions counted. A definition
takes a place, so no hypothesis has the level of that place, and index and level of a hypothesis add
up to one less than the depth of the context. Reading back relies on it.
-/

set_option autoImplicit false

namespace SmoothCubical

/-! ## Contexts, step by step -/

/-- A term variable as it comes into a context: a hypothesis, or a definition with its value. -/
inductive Variable
  | hypothesis (binding : Binding)
  | definition (binding : Binding) (value : Value)

namespace Variable

def binding : Variable → Binding
  | .hypothesis x => x
  | .definition x _ => x

/-- What the variable evaluates to if it has the given level. -/
def value (level : Int) : Variable → Value
  | .hypothesis x => .generic level (some x.ty)
  | .definition _ v => v

/-- The values of variables, the latest first, each at the level of its place. -/
def values : List Variable → Env
  | [] => []
  | x :: earlier => .value (x.value earlier.length) :: values earlier

/-- There is a value for each variable. -/
theorem length_values : ∀ xs : List Variable, (values xs).length = xs.length
  | [] => rfl
  | _ :: earlier => congrArg (· + 1) (length_values earlier)

/-- The value of a variable is at its index, with the level that the index has. -/
theorem get?_values {xs : List Variable} {i : Int} {x : Variable}
    (h : Index.get? xs i = some x) :
    Index.get? (values xs) i = some (.value (x.value (Index.flip xs.length i))) := by
  induction xs generalizing i with
  | nil => simp [Index.get?] at h
  | cons y earlier ih =>
    rw [values, List.length_cons, Int.natCast_succ]
    rcases Index.get?_cons_eq_some h with ⟨rfl, rfl⟩ | ⟨j, hj, rfl, hbehind⟩
    · rw [Index.get?_cons_zero, Index.flip_zero]
    · rw [Index.get?_cons_succ _ _ hj, Index.flip_succ]
      exact ih hbehind

end Variable

namespace Context

/-- Declare a term variable. -/
def declare (ctx : Context) : Variable → Context
  | .hypothesis x => ctx.extend x.name x.ty
  | .definition x v => ctx.define x.name x.ty v

/-- A step in putting a context together. -/
inductive Step
  | declare (x : Variable)
  | extendDim

/-- Whether the step binds an interval variable. -/
def Step.bindsDim : Step → Bool
  | .declare _ => false
  | .extendDim => true

/-- The context that steps lead to from the empty one, the latest step first. -/
def ofSteps : List Step → Context
  | [] => .empty
  | .declare x :: earlier => (ofSteps earlier).declare x
  | .extendDim :: earlier => (ofSteps earlier).extendDim

/-- The term variables that steps declare, the latest first. -/
def declarations : List Step → List Variable
  | [] => []
  | .declare x :: earlier => x :: declarations earlier
  | .extendDim :: earlier => declarations earlier

/-- A declared variable has its own binding, and a value at the level that is next. -/
theorem declare_eq (ctx : Context) (x : Variable) :
    ctx.declare x = { ctx with
      bindings := x.binding :: ctx.bindings
      env := .value (x.value ctx.depth) :: ctx.env } := by
  cases x <;> rfl

/-- All that a context holds, by the steps that lead to it. -/
theorem ofSteps_eq (steps : List Step) : ofSteps steps =
    { bindings := (declarations steps).map Variable.binding
      env := Variable.values (declarations steps)
      dims := .generic (steps.countP Step.bindsDim) } := by
  induction steps with
  | nil => rfl
  | cons step earlier ih =>
    cases step with
    | declare x =>
      have hdepth : (ofSteps earlier).depth = (declarations earlier).length := by
        rw [depth, ih, List.length_map]
      rw [ofSteps, declare_eq, hdepth, ih]
      rfl
    | extendDim =>
      have hdims : (ofSteps earlier).dimDepth = (earlier.countP Step.bindsDim : Nat) := by
        rw [dimDepth, ih, IntervalEnv.length_generic]
      have hcount : (Step.extendDim :: earlier).countP Step.bindsDim =
          earlier.countP Step.bindsDim + 1 := List.countP_cons_of_pos rfl
      rw [ofSteps, extendDim, freshDim, hdims, ih, hcount]
      rfl

/-- A context is as deep as there are hypotheses and definitions in it. -/
theorem depth_ofSteps (steps : List Step) :
    (ofSteps steps).depth = (declarations steps).length := by
  rw [depth, ofSteps_eq, List.length_map]

/-- A context has as many interval variables as were added. -/
theorem dimDepth_ofSteps (steps : List Step) :
    (ofSteps steps).dimDepth = (steps.countP Step.bindsDim : Nat) := by
  rw [dimDepth, ofSteps_eq, IntervalEnv.length_generic]

/-! ## The values of variables -/

/-- The value of a term variable. To look the variable up gives it and leaves the session as it is,
and to evaluate the variable gives it in every session, under all settings. -/
structure HasValue (ctx : Context) (i : Int) (v : Value) : Prop where
  lookup : ∀ (call : Call) (s : Session), Eval.lookup call ctx.env i s = .ok v s
  evaluate : ∀ (frames : Nat) (settings : Settings) (s : Session),
    ∃ s', Kernel.evaluate (frames + 1) settings (.var i) ctx.env ctx.dims s = .ok v s'

end Context

namespace Eval

open Run

/-- To look up a variable whose value is there costs nothing. -/
theorem lookup_value {env : Env} {i : Int} {v : Value} (h : Index.get? env i = some (.value v))
    (call : Call) (s : Session) : lookup call env i s = .ok v s := by
  have hentry : findEntry env i = .ok (.value v) := by rw [findEntry, h]
  rw [lookup, hentry]
  rfl

/-- A variable that has its value at hand evaluates to it, in one step. -/
theorem evaluate_var {env : Env} {i : Int} {v : Value} (h : Index.get? env i = some (.value v))
    {m : MeterId} {s : Session} (hm : m < s.meters.size)
    (hdepth : (s.meter m).depth < (s.meter m).settings.maxDepth)
    (hfuel : (s.meter m).steps < (s.meter m).settings.fuel) (frames : Nat) (dims : IntervalEnv) :
    ∃ s', evaluate (frames + 1) m (.var i) env dims s = .ok v s' := by
  have hcharge := charge_deeper hm
  rw [if_neg (Nat.not_lt.2 hfuel)] at hcharge
  have hstep : step (run frames) m (.var i) env dims (Likeness.charged m (Likeness.deeper m s)) =
      .ok v (Likeness.charged m (Likeness.deeper m s)) := lookup_value h (run frames) _
  refine ⟨Likeness.shallower m (Likeness.charged m (Likeness.deeper m s)), ?_⟩
  rw [evaluate_eq_nest hm hdepth, Likeness.nest_eq, chargedStep, bind_ok hcharge, hstep]

/-- A new evaluator can take that step, whatever its settings. -/
theorem evaluate_var_new {env : Env} {i : Int} {v : Value} (h : Index.get? env i = some (.value v))
    (frames : Nat) (settings : Settings) (dims : IntervalEnv) (s : Session) :
    ∃ s', evaluate (frames + 1) s.meters.size (.var i) env dims
      { s with meters := s.meters.push { settings } } = .ok v s' := by
  have hmeter : Session.meter { s with meters := s.meters.push { settings } } s.meters.size =
      { settings } := by
    simp [Session.meter]
  apply evaluate_var h
  · simp
  · rw [hmeter]
    exact settings.maxDepth_pos
  · rw [hmeter]
    exact settings.fuel_pos

end Eval

namespace Context

variable {ctx : Context} {i : Int}

/-- A variable has the value that is at its index in the environment. -/
theorem hasValue_of_get? {v : Value} (h : Index.get? ctx.env i = some (.value v)) :
    ctx.HasValue i v where
  lookup := Eval.lookup_value h
  evaluate frames settings s := Eval.evaluate_var_new h frames settings ctx.dims s

/-- A variable has one value. -/
theorem HasValue.unique {v w : Value} (hv : ctx.HasValue i v) (hw : ctx.HasValue i w) : v = w := by
  have hlookup := (hv.lookup (Eval.run 0) {}).symm.trans (hw.lookup (Eval.run 0) {})
  cases hlookup
  rfl

/-- A variable that stands for itself is its own normal form. -/
theorem normalize_var {ty : Option Value} (hi : Index.inScope ctx.depth i = true)
    (h : Index.get? ctx.env i = some (.value (.generic (Index.flip ctx.depth i) ty)))
    (frames : Nat) (settings : Settings) (s : Session) :
    ∃ s', Kernel.normalize (frames + 1) settings ctx (.var i) s = .ok (.var i) s' := by
  obtain ⟨s', hv⟩ := Eval.evaluate_var_new h frames settings ctx.dims s
  have hindex : Readback.indexOfLevel ctx.depth (Index.flip ctx.depth i) = .ok i := by
    rw [Readback.indexOfLevel, Index.inScope_flip, if_pos hi, Index.flip_flip]
  have hquote : Readback.quote (frames + 1) s.meters.size ctx.depth ctx.dimDepth
      (.generic (Index.flip ctx.depth i) ty) s' = .ok (.var i) s' := by
    change (Run.ofFault (Readback.indexOfLevel ctx.depth (Index.flip ctx.depth i)) >>= fun j =>
      pure (Term.var j)) s' = _
    rw [hindex]
    rfl
  refine ⟨s', ?_⟩
  change (Eval.evaluate (frames + 1) s.meters.size (.var i) ctx.env ctx.dims >>=
    Readback.quote (frames + 1) s.meters.size ctx.depth ctx.dimDepth)
      { s with meters := s.meters.push { settings } } = _
  rw [Run.bind_ok hv, hquote]

/-! ## Aligned lists -/

section OfSteps

variable {steps : List Step}

/-- An interval variable that is bound stands for itself. -/
theorem find_dim_ofSteps (hi : (ofSteps steps).bindsDim i = true) :
    (ofSteps steps).dims.find i = .ok (.var (Index.flip (ofSteps steps).dimDepth i)) := by
  rw [bindsDim, dimDepth_ofSteps] at hi
  rw [IntervalEnv.find_eq_ok, dimDepth_ofSteps, ofSteps_eq]
  exact IntervalEnv.get?_generic hi

variable {x : Variable} (h : Index.get? (declarations steps) i = some x)

include h

/-- An index that was declared is in scope. -/
theorem inScope_ofSteps : Index.inScope (ofSteps steps).depth i = true := by
  rw [depth_ofSteps]
  exact Index.inScope_of_get? h

/-- An index that was declared is found with its binding. -/
theorem find_ofSteps : (ofSteps steps).find i = .ok x.binding := by
  have hbinding : Index.get? (ofSteps steps).bindings i = some x.binding := by
    rw [ofSteps_eq, Index.get?_map, h, Option.map_some]
  rw [find, hbinding]

/-- A declared variable has the value of the level that its index names. -/
theorem get?_env_ofSteps : Index.get? (ofSteps steps).env i =
    some (.value (x.value (Index.flip (ofSteps steps).depth i))) := by
  rw [depth_ofSteps, ofSteps_eq]
  exact Variable.get?_values h

end OfSteps

end Context

/-- Contexts are coherent. Whatever steps lead to a context, each of its term variables has a
binding and a value, and each interval variable in scope is bound to itself, at the level that its
index names. A hypothesis keeps the binding it came with. Its value is the variable of the level
that its index names, with the type of the binding, so different hypotheses have different levels,
all of them below the depth; and it is its own normal form. A definition keeps the value it was
given. -/
theorem context_coherent (steps : List Context.Step) :
    let ctx := Context.ofSteps steps
    let declared (i : Int) := Index.get? (Context.declarations steps) i
    ctx.bindings.length = ctx.env.length ∧
    ctx.depth = (Context.declarations steps).length ∧
    ctx.dimDepth = (steps.countP Context.Step.bindsDim : Nat) ∧
    (∀ i, ctx.bindsDim i = true → ctx.dims.find i = .ok (.var (ctx.dimDepth - 1 - i))) ∧
    (∀ i x, declared i = some (.hypothesis x) →
      ctx.find i = .ok x ∧
      ctx.HasValue i (.generic (ctx.depth - 1 - i) (some x.ty)) ∧
      0 ≤ ctx.depth - 1 - i ∧ ctx.depth - 1 - i < ctx.depth ∧
      ∀ frames settings s, ∃ s',
        Kernel.normalize (frames + 1) settings ctx (.var i) s = .ok (.var i) s') ∧
    (∀ i j x y level ty ty', declared i = some (.hypothesis x) →
      declared j = some (.hypothesis y) → ctx.HasValue i (.generic level ty) →
      ctx.HasValue j (.generic level ty') → i = j) ∧
    (∀ i x v, declared i = some (.definition x v) → ctx.find i = .ok x ∧ ctx.HasValue i v) := by
  intro ctx declared
  refine ⟨?_, Context.depth_ofSteps steps, Context.dimDepth_ofSteps steps,
    fun i hi => Context.find_dim_ofSteps hi, fun i x h => ?_,
    fun i j x y level ty ty' hi hj hvi hvj => ?_, fun i x v h => ?_⟩
  · have hlists := Context.ofSteps_eq steps
    simp only [ctx, hlists, List.length_map, Variable.length_values]
  · have hvalue := Context.get?_env_ofSteps h
    have hscope := Context.inScope_ofSteps h
    have hlevel : Index.inScope ctx.depth (Index.flip ctx.depth i) = true := by
      rw [Index.inScope_flip]
      exact hscope
    simp only [Index.inScope, Bool.and_eq_true, decide_eq_true_eq] at hlevel
    exact ⟨Context.find_ofSteps h, Context.hasValue_of_get? hvalue, hlevel.1, hlevel.2,
      Context.normalize_var hscope hvalue⟩
  · have heqi := hvi.unique (Context.hasValue_of_get? (Context.get?_env_ofSteps hi))
    have heqj := hvj.unique (Context.hasValue_of_get? (Context.get?_env_ofSteps hj))
    have hleveli : level = Index.flip ctx.depth i := Neutral.var.inj (Value.stuck.inj heqi).1
    have hlevelj : level = Index.flip ctx.depth j := Neutral.var.inj (Value.stuck.inj heqj).1
    rw [← Index.flip_flip ctx.depth i, ← hleveli, hlevelj, Index.flip_flip]
  · exact ⟨Context.find_ofSteps h, Context.hasValue_of_get? (Context.get?_env_ofSteps h)⟩

/-- A type `A`, an interval variable, a universe `T` by definition, a hypothesis `x` of type `A`,
another interval variable, and a path from `x` to itself. The latest stands first. -/
def pathOverDefinition : List Context.Step :=
  let A := Value.generic 0 (some (.univ 0))
  let x := Value.generic 2 (some A)
  [.declare (.hypothesis ⟨"p", .path A x x⟩), .extendDim, .declare (.hypothesis ⟨"x", A⟩),
    .declare (.definition ⟨"T", .univ 1⟩ (.univ 0)), .extendDim,
    .declare (.hypothesis ⟨"A", .univ 0⟩)]

/-- The definition takes the place of level one, and the interval variables take none. -/
theorem context_coherent_pathOverDefinition :
    let ctx := Context.ofSteps pathOverDefinition
    let A := Value.generic 0 (some (.univ 0))
    let x := Value.generic 2 (some A)
    ctx.dims.find 0 = .ok (.var 1) ∧ ctx.dims.find 1 = .ok (.var 0) ∧
    ctx.find 0 = .ok ⟨"p", .path A x x⟩ ∧
    ctx.HasValue 0 (.generic 3 (some (.path A x x))) ∧
    ctx.HasValue 1 x ∧ ctx.HasValue 2 (.univ 0) ∧ ctx.HasValue 3 A ∧
    (∀ ty, ¬ ctx.HasValue 1 (.generic 3 ty)) ∧
    ∀ settings s, ∃ s', Kernel.normalize 1 settings ctx (.var 0) s = .ok (.var 0) s' := by
  intro ctx A x
  obtain ⟨_, _, _, hdims, hhypotheses, hdistinct, hdefinitions⟩ :=
    context_coherent pathOverDefinition
  obtain ⟨hfind, hvalue, _, _, hnormal⟩ := hhypotheses 0 ⟨"p", .path A x x⟩ rfl
  obtain ⟨_, hx, _⟩ := hhypotheses 1 ⟨"x", A⟩ rfl
  obtain ⟨_, hA, _⟩ := hhypotheses 3 ⟨"A", .univ 0⟩ rfl
  refine ⟨hdims 0 rfl, hdims 1 rfl, hfind, hvalue, hx, (hdefinitions 2 _ _ rfl).2, hA,
    fun ty hty => ?_, hnormal 0⟩
  exact absurd (hdistinct 0 1 _ _ _ _ _ rfl rfl hvalue hty) (by decide)

end SmoothCubical
