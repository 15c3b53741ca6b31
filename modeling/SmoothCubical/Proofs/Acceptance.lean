import SmoothCubical.Kernel
import SmoothCubical.Proofs.IdleCoercion
import SmoothCubical.Proofs.Scope.Terms

/-!
# What accepted terms look like

Judgments meet every part of a term. So a term that is accepted is well-formed throughout, whatever
the context holds and whatever type it is checked against (`accepted_isWellFormed`): its variables
are bound where they stand, formulas are on the interval variables around their Kan operation,
orders of smoothness are in range, and abstractions stand only where a type is given for them.
-/

set_option autoImplicit false

namespace SmoothCubical

/-! ## Well-formed terms -/

/-- What a judgment does with a term that stands at a place: find its type, or hold the term against
a type that is given. -/
inductive Position
  | inferred
  | checked
deriving DecidableEq

/-- A judgment with a goal checks, one without infers. -/
def Position.ofGoal (goal : Option Value) : Position :=
  if goal.isSome then checked else inferred

/-- Whether the dimension is no interval variable but one of the first `count`. -/
def Dim.isBound (count : Nat) : Dim → Bool
  | .var index => Index.inScope count index
  | _ => true

/-- Whether the formula has no equation but on the first `count` interval variables. -/
def Face.isBound (count : Nat) : Face → Bool
  | .eq index _ => Index.inScope count index
  | .and left right => left.isBound count && right.isBound count
  | .or left right => left.isBound count && right.isBound count
  | _ => true

namespace Term

mutual

/-- Whether a term is well-formed at a position under so many term and interval variables: all its
variables are bound, every order of smoothness is between `0` and `largest`, and every abstraction
is at a position where terms are checked. Heads of applications, families and types are inferred. -/
def isWellFormed (largest : Int) : Position → Nat → Nat → Term → Bool
  | _, _, _, .univ _ => true
  | _, depth, _, .var index => Index.inScope depth index
  | _, depth, count, .pi _ domain codomain =>
    domain.isWellFormed largest .inferred depth count &&
      codomain.isWellFormed largest .inferred (depth + 1) count
  | position, depth, count, .lam _ body =>
    position = .checked && body.isWellFormed largest .checked (depth + 1) count
  | _, depth, count, .app function argument =>
    function.isWellFormed largest .inferred depth count &&
      argument.isWellFormed largest .checked depth count
  | _, depth, count, .path ty left right =>
    ty.isWellFormed largest .inferred depth count &&
      left.isWellFormed largest .checked depth count &&
      right.isWellFormed largest .checked depth count
  | position, depth, count, .pathLam _ body =>
    position = .checked && body.isWellFormed largest .checked depth (count + 1)
  | _, depth, count, .pathApp p dim =>
    p.isWellFormed largest .inferred depth count && dim.isBound count
  | _, depth, count, .smoothPath order ty left right =>
    (0 ≤ order && order ≤ largest) && ty.isWellFormed largest .inferred depth count &&
      left.isWellFormed largest .checked depth count &&
      right.isWellFormed largest .checked depth count
  | _, depth, count, .comp source target family faces base =>
    source.isBound count && target.isBound count &&
      family.isWellFormed largest .inferred depth (count + 1) &&
      wellFormedBranches largest depth count faces &&
      base.isWellFormed largest .checked depth count
  | _, depth, count, .coe source target family base =>
    source.isBound count && target.isBound count &&
      family.isWellFormed largest .inferred depth (count + 1) &&
      base.isWellFormed largest .checked depth count
  | _, depth, count, .hcomp ty faces base =>
    ty.isWellFormed largest .inferred depth count && wellFormedBranches largest depth count faces &&
      base.isWellFormed largest .checked depth count
  | _, _, _, .missing => false

/-- Whether every body is well-formed under the direction, and every formula is bound around it. -/
def wellFormedBranches (largest : Int) : Nat → Nat → List (Face × Term) → Bool
  | _, _, [] => true
  | depth, count, (φ, body) :: rest =>
    φ.isBound count && body.isWellFormed largest .checked depth (count + 1) &&
      wellFormedBranches largest depth count rest

end

/-- Whether a term is well-formed at a position in the scope of a context, by the largest order of
smoothness that the settings allow. -/
def WellFormedIn (settings : Settings) (ctx : Context) (position : Position) (t : Term) : Prop :=
  t.isWellFormed settings.maxSmoothOrder position ctx.bindings.length ctx.dims.length = true

end Term

/-! ## Formulas that are looked through -/

/-- A formula whose variables are in scope one by one is bound. -/
theorem Face.isBound_of_indices {count : Nat} {φ : Face}
    (h : ∀ i ∈ φ.indices, Index.inScope count i = true) : φ.isBound count = true := by
  induction φ with
  | top | bottom | missing => rfl
  | eq index endpoint => exact h index List.mem_cons_self
  | and left right hleft hright | or left right hleft hright =>
    refine Bool.and_eq_true_iff.2 ⟨hleft fun i hi => h i ?_, hright fun i hi => h i ?_⟩
    · exact OrderedSet.mem_union.2 (.inl hi)
    · exact OrderedSet.mem_union.2 (.inr hi)

/-! ## What follows from an answer -/

namespace Run

variable {α β : Type} {P Q : Prop} {x : Run α} {f : α → Run β}

/-- The statement holds if the run answers. -/
def Grants (P : Prop) (x : Run α) : Prop :=
  ∀ (s s' : Session) (a : α), x s = .ok a s' → P

/-- A run that fails grants anything. -/
theorem grants_throw (e : Failure) : Grants P (throw e : Run α) :=
  nofun

/-- What holds anyway is granted by any run. -/
theorem Grants.of (h : P) : Grants P x :=
  fun _ _ _ _ => h

/-- A run grants what follows from what it grants. -/
theorem Grants.mono (hx : Grants P x) (h : P → Q) : Grants Q x :=
  fun s s' a ha => h (hx s s' a ha)

/-- What the first part of a run grants is there for the second. -/
theorem Grants.bind (hx : Grants P x) (hf : ∀ a, P → Grants Q (f a)) : Grants Q (x >>= f) := by
  intro s s' b h
  obtain ⟨a, t, ha, hb⟩ := bind_eq_ok.1 h
  exact hf a (hx s t a ha) t s' b hb

/-- A statement that the second part of a run grants, whatever the first answers. -/
theorem Grants.skip (hf : ∀ a, Grants Q (f a)) : Grants Q (x >>= f) :=
  Grants.bind (P := True) (.of trivial) fun a _ => hf a

end Run

namespace Typing

open Run

variable {d : Derivation} {ctx : Context}

/-- A dimension that passes its check is bound. -/
theorem grants_checkDim (r : Dim) :
    Grants (r.isBound ctx.dims.length = true) (checkDim ctx r) := by
  cases r with
  | zero | one | missing => exact .of rfl
  | var index =>
    change Grants _ (if ctx.bindsDim index then pure () else throw _)
    split
    case isTrue hbound => exact .of hbound
    case isFalse => exact grants_throw _

/-- A face formula that passes its check has its variables bound. -/
theorem grants_checkFormula (φ : Face) :
    Grants (φ.isBound ctx.dims.length = true) (checkFormula ctx φ) := by
  unfold checkFormula
  split
  · exact grants_throw _
  case h_2 hnone =>
    refine .of (Face.isBound_of_indices fun i hi => ?_)
    simpa [Context.bindsDim, Context.dimDepth] using List.find?_eq_none.1 hnone i hi

/-- An order of smoothness that passes its check is in range. -/
theorem grants_checkOrder (largest order : Int) :
    Grants ((0 ≤ order && order ≤ largest) = true) (Smoothness.checkOrder largest order) := by
  unfold Smoothness.checkOrder
  split
  · exact grants_throw _
  · exact .of (by simp; omega)

/-- A variable that is found is in scope. -/
theorem grants_var (i : Int) :
    Grants (Index.inScope ctx.bindings.length i = true) (ofFault (ctx.find i)) := by
  unfold Context.find
  split
  case h_1 hfound => exact .of (Index.inScope_of_get? hfound)
  · exact grants_throw _

/-- Acceptance of the term grants that it is well-formed at the position of the judgment. -/
def GrantsForm (d : Derivation) (t : Term) : Prop :=
  ∀ (ctx : Context) (goal : Option Value),
    Grants (t.WellFormedIn d.settings ctx (.ofGoal goal)) (judge d t ctx goal)

/-- The two points of a Kan operation are bound, and the family is well-formed under its
direction. -/
theorem grants_kanLine {a : Term} (ha : GrantsForm d a) (source target : Dim) {P : Prop}
    {f : Line → Interval → Interval → Run Value}
    (hf : (source.isBound ctx.dims.length && target.isBound ctx.dims.length) = true →
      a.WellFormedIn d.settings ctx.extendDim .inferred → ∀ line r r', Grants P (f line r r')) :
    Grants P (do
      let _ ← universeLevel d ctx.extendDim (← judge d a ctx.extendDim none)
      checkDim ctx source
      checkDim ctx target
      let line ← Eval.closeFamily a ctx.env ctx.dims
      let r ← ofFault (IntervalEnv.resolve ctx.dims source)
      let r' ← ofFault (IntervalEnv.resolve ctx.dims target)
      f line r r') := by
  refine (ha ctx.extendDim none).bind fun _ hfamily => .skip fun _ => ?_
  refine (grants_checkDim source).bind fun _ hsource => ?_
  refine (grants_checkDim target).bind fun _ htarget => ?_
  have hpoints := Bool.and_eq_true_iff.2 ⟨hsource, htarget⟩
  exact .skip fun line => .skip fun r => .skip fun r' => hf hpoints hfamily line r r'

/-- The type and the ends of a path type are well-formed, plain or smooth. -/
theorem grants_pathType {a l r : Term} (ha : GrantsForm d a) (hl : GrantsForm d l)
    (hr : GrantsForm d r) (goal : Option Value) {P : Prop}
    (hP : a.WellFormedIn d.settings ctx .inferred → l.WellFormedIn d.settings ctx .checked →
      r.WellFormedIn d.settings ctx .checked → P) :
    Grants P (do
      let level ← universeLevel d ctx (← judge d a ctx none)
      let v ← eval d ctx a
      let _ ← judge d l ctx (some v)
      let _ ← judge d r ctx (some v)
      conclude d ctx goal (.univ level)) := by
  refine (ha ctx none).bind fun _ hty => .skip fun _ => .skip fun v => ?_
  refine (hl ctx (some v)).bind fun _ hleft => ?_
  exact (hr ctx (some v)).bind fun _ hright => .of (hP hty hleft hright)

mutual

/-- A judgment meets every part of the term, each at its position. -/
theorem judge_grants : ∀ t : Term, GrantsForm d t
  | .univ _ => fun _ _ => .of rfl
  | .var i => fun ctx goal => (grants_var i).bind fun _ hi => .of hi
  | .pi x a b => by
    intro ctx goal
    unfold judge
    refine (judge_grants a ctx none).bind fun _ ha => .skip fun _ => .skip fun v => ?_
    exact (judge_grants b (ctx.extend x v) none).bind fun _ hb =>
      .of (Bool.and_eq_true_iff.2 ⟨ha, hb⟩)
  | .lam x b => by
    intro ctx goal
    unfold judge
    split
    · exact grants_throw _
    case h_2 domain codomain =>
      exact .skip fun ty => judge_grants b (ctx.extend x domain) (some ty)
    · exact .skip fun _ => grants_throw _
  | .app f a => by
    intro ctx goal
    unfold judge
    refine (judge_grants f ctx none).bind fun ty hf => ?_
    split
    case h_1 domain codomain =>
      exact (judge_grants a ctx (some domain)).bind fun _ ha =>
        .of (Bool.and_eq_true_iff.2 ⟨hf, ha⟩)
    · exact .skip fun _ => grants_throw _
  | .path a l r => by
    intro ctx goal
    unfold judge
    refine grants_pathType (judge_grants a) (judge_grants l) (judge_grants r) goal ?_
    intro ha hl hr
    exact Bool.and_eq_true_iff.2 ⟨Bool.and_eq_true_iff.2 ⟨ha, hl⟩, hr⟩
  | .pathLam x b => by
    intro ctx goal
    unfold judge
    split
    · exact grants_throw _
    case h_2 ty left right =>
      exact (judge_grants b ctx.extendDim (some ty)).bind fun _ hb => .of hb
    case h_3 order ty left right =>
      exact (judge_grants b ctx.extendDim (some ty)).bind fun _ hb => .of hb
    · exact .skip fun _ => grants_throw _
  | .pathApp p r => by
    intro ctx goal
    unfold judge
    refine (grants_checkDim r).bind fun _ hr => ?_
    exact (judge_grants p ctx none).bind fun _ hp => .of (Bool.and_eq_true_iff.2 ⟨hp, hr⟩)
  | .smoothPath order a l r => by
    intro ctx goal
    unfold judge
    refine (grants_checkOrder _ order).bind fun _ horder => ?_
    refine grants_pathType (judge_grants a) (judge_grants l) (judge_grants r) goal ?_
    intro ha hl hr
    have htype := Bool.and_eq_true_iff.2 ⟨horder, ha⟩
    exact Bool.and_eq_true_iff.2 ⟨Bool.and_eq_true_iff.2 ⟨htype, hl⟩, hr⟩
  | .comp source target a fs b => by
    intro ctx goal
    unfold judge
    refine grants_kanLine (judge_grants a) source target ?_
    intro hpoints ha line r r'
    refine .skip fun start => (judge_grants b ctx (some start)).bind fun _ hb => ?_
    refine .skip fun along => (judgeFaces_grants fs ctx along).bind fun _ hfs => .of ?_
    have hfamily := Bool.and_eq_true_iff.2 ⟨hpoints, ha⟩
    exact Bool.and_eq_true_iff.2 ⟨Bool.and_eq_true_iff.2 ⟨hfamily, hfs⟩, hb⟩
  | .coe source target a b => by
    intro ctx goal
    unfold judge
    refine grants_kanLine (judge_grants a) source target ?_
    intro hpoints ha line r r'
    refine .skip fun start => (judge_grants b ctx (some start)).bind fun _ hb => .of ?_
    exact Bool.and_eq_true_iff.2 ⟨Bool.and_eq_true_iff.2 ⟨hpoints, ha⟩, hb⟩
  | .hcomp a fs b => by
    intro ctx goal
    unfold judge
    refine (judge_grants a ctx none).bind fun _ ha => .skip fun _ => .skip fun v => ?_
    refine (judge_grants b ctx (some v)).bind fun _ hb => ?_
    refine (judgeFaces_grants fs ctx v).bind fun _ hfs => .of ?_
    exact Bool.and_eq_true_iff.2 ⟨Bool.and_eq_true_iff.2 ⟨ha, hfs⟩, hb⟩
  | .missing => fun _ _ => grants_throw _

/-- A system that is accepted is well-formed. -/
theorem judgeFaces_grants : ∀ (fs : List (Face × Term)) (ctx : Context) (along : Value),
    Grants (Term.wellFormedBranches d.settings.maxSmoothOrder ctx.bindings.length ctx.dims.length
      fs = true) (judgeFaces d fs ctx along)
  | [], _, _ => .of rfl
  | (φ, u) :: rest, ctx, along => by
    unfold judgeFaces
    refine (grants_checkFormula φ).bind fun _ hφ => ?_
    refine (judge_grants u ctx.extendDim (some along)).bind fun _ hu => ?_
    refine (judgeFaces_grants rest ctx along).mono fun hrest => ?_
    exact Bool.and_eq_true_iff.2 ⟨Bool.and_eq_true_iff.2 ⟨hφ, hu⟩, hrest⟩

end

end Typing

/-- A derivation on a new meter keeps to the settings. -/
theorem Run.grants_derivation {α : Type} {P : Prop} {frames : Nat} {settings : Settings}
    {f : Derivation → Run α} (hf : ∀ m, Grants P (f ⟨frames, m, settings⟩)) :
    Grants P (Kernel.derivation frames settings >>= f) := by
  intro s s' a h
  obtain ⟨d, s₁, hd, hrun⟩ := bind_eq_ok.1 h
  cases hd
  exact hf _ _ _ _ hrun

/-! ## Accepted terms -/

open Run in
/-- Acceptance implies well-formedness. A term whose type is inferred, by a derivation that has gone
on before or by one of its own, under any settings and in any context and session, is well-formed at
an inferred position; a term that is checked against any value is well-formed at a checked position,
and so it is against a term, which is then well-formed at an inferred one. -/
theorem accepted_isWellFormed (ctx : Context) (t : Term) (s s' : Session) :
    (∀ (d : Derivation) (ty : Value), Typing.infer d ctx t s = .ok ty s' →
      t.WellFormedIn d.settings ctx .inferred) ∧
    (∀ (d : Derivation) (expected : Value), Typing.check d ctx t expected s = .ok () s' →
      t.WellFormedIn d.settings ctx .checked) ∧
    (∀ (frames : Nat) (settings : Settings) (ty : Value),
      Kernel.infer frames settings ctx t s = .ok ty s' → t.WellFormedIn settings ctx .inferred) ∧
    (∀ (frames : Nat) (settings : Settings) (expected : Value),
      Kernel.check frames settings ctx t expected s = .ok () s' →
        t.WellFormedIn settings ctx .checked) ∧
    (∀ (frames : Nat) (settings : Settings) (expected : Term),
      Kernel.checkTerm frames settings ctx t expected s = .ok () s' →
        t.WellFormedIn settings ctx .checked ∧ expected.WellFormedIn settings ctx .inferred) := by
  have infers (d : Derivation) (t : Term) :
      Grants (t.WellFormedIn d.settings ctx .inferred) (Typing.infer d ctx t) :=
    Typing.judge_grants t ctx none
  have checks (d : Derivation) (expected : Value) :
      Grants (t.WellFormedIn d.settings ctx .checked) (Typing.check d ctx t expected) :=
    (Typing.judge_grants t ctx (some expected)).bind fun _ ht => .of ht
  refine ⟨fun d ty => infers d t s s' ty, fun d expected => checks d expected s s' (),
    ?infer, ?check, ?checkTerm⟩
  case infer =>
    intro frames settings ty
    exact grants_derivation (fun m => infers ⟨frames, m, settings⟩ t) s s' ty
  case check =>
    intro frames settings expected
    exact grants_derivation (fun m => checks ⟨frames, m, settings⟩ expected) s s' ()
  case checkTerm =>
    intro frames settings expected
    refine grants_derivation (fun m => ?_) s s' ()
    refine Grants.bind ((infers ⟨frames, m, settings⟩ expected).bind fun _ h => .of h) ?_
    intro _ hexpected
    exact .skip fun v => (checks ⟨frames, m, settings⟩ v).mono fun ht => ⟨ht, hexpected⟩

/-- For a loop `p` in `A` that is differentiable twice, `p` composed with its start on one side. -/
def loopFiller : Term :=
  .lam "A" (.lam "a" (.lam "p" (.pathLam "i"
    (.hcomp (.var 2) [(.eq 0 .zero, .var 1)] (.pathApp (.var 0) (.var 0))))))

/-- The type of `loopFiller`. -/
def loopFillerType : Term :=
  .pi "A" (.univ 0) (.pi "a" (.var 0) (.pi "p" (.smoothPath 2 (.var 1) (.var 0) (.var 0))
    (.path (.var 2) (.var 1) (.hcomp (.var 2) [] (.var 1)))))

/-- The filler of a loop is accepted, so it and its type are well-formed. -/
theorem accepted_isWellFormed_loopFiller :
    ∃ s' : Session, Kernel.checkTerm 100 .default .empty loopFiller loopFillerType {} = .ok () s' ∧
      loopFiller.isWellFormed 1000 .checked 0 0 = true ∧
      loopFillerType.isWellFormed 1000 .inferred 0 0 = true := by
  have hanswer : answer? (Kernel.checkTerm 100 .default .empty loopFiller loopFillerType) =
      some () := by
    decide +kernel
  obtain ⟨s', hrun⟩ := answer?_eq_some hanswer
  have hformed := (accepted_isWellFormed .empty loopFiller {} s').2.2.2.2 100 .default
    loopFillerType hrun
  exact ⟨s', hrun, hformed.1, hformed.2⟩

end SmoothCubical
