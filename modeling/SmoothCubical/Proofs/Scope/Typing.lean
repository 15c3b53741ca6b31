import SmoothCubical.Typing.Judgment
import SmoothCubical.Proofs.Scope.Reading

/-!
# Judging in scope

A judgment on a term in scope, in a context in scope, finds no fault of syntax, and a type that it
infers is in scope (`judge_safe`). Conversion, the ends of paths and the agreement of partial
elements are looked at one by one; each evaluates parts of the term in the environments of the
context, possibly with an interval variable more or with some of them moved to an end.

Besides the variables of the context there may be others that values hold, as long as it is not
asked that they can be read back. The scope of these is called the ground.
-/

set_option autoImplicit false

namespace SmoothCubical

/-- The ground of contexts that hold nothing but their own variables. -/
def Scope.own : Scope where
  level _ := False
  point _ := False
  meter _ := True
  lax := False
  origin _ := none

/-- In the empty scope of one's own, everything can be read back at depth zero. -/
theorem Scope.own_fits : own.Fits 0 0 :=
  .inr ⟨nofun, nofun⟩

/-- What may occur in the values of the context: its own variables, and what the ground has. -/
def Context.scope (g : Scope) (ctx : Context) : Scope :=
  { g with
    level := fun l => g.level l ∨ Index.inScope ctx.bindings.length l = true
    point := fun l => g.point l ∨ Index.inScope ctx.dims.length l = true }

/-- The context is in scope of its own variables and of the ground. -/
structure Context.In (g : Scope) (ctx : Context) (s : Session) : Prop where
  types : ∀ b ∈ ctx.bindings, b.ty.In ((ctx.scope g).during s)
  entries : ∀ e ∈ ctx.env, e.In ((ctx.scope g).during s)
  points : ∀ r ∈ ctx.dims, r.On (ctx.scope g).point
  length : g.lax ∨ ctx.env.length = ctx.bindings.length

/-- The term is in scope of the context. -/
def Context.isScoped (ctx : Context) (t : Term) : Bool :=
  t.isScoped ctx.bindings.length ctx.dims.length

/-- The term is in scope of the context, unless the ground does not ask for that. -/
abbrev Context.Scopes (g : Scope) (ctx : Context) (t : Term) : Prop :=
  g.Scoped ctx.bindings.length ctx.dims.length t

/-- The derivation runs on a meter of the ground, and nothing on the ground is read back unless
terms may be out of scope. -/
structure Derivation.On (g : Scope) (d : Derivation) : Prop where
  meter : g.meter d.meter
  ground : g.Fits 0 0

namespace Context

variable {g : Scope} {ctx : Context} {s s' : Session}

/-- What is in scope of a context can be read back at its depth. -/
theorem scope_fits (hg : g.Fits 0 0) (ctx : Context) :
    (ctx.scope g).Fits ctx.bindings.length ctx.dims.length := by
  refine hg.imp id fun hg => ⟨fun l hl => ?_, fun l hl => ?_⟩
  · exact hl.elim (fun hl => (Index.not_inScope_zero l (hg.1 l hl)).elim) id
  · exact hl.elim (fun hl => (Index.not_inScope_zero l (hg.2 l hl)).elim) id

/-- A context in scope of a session stays so in every session that it leads to. -/
theorem In.mono (h : ctx.In g s) (hs : s.Leads s') : ctx.In g s' where
  types b hb := (h.types b hb).mono (hs.le _)
  entries e he := (h.entries e he).mono (hs.le _)
  points := h.points
  length := h.length

/-- As many values as types are known, so that a term in scope can be evaluated. -/
theorem In.scoped (h : ctx.In g s) {count : Nat} {t : Term}
    (ht : g.Scoped ctx.bindings.length count t) : (ctx.scope g).Scoped ctx.env.length count t := by
  rcases h.length with hlax | hlength
  · exact .inl hlax
  · rw [hlength]
    exact ht

/-- Of values of the context nothing is lost when a term variable is added. -/
theorem le_cons (ctx : Context) (b : Binding) (e : Entry) (s : Session) :
    ((ctx.scope g).during s).Le
      ((scope g { ctx with bindings := b :: ctx.bindings, env := e :: ctx.env }).during s) :=
  ⟨Or.imp_right Index.inScope_succ, id, id, id, id⟩

/-- What is in scope of a context is so with one more interval variable. -/
theorem le_extendDim (ctx : Context) (s : Session) :
    ((ctx.scope g).during s).Le ((ctx.extendDim.scope g).during s) :=
  ⟨id, Or.imp_right Index.inScope_succ, id, id, id⟩

/-- A context in scope with a variable more, the value of which may be the variable itself. -/
theorem In.cons (h : ctx.In g s) (name : String) {ty v : Value}
    (hty : ty.In ((ctx.scope g).during s))
    (hv : v.In ((scope g { ctx with
      bindings := ⟨name, ty⟩ :: ctx.bindings, env := .value v :: ctx.env }).during s)) :
    In g { ctx with bindings := ⟨name, ty⟩ :: ctx.bindings, env := .value v :: ctx.env } s where
  types b hb := by
    rcases List.mem_cons.1 hb with rfl | hb
    · exact hty.mono (ctx.le_cons _ _ s)
    · exact (h.types b hb).mono (ctx.le_cons _ _ s)
  entries e he := by
    rcases List.mem_cons.1 he with rfl | he
    · exact .value hv
    · exact (h.entries e he).mono (ctx.le_cons _ _ s)
  points := h.points
  length := h.length.imp_right (congrArg (· + 1))

/-- The next hypothesis is in scope of the context with it. -/
theorem nextVar_in (ctx : Context) (name : String) {ty : Value}
    (hty : ty.In ((ctx.scope g).during s)) :
    (ctx.nextVar ty).In (((ctx.extend name ty).scope g).during s) :=
  .typed (.var (.inr (Index.inScope_self _))) (hty.mono (ctx.le_cons _ _ s))

/-- A context in scope can be extended by a hypothesis of a type in scope. -/
theorem In.extend (h : ctx.In g s) (name : String) {ty : Value}
    (hty : ty.In ((ctx.scope g).during s)) : (ctx.extend name ty).In g s :=
  h.cons name hty (ctx.nextVar_in name hty)

/-- A context in scope can be extended by a definition in scope, at a type in scope. -/
theorem In.define (h : ctx.In g s) (name : String) {ty v : Value}
    (hty : ty.In ((ctx.scope g).during s)) (hv : v.In ((ctx.scope g).during s)) :
    (ctx.define name ty v).In g s :=
  h.cons name hty (hv.mono (ctx.le_cons _ _ s))

/-- The interval variable that is added next is in scope of the extended context. -/
theorem freshDim_on (ctx : Context) : ctx.freshDim.On (ctx.extendDim.scope g).point :=
  .inr (Index.inScope_self _)

/-- A context in scope can be extended by an interval variable. -/
theorem In.extendDim (h : ctx.In g s) : ctx.extendDim.In g s where
  types b hb := (h.types b hb).mono (ctx.le_extendDim s)
  entries e he := (h.entries e he).mono (ctx.le_extendDim s)
  points r hr := by
    rcases List.mem_cons.1 hr with rfl | hr
    · exact ctx.freshDim_on
    · exact (h.points r hr).mono fun _ => Or.imp_right Index.inScope_succ
  length := h.length

end Context

namespace Typing

open Run Eval

variable {g : Scope} {d : Derivation} {ctx : Context} {s : Session}

/-! ## Evaluation and conversion in a context -/

/-- A term is evaluated in the environment of the context and any points in scope. -/
theorem safe_evaluate {m : MeterId} (hm : g.meter m) (hs : s.Sound) (hctx : ctx.In g s)
    {dims : IntervalEnv} {t : Term} (hdims : ∀ r ∈ dims, r.On (ctx.scope g).point)
    (ht : g.Scoped ctx.bindings.length dims.length t) (frames : Nat) :
    Safe g.lax (InScope (ctx.scope g)) (Eval.evaluate frames m t ctx.env dims) s :=
  run_safe frames (S := ctx.scope g) hs hm (.evaluate ⟨hctx.entries, hdims, hctx.scoped ht⟩)

variable (hd : d.On g)
include hd

/-- A derivation evaluates a term in scope safely, to a value in scope. -/
theorem safe_eval (hs : s.Sound) (hctx : ctx.In g s) {t : Term} (ht : ctx.Scopes g t) :
    Safe g.lax (InScope (ctx.scope g)) (eval d ctx t) s :=
  safe_evaluate hd.meter hs hctx hctx.points ht d.frames

/-- A derivation reads a value in scope back safely. -/
theorem safe_quote (hs : s.Sound) {v : Value} (hv : v.In ((ctx.scope g).during s)) :
    Safe g.lax (fun _ _ => True) (quote d ctx v) s := by
  have hread := Readback.quote_safe d.meter d.frames (S := ctx.scope g) hs hd.meter
    (ctx.scope_fits hd.ground) hv
  exact hread.mono fun _ _ _ => trivial

/-- Values are compared under as many variables as their scope has. -/
theorem safe_convertible (hs : s.Sound) {v w : Value} (hv : v.In ((ctx.scope g).during s))
    (hw : w.In ((ctx.scope g).during s)) :
    Safe g.lax (fun _ _ => True)
      (Readback.convertible d.frames d.meter ctx.bindings.length ctx.dims.length v w) s := by
  apply (safe_quote hd hs hv).bind
  intro t s₁ hs₁ _
  apply (safe_quote hd hs₁.sound (hw.mono (hs₁.le _))).bind
  intro u s₂ hs₂ _
  exact safe_pure hs₂.sound trivial

/-- A derivation compares values in scope safely. -/
theorem safe_conv (hs : s.Sound) {v w : Value} (hv : v.In ((ctx.scope g).during s))
    (hw : w.In ((ctx.scope g).during s)) : Safe g.lax (fun _ _ => True) (conv d ctx v w) s :=
  safe_convertible hd hs hv hw

/-- A derivation looks a family in scope up safely. -/
theorem safe_lineAt (hs : s.Sound) {a : Line} (ha : a.In ((ctx.scope g).during s)) {r : Interval}
    (hr : r.On (ctx.scope g).point) : Safe g.lax (InScope (ctx.scope g)) (lineAt d a r) s :=
  Eval.safe_lineAt (run_safe d.frames) (S := ctx.scope g) hs hd.meter ha hr

/-- Whether one type in scope may stand for another without converting is asked safely. -/
theorem safe_weakens (hs : s.Sound) {v w : Value} (hv : v.In ((ctx.scope g).during s))
    (hw : w.In ((ctx.scope g).during s)) : Safe g.lax (fun _ _ => True) (weakens d ctx v w) s := by
  unfold weakens
  split
  · exact safe_pure hs trivial
  · split
    · cases hv with
      | smoothPath ha hl hr => exact safe_conv hd hs (.smoothPath ha hl hr) hw
    · exact safe_pure hs trivial
  · exact safe_pure hs trivial

/-- A type in scope is made to stand for another safely. The failure that tells them apart is none
of syntax. -/
theorem safe_convert (hs : s.Sound) {v w : Value} (hv : v.In ((ctx.scope g).during s))
    (hw : w.In ((ctx.scope g).during s)) : Safe g.lax (fun _ _ => True) (convert d ctx v w) s := by
  unfold convert
  apply (safe_conv hd hs hv hw).bind
  intro b s₁ hs₁ _
  split
  · exact safe_pure hs₁.sound trivial
  · apply (safe_weakens hd hs₁.sound (hv.mono (hs₁.le _)) (hw.mono (hs₁.le _))).bind
    intro b s₂ hs₂ _
    split
    · exact safe_pure hs₂.sound trivial
    · apply (safe_record hs₂.sound _).bind
      intro _ s₃ hs₃ _
      have hlate := (hs₁.trans hs₂).trans hs₃
      apply (safe_quote hd hs₃.sound (hw.mono (hlate.le _))).bind
      intro wanted s₄ hs₄ _
      apply (safe_quote hd hs₄.sound (hv.mono ((hlate.trans hs₄).le _))).bind
      intro found s₅ hs₅ _
      exact safe_throw hs₅.sound trivial

omit hd

/-- The goal, if there is one, is in scope. -/
def GoalIn (g : Scope) (ctx : Context) (s : Session) (goal : Option Value) : Prop :=
  ∀ v, goal = some v → v.In ((ctx.scope g).during s)

/-- A goal in scope stays so in every session that is led to. -/
theorem GoalIn.mono {s' : Session} {goal : Option Value} (h : GoalIn g ctx s goal)
    (hs : s.Leads s') : GoalIn g ctx s' goal :=
  fun v hv => (h v hv).mono (hs.le _)

/-- No goal is a goal in scope. -/
theorem goalIn_none : GoalIn g ctx s none :=
  fun _ h => nomatch h

/-- A value in scope is a goal in scope. -/
theorem goalIn_some {v : Value} (hv : v.In ((ctx.scope g).during s)) : GoalIn g ctx s (some v) :=
  fun _ h => Option.some.inj h ▸ hv

/-- A type that was inferred is in scope. What is left over when a goal was checked is not looked
at. -/
def Judged (g : Scope) (ctx : Context) (goal : Option Value) (s : Session) (v : Value) : Prop :=
  goal = none → v.In ((ctx.scope g).during s)

include hd

/-- A judgment that has found a type in scope concludes safely. -/
theorem safe_conclude (hs : s.Sound) {goal : Option Value} (hgoal : GoalIn g ctx s goal)
    {v : Value} (hv : v.In ((ctx.scope g).during s)) :
    Safe g.lax (Judged g ctx goal) (conclude d ctx goal v) s := by
  cases goal with
  | none => exact safe_pure hs fun _ => hv
  | some w =>
    apply (safe_convert hd hs hv (hgoal w rfl)).bind
    intro _ s₁ hs₁ _
    exact safe_pure hs₁.sound nofun

/-- The level of a universe is asked for safely. -/
theorem safe_universeLevel (hs : s.Sound) {v : Value} (hv : v.In ((ctx.scope g).during s)) :
    Safe g.lax (fun _ _ => True) (universeLevel d ctx v) s := by
  unfold universeLevel
  split
  · exact safe_pure hs trivial
  · apply (safe_quote hd hs hv).bind
    intro t s₁ hs₁ _
    exact safe_throw hs₁.sound trivial

/-! ## The ends of paths -/

/-- A body in scope is checked safely at an end of a path. -/
theorem safe_checkEnd (hs : s.Sound) (hctx : ctx.In g s) {body : Term}
    (hbody : g.Scoped ctx.bindings.length (ctx.dims.length + 1) body) {r : Interval}
    (hr : r.On (ctx.scope g).point) {v : Value} (hv : v.In ((ctx.scope g).during s)) :
    Safe g.lax (fun _ _ => True) (checkEnd d ctx body r v) s := by
  have hdims : ∀ r' ∈ r :: ctx.dims, r'.On (ctx.scope g).point := by
    intro r' hr'
    rcases List.mem_cons.1 hr' with rfl | hr'
    · exact hr
    · exact hctx.points r' hr'
  unfold checkEnd
  apply (safe_evaluate hd.meter hs hctx hdims hbody d.frames).bind
  intro actual s₁ hs₁ hactual
  apply (safe_conv hd hs₁.sound hactual (hv.mono (hs₁.le _))).bind
  intro b s₂ hs₂ _
  split
  · exact safe_pure hs₂.sound trivial
  · apply (safe_quote hd hs₂.sound (hv.mono ((hs₁.trans hs₂).le _))).bind
    intro wanted s₃ hs₃ _
    apply (safe_quote hd hs₃.sound (hactual.mono ((hs₂.trans hs₃).le _))).bind
    intro found s₄ hs₄ _
    exact safe_throw hs₄.sound trivial

/-- A body in scope is checked safely at both ends of a path. -/
theorem safe_checkEnds (hs : s.Sound) (hctx : ctx.In g s) {body : Term}
    (hbody : g.Scoped ctx.bindings.length (ctx.dims.length + 1) body) {l r : Value}
    (hl : l.In ((ctx.scope g).during s)) (hr : r.In ((ctx.scope g).during s)) :
    Safe g.lax (fun _ _ => True) (checkEnds d ctx body l r) s := by
  apply (safe_checkEnd hd hs hctx hbody (r := .zero) trivial hl).bind
  intro _ s₁ hs₁ _
  exact safe_checkEnd hd hs₁.sound (hctx.mono hs₁) hbody (r := .one) trivial (hr.mono (hs₁.le _))

/-! ## Partial elements -/

omit hd

/-- A check that is safe on each member of a list is safe on the list. -/
theorem safe_forM {α : Type} {lax : Prop} {f : α → Run Unit} {xs : List α} (hs : s.Sound)
    (hf : ∀ x ∈ xs, ∀ s', s.Leads s' → Safe lax (fun _ _ => True) (f x) s') :
    Safe lax (fun _ _ => True) (xs.forM f) s := by
  induction xs generalizing s with
  | nil => exact safe_pure hs trivial
  | cons x rest ih =>
    apply (hf x List.mem_cons_self s hs.refl).bind
    intro _ s₁ hs₁ _
    apply ih hs₁.sound
    intro y hy s' hs'
    exact hf y (List.mem_cons_of_mem x hy) s' (hs₁.trans hs')

/-- A dimension in scope is checked safely. -/
theorem safe_checkDim (hs : s.Sound) {r : Dim} (hr : g.ScopedDim ctx.dims.length r) :
    Safe g.lax (fun _ _ => True) (checkDim ctx r) s := by
  cases r with
  | var i =>
    by_cases hbound : ctx.bindsDim i = true
    · simp only [checkDim, hbound, if_true]
      exact safe_pure hs trivial
    · simp only [checkDim, hbound]
      exact safe_throw hs (hr.resolve_right hbound)
  | zero => exact safe_pure hs trivial
  | one => exact safe_pure hs trivial
  | missing => exact safe_pure hs trivial

/-- An order of smoothness is checked safely. -/
theorem safe_checkOrder {lax : Prop} (hs : s.Sound) (largest order : Int) :
    Safe lax (fun _ _ => True) (Smoothness.checkOrder largest order) s := by
  unfold Smoothness.checkOrder
  split
  · exact safe_throw hs trivial
  · exact safe_pure hs trivial

/-- A variable in scope is found safely, with a type in scope. -/
theorem safe_find (hs : s.Sound) (hctx : ctx.In g s) {i : Int} (hi : ctx.Scopes g (.var i)) :
    Safe g.lax (fun s' b => b.ty.In ((ctx.scope g).during s')) (ofFault (ctx.find i)) s := by
  unfold Context.find
  cases hget : Index.get? ctx.bindings i with
  | some b => exact safe_pure hs (hctx.types b (Index.mem_of_get? hget))
  | none =>
    refine safe_throw hs (hi.resolve_right fun hi => ?_)
    obtain ⟨b, hb⟩ := Index.get?_of_inScope hi
    rw [hget] at hb
    cases hb

/-- A face formula is checked safely, in scope or not: the failure that rejects it is none of
syntax. -/
theorem safe_checkFormula {lax : Prop} (hs : s.Sound) (φ : Face) :
    Safe lax (fun _ _ => True) (checkFormula ctx φ) s := by
  unfold checkFormula
  split
  · exact safe_throw hs trivial
  · exact safe_pure hs trivial

/-- The partial element is in scope of the context. -/
def PartialElement.In (g : Scope) (ctx : Context) (p : PartialElement) : Prop :=
  g.Scoped ctx.bindings.length (ctx.dims.length + 1) p.body

/-- A system in scope is taken apart safely, into partial elements in scope. -/
theorem safe_partialElements (hs : s.Sound) (hctx : ctx.In g s) {fs : List (Face × Term)}
    (hfs : g.ScopedBranches ctx.bindings.length ctx.dims.length fs) :
    Safe g.lax (fun _ ps => ∀ p ∈ ps, p.In g ctx) (partialElements ctx fs) s := by
  induction fs generalizing s with
  | nil => exact safe_pure hs nofun
  | cons face rest ih =>
    obtain ⟨φ, u⟩ := face
    obtain ⟨hφ, hu, hrest⟩ := Scope.scopedBranches_cons.1 hfs
    have hcof : Safe g.lax (fun _ _ => True) (ofFault (φ.cofibration ctx.dims)) s := by
      refine safe_ofFault hs (fun _ _ => trivial) (hφ.imp_right fun hφ => ?_)
      obtain ⟨c, hc, _⟩ := Face.cofibration_answered hctx.points hφ
      exact ⟨c, hc⟩
    apply hcof.bind
    intro c s₁ hs₁ _
    apply (ih hs₁.sound (hctx.mono hs₁) hrest).bind
    intro ps s₂ hs₂ hps
    refine safe_pure hs₂.sound fun p hp => ?_
    rcases List.mem_cons.1 hp with rfl | hp
    · exact hu
    · exact hps p hp

include hd

/-- The context in which partial elements are compared under a clause: the direction is a variable
more, and constrained variables are moved to their ends. -/
theorem safe_checkOverlapOn (hs : s.Sound) (hctx : ctx.In g s) {p q : PartialElement}
    (hp : p.In g ctx) (hq : q.In g ctx) (c : Clause) :
    Safe g.lax (fun _ _ => True) (checkOverlapOn d ctx p q c) s := by
  have hlength : (ctx.freshDim :: ctx.dims.substitute c).length = ctx.dims.length + 1 := by
    simp [IntervalEnv.substitute]
  have hdims : ∀ r ∈ ctx.freshDim :: ctx.dims.substitute c, r.On (ctx.extendDim.scope g).point := by
    intro r hr
    rcases List.mem_cons.1 hr with rfl | hr
    · exact ctx.freshDim_on
    · exact (IntervalEnv.substitute_on c hctx.points r hr).mono
        fun _ => Or.imp_right Index.inScope_succ
  have evaluates {u : Term}
      (hu : g.Scoped ctx.bindings.length (ctx.dims.length + 1) u) {s' : Session}
      (hs' : s.Leads s') : Safe g.lax (InScope (ctx.extendDim.scope g))
        (Eval.evaluate d.frames d.meter u ctx.env (ctx.freshDim :: ctx.dims.substitute c)) s' := by
    apply safe_evaluate hd.meter hs'.sound (hctx.mono hs').extendDim hdims
    rw [hlength]
    exact hu
  unfold checkOverlapOn
  apply (evaluates hp hs.refl).bind
  intro u s₁ hs₁ hu
  apply (evaluates hq hs₁).bind
  intro v s₂ hs₂ hv
  have hconv := safe_convertible hd hs₂.sound (hu.mono (hs₂.le _)) hv
  apply hconv.bind
  intro b s₃ hs₃ _
  split
  · exact safe_pure hs₃.sound trivial
  · exact safe_throw hs₃.sound trivial

/-- Partial elements in scope are compared with each other safely. -/
theorem safe_checkOverlaps (hs : s.Sound) (hctx : ctx.In g s) {ps : List PartialElement}
    (hps : ∀ p ∈ ps, p.In g ctx) : Safe g.lax (fun _ _ => True) (checkOverlaps d ctx ps) s := by
  induction ps generalizing s with
  | nil => exact safe_pure hs trivial
  | cons p rest ih =>
    have hp := hps p List.mem_cons_self
    have hrest : ∀ q ∈ rest, q.In g ctx := fun q hq => hps q (List.mem_cons_of_mem p hq)
    have hall : Safe g.lax (fun _ _ => True) (rest.forM (checkOverlap d ctx p)) s := by
      apply safe_forM hs
      intro q hq s₁ hs₁
      apply safe_forM hs₁.sound
      intro c _ s₂ hs₂
      exact safe_checkOverlapOn hd hs₂.sound (hctx.mono (hs₁.trans hs₂)) hp (hrest q hq) c
    apply hall.bind
    intro _ s₁ hs₁ _
    exact ih hs₁.sound (hctx.mono hs₁) hrest

/-- A partial element in scope is compared with the base safely, on one clause. -/
theorem safe_checkBaseOn (hs : s.Sound) (hctx : ctx.In g s) {source : Dim}
    (hsource : g.ScopedDim ctx.dims.length source) {base : Term}
    (hbase : ctx.Scopes g base) {p : PartialElement} (hp : p.In g ctx) (c : Clause) :
    Safe g.lax (fun _ _ => True) (checkBaseOn d ctx source base p c) s := by
  have hlength : (ctx.dims.substitute c).length = ctx.dims.length := by
    simp [IntervalEnv.substitute]
  have hdims := IntervalEnv.substitute_on c hctx.points
  have hresolve : Safe g.lax (fun _ r => r.On (ctx.scope g).point)
      (ofFault ((ctx.dims.substitute c).resolve source)) s := by
    apply safe_resolve (S := ctx.scope g) hs hdims
    rw [hlength]
    exact hsource
  apply hresolve.bind
  intro r s₀ hs₀ hr
  have hdims' : ∀ r' ∈ r :: ctx.dims.substitute c, r'.On (ctx.scope g).point := by
    intro r' hr'
    rcases List.mem_cons.1 hr' with rfl | hr'
    · exact hr
    · exact hdims r' hr'
  have hatSource : Safe g.lax (InScope (ctx.scope g))
      (Eval.evaluate d.frames d.meter p.body ctx.env (r :: ctx.dims.substitute c)) s₀ := by
    apply safe_evaluate hd.meter hs₀.sound (hctx.mono hs₀) hdims'
    rw [List.length_cons, hlength]
    exact hp
  apply hatSource.bind
  intro u s₁ hs₁ hu
  have hvalue : Safe g.lax (InScope (ctx.scope g))
      (Eval.evaluate d.frames d.meter base ctx.env (ctx.dims.substitute c)) s₁ := by
    apply safe_evaluate hd.meter hs₁.sound (hctx.mono (hs₀.trans hs₁)) hdims
    rw [hlength]
    exact hbase
  apply hvalue.bind
  intro v s₂ hs₂ hv
  apply (safe_conv hd hs₂.sound (hu.mono (hs₂.le _)) hv).bind
  intro b s₃ hs₃ _
  split
  · exact safe_pure hs₃.sound trivial
  · exact safe_throw hs₃.sound trivial

/-- A system in scope is compared with itself and with the base safely. -/
theorem safe_checkAgreement (hs : s.Sound) (hctx : ctx.In g s) {source : Dim}
    (hsource : g.ScopedDim ctx.dims.length source) {fs : List (Face × Term)}
    (hfs : g.ScopedBranches ctx.bindings.length ctx.dims.length fs) {base : Term}
    (hbase : ctx.Scopes g base) :
    Safe g.lax (fun _ _ => True) (checkAgreement d ctx source fs base) s := by
  unfold checkAgreement
  split
  · apply (safe_partialElements hs hctx hfs).bind
    intro ps s₁ hs₁ hps
    apply (safe_checkOverlaps hd hs₁.sound (hctx.mono hs₁) hps).bind
    intro _ s₂ hs₂ _
    apply safe_forM hs₂.sound
    intro p hp s₃ hs₃
    apply safe_forM hs₃.sound
    intro c _ s₄ hs₄
    have hlate := ((hs₁.trans hs₂).trans hs₃).trans hs₄
    exact safe_checkBaseOn hd hs₄.sound (hctx.mono hlate) hsource hbase (hps p hp) c
  · exact safe_pure hs trivial

/-! ## Judgments -/

omit hd

/-- A term in scope is judged in scope, against any goal in scope. -/
def SafeJudgment (g : Scope) (d : Derivation) (t : Term) : Prop :=
  ∀ (ctx : Context) (s : Session) (goal : Option Value), s.Sound → ctx.In g s →
    ctx.Scopes g t → GoalIn g ctx s goal → Safe g.lax (Judged g ctx goal) (judge d t ctx goal) s

/-- A safe judgment infers a type in scope. -/
theorem SafeJudgment.infers {t : Term} (h : SafeJudgment g d t) (hs : s.Sound) (hctx : ctx.In g s)
    (ht : ctx.Scopes g t) : Safe g.lax (InScope (ctx.scope g)) (judge d t ctx none) s :=
  (h ctx s none hs hctx ht goalIn_none).mono fun _ _ hv => hv rfl

/-- A safe judgment checks against a type in scope. -/
theorem SafeJudgment.checks {t : Term} (h : SafeJudgment g d t) (hs : s.Sound) (hctx : ctx.In g s)
    (ht : ctx.Scopes g t) {v : Value} (hv : v.In ((ctx.scope g).during s)) :
    Safe g.lax (Judged g ctx (some v)) (judge d t ctx (some v)) s :=
  h ctx s (some v) hs hctx ht (goalIn_some hv)

include hd

/-- Two elements are checked against a type, plain or smooth. -/
theorem safe_pathType {a l r : Term} (ha : SafeJudgment g d a) (hl : SafeJudgment g d l)
    (hr : SafeJudgment g d r) {goal : Option Value} (hs : s.Sound) (hctx : ctx.In g s)
    (hta : ctx.Scopes g a) (htl : ctx.Scopes g l) (htr : ctx.Scopes g r)
    (hgoal : GoalIn g ctx s goal) :
    Safe g.lax (Judged g ctx goal) (do
      let level ← universeLevel d ctx (← judge d a ctx none)
      let v ← eval d ctx a
      let _ ← judge d l ctx (some v)
      let _ ← judge d r ctx (some v)
      conclude d ctx goal (.univ level)) s := by
  apply (ha.infers hs hctx hta).bind
  intro ty s₁ hs₁ hty
  apply (safe_universeLevel hd hs₁.sound hty).bind
  intro i s₂ hs₂ _
  have hctx₂ := hctx.mono (hs₁.trans hs₂)
  apply (safe_eval hd hs₂.sound hctx₂ hta).bind
  intro v s₃ hs₃ hv
  apply (hl.checks hs₃.sound (hctx₂.mono hs₃) htl hv).bind
  intro _ s₄ hs₄ _
  have hctx₄ := hctx₂.mono (hs₃.trans hs₄)
  apply (hr.checks hs₄.sound hctx₄ htr (hv.mono (hs₄.le _))).bind
  intro _ s₅ hs₅ _
  have hlate := ((hs₁.trans hs₂).trans (hs₃.trans hs₄)).trans hs₅
  exact safe_conclude hd hs₅.sound (hgoal.mono hlate) .univ

/-- A Kan operation finds the family and the two points that it goes between. -/
theorem safe_kanLine {a : Term} (ha : SafeJudgment g d a) (hs : s.Sound) (hctx : ctx.In g s)
    (hta : ctx.extendDim.Scopes g a) {source target : Dim}
    (hsource : g.ScopedDim ctx.dims.length source)
    (htarget : g.ScopedDim ctx.dims.length target) {P : Session → Value → Prop}
    {next : Line → Interval → Interval → Run Value}
    (hnext : ∀ line r r' s', s.Leads s' → line.In ((ctx.scope g).during s') →
      r.On (ctx.scope g).point → r'.On (ctx.scope g).point →
      Safe g.lax P (next line r r') s') :
    Safe g.lax P (do
      let _ ← universeLevel d ctx.extendDim (← judge d a ctx.extendDim none)
      checkDim ctx source
      checkDim ctx target
      let line ← Eval.closeFamily a ctx.env ctx.dims
      let r ← ofFault (IntervalEnv.resolve ctx.dims source)
      let r' ← ofFault (IntervalEnv.resolve ctx.dims target)
      next line r r') s := by
  apply (ha.infers hs hctx.extendDim hta).bind
  intro ty s₁ hs₁ hty
  apply (safe_universeLevel hd hs₁.sound hty).bind
  intro _ s₂ hs₂ _
  apply (safe_checkDim hs₂.sound hsource).bind
  intro _ s₃ hs₃ _
  apply (safe_checkDim hs₃.sound htarget).bind
  intro _ s₄ hs₄ _
  have hearly := (hs₁.trans hs₂).trans (hs₃.trans hs₄)
  apply (safe_closeFamily (S := ctx.scope g) hs₄.sound (hctx.mono hearly).entries hctx.points
    (hctx.scoped hta)).bind
  intro line s₅ hs₅ hline
  apply (safe_resolve (S := ctx.scope g) hs₅.sound hctx.points hsource).bind
  intro r s₆ hs₆ hr
  apply (safe_resolve (S := ctx.scope g) hs₆.sound hctx.points htarget).bind
  intro r' s₇ hs₇ hr'
  have hlate := hs₆.trans hs₇
  exact hnext line r r' s₇ (hearly.trans (hs₅.trans hlate)) (hline.mono (hlate.le _)) hr hr'

omit hd

mutual

/-- A judgment on a term in scope finds no fault of syntax, and the type that it infers is in
scope. -/
theorem judge_safe (hd : d.On g) : ∀ t : Term, SafeJudgment g d t
  | .univ _ => fun _ _ _ hs _ _ hgoal => safe_conclude hd hs hgoal .univ
  | .var _ => by
    intro ctx s goal hs hctx ht hgoal
    unfold judge
    apply (safe_find hs hctx ht).bind
    intro b s₁ hs₁ hb
    exact safe_conclude hd hs₁.sound (hgoal.mono hs₁) hb
  | .pi x a b => by
    intro ctx s goal hs hctx ht hgoal
    obtain ⟨hta, htb⟩ := Scope.scoped_pi.1 ht
    unfold judge
    apply ((judge_safe hd a).infers hs hctx hta).bind
    intro ty s₁ hs₁ hty
    apply (safe_universeLevel hd hs₁.sound hty).bind
    intro i s₂ hs₂ _
    apply (safe_eval hd hs₂.sound (hctx.mono (hs₁.trans hs₂)) hta).bind
    intro dom s₃ hs₃ hdom
    have hlate := (hs₁.trans hs₂).trans hs₃
    have hinner : (ctx.extend x dom).In g s₃ := (hctx.mono hlate).extend x hdom
    apply ((judge_safe hd b).infers hs₃.sound hinner htb).bind
    intro ty' s₄ hs₄ hty'
    apply (safe_universeLevel hd hs₄.sound hty').bind
    intro j s₅ hs₅ _
    exact safe_conclude hd hs₅.sound (hgoal.mono (hlate.trans (hs₄.trans hs₅))) .univ
  | .lam x b => by
    intro ctx s goal hs hctx ht hgoal
    unfold judge
    split
    · exact safe_throw hs trivial
    · rename_i y dom cod
      cases hgoal _ rfl with
      | pi hdom hcod =>
        have hinner : (ctx.extend x dom).In g s := hctx.extend x hdom
        have hvar : Entry.In (((ctx.extend x dom).scope g).during s) (.value (ctx.nextVar dom)) :=
          .value (ctx.nextVar_in x hdom)
        apply (run_safe d.frames (S := (ctx.extend x dom).scope g) hs hd.meter
          (.instantiate (hcod.mono (ctx.le_cons _ _ s)) hvar)).bind
        intro ty s₁ hs₁ hty
        have hbody := (judge_safe hd b).checks hs₁.sound (hinner.mono hs₁) ht hty
        exact hbody.mono fun _ _ _ hnone => nomatch hnone
    · apply (safe_quote hd hs (hgoal _ rfl)).bind
      intro t s₁ hs₁ _
      exact safe_throw hs₁.sound trivial
  | .app f a => by
    intro ctx s goal hs hctx ht hgoal
    obtain ⟨htf, hta⟩ := Scope.scoped_app.1 ht
    unfold judge
    apply ((judge_safe hd f).infers hs hctx htf).bind
    intro ty s₁ hs₁ hty
    split
    · rename_i y dom cod
      cases hty with
      | pi hdom hcod =>
        apply ((judge_safe hd a).checks hs₁.sound (hctx.mono hs₁) hta hdom).bind
        intro _ s₂ hs₂ _
        apply (safe_eval hd hs₂.sound (hctx.mono (hs₁.trans hs₂)) hta).bind
        intro v s₃ hs₃ hv
        apply (run_safe d.frames (S := ctx.scope g) hs₃.sound hd.meter
          (.instantiate (hcod.mono ((hs₂.trans hs₃).le _)) (.value hv))).bind
        intro ty s₄ hs₄ hty
        have hlate := (hs₁.trans hs₂).trans (hs₃.trans hs₄)
        exact safe_conclude hd hs₄.sound (hgoal.mono hlate) hty
    · apply (safe_quote hd hs₁.sound hty).bind
      intro t s₂ hs₂ _
      exact safe_throw hs₂.sound trivial
  | .path a l r => by
    intro ctx s goal hs hctx ht hgoal
    obtain ⟨hta, htl, htr⟩ := Scope.scoped_path.1 ht
    unfold judge
    exact safe_pathType hd (judge_safe hd a) (judge_safe hd l) (judge_safe hd r) hs hctx hta htl
      htr hgoal
  | .pathLam x b => by
    intro ctx s goal hs hctx ht hgoal
    have ends {a l r : Value} (ha : a.In ((ctx.scope g).during s))
        (hl : l.In ((ctx.scope g).during s)) (hr : r.In ((ctx.scope g).during s)) :
        Safe g.lax (Judged g ctx goal) (do
          let _ ← judge d b ctx.extendDim (some a)
          checkEnds d ctx b l r
          return a) s := by
      apply ((judge_safe hd b).checks hs hctx.extendDim ht (ha.mono (ctx.le_extendDim s))).bind
      intro _ s₁ hs₁ _
      apply (safe_checkEnds hd hs₁.sound (hctx.mono hs₁) ht (hl.mono (hs₁.le _))
        (hr.mono (hs₁.le _))).bind
      intro _ s₂ hs₂ _
      exact safe_pure hs₂.sound fun _ => ha.mono ((hs₁.trans hs₂).le _)
    unfold judge
    split
    · exact safe_throw hs trivial
    · cases hgoal _ rfl with
      | path ha hl hr => exact ends ha hl hr
    · cases hgoal _ rfl with
      | smoothPath ha hl hr => exact ends ha hl hr
    · apply (safe_quote hd hs (hgoal _ rfl)).bind
      intro t s₁ hs₁ _
      exact safe_throw hs₁.sound trivial
  | .pathApp p r => by
    intro ctx s goal hs hctx ht hgoal
    obtain ⟨htp, htr⟩ := Scope.scoped_pathApp.1 ht
    unfold judge
    apply (safe_checkDim hs htr).bind
    intro _ s₁ hs₁ _
    apply ((judge_safe hd p).infers hs₁.sound (hctx.mono hs₁) htp).bind
    intro ty s₂ hs₂ hty
    have hgoal₂ := hgoal.mono (hs₁.trans hs₂)
    split
    · cases hty with
      | path ha _ _ => exact safe_conclude hd hs₂.sound hgoal₂ ha
    · cases hty with
      | smoothPath ha _ _ => exact safe_conclude hd hs₂.sound hgoal₂ ha
    · apply (safe_quote hd hs₂.sound hty).bind
      intro t s₃ hs₃ _
      exact safe_throw hs₃.sound trivial
  | .smoothPath order a l r => by
    intro ctx s goal hs hctx ht hgoal
    obtain ⟨hta, htl, htr⟩ := Scope.scoped_smoothPath.1 ht
    unfold judge
    apply (safe_checkOrder hs _ order).bind
    intro _ s₁ hs₁ _
    exact safe_pathType hd (judge_safe hd a) (judge_safe hd l) (judge_safe hd r) hs₁.sound
      (hctx.mono hs₁) hta htl htr (hgoal.mono hs₁)
  | .comp r r' a fs b => by
    intro ctx s goal hs hctx ht hgoal
    obtain ⟨hr, hr', ha, hfs, hb⟩ := Scope.scoped_comp.1 ht
    unfold judge
    apply safe_kanLine hd (judge_safe hd a) hs hctx ha hr hr'
    intro line u w s₁ hs₁ hline hu hw
    have hctx₁ := hctx.mono hs₁
    apply (safe_lineAt hd hs₁.sound hline hu).bind
    intro start s₂ hs₂ hstart
    apply ((judge_safe hd b).checks hs₂.sound (hctx₁.mono hs₂) hb hstart).bind
    intro _ s₃ hs₃ _
    have hctx₃ := hctx₁.mono (hs₂.trans hs₃)
    have hline₃ := hline.mono ((hs₂.trans hs₃).le _)
    have hfamily : Safe g.lax (InScope (ctx.extendDim.scope g)) (lineAt d line ctx.freshDim) s₃ :=
      safe_lineAt hd hs₃.sound (hline₃.mono (ctx.le_extendDim s₃)) ctx.freshDim_on
    apply hfamily.bind
    intro along s₄ hs₄ halong
    apply (judgeFaces_safe hd fs hs₄.sound (hctx₃.mono hs₄) hfs halong).bind
    intro _ s₅ hs₅ _
    apply (safe_checkAgreement hd hs₅.sound (hctx₃.mono (hs₄.trans hs₅)) hr hfs hb).bind
    intro _ s₆ hs₆ _
    have hlate := hs₄.trans (hs₅.trans hs₆)
    apply (safe_lineAt hd hs₆.sound (hline₃.mono (hlate.le _)) hw).bind
    intro target s₇ hs₇ htarget
    have hall := hs₁.trans ((hs₂.trans hs₃).trans (hlate.trans hs₇))
    exact safe_conclude hd hs₇.sound (hgoal.mono hall) htarget
  | .coe r r' a b => by
    intro ctx s goal hs hctx ht hgoal
    obtain ⟨hr, hr', ha, hb⟩ := Scope.scoped_coe.1 ht
    unfold judge
    apply safe_kanLine hd (judge_safe hd a) hs hctx ha hr hr'
    intro line u w s₁ hs₁ hline hu hw
    apply (safe_lineAt hd hs₁.sound hline hu).bind
    intro start s₂ hs₂ hstart
    apply ((judge_safe hd b).checks hs₂.sound (hctx.mono (hs₁.trans hs₂)) hb hstart).bind
    intro _ s₃ hs₃ _
    have hlate := hs₂.trans hs₃
    apply (safe_lineAt hd hs₃.sound (hline.mono (hlate.le _)) hw).bind
    intro target s₄ hs₄ htarget
    exact safe_conclude hd hs₄.sound (hgoal.mono (hs₁.trans (hlate.trans hs₄))) htarget
  | .hcomp a fs b => by
    intro ctx s goal hs hctx ht hgoal
    obtain ⟨ha, hfs, hb⟩ := Scope.scoped_hcomp.1 ht
    unfold judge
    apply ((judge_safe hd a).infers hs hctx ha).bind
    intro ty s₁ hs₁ hty
    apply (safe_universeLevel hd hs₁.sound hty).bind
    intro _ s₂ hs₂ _
    have hctx₂ := hctx.mono (hs₁.trans hs₂)
    apply (safe_eval hd hs₂.sound hctx₂ ha).bind
    intro v s₃ hs₃ hv
    have hctx₃ := hctx₂.mono hs₃
    apply ((judge_safe hd b).checks hs₃.sound hctx₃ hb hv).bind
    intro _ s₄ hs₄ _
    have hv₄ := hv.mono (hs₄.le _)
    apply (judgeFaces_safe hd fs hs₄.sound (hctx₃.mono hs₄) hfs
      (hv₄.mono (ctx.le_extendDim s₄))).bind
    intro _ s₅ hs₅ _
    apply (safe_checkAgreement hd hs₅.sound (hctx₃.mono (hs₄.trans hs₅)) (.inr rfl) hfs hb).bind
    intro _ s₆ hs₆ _
    have hlate := hs₅.trans hs₆
    have hall := ((hs₁.trans hs₂).trans (hs₃.trans hs₄)).trans hlate
    exact safe_conclude hd hs₆.sound (hgoal.mono hall) (hv₄.mono (hlate.le _))
  | .missing => fun _ _ _ hs _ _ _ => safe_throw hs trivial

/-- Partial elements in scope are judged in scope. -/
theorem judgeFaces_safe (hd : d.On g) : ∀ (fs : List (Face × Term)) {ctx : Context}
    {s : Session} {along : Value}, s.Sound → ctx.In g s →
    g.ScopedBranches ctx.bindings.length ctx.dims.length fs →
    along.In ((ctx.extendDim.scope g).during s) →
    Safe g.lax (fun _ _ => True) (judgeFaces d fs ctx along) s
  | [], _, _, _, hs, _, _, _ => safe_pure hs trivial
  | (φ, u) :: rest, ctx, s, along, hs, hctx, hfs, halong => by
    obtain ⟨_, hu, hrest⟩ := Scope.scopedBranches_cons.1 hfs
    unfold judgeFaces
    apply (safe_checkFormula hs φ).bind
    intro _ s₁ hs₁ _
    apply ((judge_safe hd u).checks hs₁.sound (hctx.mono hs₁).extendDim hu
      (halong.mono (hs₁.le _))).bind
    intro _ s₂ hs₂ _
    have hlate := hs₁.trans hs₂
    exact judgeFaces_safe hd rest hs₂.sound (hctx.mono hlate) hrest (halong.mono (hlate.le _))

end

end Typing

end SmoothCubical
