import SmoothCubical.Proofs.Likeness.Reading
import SmoothCubical.Proofs.Scope.Reading

/-!
# Evaluators and their operations

An evaluator is a meter together with the session it runs on. Its operations take their operands
from an environment, and those that build something add an entry to it. A session serves a meter if
it was reached by operations, failed ones included, since the meter was opened.

Whatever was done, the values that such a session keeps are certified. So where an environment
holds only what belongs to the evaluator and mentions no probes, its entries are alike in any two
such sessions, operations end alike on them (`alike_operation`), and normal forms are the same
(`alike_normalizeOn`).
-/

set_option autoImplicit false

namespace SmoothCubical

open Eval

/-- The body of an interval abstraction as an operation is given it: a term, or its values at the
ends and between. -/
inductive GivenBody
  | term (body : Term)
  | choice (zero one between : Int)

/-- A family of types as an operation is given it. Operands are positions in an environment. -/
inductive GivenFamily
  | constant (ty : Int)
  | term (family : Term)
  | varying (body : GivenBody) (isConstant : Bool)

/-- What an evaluator can be asked to do. Operands are positions in an environment. -/
inductive Operation
  | evaluate (term : Term) (dims : IntervalEnv)
  | delay (term : Term) (dims : IntervalEnv)
  | force (entry : Int)
  | apply (function argument : Int)
  | pathApply (path : Int) (point : Interval)
  | comp (source target : Interval) (family : GivenFamily) (faces : List (Face × GivenBody))
      (base : Int) (dims : IntervalEnv)
  | coe (source target : Interval) (family : GivenFamily) (base : Int) (dims : IntervalEnv)
  | hcomp (ty : Int) (faces : List (Face × GivenBody)) (base : Int) (dims : IntervalEnv)
  | quote (value : Int) (depth dimDepth : Nat)
  | convertible (left right : Int) (depth dimDepth : Nat)
  | freshProbe

/-- The body that is given, closed over the environments. -/
def GivenBody.close (call : Call) (env : Env) (dims : IntervalEnv) :
    GivenBody → Run IntervalClosure
  | .term body => return .body env dims body
  | .choice zero one between => do
    let u ← lookup call env zero
    let v ← lookup call env one
    return .choice u v (← lookup call env between)

/-- The family that is given, closed over the environments. -/
def GivenFamily.close (call : Call) (env : Env) (dims : IntervalEnv) : GivenFamily → Run Line
  | .constant ty => return .constant (← lookup call env ty)
  | .term family => closeFamily family env dims
  | .varying body isConstant => return .varying (← body.close call env dims) isConstant

/-- The partial elements that are given, closed over the environments. -/
def closeGiven (call : Call) (env : Env) (dims : IntervalEnv) :
    List (Face × GivenBody) → Run (List Tube)
  | [] => pure []
  | (φ, body) :: rest => do
    let ψ ← Run.ofFault (φ.cofibration dims)
    let u ← body.close call env dims
    return (ψ, u) :: (← closeGiven call env dims rest)

namespace Operation

/-- Carry an operation out, and return what it builds. -/
def run (frames : Nat) (m : MeterId) (env : Env) : Operation → Run (Option Entry)
  | .evaluate term dims => return some (.value (← Eval.evaluate frames m term env dims))
  | .delay term dims => return some (← Run.suspend ⟨m, true, term, env, dims⟩)
  | .force entry => return some (.value (← lookup (Eval.run frames) env entry))
  | .apply function argument => do
    let f ← lookup (Eval.run frames) env function
    let a ← lookup (Eval.run frames) env argument
    return some (.value (← Eval.apply (Eval.run frames) m f a))
  | .pathApply path point => do
    let p ← lookup (Eval.run frames) env path
    return some (.value (← Eval.pathApply (Eval.run frames) m p point))
  | .comp source target family faces base dims => do
    let a ← family.close (Eval.run frames) env dims
    let v ← lookup (Eval.run frames) env base
    let fs ← closeGiven (Eval.run frames) env dims faces
    return some (.value (← Eval.run frames m (.comp source target a fs v)))
  | .coe source target family base dims => do
    let a ← family.close (Eval.run frames) env dims
    let v ← lookup (Eval.run frames) env base
    return some (.value (← Eval.run frames m (.coe source target a v)))
  | .hcomp ty faces base dims => do
    let a ← lookup (Eval.run frames) env ty
    let v ← lookup (Eval.run frames) env base
    let fs ← closeGiven (Eval.run frames) env dims faces
    return some (.value (← Eval.hcomp frames m a fs v))
  | .quote value depth dimDepth => do
    let v ← lookup (Eval.run frames) env value
    let _ ← Readback.quote frames m depth dimDepth v
    return none
  | .convertible left right depth dimDepth => do
    let v ← lookup (Eval.run frames) env left
    let w ← lookup (Eval.run frames) env right
    let _ ← Readback.convertible frames m depth dimDepth v w
    return none
  | .freshProbe => do
    let _ ← Run.probe m
    return none

/-- The points at which an operation is carried out. -/
def points : Operation → List Interval
  | .evaluate _ dims => dims
  | .delay _ dims => dims
  | .pathApply _ point => [point]
  | .comp source target _ _ _ dims => source :: target :: dims
  | .coe source target _ _ dims => source :: target :: dims
  | .hcomp _ _ _ dims => dims
  | _ => []

end Operation

/-- The normal form of a term, by an evaluator that may have been used before. -/
def normalizeOn (frames : Nat) (m : MeterId) (term : Term) (env : Env) (dims : IntervalEnv)
    (depth dimDepth : Nat) : Run Term := do
  let v ← Eval.evaluate frames m term env dims
  Readback.quote frames m depth dimDepth v

/-! ## Operations obey the laws of evaluation -/

section Laws

variable {Φ : {α : Type} → Run α → Prop}

section Closing

variable {call : Call} (h : Law call Φ) (env : Env) (dims : IntervalEnv)
include h

/-- To close a body that an operation is given obeys every law of evaluation. -/
theorem law_closeBody (body : GivenBody) : Φ (body.close call env dims) := by
  cases body with
  | term t => exact h.pure _
  | choice zero one between =>
    refine h.bind (law_lookup h env zero) fun _ => h.bind (law_lookup h env one) fun _ => ?_
    exact h.bind (law_lookup h env between) fun _ => h.pure _

/-- To close a family that an operation is given obeys every law of evaluation. -/
theorem law_closeGivenFamily (family : GivenFamily) : Φ (family.close call env dims) := by
  cases family with
  | constant ty => exact h.bind (law_lookup h env ty) fun _ => h.pure _
  | term a => exact law_closeFamily h a env dims
  | varying body flag => exact h.bind (law_closeBody h env dims body) fun _ => h.pure _

/-- To close partial elements that an operation is given obeys every law of evaluation. -/
theorem law_closeGiven (faces : List (Face × GivenBody)) : Φ (closeGiven call env dims faces) := by
  induction faces with
  | nil => exact h.pure _
  | cons face rest ih =>
    refine h.bind (law_ofFault h _) fun _ => h.bind (law_closeBody h env dims face.2) fun _ => ?_
    exact h.bind ih fun _ => h.pure _

end Closing

/-- A law that all of evaluation obeys is obeyed by every operation. -/
theorem Operation.law_run (h : ∀ frames, Law (Eval.run frames) Φ) (frames : Nat) (m : MeterId)
    (env : Env) (op : Operation) : Φ (op.run frames m env) := by
  have hf := h frames
  have operand (i : Int) : Φ (lookup (Eval.run frames) env i) := law_lookup hf env i
  have built {x : Run Value} (hx : Φ x) :
      Φ (x >>= fun v => pure (some (Entry.value v)) : Run (Option Entry)) :=
    hf.bind hx fun _ => hf.pure _
  have checked {α : Type} {x : Run α} (hx : Φ x) :
      Φ (x >>= fun _ => pure none : Run (Option Entry)) :=
    hf.bind hx fun _ => hf.pure _
  cases op with
  | evaluate t dims => exact built (hf.call _ _)
  | delay t dims => exact hf.bind (hf.suspend _) fun _ => hf.pure _
  | force i => exact built (operand i)
  | apply i j =>
    refine hf.bind (operand i) fun g => hf.bind (operand j) fun a => ?_
    exact built (law_apply hf m g a)
  | pathApply i r => exact hf.bind (operand i) fun p => built (law_pathApply hf m p r)
  | comp source target family faces base dims =>
    refine hf.bind (law_closeGivenFamily hf env dims family) fun _ => hf.bind (operand base) ?_
    exact fun _ => hf.bind (law_closeGiven hf env dims faces) fun _ => built (hf.call _ _)
  | coe source target family base dims =>
    refine hf.bind (law_closeGivenFamily hf env dims family) fun _ => hf.bind (operand base) ?_
    exact fun _ => built (hf.call _ _)
  | hcomp ty faces base dims =>
    refine hf.bind (operand ty) fun _ => hf.bind (operand base) fun _ => ?_
    exact hf.bind (law_closeGiven hf env dims faces) fun _ => built (hf.call _ _)
  | quote i d e =>
    exact hf.bind (operand i) fun v => checked (Readback.law_quote h frames m d e v)
  | convertible i j d e =>
    refine hf.bind (operand i) fun v => hf.bind (operand j) fun w => ?_
    exact checked (Readback.law_convertible h frames m d e v w)
  | freshProbe => exact checked (hf.probe m)

end Laws

section Advancing

open Run

variable {m k : MeterId} {f : Nat} {env : Env} {dims : IntervalEnv}

instance (body : GivenBody) : Advancing m (body.close (Eval.run f) env dims) :=
  ⟨law_closeBody (continues_law m f) env dims body⟩

instance (family : GivenFamily) : Advancing m (family.close (Eval.run f) env dims) :=
  ⟨law_closeGivenFamily (continues_law m f) env dims family⟩

instance (faces : List (Face × GivenBody)) :
    Advancing m (closeGiven (Eval.run f) env dims faces) :=
  ⟨law_closeGiven (continues_law m f) env dims faces⟩

instance (a : Value) (fs : List Tube) (v : Value) : Advancing m (Eval.hcomp f k a fs v) := by
  unfold Eval.hcomp
  infer_instance

instance (op : Operation) : Advancing m (op.run f k env) :=
  ⟨Operation.law_run (continues_law m) f k env op⟩

instance (t : Term) (d e : Nat) : Advancing m (normalizeOn f k t env dims d e) := by
  unfold normalizeOn
  infer_instance

end Advancing

/-! ## Operations stay in scope -/

section Safe

open Run

variable {S : Scope} {s : Session} {env : Env} {dims : IntervalEnv} {f : Nat}

variable (hlax : S.lax)
include hlax

/-- An operand is found safely, in scope or not, if terms may be out of scope. -/
theorem safe_operand (hs : s.Sound) (henv : ∀ e ∈ env, e.In (S.during s)) (i : Int) :
    Safe S.lax (InScope S) (lookup (Eval.run f) env i) s := by
  have hi : S.Scoped env.length 0 (.var i) := .inl hlax
  exact safe_lookup (run_safe f) hs henv hi

/-- A body that an operation is given is closed safely, to one in scope. -/
theorem safe_closeBody (hs : s.Sound) (henv : ∀ e ∈ env, e.In (S.during s))
    (hdims : ∀ r ∈ dims, r.On S.point) (body : GivenBody) :
    Safe S.lax (fun s' c => c.In (S.during s')) (body.close (Eval.run f) env dims) s := by
  have entries {s' : Session} (hs' : s.Leads s') : ∀ e ∈ env, e.In (S.during s') :=
    fun e he => (henv e he).mono (hs'.le S)
  cases body with
  | term t => exact safe_pure hs (.body henv hdims (.inl hlax))
  | choice zero one between =>
    apply (safe_operand hlax hs henv zero).bind
    intro u s₁ hs₁ hu
    apply (safe_operand hlax hs₁.sound (entries hs₁) one).bind
    intro v s₂ hs₂ hv
    apply (safe_operand hlax hs₂.sound (entries (hs₁.trans hs₂)) between).bind
    intro w s₃ hs₃ hw
    exact safe_pure hs₃.sound
      (.choice (hu.mono ((hs₂.trans hs₃).le S)) (hv.mono (hs₃.le S)) hw)

/-- A family that an operation is given is closed safely, to one in scope. -/
theorem safe_closeGivenFamily (hs : s.Sound) (henv : ∀ e ∈ env, e.In (S.during s))
    (hdims : ∀ r ∈ dims, r.On S.point) (family : GivenFamily) :
    Safe S.lax (fun s' a => a.In (S.during s')) (family.close (Eval.run f) env dims) s := by
  cases family with
  | constant ty =>
    apply (safe_operand hlax hs henv ty).bind
    intro v s₁ hs₁ hv
    exact safe_pure hs₁.sound (.constant hv)
  | term a => exact safe_closeFamily hs henv hdims (.inl hlax)
  | varying body flag =>
    apply (safe_closeBody hlax hs henv hdims body).bind
    intro c s₁ hs₁ hc
    exact safe_pure hs₁.sound (.varying hc)

/-- Partial elements that an operation is given are closed safely, to ones in scope. -/
theorem safe_closeGiven (hs : s.Sound) (henv : ∀ e ∈ env, e.In (S.during s))
    (hdims : ∀ r ∈ dims, r.On S.point) (faces : List (Face × GivenBody)) :
    Safe S.lax (fun s' fs => (S.during s').Tubes fs)
      (closeGiven (Eval.run f) env dims faces) s := by
  induction faces generalizing s with
  | nil => exact safe_pure hs nofun
  | cons face rest ih =>
    have hcof : Safe S.lax (fun _ φ => S.Covers φ) (ofFault (face.1.cofibration dims)) s :=
      safe_ofFault hs (fun _ => Scope.covers_cofibration hlax hdims) (.inl hlax)
    apply hcof.bind
    intro φ s₁ hs₁ hφ
    have henv₁ : ∀ e ∈ env, e.In (S.during s₁) := fun e he => (henv e he).mono (hs₁.le S)
    apply (safe_closeBody hlax hs₁.sound henv₁ hdims face.2).bind
    intro u s₂ hs₂ hu
    apply (ih hs₂.sound fun e he => (henv₁ e he).mono (hs₂.le S)).bind
    intro fs s₃ hs₃ hfs
    refine safe_pure hs₃.sound fun tube htube => ?_
    rcases List.mem_cons.1 htube with rfl | htube
    · exact ⟨hφ, hu.mono (hs₃.le S)⟩
    · exact hfs tube htube

/-- An operation on an environment in scope, at points in scope, builds something in scope. -/
theorem safe_operation {m : MeterId} (hm : S.meter m) (hs : s.Sound)
    (henv : ∀ e ∈ env, e.In (S.during s)) (op : Operation)
    (hop : ∀ r ∈ op.points, r.On S.point) :
    Safe S.lax (fun s' r => ∀ e ∈ r, e.In (S.during s')) (op.run f m env) s := by
  have entries {s' : Session} (hs' : s.Leads s') : ∀ e ∈ env, e.In (S.during s') :=
    fun e he => (henv e he).mono (hs'.le S)
  have built {x : Run Value} {s' : Session} (hx : Safe S.lax (InScope S) x s') :
      Safe S.lax (fun s' (r : Option Entry) => ∀ e ∈ r, e.In (S.during s'))
        (x >>= fun v => pure (some (.value v))) s' := by
    apply hx.bind
    intro v s₁ hs₁ hv
    refine safe_pure hs₁.sound fun e he => ?_
    obtain rfl := Option.mem_some_iff.1 he
    exact .value hv
  have hfits {d e : Nat} : S.Fits d e := .inl hlax
  cases op with
  | evaluate t dims => exact built (run_safe f hs hm (.evaluate ⟨henv, hop, .inl hlax⟩))
  | delay t dims =>
    have hx : Suspension.In (S.during s) ⟨m, true, t, env, dims⟩ :=
      ⟨⟨henv, hop, .inl hlax⟩, hm⟩
    apply (safe_suspend hs hx).bind
    intro e s₁ hs₁ he
    refine safe_pure hs₁.sound fun e' he' => ?_
    obtain rfl := Option.mem_some_iff.1 he'
    exact he
  | force i => exact built (safe_operand hlax hs henv i)
  | apply i j =>
    apply (safe_operand hlax hs henv i).bind
    intro g s₁ hs₁ hg
    apply (safe_operand hlax hs₁.sound (entries hs₁) j).bind
    intro a s₂ hs₂ ha
    exact built (safe_apply (run_safe f) hs₂.sound hm (hg.mono (hs₂.le S)) ha)
  | pathApply i r =>
    apply (safe_operand hlax hs henv i).bind
    intro p s₁ hs₁ hp
    exact built (safe_pathApply (run_safe f) hs₁.sound hm hp (hop r List.mem_cons_self))
  | comp source target family faces base dims =>
    obtain ⟨hsource, hrest⟩ := List.forall_mem_cons.1 hop
    obtain ⟨htarget, hdims⟩ := List.forall_mem_cons.1 hrest
    apply (safe_closeGivenFamily hlax hs henv hdims family).bind
    intro a s₁ hs₁ ha
    apply (safe_operand hlax hs₁.sound (entries hs₁) base).bind
    intro v s₂ hs₂ hv
    apply (safe_closeGiven hlax hs₂.sound (entries (hs₁.trans hs₂)) hdims faces).bind
    intro fs s₃ hs₃ hfs
    exact built (run_safe f hs₃.sound hm (.comp hsource htarget
      (ha.mono ((hs₂.trans hs₃).le S)) hfs (hv.mono (hs₃.le S))))
  | coe source target family base dims =>
    obtain ⟨hsource, hrest⟩ := List.forall_mem_cons.1 hop
    obtain ⟨htarget, hdims⟩ := List.forall_mem_cons.1 hrest
    apply (safe_closeGivenFamily hlax hs henv hdims family).bind
    intro a s₁ hs₁ ha
    apply (safe_operand hlax hs₁.sound (entries hs₁) base).bind
    intro v s₂ hs₂ hv
    exact built (run_safe f hs₂.sound hm (.coe hsource htarget (ha.mono (hs₂.le S)) hv))
  | hcomp ty faces base dims =>
    apply (safe_operand hlax hs henv ty).bind
    intro a s₁ hs₁ ha
    apply (safe_operand hlax hs₁.sound (entries hs₁) base).bind
    intro v s₂ hs₂ hv
    apply (safe_closeGiven hlax hs₂.sound (entries (hs₁.trans hs₂)) hop faces).bind
    intro fs s₃ hs₃ hfs
    exact built (run_safe f hs₃.sound hm (.comp trivial trivial
      (.constant (ha.mono ((hs₂.trans hs₃).le S))) hfs (hv.mono (hs₃.le S))))
  | quote i d e =>
    apply (safe_operand hlax hs henv i).bind
    intro v s₁ hs₁ hv
    apply (Readback.quote_safe m f hs₁.sound hm hfits hv).bind
    intro t s₂ hs₂ _
    exact safe_pure hs₂.sound nofun
  | convertible i j d e =>
    apply (safe_operand hlax hs henv i).bind
    intro v s₁ hs₁ hv
    apply (safe_operand hlax hs₁.sound (entries hs₁) j).bind
    intro w s₂ hs₂ hw
    have hconv : Safe S.lax (fun _ _ => True) (Readback.convertible f m d e v w) s₂ := by
      apply (Readback.quote_safe m f hs₂.sound hm hfits (hv.mono (hs₂.le S))).bind
      intro t s₃ hs₃ _
      apply (Readback.quote_safe m f hs₃.sound hm hfits (hw.mono (hs₃.le S))).bind
      intro t' s₄ hs₄ _
      exact safe_pure hs₄.sound trivial
    apply hconv.bind
    intro b s₃ hs₃ _
    exact safe_pure hs₃.sound nofun
  | freshProbe =>
    apply (safe_probe hs m).bind
    intro r s₁ hs₁ _
    exact safe_pure hs₁.sound nofun

/-- To normalize a term on an evaluator is safe in scope. -/
theorem safe_normalizeOn {m : MeterId} (hm : S.meter m) (hs : s.Sound)
    (henv : ∀ e ∈ env, e.In (S.during s)) (hdims : ∀ r ∈ dims, r.On S.point) (t : Term)
    (d e : Nat) :
    Safe S.lax (fun _ _ => True) (normalizeOn f m t env dims d e) s := by
  apply (run_safe f hs hm (.evaluate ⟨henv, hdims, .inl hlax⟩)).bind
  intro v s₁ hs₁ hv
  exact (Readback.quote_safe m f hs₁.sound hm (.inl hlax) hv).mono fun _ _ _ => trivial

end Safe

/-! ## Operations end alike -/

section Alike

open Likeness

variable {L : Likeness} [L.Faithful] {limit f f' : Nat} {s s' : Session} {env env' : Env}
  (henv : L.Environments env env')
include henv

/-- A body that an operation is given is closed alike in environments that are alike. -/
theorem alike_closeBody {dims : IntervalEnv} (hdims : L.Dims dims dims) (body : GivenBody) :
    L.Alike False limit L.IntervalClosures (body.close (Eval.run f) env dims) s
      (body.close (Eval.run f') env' dims) s' := by
  cases body with
  | term t =>
    exact .pure (.body henv hdims (t.matches_same (fun _ => rfl) (Under.refl fun _ => rfl)))
  | choice zero one between =>
    apply (alike_lookup henv zero).bind
    intro u t₁ u' t₁' _ _ hu
    apply (alike_lookup henv one).bind
    intro v t₂ v' t₂' _ _ hv
    apply (alike_lookup henv between).bind
    intro w t₃ w' t₃' _ _ hw
    exact .pure (.choice hu hv hw)

/-- A family that an operation is given is closed alike in environments that are alike. -/
theorem alike_closeGivenFamily {dims : IntervalEnv} (hdims : L.Dims dims dims)
    (family : GivenFamily) :
    L.Alike False limit L.Lines (family.close (Eval.run f) env dims) s
      (family.close (Eval.run f') env' dims) s' := by
  cases family with
  | constant ty =>
    apply (alike_lookup henv ty).bind
    intro v t₁ v' t₁' _ _ hv
    exact .pure (.constant hv)
  | term a =>
    have ha : Terms (Under fun i j => i = j) a a :=
      a.matches_same (fun _ => rfl) (Under.refl fun _ => rfl)
    exact alike_closeFamily ha henv hdims
  | varying body flag =>
    apply (alike_closeBody henv hdims body).bind
    intro c t₁ c' t₁' _ _ hc
    exact .pure (.varying hc)

/-- Partial elements that an operation is given are closed alike in environments that are alike. -/
theorem alike_closeGiven {dims : IntervalEnv} (hdims : L.Dims dims dims)
    (faces : List (Face × GivenBody)) :
    L.Alike False limit L.Tubes (closeGiven (Eval.run f) env dims faces) s
      (closeGiven (Eval.run f') env' dims faces) s' := by
  induction faces generalizing s s' with
  | nil => exact .pure .nil
  | cons face rest ih =>
    apply (Alike.ofFault (hdims.cofibration (face.1.matches_refl fun _ => rfl))).bind
    intro φ t₁ φ' t₁' _ _ hφ
    apply (alike_closeBody henv hdims face.2).bind
    intro u t₂ u' t₂' _ _ hu
    apply ih.bind
    intro fs t₃ fs' t₃' _ _ hfs
    exact .pure (.cons hφ.1 hφ.2 hu hfs)

/-- On environments that are alike, an operation at points that are no probes builds entries that
are alike, or fails alike. -/
theorem alike_operation (hL : L.Exact) (op : Operation)
    (hop : ∀ r ∈ op.points, r.On (0 ≤ ·)) :
    L.Alike False limit (Option.Rel L.Entries) (op.run f L.meter env) s
      (op.run f' L.meter env') s' := by
  have dims_refl {dims : IntervalEnv} (hdims : ∀ r ∈ dims, r.On (0 ≤ ·)) : L.Dims dims dims :=
    .refl (L.fixed_of_nonneg hL) hdims
  have point {r : Interval} (hr : r.On (0 ≤ ·)) : L.Points r r :=
    points_refl (L.fixed_of_nonneg hL) hr
  have built {x y : Run Value} [Run.Advancing L.meter x] [Run.Advancing L.meter y]
      {t t' : Session} (hx : L.Alike False limit L.Values x t y t') :
      L.Alike False limit (Option.Rel L.Entries) (x >>= fun v => pure (some (.value v))) t
        (y >>= fun v => pure (some (.value v))) t' := by
    apply hx.bind
    intro v t₁ v' t₁' _ _ hv
    exact .pure (.some (.value hv))
  have call (d d' : Demand) (t t' : Session) (hd : L.Demands d d') (hu : Unforced t d)
      (hu' : Unforced t' d') := run_alike limit f f' L d d' t t' hd hu hu'
  cases op with
  | evaluate t dims =>
    exact built (call _ _ s s' (.evaluate henv (dims_refl hop) (.refl t)) trivial trivial)
  | delay t dims =>
    apply (alike_suspend (.refl t) henv (dims_refl hop)).bind
    intro e t₁ e' t₁' _ _ he
    exact .pure (.some he)
  | force i => exact built (alike_lookup henv i)
  | apply i j =>
    apply (alike_lookup henv i).bind
    intro g t₁ g' t₁' _ _ hg
    apply (alike_lookup henv j).bind
    intro a t₂ a' t₂' _ _ ha
    exact built (alike_apply (run_alike limit f f') hg ha)
  | pathApply i r =>
    apply (alike_lookup henv i).bind
    intro p t₁ p' t₁' _ _ hp
    exact built (alike_pathApply (run_alike limit f f') hp (point (hop r List.mem_cons_self)))
  | comp source target family faces base dims =>
    obtain ⟨hsource, hrest⟩ := List.forall_mem_cons.1 hop
    obtain ⟨htarget, hdims⟩ := List.forall_mem_cons.1 hrest
    apply (alike_closeGivenFamily henv (dims_refl hdims) family).bind
    intro a t₁ a' t₁' _ _ ha
    apply (alike_lookup henv base).bind
    intro v t₂ v' t₂' _ _ hv
    apply (alike_closeGiven henv (dims_refl hdims) faces).bind
    intro fs t₃ fs' t₃' _ _ hfs
    exact built (call _ _ t₃ t₃' (.comp (point hsource) (point htarget) ha hfs hv) trivial trivial)
  | coe source target family base dims =>
    obtain ⟨hsource, hrest⟩ := List.forall_mem_cons.1 hop
    obtain ⟨htarget, hdims⟩ := List.forall_mem_cons.1 hrest
    apply (alike_closeGivenFamily henv (dims_refl hdims) family).bind
    intro a t₁ a' t₁' _ _ ha
    apply (alike_lookup henv base).bind
    intro v t₂ v' t₂' _ _ hv
    exact built (call _ _ t₂ t₂' (.coe (point hsource) (point htarget) ha hv) trivial trivial)
  | hcomp ty faces base dims =>
    apply (alike_lookup henv ty).bind
    intro a t₁ a' t₁' _ _ ha
    apply (alike_lookup henv base).bind
    intro v t₂ v' t₂' _ _ hv
    apply (alike_closeGiven henv (dims_refl hop) faces).bind
    intro fs t₃ fs' t₃' _ _ hfs
    exact built (call _ _ t₃ t₃' (.comp .zero .one (.constant ha) hfs hv) trivial trivial)
  | quote i d e =>
    apply (alike_lookup henv i).bind
    intro v t₁ v' t₁' _ _ hv
    apply (quote_alike hL limit f f' d e v v' t₁ t₁' (Int.natCast_nonneg e) hv).bind
    intro n t₂ n' t₂' _ _ _
    exact .pure .none
  | convertible i j d e =>
    apply (alike_lookup henv i).bind
    intro v t₁ v' t₁' _ _ hv
    apply (alike_lookup henv j).bind
    intro w t₂ w' t₂' _ _ hw
    apply (alike_convertible hL False.elim (Int.natCast_nonneg e) hv hw).bind
    intro b t₃ b' t₃' _ _ _
    exact .pure .none
  | freshProbe =>
    intro _ _ _ _
    exact .ok .none False.elim

/-- On environments that are alike a term has one normal form. -/
theorem alike_normalizeOn {strict : Prop} (hcall : Calls strict limit f f')
    (hread : L.Readers strict limit (Readback.quote f L.meter) (Readback.quote f' L.meter))
    {dims : IntervalEnv} (hdims : L.Dims dims dims) (t : Term) (d e : Nat) :
    L.Alike strict limit (· = ·) (normalizeOn f L.meter t env dims d e) s
      (normalizeOn f' L.meter t env' dims d e) s' := by
  apply Alike.bind (hcall L _ _ s s' (.evaluate henv hdims (.refl t)) trivial trivial)
  intro v t₁ v' t₁' _ _ hv
  exact hread d e v v' t₁ t₁' (Int.natCast_nonneg e) hv

end Alike

/-! ## Sessions that serve an evaluator -/

namespace Scope

/-- What refers only to arguments that are known. -/
def known : Scope where
  level _ := True
  point _ := True
  meter _ := True
  lax := True
  origin _ := none

/-- What belongs to the evaluator on a meter and mentions no probes. -/
def owned (m : MeterId) : Scope where
  level _ := True
  point l := 0 ≤ l
  meter k := k = m
  lax := True
  origin _ := none

/-- What belongs to an evaluator is known to the session. -/
theorem owned_le_known (m : MeterId) (s : Session) : ((owned m).during s).Le (known.during s) :=
  ⟨id, fun _ => trivial, fun _ => trivial, id, id⟩

end Scope

namespace Session

/-- The session was reached by operations since the meter was opened. They may be operations on
other meters too, at any points, and may have failed. -/
inductive Serves (m : MeterId) : Session → Prop
  | opened {s : Session} :
      m < s.meters.size → s.Sound → (∀ id x, s.origin id = some x → x.meter ≠ m) → Serves m s
  | step {s : Session} {env : Env} (frames : Nat) (k : MeterId) (op : Operation) :
      Serves m s → (∀ e ∈ env, e.In (Scope.known.during s)) →
        Serves m ((op.run frames k env).after s)

variable {m : MeterId} {s s' : Session}

/-- A session in which nothing was put off yet serves its only meter. -/
theorem serves_single (account : Meter) (sharing : Sharing) :
    Serves 0 { meters := #[account], sharing } := by
  apply Serves.opened
  · simp
  · intro id x v hc
    simp at hc
  · intro id x hx
    simp [origin] at hx

/-- An interval variable in scope is never drawn as a probe. -/
theorem clear_of_nonneg {points : Int → Prop} (hpoints : ∀ l, points l → 0 ≤ l) (s s' : Session) :
    s.Clear m points s' := by
  intro l hl n _ _
  have := hpoints l hl
  simp only [Run.probeBase]
  omega

/-- The meter that a session serves is open. -/
theorem Serves.isOpened (h : s.Serves m) : m < s.meters.size := by
  induction h with
  | opened hm _ _ => exact hm
  | step frames k op _ _ ih => exact (Run.Advancing.keeps _).opened ih

/-- A session that serves a meter is sound. -/
theorem Serves.sound (h : s.Serves m) : s.Sound := by
  induction h with
  | opened _ hs _ => exact hs
  | @step s env frames k op _ henv ih =>
    have hsafe := safe_operation (S := .known) (f := frames) trivial (m := k) trivial ih henv op
      fun r _ => by cases r <;> trivial
    exact hsafe.after.sound

/-- The values that a session keeps for the meter it serves are certified. -/
theorem Serves.certified (h : s.Serves m) {points : Int → Prop}
    (hpoints : ∀ l, points l → 0 ≤ l) : s.Certified m points := by
  induction h with
  | @opened s _ _ hother =>
    refine certified_iff.2 fun id x v hc hx => ?_
    exact (hother id x (by rw [origin, hc]; rfl) hx).elim
  | step frames k op hs _ ih =>
    exact (Run.Advancing.keeps _).certified hs.isOpened points ih (clear_of_nonneg hpoints _ _)

/-- A run from a session that serves its meter can be compared where no probes are in play. -/
theorem Serves.ready (h : s.Serves m) {points : Int → Prop} (hpoints : ∀ l, points l → 0 ≤ l)
    (e : Session) : s.Ready m e.origin points e :=
  ⟨h.isOpened, h.certified hpoints, clear_of_nonneg hpoints s e, id⟩

/-- The session serves the evaluator and knows what was put off in the first. -/
structure Attends (m : MeterId) (s₀ s : Session) : Prop where
  serves : s.Serves m
  leads : s₀.Leads s

namespace Attends

variable {s₀ : Session}

/-- What belongs to the evaluator in the first session still does. -/
theorem owned {v : Value} (h : s₀.Attends m s) (hv : v.In ((Scope.owned m).during s₀)) :
    v.In ((Scope.owned m).during s) :=
  hv.mono (h.leads.le _)

/-- An operation on what belongs to the evaluator, at points that are no probes, leaves such a
session. -/
theorem step (h : s₀.Attends m s) {env : Env} (henv : ∀ e ∈ env, e.In ((Scope.owned m).during s₀))
    (frames : Nat) (op : Operation) (hop : ∀ r ∈ op.points, r.On (0 ≤ ·)) :
    s₀.Attends m ((op.run frames m env).after s) := by
  have hin : ∀ e ∈ env, e.In ((Scope.owned m).during s) :=
    fun e he => (henv e he).mono (h.leads.le _)
  have hsafe := safe_operation (S := .owned m) (f := frames) trivial rfl h.serves.sound hin op hop
  exact ⟨h.serves.step frames m op fun e he => (hin e he).mono (Scope.owned_le_known m s),
    h.leads.trans hsafe.after⟩

/-- To read a value back leaves such a session. -/
theorem quote (h : s₀.Attends m s) {v : Value} (hv : v.In ((Scope.owned m).during s₀))
    {frames d e : Nat} {n : Term} (hread : Readback.quote frames m d e v s = .ok n s') :
    s₀.Attends m s' := by
  have hstep := h.step (List.forall_mem_singleton.2 (.value hv)) frames (.quote 0 d e)
    fun r hr => (List.not_mem_nil hr).elim
  rwa [Operation.run, Run.after_bind_ok (show lookup _ _ 0 s = .ok v s from rfl),
    Run.after_bind_ok hread] at hstep

/-- To take a path at a point that is no probe leaves such a session. -/
theorem pathApply (h : s₀.Attends m s) {v w : Value} (hv : v.In ((Scope.owned m).during s₀))
    {frames : Nat} {r : Interval} (hr : r.On (0 ≤ ·))
    (hrun : Eval.pathApply (Eval.run frames) m v r s = .ok w s') : s₀.Attends m s' := by
  have hstep := h.step (List.forall_mem_singleton.2 (.value hv)) frames (.pathApply 0 r)
    (List.forall_mem_singleton.2 hr)
  rwa [Operation.run, Run.after_bind_ok (show lookup _ _ 0 s = .ok v s from rfl),
    Run.after_bind_ok hrun] at hstep

end Attends

end Session

namespace Likeness

/-- What sessions of one evaluator differ in where no probes are in play. -/
def between (m : MeterId) (s s' : Session) : Likeness where
  meter := m
  origin := s.origin
  origin' := s'.origin
  probes := []
  injective := nofun
  apart := nofun
  negative := nofun

variable {m : MeterId} {s s' t t' : Session}

instance : (between m s s').Faithful where
  finds h := h.elim

/-- Between sessions of one evaluator no probes are in play. -/
theorem exact_between : (between m s s').Exact :=
  rfl

/-- Between sessions of one evaluator the first run has points in scope only. -/
theorem left_between (l : Int) (h : (between m s s').left l) : 0 ≤ l :=
  left_nonneg exact_between l h

/-- Between sessions of one evaluator the second run has points in scope only. -/
theorem right_between (l : Int) (h : (between m s s').right l) : 0 ≤ l :=
  right_nonneg exact_between l h

/-- What is alike between two sessions is so between later ones. -/
theorem between_le (h : s.Precedes m t) (h' : s'.Precedes m t') :
    (between m s s').Le (between m t t') where
  meter := rfl
  origin := h.origin
  origin' := h'.origin
  probes := List.nil_subset _
  fixed := id
  steady h := h.elim
  loose h := h.elim

/-- What belongs to the evaluator is alike to itself in sessions that know what it refers to. -/
theorem holds_of_origin (h : ∀ {id x}, s.origin id = some x → t.origin id = some x)
    (h' : ∀ {id x}, s.origin id = some x → t'.origin id = some x) :
    (between m t t').Holds ((Scope.owned m).during s) where
  meter hk := hk
  point _ hl := hl
  origin := h
  origin' := h'

/-- In particular in sessions that a run may reach. -/
theorem holds_owned (h : s.Precedes m t) (h' : s.Precedes m t') :
    (between m t t').Holds ((Scope.owned m).during s) :=
  holds_of_origin h.origin h'.origin

end Likeness

end SmoothCubical
