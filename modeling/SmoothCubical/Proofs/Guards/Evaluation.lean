import SmoothCubical.Readback
import SmoothCubical.Proofs.Growth

/-!
# Evaluation under looser guards

Two runs are compared that are the same but for their guards: the second may nest more deeply, take
more steps and nest more calls. As long as no guard cuts the first off, the second does the same
thing at the same time (`Run.CompletesBy`). Sequencing keeps this, so it goes through every rule of
evaluation and of reading back (`run_completes`, `quote_completes`); only the three places that look
at a guard have to be looked at. None of them looks at a rule of typing, so the accounts may differ
in these too.
-/

set_option autoImplicit false

namespace SmoothCubical

/-- The second settings have guards at least as large, and the same rules of typing. -/
structure Settings.Loosens (a b : Settings) : Prop where
  maxDepth : a.maxDepth ≤ b.maxDepth
  fuel : a.fuel ≤ b.fuel
  universeRule : a.universeRule = b.universeRule
  maxSmoothOrder : a.maxSmoothOrder = b.maxSmoothOrder
  checkFaceAgreement : a.checkFaceAgreement = b.checkFaceAgreement

/-- The second account has looser guards and has spent the same. -/
structure Meter.Loosens (a b : Meter) : Prop where
  settings : a.settings.Loosens b.settings
  depth : a.depth = b.depth
  steps : a.steps = b.steps
  probes : a.probes = b.probes

/-- The second session has looser guards and is the same in all else. -/
structure Session.Loosens (s s' : Session) : Prop where
  meters : ∀ m : MeterId, Option.Rel Meter.Loosens s.meters[m]? s'.meters[m]?
  cells : s.cells = s'.cells
  events : s.events = s'.events
  sharing : s.sharing = s'.sharing

/-- The second outcome is the first, under looser guards, unless a guard has cut the first off. -/
inductive SameUnlessCutOff {α : Type} :
    EStateM.Result Failure Session α → EStateM.Result Failure Session α → Prop
  | ok {a : α} {s s' : Session} : s.Loosens s' → SameUnlessCutOff (.ok a s) (.ok a s')
  | error {e : Failure} {s s' : Session} :
      s.Loosens s' → SameUnlessCutOff (.error e s) (.error e s')
  | cutOff {g : Guard} {s : Session} {y : EStateM.Result Failure Session α} :
      SameUnlessCutOff (.error (.nonTermination g) s) y

/-- A relation of settings in which the second have guards at least as large. Whether they have the
same rules of typing is left open. -/
structure Settings.Widening where
  rel : Settings → Settings → Prop
  refl : ∀ a, rel a a
  maxDepth : ∀ {a b : Settings}, rel a b → a.maxDepth ≤ b.maxDepth
  fuel : ∀ {a b : Settings}, rel a b → a.fuel ≤ b.fuel

/-- Settings are as loose as themselves. -/
theorem Settings.Loosens.refl (a : Settings) : a.Loosens a :=
  ⟨Nat.le_refl _, Nat.le_refl _, rfl, rfl, rfl⟩

/-- The guards are widened, and the rules of typing kept. -/
def Settings.loosening : Widening where
  rel := Loosens
  refl := .refl
  maxDepth h := h.maxDepth
  fuel h := h.fuel

/-- The second account has the wider settings and has spent the same. -/
structure Meter.Widens (ρ : Settings.Widening) (a b : Meter) : Prop where
  settings : ρ.rel a.settings b.settings
  depth : a.depth = b.depth
  steps : a.steps = b.steps
  probes : a.probes = b.probes

/-- The second session has the wider settings in its accounts and is the same in all else. -/
structure Session.Widens (ρ : Settings.Widening) (s s' : Session) : Prop where
  meters : ∀ m : MeterId, Option.Rel (Meter.Widens ρ) s.meters[m]? s'.meters[m]?
  cells : s.cells = s'.cells
  events : s.events = s'.events
  sharing : s.sharing = s'.sharing

/-- The second outcome is the first, under wider settings, unless a guard has cut the first off. -/
inductive SameUnlessCut (ρ : Settings.Widening) {α : Type} :
    EStateM.Result Failure Session α → EStateM.Result Failure Session α → Prop
  | ok {a : α} {s s' : Session} : s.Widens ρ s' → SameUnlessCut ρ (.ok a s) (.ok a s')
  | error {e : Failure} {s s' : Session} :
      s.Widens ρ s' → SameUnlessCut ρ (.error e s) (.error e s')
  | cutOff {g : Guard} {s : Session} {y : EStateM.Result Failure Session α} :
      SameUnlessCut ρ (.error (.nonTermination g) s) y

/-- Under wider settings the second run does what the first does, unless a guard cuts that off. -/
def Run.CompletesBy (ρ : Settings.Widening) {α : Type} (x y : Run α) : Prop :=
  ∀ s s', s.Widens ρ s' → SameUnlessCut ρ (x s) (y s')

/-- Under looser guards the second run does what the first does, unless a guard cuts that off. -/
abbrev Run.Completes {α : Type} (x y : Run α) : Prop :=
  CompletesBy Settings.loosening x y

/-! ## Accounts -/

/-- An account is as loose as itself. -/
theorem Meter.Loosens.refl (a : Meter) : a.Loosens a :=
  ⟨.refl _, rfl, rfl, rfl⟩

/-- A session is as loose as itself. -/
theorem Session.Loosens.refl (s : Session) : s.Loosens s := by
  refine ⟨fun m => ?_, rfl, rfl, rfl⟩
  cases s.meters[m]? with
  | none => exact .none
  | some a => exact .some (.refl a)

variable {ρ : Settings.Widening}

/-- An account is loosened if it is widened with the rules of typing kept. -/
theorem Meter.loosens_eq : Meter.Loosens = Meter.Widens Settings.loosening := by
  funext a b
  exact propext ⟨fun h => ⟨h.settings, h.depth, h.steps, h.probes⟩,
    fun h => ⟨h.settings, h.depth, h.steps, h.probes⟩⟩

/-- A session is loosened if and only if it is widened with the rules of typing kept. -/
theorem Session.loosens_iff {s s' : Session} : s.Loosens s' ↔ s.Widens Settings.loosening s' :=
  ⟨fun h => ⟨Meter.loosens_eq ▸ h.meters, h.cells, h.events, h.sharing⟩,
    fun h => ⟨Meter.loosens_eq ▸ h.meters, h.cells, h.events, h.sharing⟩⟩

/-- Outcomes that are the same under wider settings are so under looser guards if the rules are
kept. -/
theorem SameUnlessCut.loosens {α : Type} {x y : EStateM.Result Failure Session α}
    (h : SameUnlessCut Settings.loosening x y) : SameUnlessCutOff x y := by
  cases h with
  | ok hs => exact .ok (Session.loosens_iff.2 hs)
  | error hs => exact .error (Session.loosens_iff.2 hs)
  | cutOff => exact .cutOff

namespace Session.Widens

variable {s s' : Session}

/-- A session is as wide as itself. -/
theorem refl (s : Session) : s.Widens ρ s := by
  refine ⟨fun m => ?_, rfl, rfl, rfl⟩
  cases s.meters[m]? with
  | none => exact .none
  | some a => exact .some ⟨ρ.refl _, rfl, rfl, rfl⟩

/-- Each account of the wider session is the wider one. -/
theorem meter (h : s.Widens ρ s') (m : MeterId) :
    (s.meter m).Widens ρ (s'.meter m) := by
  have hm := h.meters m
  unfold Session.meter
  generalize s.meters[m]? = a at hm
  generalize s'.meters[m]? = b at hm
  cases hm with
  | none => exact ⟨ρ.refl _, rfl, rfl, rfl⟩
  | some hab => exact hab

/-- The wider session has as many accounts. -/
theorem size_eq (h : s.Widens ρ s') : s.meters.size = s'.meters.size := by
  have hm := h.meters s.meters.size
  have hm' := h.meters s'.meters.size
  rw [Array.getElem?_eq_none (Nat.le_refl _)] at hm hm'
  have hle : s'.meters.size ≤ s.meters.size := by
    generalize hb : s'.meters[s.meters.size]? = b at hm
    cases hm
    exact Array.getElem?_eq_none_iff.1 hb
  have hge : s.meters.size ≤ s'.meters.size := by
    generalize ha : s.meters[s'.meters.size]? = a at hm'
    cases hm'
    exact Array.getElem?_eq_none_iff.1 ha
  omega

/-- Sessions stay as wide after a change that keeps accounts as wide. -/
theorem modifyMeter (h : s.Widens ρ s') (m : MeterId) {f : Meter → Meter}
    (hf : ∀ a b, a.Widens ρ b → (f a).Widens ρ (f b)) :
    (s.modifyMeter m f).Widens ρ (s'.modifyMeter m f) := by
  refine ⟨fun k => ?_, h.cells, h.events, h.sharing⟩
  have hk := h.meters k
  simp only [Session.modifyMeter, Array.getElem?_modify]
  split
  · generalize s.meters[k]? = a at hk
    generalize s'.meters[k]? = b at hk
    cases hk with
    | none => exact .none
    | some hab => exact .some (hf _ _ hab)
  · exact hk

/-- Sessions stay as wide when each opens an account, of settings that are as wide. -/
theorem openMeter (h : s.Widens ρ s') {a b : Settings} (hab : ρ.rel a b) :
    Session.Widens ρ { s with meters := s.meters.push { settings := a } }
      { s' with meters := s'.meters.push { settings := b } } := by
  refine ⟨fun k => ?_, h.cells, h.events, h.sharing⟩
  simp only [Array.getElem?_push, h.size_eq]
  split
  · exact .some ⟨hab, rfl, rfl, rfl⟩
  · exact h.meters k

end Session.Widens

/-! ## Sequencing -/

namespace Run.CompletesBy

variable {α β : Type}

/-- To answer at once is done under wider settings, too. -/
theorem pure (a : α) : CompletesBy ρ (Pure.pure a : Run α) (Pure.pure a) :=
  fun _ _ hs => .ok hs

/-- To fail at once is done under wider settings, too. -/
theorem throw (e : Failure) : CompletesBy ρ (MonadExcept.throw e : Run α) (MonadExcept.throw e) :=
  fun _ _ hs => .error hs

/-- A run that is cut off is completed by any other. -/
theorem cutOff (g : Guard) (y : Run α) :
    CompletesBy ρ (MonadExcept.throw (.nonTermination g) : Run α) y :=
  fun _ _ _ => .cutOff

/-- Runs that are completed one after the other are completed as a whole. -/
theorem bind {x y : Run α} {f g : α → Run β} (hxy : CompletesBy ρ x y)
    (hfg : ∀ a, CompletesBy ρ (f a) (g a)) : CompletesBy ρ (x >>= f) (y >>= g) := by
  intro s s' hs
  have hout := hxy s s' hs
  cases hx : x s with
  | ok a s₁ =>
    rw [hx] at hout
    generalize hy : y s' = y' at hout
    cases hout with
    | ok hs₁ =>
      rw [Run.bind_ok hx, Run.bind_ok hy]
      exact hfg a _ _ hs₁
  | error e s₁ =>
    rw [hx] at hout
    rw [Run.bind_error hx]
    generalize hy : y s' = y' at hout
    cases hout with
    | error hs₁ =>
      rw [Run.bind_error hy]
      exact .error hs₁
    | cutOff => exact .cutOff

/-- What follows a look at the session is completed if it is so at any two sessions of which one is
wider. -/
theorem get_bind {f g : Session → Run α}
    (hfg : ∀ s s', s.Widens ρ s' → CompletesBy ρ (f s) (g s')) :
    CompletesBy ρ (get >>= f) (get >>= g) :=
  fun s s' hs => hfg s s' hs s s' hs

/-- A change to the session is completed if it keeps sessions as wide. -/
theorem of_modify {f g : Session → Session}
    (hfg : ∀ s s', s.Widens ρ s' → (f s).Widens ρ (g s')) :
    CompletesBy ρ (modify f : Run Unit) (modify g) :=
  fun _ _ hs => .ok (hfg _ _ hs)

/-- A fault of the syntax is handed on under wider settings, too. -/
theorem ofFault (x : Except Fault α) : CompletesBy ρ (Run.ofFault x) (Run.ofFault x) := by
  cases x with
  | ok a => exact .pure a
  | error f => exact .throw _

/-- What is done for each member of a list is completed if it is so for each. -/
theorem forM {f g : α → Run Unit} (hfg : ∀ a, CompletesBy ρ (f a) (g a)) :
    ∀ xs : List α, CompletesBy ρ (xs.forM f) (xs.forM g)
  | [] => .pure ()
  | x :: xs => (hfg x).bind fun _ => forM hfg xs

end Run.CompletesBy

/-! ## The parts that look at the session -/

section Parts

open Run

/-- A step that is charged is charged under more fuel, too. This is one of the places that look at a
guard. -/
theorem charge_completes (m : MeterId) : CompletesBy ρ (charge m) (charge m) := by
  unfold charge
  refine .bind (.of_modify fun _ _ hs => hs.modifyMeter m fun a b hab => ?_) fun _ => ?_
  · exact ⟨hab.settings, hab.depth, congrArg (· + 1) hab.steps, hab.probes⟩
  · refine .get_bind fun s s' hs => ?_
    have hm := hs.meter m
    have hfuel := ρ.fuel hm.settings
    have hsteps := hm.steps
    by_cases hover : (s.meter m).steps > (s.meter m).settings.fuel
    · simp only [hover, if_true]
      exact .cutOff _ _
    · have hover' : ¬ (s'.meter m).steps > (s'.meter m).settings.fuel := by omega
      simp only [hover, hover', if_false]
      exact .pure ()

/-- Nesting that is allowed is allowed under a larger bound, too. -/
theorem checkDepth_completes (m : MeterId) (t : Term) :
    CompletesBy ρ (checkDepth m t) (checkDepth m t) := by
  unfold checkDepth
  refine .get_bind fun s s' hs => ?_
  have hm := hs.meter m
  have hlimit := ρ.maxDepth hm.settings
  have hdepth := hm.depth
  by_cases hover : (s.meter m).depth > (s.meter m).settings.maxDepth
  · simp only [hover, if_true]
    exact fun _ _ _ => .cutOff
  · have hover' : ¬ (s'.meter m).depth > (s'.meter m).settings.maxDepth := by omega
    simp only [hover, hover', if_false]
    exact .pure ()

/-- A nested run is completed if the run is. -/
theorem nest_completes {α : Type} {x y : Run α} (h : CompletesBy ρ x y) (m : MeterId) :
    CompletesBy ρ (nest m x) (nest m y) := by
  intro s s' hs
  have hdeeper := hs.modifyMeter m (f := fun a => { a with depth := a.depth + 1 }) fun a b hab =>
    ⟨hab.settings, congrArg (· + 1) hab.depth, hab.steps, hab.probes⟩
  have hout := h _ _ hdeeper
  have back {s s' : Session} (hs : s.Widens ρ s') :=
    hs.modifyMeter m (f := fun a => { a with depth := a.depth - 1 }) fun a b hab =>
      ⟨hab.settings, congrArg (· - 1) hab.depth, hab.steps, hab.probes⟩
  unfold nest
  generalize x _ = p at hout
  generalize y _ = q at hout
  cases hout with
  | ok hs => exact .ok (back hs)
  | error hs => exact .error (back hs)
  | cutOff => exact .cutOff

/-- An event is recorded under wider settings, too. -/
theorem record_completes (e : Event) : CompletesBy ρ (record e) (record e) :=
  .of_modify fun _ _ hs => ⟨hs.meters, hs.cells, congrArg (e :: ·) hs.events, hs.sharing⟩

/-- The same probe is drawn under wider settings. -/
theorem probe_completes (m : MeterId) : CompletesBy ρ (probe m) (probe m) := by
  unfold probe
  refine .get_bind fun s s' hs => ?_
  rw [(hs.meter m).probes]
  refine .bind (.of_modify fun _ _ hs => hs.modifyMeter m fun a b hab => ?_) fun _ => .pure _
  exact ⟨hab.settings, hab.depth, hab.steps, congrArg (· + 1) hab.probes⟩

/-- An argument is put off under the same number. -/
theorem suspend_completes (x : Suspension) : CompletesBy ρ (suspend x) (suspend x) := by
  unfold suspend
  refine .get_bind fun s s' hs => ?_
  rw [hs.cells]
  refine .bind (.of_modify fun s s' hs => ?_) fun _ => .pure _
  exact ⟨hs.meters, congrArg (Array.push · _) hs.cells, hs.events, hs.sharing⟩

/-- The value of an argument is kept under the same number. -/
theorem settle_completes (id : Nat) (v : Value) : CompletesBy ρ (settle id v) (settle id v) := by
  refine .of_modify fun s s' hs => ?_
  cases hshared : s'.sharing with
  | byNeed =>
    simp only [hs.sharing, hshared]
    exact ⟨hs.meters, by rw [hs.cells], hs.events, rfl⟩
  | byName =>
    simp only [hs.sharing, hshared]
    exact hs

end Parts

/-! ## The rules of evaluation -/

namespace Eval

open Run

/-- Each demand that the first call meets, the second meets in the same way. -/
def CompletingCalls (ρ : Settings.Widening) (call call' : Call) : Prop :=
  ∀ m d, CompletesBy ρ (call m d) (call' m d)

variable {call call' : Call} (hcall : CompletingCalls ρ call call')
include hcall

/-- To force an entry is completed, whether its value is kept or not. -/
theorem force_completes (e : Entry) : CompletesBy ρ (force call e) (force call' e) := by
  cases e with
  | value v => exact .pure v
  | thunk id =>
    refine .get_bind fun s s' hs => ?_
    rw [hs.cells]
    split
    · exact .pure _
    · exact (hcall _ _).bind fun v => (settle_completes id v).bind fun _ => .pure v
    · exact .throw _

/-- To look a family up at a point is completed. -/
theorem lineAt_completes (m : MeterId) (a : Line) (r : Interval) :
    CompletesBy ρ (lineAt call m a r) (lineAt call' m a r) := by
  cases a with
  | constant ty => exact .pure ty
  | varying c flag => exact hcall _ _

/-- Application is completed. -/
theorem apply_completes (m : MeterId) (f v : Value) :
    CompletesBy ρ (apply call m f v) (apply call' m f v) := by
  unfold apply
  split
  · exact hcall _ _
  · exact (hcall _ _).bind fun _ => .pure _
  · exact .pure _
  · exact .throw _

/-- To take a path at a point is completed. -/
theorem pathApply_completes (m : MeterId) (p : Value) (r : Interval) :
    CompletesBy ρ (pathApply call m p r) (pathApply call' m p r) := by
  unfold pathApply
  split
  · exact hcall _ _
  · exact .pure _
  · exact .pure _
  · exact .pure _
  · exact .throw _

/-- To look up a function type in a family is completed. -/
theorem piAt_completes (m : MeterId) (a : Line) (r : Interval) :
    CompletesBy ρ (piAt call m a r) (piAt call' m a r) := by
  refine (lineAt_completes hcall m a r).bind fun ty => ?_
  split
  · exact .pure _
  · exact .throw _

/-- To look up a path type in a family is completed. -/
theorem pathTypeAt_completes (m : MeterId) (a : Line) (r : Interval) :
    CompletesBy ρ (pathTypeAt call m a r) (pathTypeAt call' m a r) := by
  refine (lineAt_completes hcall m a r).bind fun ty => ?_
  split
  · exact .pure _
  · exact .pure _
  · exact .throw _

/-- To find a moved argument at a point is completed. -/
theorem carriedAt_completes (m : MeterId) (y : Carried) (r : Interval) :
    CompletesBy ρ (carriedAt call m y r) (carriedAt call' m y r) := by
  cases y
  exact hcall _ _

/-- Composition is completed. -/
theorem comp_completes (m : MeterId) (s t : Interval) (a : Line) (fs : List Tube) (v : Value) :
    CompletesBy ρ (comp call m s t a fs v) (comp call' m s t a fs v) := by
  unfold comp
  split
  · exact hcall _ _
  · split
    · exact .pure v
    · refine (probe_completes m).bind fun r => (lineAt_completes hcall m a r).bind fun ty => ?_
      split
      · exact .pure _
      · exact .pure _
      · exact .pure _
      · refine (record_completes _).bind fun _ => ?_
        exact (lineAt_completes hcall m a t).bind fun _ => .pure _

/-- Coercion is completed. -/
theorem coe_completes (m : MeterId) (s t : Interval) (a : Line) (v : Value) :
    CompletesBy ρ (coe call m s t a v) (coe call' m s t a v) := by
  unfold coe
  split
  · exact .pure v
  · split
    · exact .pure v
    · refine (probe_completes m).bind fun r => (lineAt_completes hcall m a r).bind fun ty => ?_
      split
      · exact .pure v
      · exact .pure _
      · exact .pure _
      · exact .pure _
      · refine (record_completes _).bind fun _ => ?_
        exact (lineAt_completes hcall m a t).bind fun _ => .pure _

/-- To apply a composite of functions is completed. -/
theorem compFunctionAt_completes (m : MeterId) (s t : Interval) (a : Line) (fs : List Tube)
    (v y : Value) :
    CompletesBy ρ (compFunctionAt call m s t a fs v y) (compFunctionAt call' m s t a fs v y) := by
  refine (carriedAt_completes hcall m _ s).bind fun x => ?_
  exact (apply_completes hcall m v x).bind fun _ => hcall _ _

/-- To apply a function that was moved is completed. -/
theorem coeFunctionAt_completes (m : MeterId) (s t : Interval) (a : Line) (v y : Value) :
    CompletesBy ρ (coeFunctionAt call m s t a v y) (coeFunctionAt call' m s t a v y) := by
  refine (carriedAt_completes hcall m _ s).bind fun x => ?_
  exact (apply_completes hcall m v x).bind fun _ => hcall _ _

/-- To instantiate an abstraction is completed. -/
theorem instantiate_completes (m : MeterId) (c : Closure) (e : Entry) :
    CompletesBy ρ (instantiate call m c e) (instantiate call' m c e) := by
  cases c with
  | body env dims t => exact hcall _ _
  | comp m s t a fs v =>
    exact (force_completes hcall e).bind fun y => compFunctionAt_completes hcall m s t a fs v y
  | coe m s t a v =>
    exact (force_completes hcall e).bind fun y => coeFunctionAt_completes hcall m s t a v y

/-- To instantiate an interval abstraction is completed. -/
theorem instantiateAt_completes (m : MeterId) (c : IntervalClosure) (r : Interval) :
    CompletesBy ρ (instantiateAt call m c r) (instantiateAt call' m c r) := by
  cases c with
  | body env dims t => exact hcall _ _
  | choice u v w => cases r <;> exact .pure _
  | domain m a => exact (piAt_completes hcall m a r).bind fun _ => .pure _
  | codomain m a y =>
    refine (piAt_completes hcall m a r).bind fun p => ?_
    exact (carriedAt_completes hcall m y r).bind fun _ => hcall _ _
  | element m a => exact (pathTypeAt_completes hcall m a r).bind fun _ => .pure _
  | left m a => exact (pathTypeAt_completes hcall m a r).bind fun _ => .pure _
  | right m a => exact (pathTypeAt_completes hcall m a r).bind fun _ => .pure _
  | app m u y =>
    refine (hcall _ _).bind fun f => (carriedAt_completes hcall m y r).bind fun x => ?_
    exact apply_completes hcall m f x
  | pathApp m u k => exact (hcall _ _).bind fun p => pathApply_completes hcall m p k
  | comp m s t a fs v => exact (pathApply_completes hcall m v r).bind fun _ => hcall _ _

omit hcall in
/-- To close a family is completed, since no guard is looked at. -/
theorem closeFamily_completes (a : Term) (env : Env) (dims : IntervalEnv) :
    CompletesBy ρ (closeFamily a env dims) (closeFamily a env dims) :=
  (CompletesBy.ofFault _).bind fun _ => .pure _

omit hcall in
/-- To close a system is completed, since no guard is looked at. -/
theorem closeTubes_completes (env : Env) (dims : IntervalEnv) (fs : List (Face × Term)) :
    CompletesBy ρ (closeTubes env dims fs) (closeTubes env dims fs) := by
  induction fs with
  | nil => exact .pure _
  | cons face rest ih =>
    refine CompletesBy.bind ?_ fun tube => ih.bind fun _ => .pure _
    exact (CompletesBy.ofFault _).bind fun _ => .pure _

/-- One step of evaluation is completed, at every term. -/
theorem step_completes (m : MeterId) (t : Term) (env : Env) (dims : IntervalEnv) :
    CompletesBy ρ (step call m t env dims) (step call' m t env dims) := by
  cases t with
  | univ level => exact .pure _
  | var i => exact (CompletesBy.ofFault _).bind fun e => force_completes hcall e
  | pi x a b => exact (hcall _ _).bind fun _ => .pure _
  | lam x b => exact .pure _
  | app f a =>
    refine (hcall _ _).bind fun v => ?_
    split
    · exact (suspend_completes _).bind fun _ => hcall _ _
    · exact (hcall _ _).bind fun w => apply_completes hcall m _ w
  | path a l r =>
    exact (hcall _ _).bind fun _ => (hcall _ _).bind fun _ => (hcall _ _).bind fun _ => .pure _
  | pathLam x b => exact .pure _
  | pathApp p d =>
    refine (hcall _ _).bind fun v => (CompletesBy.ofFault _).bind fun r => ?_
    exact pathApply_completes hcall m v r
  | smoothPath k a l r =>
    exact (hcall _ _).bind fun _ => (hcall _ _).bind fun _ => (hcall _ _).bind fun _ => .pure _
  | comp s t a fs b =>
    refine (closeFamily_completes a env dims).bind fun _ => (hcall _ _).bind fun _ => ?_
    refine (closeTubes_completes env dims fs).bind fun _ => (CompletesBy.ofFault _).bind fun _ => ?_
    exact (CompletesBy.ofFault _).bind fun _ => hcall _ _
  | coe s t a b =>
    refine (closeFamily_completes a env dims).bind fun _ => (CompletesBy.ofFault _).bind fun _ => ?_
    exact (CompletesBy.ofFault _).bind fun _ => (hcall _ _).bind fun _ => hcall _ _
  | hcomp a fs b =>
    refine (hcall _ _).bind fun _ => (hcall _ _).bind fun _ => ?_
    exact (closeTubes_completes env dims fs).bind fun _ => hcall _ _
  | missing => exact .throw _

/-- Demands are met in the same way if calls meet them so. -/
theorem answer_completes : CompletingCalls ρ (answer call) (answer call') := by
  intro m d
  cases d with
  | evaluate nests t env dims =>
    have charged := (charge_completes m).bind fun _ => step_completes hcall m t env dims
    cases nests with
    | true => exact nest_completes ((checkDepth_completes m t).bind fun _ => charged) m
    | false => exact charged
  | instantiate c e => exact instantiate_completes hcall m c e
  | instantiateAt c r => exact instantiateAt_completes hcall m c r
  | comp s t a fs v => exact comp_completes hcall m s t a fs v
  | coe s t a v => exact coe_completes hcall m s t a v

omit hcall in
/-- With more calls that may nest, and under looser guards, every demand is met as before. -/
theorem run_completes : ∀ {frames frames' : Nat}, frames ≤ frames' →
    CompletingCalls ρ (run frames) (run frames')
  | 0, _, _ => fun _ _ => .cutOff _ _
  | _ + 1, _ + 1, h => answer_completes (run_completes (Nat.le_of_succ_le_succ h))

end Eval

/-! ## Reading back -/

namespace Readback

open Run

section Rules

variable {call call' : Call} {read read' : Reader} (hcall : Eval.CompletingCalls ρ call call')
  (hread : ∀ depth count v, CompletesBy ρ (read depth count v) (read' depth count v))
include hcall hread

/-- To read a family back is completed. -/
theorem line_completes (m : MeterId) (depth count : Int) (a : Line) :
    CompletesBy ρ (line call read m depth count a) (line call' read' m depth count a) :=
  (Eval.lineAt_completes hcall m a _).bind fun _ => hread _ _ _

/-- To read partial elements back is completed. -/
theorem tubes_completes (m : MeterId) (depth count : Int) (fs : List Tube) :
    CompletesBy ρ (tubes call read m depth count fs) (tubes call' read' m depth count fs) := by
  induction fs with
  | nil => exact .pure _
  | cons face rest ih =>
    refine (CompletesBy.ofFault _).bind fun φ => (hcall _ _).bind fun u => ?_
    exact (hread _ _ _).bind fun t => ih.bind fun _ => .pure _

/-- To read a stuck computation back is completed. -/
theorem neutral_completes (m : MeterId) (depth count : Int) (n : Neutral) :
    CompletesBy ρ (neutral call read m depth count n) (neutral call' read' m depth count n) := by
  cases n with
  | var level => exact (CompletesBy.ofFault _).bind fun _ => .pure _
  | app f v => exact (hread _ _ _).bind fun _ => (hread _ _ _).bind fun _ => .pure _
  | pathApp p r => exact (hread _ _ _).bind fun _ => (CompletesBy.ofFault _).bind fun _ => .pure _
  | comp s t a fs v =>
    refine (line_completes hcall hread m depth count a).bind fun _ => (hread _ _ _).bind fun _ => ?_
    refine (tubes_completes hcall hread m depth count fs).bind fun _ => ?_
    exact (CompletesBy.ofFault _).bind fun _ => (CompletesBy.ofFault _).bind fun _ => .pure _
  | coe s t a v =>
    refine (line_completes hcall hread m depth count a).bind fun _ => ?_
    refine (CompletesBy.ofFault _).bind fun _ => (CompletesBy.ofFault _).bind fun _ => ?_
    exact (hread _ _ _).bind fun _ => .pure _

/-- One layer of reading back is completed if what it calls is. -/
theorem value_completes (m : MeterId) (depth count : Int) (v : Value) :
    CompletesBy ρ (value call read m depth count v) (value call' read' m depth count v) := by
  cases v with
  | univ level => exact .pure _
  | pi x a b =>
    exact (hcall _ _).bind fun _ => (hread _ _ _).bind fun _ => (hread _ _ _).bind fun _ => .pure _
  | lam x b => exact (hcall _ _).bind fun _ => (hread _ _ _).bind fun _ => .pure _
  | path a l r =>
    refine (hread _ _ _).bind fun _ => (hread _ _ _).bind fun _ => ?_
    exact (hread _ _ _).bind fun _ => .pure _
  | smoothPath k a l r =>
    refine (hread _ _ _).bind fun _ => (hread _ _ _).bind fun _ => ?_
    exact (hread _ _ _).bind fun _ => .pure _
  | pathLam x b => exact (hcall _ _).bind fun _ => (hread _ _ _).bind fun _ => .pure _
  | stuck n ty => exact neutral_completes hcall hread m depth count n

end Rules

/-- To read a value back is completed if no fewer calls may nest. -/
theorem quote_completes (m : MeterId) : ∀ {frames frames' : Nat}, frames ≤ frames' →
    ∀ depth count v, CompletesBy ρ (quote frames m depth count v) (quote frames' m depth count v)
  | 0, _, _, _, _, _ => .cutOff _ _
  | _ + 1, _ + 1, h, depth, count, v =>
    have hle := Nat.le_of_succ_le_succ h
    value_completes (Eval.run_completes hle) (quote_completes m hle) m depth count v

/-- Conversion is completed if no fewer calls may nest. -/
theorem convertible_completes (m : MeterId) {frames frames' : Nat} (h : frames ≤ frames')
    (depth count : Int) (v w : Value) :
    CompletesBy ρ (convertible frames m depth count v w)
      (convertible frames' m depth count v w) := by
  refine (quote_completes m h depth count v).bind fun _ => ?_
  exact (quote_completes m h depth count w).bind fun _ => .pure _

end Readback

end SmoothCubical
