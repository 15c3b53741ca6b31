import SmoothCubical.Readback

/-!
# What runs keep

A law of runs that sequencing keeps and that every single step obeys is obeyed by every run
(`run_obeys`) and by reading back (`law_quote`): the rules are gone through once, for any such law.
One kind of law is that a run respects a relation between sessions, whether it answers or fails
(`run_keeps`). `Session.Lawful` lists the steps for these: charging, nesting, drawing a probe,
recording, putting an argument off and keeping its value.

The first such relation is that sessions grow. A run opens meters and draws probes, but it never
closes a meter and never takes a probe back. So a probe that is drawn later is none of those that
were drawn before, and an interval variable that was apart from all probes to come stays so.
-/

set_option autoImplicit false

namespace SmoothCubical

/-- The session that a run leaves behind. -/
def Run.after {α : Type} (x : Run α) (s : Session) : Session :=
  match x s with
  | .ok _ s' => s'
  | .error _ s' => s'

/-- However the run ends, the session that it leaves is so related to the one it found. -/
def Run.Keeps {α : Type} (R : Session → Session → Prop) (x : Run α) : Prop :=
  ∀ s, R s (x.after s)

/-- A relation between sessions along which runs can be chained. -/
class Session.Chain (R : Session → Session → Prop) : Prop where
  refl : ∀ s, R s s
  trans : ∀ {s s' s''}, R s s' → R s' s'' → R s s''

/-- A relation between sessions that every step of evaluation respects. The value of an argument is
kept after a call has computed it, and the call is known to respect the relation. -/
structure Session.Lawful (R : Session → Session → Prop) (call : Call) : Prop where
  record : ∀ (e : Event) s, R s { s with events := e :: s.events }
  charge : ∀ m s, R s (s.modifyMeter m fun a => { a with steps := a.steps + 1 })
  probe : ∀ m s, R s (s.modifyMeter m fun a => { a with probes := a.probes + 1 })
  nest : ∀ {m s s'}, R (s.modifyMeter m fun a => { a with depth := a.depth + 1 }) s' →
    R s (s'.modifyMeter m fun a => { a with depth := a.depth - 1 })
  suspend : ∀ (x : Suspension) s, R s { s with cells := s.cells.push { suspension := x } }
  settle : ∀ {id : Nat} {x : Suspension} {s s' : Session} {v : Value},
    s.cells[id]? = some ⟨x, none⟩ → call x.meter x.demand s = .ok v s' → R s s' →
      R s ((Run.settle id v).after s')

namespace Run

variable {α β : Type}

/-- A sequence answers if and only if both parts do, the second from the session that the first
left. -/
theorem bind_eq_ok {x : Run α} {f : α → Run β} {b : β} {s s' : Session} :
    (x >>= f) s = .ok b s' ↔ ∃ a t, x s = .ok a t ∧ f a t = .ok b s' := by
  change EStateM.bind x f s = .ok b s' ↔ _
  unfold EStateM.bind
  cases hx : x s with
  | ok a t =>
    constructor
    · intro h
      exact ⟨a, t, rfl, h⟩
    · rintro ⟨a', t', heq, h⟩
      cases heq
      exact h
  | error e t =>
    constructor
    · nofun
    · rintro ⟨_, _, heq, _⟩
      cases heq

/-- The session left behind by a run that answers is the one it answered in. -/
theorem after_ok {x : Run α} {a : α} {s s' : Session} (h : x s = .ok a s') : x.after s = s' := by
  rw [after, h]

/-- The session left behind by a run that fails is the one it failed in. -/
theorem after_error {x : Run α} {e : Failure} {s s' : Session} (h : x s = .error e s') :
    x.after s = s' := by
  rw [after, h]

/-- A sequence whose first part answers goes on with that answer. -/
theorem bind_ok {x : Run α} {f : α → Run β} {a : α} {s s' : Session} (h : x s = .ok a s') :
    (x >>= f) s = f a s' := by
  change EStateM.bind x f s = f a s'
  rw [EStateM.bind, h]

/-- A sequence whose first part fails has failed. -/
theorem bind_error {x : Run α} {f : α → Run β} {e : Failure} {s s' : Session}
    (h : x s = .error e s') : (x >>= f) s = .error e s' := by
  change EStateM.bind x f s = .error e s'
  rw [EStateM.bind, h]

/-- A sequence whose first part answers leaves what the second part does. -/
theorem after_bind_ok {x : Run α} {f : α → Run β} {a : α} {s s' : Session}
    (h : x s = .ok a s') : (x >>= f).after s = (f a).after s' := by
  rw [after, after, bind_ok h]

/-- A sequence whose first part fails leaves what the first part did. -/
theorem after_bind_error {x : Run α} {f : α → Run β} {e : Failure} {s s' : Session}
    (h : x s = .error e s') : (x >>= f).after s = s' :=
  after_error (bind_error h)

section Keeps

variable {R : Session → Session → Prop} [Session.Chain R]

/-- To answer at once respects every chain of sessions. -/
theorem keeps_pure (a : α) : Keeps R (pure a : Run α) :=
  Session.Chain.refl

/-- To fail at once respects every chain of sessions. -/
theorem keeps_throw (e : Failure) : Keeps R (throw e : Run α) :=
  Session.Chain.refl

/-- Runs that respect a chain do so one after the other. -/
theorem Keeps.bind {x : Run α} {f : α → Run β} (hx : Keeps R x) (hf : ∀ a, Keeps R (f a)) :
    Keeps R (x >>= f) := by
  intro s
  have hxs := hx s
  cases h : x s with
  | ok a t =>
    rw [after_bind_ok h]
    rw [after_ok h] at hxs
    exact Session.Chain.trans hxs (hf a t)
  | error e t =>
    rw [after_bind_error h]
    rwa [after_error h] at hxs

/-- To look at the session respects every chain. -/
theorem keeps_get : Keeps R (get : Run Session) :=
  Session.Chain.refl

omit [Session.Chain R] in
/-- A change that respects a chain at every session does so as a run. -/
theorem keeps_modify {f : Session → Session} (hf : ∀ s, R s (f s)) :
    Keeps R (modify f : Run Unit) :=
  hf

end Keeps

end Run

/-- Whether the failure is that the steps are spent. -/
def Failure.isSpent : Failure → Bool
  | .nonTermination (.fuel _) => true
  | _ => false

namespace Eval

open Run

/-- A law of runs that sequencing keeps, that the single steps of evaluation obey, and that is
obeyed wherever a demand is met. That the steps are spent is found by charging only. -/
structure Law (call : Call) (Φ : {α : Type} → Run α → Prop) : Prop where
  pure {α : Type} (a : α) : Φ (pure a : Run α)
  throw {α : Type} {e : Failure} : e.isSpent = false → Φ (throw e : Run α)
  bind {α β : Type} {x : Run α} {f : α → Run β} : Φ x → (∀ a, Φ (f a)) → Φ (x >>= f)
  record (e : Event) : Φ (record e)
  charge (m : MeterId) : Φ (charge m)
  checkDepth (m : MeterId) (t : Term) : Φ (checkDepth m t)
  nest {α : Type} {x : Run α} (m : MeterId) : Φ x → Φ (nest m x)
  probe (m : MeterId) : Φ (probe m)
  suspend (x : Suspension) : Φ (suspend x)
  force (e : Entry) : Φ (force call e)
  call (m : MeterId) (d : Demand) : Φ (call m d)

section Rules

variable {Φ : {α : Type} → Run α → Prop} {call : Call} (h : Law call Φ)
include h

/-- A fault of the syntax that is handed on obeys the law. -/
theorem law_ofFault {α : Type} (x : Except Fault α) : Φ (ofFault x) := by
  cases x with
  | ok a => exact h.pure a
  | error f => exact h.throw rfl

/-- To look a family up at a point obeys the law. -/
theorem law_lineAt (m : MeterId) (a : Line) (r : Interval) : Φ (lineAt call m a r) := by
  cases a with
  | constant ty => exact h.pure ty
  | varying c flag => exact h.call _ _

/-- Application obeys the law. -/
theorem law_apply (m : MeterId) (f v : Value) : Φ (apply call m f v) := by
  unfold apply
  split
  · exact h.call _ _
  · exact h.bind (h.call _ _) fun _ => h.pure _
  · exact h.pure _
  · exact h.throw rfl

/-- To take a path at a point obeys the law. -/
theorem law_pathApply (m : MeterId) (p : Value) (r : Interval) : Φ (pathApply call m p r) := by
  unfold pathApply
  split
  · exact h.call _ _
  · exact h.pure _
  · exact h.pure _
  · exact h.pure _
  · exact h.throw rfl

/-- To look up a function type in a family obeys the law. -/
theorem law_piAt (m : MeterId) (a : Line) (r : Interval) : Φ (piAt call m a r) := by
  refine h.bind (law_lineAt h m a r) fun ty => ?_
  split
  · exact h.pure _
  · exact h.throw rfl

/-- To look up a path type in a family obeys the law. -/
theorem law_pathTypeAt (m : MeterId) (a : Line) (r : Interval) : Φ (pathTypeAt call m a r) := by
  refine h.bind (law_lineAt h m a r) fun ty => ?_
  split
  · exact h.pure _
  · exact h.pure _
  · exact h.throw rfl

/-- To find a moved argument at a point obeys the law. -/
theorem law_carriedAt (m : MeterId) (y : Carried) (r : Interval) : Φ (carriedAt call m y r) := by
  cases y
  exact h.call _ _

/-- Composition obeys the law, whatever the family turns out to be. -/
theorem law_comp (m : MeterId) (s t : Interval) (a : Line) (fs : List Tube) (v : Value) :
    Φ (comp call m s t a fs v) := by
  unfold comp
  split
  · exact h.call _ _
  · split
    · exact h.pure v
    · refine h.bind (h.probe m) fun r => h.bind (law_lineAt h m a r) fun ty => ?_
      split
      · exact h.pure _
      · exact h.pure _
      · exact h.pure _
      · refine h.bind (h.record _) fun _ => ?_
        exact h.bind (law_lineAt h m a t) fun _ => h.pure _

/-- Coercion obeys the law, whatever the family turns out to be. -/
theorem law_coe (m : MeterId) (s t : Interval) (a : Line) (v : Value) :
    Φ (coe call m s t a v) := by
  unfold coe
  split
  · exact h.pure v
  · split
    · exact h.pure v
    · refine h.bind (h.probe m) fun r => h.bind (law_lineAt h m a r) fun ty => ?_
      split
      · exact h.pure v
      · exact h.pure _
      · exact h.pure _
      · exact h.pure _
      · refine h.bind (h.record _) fun _ => ?_
        exact h.bind (law_lineAt h m a t) fun _ => h.pure _

/-- To apply a composite of functions obeys the law. -/
theorem law_compFunctionAt (m : MeterId) (s t : Interval) (a : Line) (fs : List Tube)
    (v y : Value) : Φ (compFunctionAt call m s t a fs v y) := by
  refine h.bind (law_carriedAt h m _ s) fun x => ?_
  exact h.bind (law_apply h m v x) fun _ => h.call _ _

/-- To apply a function that was moved obeys the law. -/
theorem law_coeFunctionAt (m : MeterId) (s t : Interval) (a : Line) (v y : Value) :
    Φ (coeFunctionAt call m s t a v y) := by
  refine h.bind (law_carriedAt h m _ s) fun x => ?_
  exact h.bind (law_apply h m v x) fun _ => h.call _ _

/-- To instantiate an abstraction obeys the law. -/
theorem law_instantiate (m : MeterId) (c : Closure) (e : Entry) : Φ (instantiate call m c e) := by
  cases c with
  | body env dims t => exact h.call _ _
  | comp m s t a fs v => exact h.bind (h.force e) fun y => law_compFunctionAt h m s t a fs v y
  | coe m s t a v => exact h.bind (h.force e) fun y => law_coeFunctionAt h m s t a v y

/-- To instantiate an interval abstraction obeys the law. -/
theorem law_instantiateAt (m : MeterId) (c : IntervalClosure) (r : Interval) :
    Φ (instantiateAt call m c r) := by
  cases c with
  | body env dims t => exact h.call _ _
  | choice u v w => cases r <;> exact h.pure _
  | domain m a => exact h.bind (law_piAt h m a r) fun _ => h.pure _
  | codomain m a y =>
    refine h.bind (law_piAt h m a r) fun p => ?_
    exact h.bind (law_carriedAt h m y r) fun _ => h.call _ _
  | element m a => exact h.bind (law_pathTypeAt h m a r) fun _ => h.pure _
  | left m a => exact h.bind (law_pathTypeAt h m a r) fun _ => h.pure _
  | right m a => exact h.bind (law_pathTypeAt h m a r) fun _ => h.pure _
  | app m u y =>
    refine h.bind (h.call _ _) fun f => h.bind (law_carriedAt h m y r) fun x => ?_
    exact law_apply h m f x
  | pathApp m u k => exact h.bind (h.call _ _) fun p => law_pathApply h m p k
  | comp m s t a fs v => exact h.bind (law_pathApply h m v r) fun _ => h.call _ _

/-- To close a family over an environment obeys the law. -/
theorem law_closeFamily (a : Term) (env : Env) (dims : IntervalEnv) :
    Φ (closeFamily a env dims) :=
  h.bind (law_ofFault h _) fun _ => h.pure _

/-- To close partial elements over an environment obeys the law. -/
theorem law_closeTubes (env : Env) (dims : IntervalEnv) (fs : List (Face × Term)) :
    Φ (closeTubes env dims fs) := by
  induction fs with
  | nil => exact h.pure _
  | cons face rest ih =>
    refine h.bind ?_ fun tube => h.bind ih fun _ => h.pure _
    exact h.bind (law_ofFault h _) fun _ => h.pure _

/-- To look a variable up obeys the law. -/
theorem law_lookup (env : Env) (i : Int) : Φ (lookup call env i) :=
  h.bind (law_ofFault h _) h.force

/-- One step of evaluation obeys the law, at every term. -/
theorem law_step (m : MeterId) (t : Term) (env : Env) (dims : IntervalEnv) :
    Φ (step call m t env dims) := by
  cases t with
  | univ level => exact h.pure _
  | var i => exact law_lookup h env i
  | pi x a b => exact h.bind (h.call _ _) fun _ => h.pure _
  | lam x b => exact h.pure _
  | app f a =>
    refine h.bind (h.call _ _) fun v => ?_
    split
    · exact h.bind (h.suspend _) fun _ => h.call _ _
    · exact h.bind (h.call _ _) fun w => law_apply h m _ w
  | path a l r =>
    exact h.bind (h.call _ _) fun _ => h.bind (h.call _ _) fun _ => h.bind (h.call _ _) fun _ =>
      h.pure _
  | pathLam x b => exact h.pure _
  | pathApp p d =>
    refine h.bind (h.call _ _) fun v => h.bind (law_ofFault h _) fun r => ?_
    exact law_pathApply h m v r
  | smoothPath k a l r =>
    exact h.bind (h.call _ _) fun _ => h.bind (h.call _ _) fun _ => h.bind (h.call _ _) fun _ =>
      h.pure _
  | comp s t a fs b =>
    refine h.bind (law_closeFamily h a env dims) fun _ => h.bind (h.call _ _) fun _ => ?_
    refine h.bind (law_closeTubes h env dims fs) fun _ => h.bind (law_ofFault h _) fun _ => ?_
    exact h.bind (law_ofFault h _) fun _ => h.call _ _
  | coe s t a b =>
    refine h.bind (law_closeFamily h a env dims) fun _ => h.bind (law_ofFault h _) fun _ => ?_
    exact h.bind (law_ofFault h _) fun _ => h.bind (h.call _ _) fun _ => h.call _ _
  | hcomp a fs b =>
    refine h.bind (h.call _ _) fun _ => h.bind (h.call _ _) fun _ => ?_
    exact h.bind (law_closeTubes h env dims fs) fun _ => h.call _ _
  | missing => exact h.throw rfl

/-- To meet a demand obeys the law. -/
theorem law_answer (m : MeterId) (d : Demand) : Φ (answer call m d) := by
  cases d with
  | evaluate nests t env dims =>
    have charged := h.bind (h.charge m) fun _ => law_step h m t env dims
    cases nests with
    | true => exact h.nest m (h.bind (h.checkDepth m t) fun _ => charged)
    | false => exact charged
  | instantiate c e => exact law_instantiate h m c e
  | instantiateAt c r => exact law_instantiateAt h m c r
  | comp s t a fs v => exact law_comp h m s t a fs v
  | coe s t a v => exact law_coe h m s t a v

end Rules

/-- A law that the single steps obey, wherever calls obey it, is obeyed by all of evaluation. -/
theorem run_obeys {Φ : {α : Type} → Run α → Prop}
    (hzero : ∀ m d, Φ (run 0 m d))
    (hΦ : ∀ frames, (∀ m d, Φ (run frames m d)) → Law (run frames) Φ) :
    ∀ frames, Law (run frames) Φ
  | 0 => hΦ 0 hzero
  | frames + 1 => hΦ (frames + 1) (law_answer (run_obeys hzero hΦ frames))

end Eval

/-! ## Reading back -/

namespace Readback

section Rules

variable {Φ : {α : Type} → Run α → Prop} {call : Call} (h : Eval.Law call Φ) {read : Reader}
  (hread : ∀ d e v, Φ (read d e v))
include h hread

/-- To read a family back obeys the law. -/
theorem law_line (m : MeterId) (d e : Int) (a : Line) : Φ (line call read m d e a) :=
  h.bind (Eval.law_lineAt h m a _) fun _ => hread _ _ _

/-- To read partial elements back obeys the law. -/
theorem law_tubes (m : MeterId) (d e : Int) (fs : List Tube) : Φ (tubes call read m d e fs) := by
  induction fs with
  | nil => exact h.pure _
  | cons tube rest ih =>
    refine h.bind (Eval.law_ofFault h _) fun _ => h.bind (h.call _ _) fun _ => ?_
    exact h.bind (hread _ _ _) fun _ => h.bind ih fun _ => h.pure _

/-- To read a stuck computation back obeys the law. -/
theorem law_neutral (m : MeterId) (d e : Int) (n : Neutral) : Φ (neutral call read m d e n) := by
  cases n with
  | var level => exact h.bind (Eval.law_ofFault h _) fun _ => h.pure _
  | app f v => exact h.bind (hread _ _ _) fun _ => h.bind (hread _ _ _) fun _ => h.pure _
  | pathApp p r =>
    exact h.bind (hread _ _ _) fun _ => h.bind (Eval.law_ofFault h _) fun _ => h.pure _
  | comp s t a fs v =>
    refine h.bind (law_line h hread m d e a) fun _ => h.bind (hread _ _ _) fun _ => ?_
    refine h.bind (law_tubes h hread m d e fs) fun _ => h.bind (Eval.law_ofFault h _) fun _ => ?_
    exact h.bind (Eval.law_ofFault h _) fun _ => h.pure _
  | coe s t a v =>
    refine h.bind (law_line h hread m d e a) fun _ => h.bind (Eval.law_ofFault h _) fun _ => ?_
    exact h.bind (Eval.law_ofFault h _) fun _ => h.bind (hread _ _ _) fun _ => h.pure _

/-- One layer of reading back obeys the law. -/
theorem law_value (m : MeterId) (d e : Int) (v : Value) : Φ (value call read m d e v) := by
  have three (a l r : Value) (f : Term → Term → Term → Term) :
      Φ (do return f (← read d e a) (← read d e l) (← read d e r)) :=
    h.bind (hread _ _ _) fun _ => h.bind (hread _ _ _) fun _ => h.bind (hread _ _ _) fun _ =>
      h.pure _
  cases v with
  | univ level => exact h.pure _
  | pi x a c =>
    exact h.bind (h.call _ _) fun _ => h.bind (hread _ _ _) fun _ => h.bind (hread _ _ _) fun _ =>
      h.pure _
  | lam x c => exact h.bind (h.call _ _) fun _ => h.bind (hread _ _ _) fun _ => h.pure _
  | path a l r => exact three a l r .path
  | smoothPath k a l r => exact three a l r (.smoothPath k)
  | pathLam x c => exact h.bind (h.call _ _) fun _ => h.bind (hread _ _ _) fun _ => h.pure _
  | stuck n ty => exact law_neutral h hread m d e n

end Rules

section Reading

variable {Φ : {α : Type} → Run α → Prop} (h : ∀ frames, Eval.Law (Eval.run frames) Φ)
include h

/-- A law that all of evaluation obeys is obeyed by reading back. -/
theorem law_quote (frames : Nat) (m : MeterId) (d e : Int) (v : Value) :
    Φ (quote frames m d e v) := by
  induction frames generalizing d e v with
  | zero => exact (h 0).throw rfl
  | succ frames ih => exact law_value (h frames) ih m d e v

/-- Conversion obeys the law, since it reads back twice. -/
theorem law_convertible (frames : Nat) (m : MeterId) (d e : Int) (v w : Value) :
    Φ (convertible frames m d e v w) :=
  (h frames).bind (law_quote h frames m d e v) fun _ =>
    (h frames).bind (law_quote h frames m d e w) fun _ => (h frames).pure _

end Reading

end Readback

/-! ## Relations between sessions -/

namespace Eval

open Run

/-- Every demand is met by a run that respects the relation. -/
def KeepingCall (R : Session → Session → Prop) (call : Call) : Prop := ∀ m d, Keeps R (call m d)

section Keeping

variable {R : Session → Session → Prop} [Session.Chain R] {call : Call}
  (hR : Session.Lawful R call)
include hR

/-- To charge a step respects a lawful relation. -/
theorem keeps_charge (m : MeterId) : Keeps R (charge m) := by
  unfold charge
  refine (keeps_modify (hR.charge m)).bind fun _ => keeps_get.bind fun s => ?_
  dsimp only
  split
  · exact keeps_throw _
  · exact keeps_pure _

/-- To check the nesting respects a lawful relation, since at most an event is recorded. -/
theorem keeps_checkDepth (m : MeterId) (t : Term) : Keeps R (checkDepth m t) := by
  unfold checkDepth
  refine keeps_get.bind fun s => ?_
  dsimp only
  split
  · exact (keeps_modify (hR.record _)).bind fun _ => keeps_throw _
  · exact keeps_pure _

omit [Session.Chain R] in
/-- A nested run respects a lawful relation if the run does. -/
theorem keeps_nest {α : Type} {x : Run α} (hx : Keeps R x) (m : MeterId) :
    Keeps R (nest m x) := by
  intro s
  have hin := hx (s.modifyMeter m fun a => { a with depth := a.depth + 1 })
  unfold after at hin ⊢
  unfold nest
  cases h : x (s.modifyMeter m fun a => { a with depth := a.depth + 1 }) <;> rw [h] at hin <;>
    exact hR.nest hin

/-- To draw a probe respects a lawful relation. -/
theorem keeps_probe (m : MeterId) : Keeps R (probe m) :=
  keeps_get.bind fun _ => (keeps_modify (hR.probe m)).bind fun _ => keeps_pure _

/-- To put an argument off respects a lawful relation. -/
theorem keeps_suspend (x : Suspension) : Keeps R (suspend x) :=
  keeps_get.bind fun _ => (keeps_modify (hR.suspend x)).bind fun _ => keeps_pure _

variable (hcall : KeepingCall R call)
include hcall

/-- To force an entry respects a lawful relation, whether or not the value is kept. -/
theorem keeps_force (e : Entry) : Keeps R (force call e) := by
  cases e with
  | value v => exact keeps_pure v
  | thunk id =>
    intro s
    unfold force
    rw [after_bind_ok (show (get : Run Session) s = .ok s s from rfl)]
    cases hc : s.cells[id]? with
    | none => exact Session.Chain.refl s
    | some c =>
      obtain ⟨x, _ | v⟩ := c
      · have hx := hcall x.meter x.demand s
        dsimp only
        cases h : call x.meter x.demand s with
        | ok v s' =>
          rw [after_ok h] at hx
          rw [after_bind_ok h]
          exact hR.settle hc h hx
        | error e s' =>
          rw [after_error h] at hx
          rwa [after_bind_error h]
      · exact Session.Chain.refl s

/-- To respect a relation between sessions is a law of runs. -/
theorem keeps_law : Law call (Keeps R) where
  pure := keeps_pure
  throw _ := keeps_throw _
  bind := Keeps.bind
  record e := keeps_modify (hR.record e)
  charge := keeps_charge hR
  checkDepth := keeps_checkDepth hR
  nest m hx := keeps_nest hR hx m
  probe := keeps_probe hR
  suspend := keeps_suspend hR
  force := keeps_force hR hcall
  call := hcall

end Keeping

/-- Whatever evaluation does, it respects the relation. -/
theorem run_keeps {R : Session → Session → Prop} [Session.Chain R]
    (hR : ∀ frames, Session.Lawful R (run frames)) (frames : Nat) : KeepingCall R (run frames) :=
  (run_obeys (Φ := Keeps R) (fun _ _ => keeps_throw _) (fun f => keeps_law (hR f)) frames).call

end Eval

/-! ## Sessions grow -/

/-- The meters of the first session are open in the second, and none has drawn fewer probes. -/
structure Session.Grows (s s' : Session) : Prop where
  size : s.meters.size ≤ s'.meters.size
  probes : ∀ m < s.meters.size, (s.meter m).probes ≤ (s'.meter m).probes

namespace Session

/-- A session has grown from itself. -/
theorem Grows.refl (s : Session) : s.Grows s :=
  ⟨Nat.le_refl _, fun _ _ => Nat.le_refl _⟩

/-- A session that has grown twice has grown. -/
theorem Grows.trans {s s' s'' : Session} (h : s.Grows s') (h' : s'.Grows s'') : s.Grows s'' where
  size := Nat.le_trans h.size h'.size
  probes m hm := Nat.le_trans (h.probes m hm) (h'.probes m (Nat.lt_of_lt_of_le hm h.size))

instance : Chain Grows where
  refl := Grows.refl
  trans := Grows.trans

/-- A meter that was opened stays open. -/
theorem Grows.opened {s s' : Session} (h : s.Grows s') {m : MeterId} (hm : m < s.meters.size) :
    m < s'.meters.size :=
  Nat.lt_of_lt_of_le hm h.size

/-- To change a meter changes that meter only. -/
theorem meter_modifyMeter (s : Session) {m k : MeterId} (f : Meter → Meter)
    (hk : k < s.meters.size) :
    (s.modifyMeter m f).meter k = if m = k then f (s.meter k) else s.meter k := by
  simp only [meter, modifyMeter, Array.getElem?_modify, hk, getElem?_pos]
  split <;> rfl

/-- To change an account is to grow, if no probes are taken back. -/
theorem Grows.modifyMeter (s : Session) (m : MeterId) {f : Meter → Meter}
    (hf : ∀ a, a.probes ≤ (f a).probes) : s.Grows (s.modifyMeter m f) where
  size := by simp [Session.modifyMeter]
  probes k hk := by
    rw [meter_modifyMeter s f hk]
    split
    · exact hf _
    · exact Nat.le_refl _

/-- To keep the value of an argument changes no account. -/
theorem meters_settle (id : Nat) (v : Value) (s : Session) :
    ((Run.settle id v).after s).meters = s.meters := by
  obtain ⟨meters, cells, events, sharing⟩ := s
  cases sharing <;> rfl

/-- Growth is respected by every step of evaluation. -/
theorem Grows.lawful (call : Call) : Lawful Grows call where
  record _ _ := ⟨Nat.le_refl _, fun _ _ => Nat.le_refl _⟩
  charge m s := .modifyMeter s m fun _ => Nat.le_refl _
  probe m s := .modifyMeter s m fun a => Nat.le_succ a.probes
  nest {m s s'} h := by
    have deeper : s.Grows (s.modifyMeter m fun a => { a with depth := a.depth + 1 }) :=
      .modifyMeter s m fun _ => Nat.le_refl _
    exact (deeper.trans h).trans (.modifyMeter s' m fun _ => Nat.le_refl _)
  suspend _ _ := ⟨Nat.le_refl _, fun _ _ => Nat.le_refl _⟩
  settle {id _ s s' v} _ _ h := by
    have hmeters := meters_settle id v s'
    refine ⟨?_, fun k hk => ?_⟩
    · rw [hmeters]
      exact h.size
    · rw [Session.meter, Session.meter, hmeters]
      exact h.probes k hk

end Session

/-- Growth is a law of evaluation, given that calls respect it. -/
theorem Eval.grows_law {call : Call} (hcall : KeepingCall Session.Grows call) :
    Law call (Run.Keeps Session.Grows) :=
  keeps_law (Session.Grows.lawful call) hcall

/-- Whatever evaluation does, it lets the session grow. -/
theorem Eval.run_grows (frames : Nat) : KeepingCall Session.Grows (run frames) :=
  run_keeps (fun frames => Session.Grows.lawful (run frames)) frames

end SmoothCubical
