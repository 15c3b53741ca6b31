import SmoothCubical.Proofs.Lockstep.Values

/-!
# Runs in step

Two runs go in step if from corresponding sessions both answer, with related answers, or both
fail, with corresponding failures, and leave corresponding sessions behind in either case. That is
kept by sequencing (`InStep.bind`), so two runs that are written alike go in step as soon as their
parts do. The parts that look at the session are done here, once each.
-/

set_option autoImplicit false

namespace SmoothCubical.Correspondence

variable (C : Correspondence)

/-- Outcomes that correspond. -/
inductive Outcomes {α β : Type} (R : α → β → Prop) :
    EStateM.Result Failure Session α → EStateM.Result Failure Session β → Prop
  | ok {a : α} {b : β} {s s' : Session} :
      R a b → C.Sessions s s' → Outcomes R (.ok a s) (.ok b s')
  | error {e e' : Failure} {s s' : Session} :
      C.Failures e e' → C.Sessions s s' → Outcomes R (.error e s) (.error e' s')

/-- Runs that lead from corresponding sessions to corresponding outcomes. -/
def InStep {α β : Type} (R : α → β → Prop) (x : Run α) (y : Run β) : Prop :=
  ∀ s s', C.Sessions s s' → C.Outcomes R (x s) (y s')

/-- Calls that meet corresponding demands in step. -/
def Calls (call call' : Call) : Prop :=
  ∀ m d d', C.Demands d d' → C.InStep C.Values (call m d) (call' m d')

variable {C}

namespace InStep

variable {α β γ δ : Type} {R : α → β → Prop} {S : γ → δ → Prop}

/-- Runs that answer at once with related answers go in step. -/
theorem pure {a : α} {b : β} (h : R a b) :
    C.InStep R (Pure.pure a : Run α) (Pure.pure b : Run β) :=
  fun _ _ hs => .ok h hs

/-- Runs that fail at once with corresponding failures go in step. -/
theorem throw {e e' : Failure} (h : C.Failures e e') :
    C.InStep R (MonadExcept.throw e : Run α) (MonadExcept.throw e' : Run β) :=
  fun _ _ hs => .error h hs

/-- Runs in step that go on in step go in step as a whole. -/
theorem bind {x : Run α} {y : Run β} {f : α → Run γ} {g : β → Run δ} (hxy : C.InStep R x y)
    (hfg : ∀ a b, R a b → C.InStep S (f a) (g b)) : C.InStep S (x >>= f) (y >>= g) := by
  intro s s' hs
  have hout := hxy s s' hs
  change C.Outcomes S (EStateM.bind x f s) (EStateM.bind y g s')
  unfold EStateM.bind
  cases hx : x s <;> cases hy : y s' <;> rw [hx, hy] at hout <;> cases hout
  case ok.ok.ok hab hs => exact hfg _ _ hab _ _ hs
  case error.error.error he hs => exact .error he hs

/-- After two runs in step of which the answers do not matter, both go on. -/
theorem seq {x y : Run Unit} {f : Run γ} {g : Run δ} (hxy : C.InStep (fun _ _ => True) x y)
    (hfg : C.InStep S f g) :
    C.InStep S (x >>= fun _ => f) (y >>= fun _ => g) :=
  hxy.bind fun _ _ _ => hfg

/-- Runs in step are so for every wider relation on their answers. -/
theorem mono {R' : α → β → Prop} {x : Run α} {y : Run β} (h : C.InStep R x y)
    (hR : ∀ a b, R a b → R' a b) : C.InStep R' x y := by
  intro s s' hs
  cases hx : x s <;> cases hy : y s' <;> have hout := h s s' hs <;> rw [hx, hy] at hout <;>
    cases hout
  case ok.ok.ok hab hs => exact .ok (hR _ _ hab) hs
  case error.error.error he hs => exact .error he hs

end InStep

/-! ## The parts that look at the session -/

/-- Runs that hand on corresponding answers of the syntax go in step. -/
theorem ofFault_inStep {α β : Type} {R : α → β → Prop} {x : Except Fault α} {y : Except Fault β}
    (h : C.Answers R x y) : C.InStep R (Run.ofFault x) (Run.ofFault y) := by
  cases h with
  | ok r => exact .pure r
  | error hf => exact .throw (.fault hf)

/-- Corresponding sessions are seen as corresponding. -/
theorem get_inStep : C.InStep C.Sessions (get : Run Session) (get : Run Session) :=
  fun _ _ hs => .ok hs hs

/-- Changes that take corresponding sessions to corresponding ones go in step. -/
theorem modify_inStep {f g : Session → Session}
    (h : ∀ s s', C.Sessions s s' → C.Sessions (f s) (g s')) :
    C.InStep (fun _ _ => True) (modify f : Run Unit) (modify g : Run Unit) :=
  fun _ _ hs => .ok trivial (h _ _ hs)

/-- What is logged does not matter to runs in step. -/
theorem record_inStep (e e' : Event) :
    C.InStep (fun _ _ => True) (Run.record e) (Run.record e') :=
  modify_inStep fun _ _ hs => ⟨hs.meters, hs.sharing, hs.size, hs.later, hs.cells⟩

/-- A step is charged in step, since the meters agree. -/
theorem charge_inStep (m : MeterId) :
    C.InStep (fun _ _ => True) (Run.charge m) (Run.charge m) := by
  unfold Run.charge
  refine (modify_inStep fun _ _ hs => hs.modifyMeter m _).seq ?_
  refine get_inStep.bind fun s s' hs => ?_
  simp only [hs.meter m]
  split
  · exact .throw .nonTermination
  · exact .pure trivial

/-- Nesting is checked in step, whichever terms are evaluated. -/
theorem checkDepth_inStep (m : MeterId) (t t' : Term) :
    C.InStep (fun _ _ => True) (Run.checkDepth m t) (Run.checkDepth m t') := by
  unfold Run.checkDepth
  refine get_inStep.bind fun s s' hs => ?_
  simp only [hs.meter m]
  split
  · exact (record_inStep _ _).seq (.throw .nonTermination)
  · exact .pure trivial

/-- Runs in step draw the same probe. -/
theorem probe_inStep (m : MeterId) : C.InStep (· = ·) (Run.probe m) (Run.probe m) := by
  unfold Run.probe
  refine get_inStep.bind fun s s' hs => ?_
  refine (modify_inStep fun _ _ hs => hs.modifyMeter m _).seq (.pure ?_)
  rw [hs.meter m]

/-- One level deeper, two runs stay in step, and both come back up. -/
theorem nest_inStep {α β : Type} {R : α → β → Prop} (m : MeterId) {x : Run α} {y : Run β}
    (h : C.InStep R x y) : C.InStep R (Run.nest m x) (Run.nest m y) := by
  intro s s' hs
  have hout := h _ _ (hs.modifyMeter m fun a => { a with depth := a.depth + 1 })
  unfold Run.nest
  generalize x _ = p at hout
  generalize y _ = q at hout
  cases hout with
  | ok hab hs => exact .ok hab (hs.modifyMeter m _)
  | error he hs => exact .error he (hs.modifyMeter m _)

/-- Matching arguments are put off under the same number. -/
theorem suspend_inStep {V D : Int → Int → Prop} (m : MeterId) (nests : Bool) {t t' : Term}
    {env env' : Env} {dims dims' : IntervalEnv} (henv : C.Environments V env env')
    (hdims : C.Dims D dims dims') (ht : Term.Matches C V D t t') :
    C.InStep C.Entries (Run.suspend ⟨m, nests, t, env, dims⟩)
      (Run.suspend ⟨m, nests, t', env', dims'⟩) := by
  unfold Run.suspend
  refine get_inStep.bind fun s s' hs => ?_
  refine (modify_inStep fun _ _ hs => hs.pushCell (.pending henv hdims ht)).seq (.pure ?_)
  rw [← hs.size]
  exact .thunk (hs.later _ (Nat.le_refl _))

/-- Arguments that were put off are settled in step, by corresponding values. -/
theorem settle_inStep (id : Nat) {v v' : Value} (hv : C.Values v v') :
    C.InStep (fun _ _ => True) (Run.settle id v) (Run.settle id v') := by
  refine modify_inStep fun s s' hs => ?_
  have hkept := hs.setValue id hv
  cases hk : s'.sharing with
  | byNeed => simpa only [hs.sharing, hk] using hkept
  | byName => simpa only [hs.sharing, hk] using hs

end SmoothCubical.Correspondence
