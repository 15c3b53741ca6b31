import SmoothCubical.Proofs.Evaluator.Operations

/-!
# The accounts of an evaluator

An evaluator counts the steps it takes and the evaluations it nests. Failures may cross any number
of nested evaluations, of arguments looked at and of values read back, and still the accounts are
right after each operation (`accounts_kept`): the nesting is what it was, no step is taken back, and
an operation that was begun within the fuel ends within it, unless it fails for want of fuel; then
it has taken one step too many and no more. An evaluator that has taken too many steps evaluates
nothing any more.

That steps are counted rightly is a law of runs. A run that starts where no meter is overdrawn
leaves such a session, or fails for want of fuel and leaves one meter overdrawn by a single step.
Only `Run.charge` counts steps, so it is the only rule that has to be looked at.
-/

set_option autoImplicit false

namespace SmoothCubical

/-! ## Sessions within their fuel -/

namespace Session

/-- There are so many meters, and none has counted more steps than it has fuel. -/
structure Solvent (count : Nat) (s : Session) : Prop where
  size : s.meters.size = count
  within : ∀ k < count, (s.meter k).steps ≤ (s.meter k).settings.fuel

/-- There are so many meters, and one with so much fuel has counted one step more. -/
structure Overdrawn (count fuel : Nat) (s : Session) : Prop where
  size : s.meters.size = count
  spent : ∃ k < count, (s.meter k).settings.fuel = fuel ∧ (s.meter k).steps = fuel + 1

/-- The second session has the same meters, with the same fuel and as many steps. -/
structure SpendsAs (s s' : Session) : Prop where
  size : s'.meters.size = s.meters.size
  settings : ∀ k, (s'.meter k).settings = (s.meter k).settings
  steps : ∀ k, (s'.meter k).steps = (s.meter k).steps

variable {count fuel : Nat} {s s' : Session}

/-- A session within its fuel stays so if nothing is spent. -/
theorem Solvent.of_spendsAs (h : s.Solvent count) (hs : s.SpendsAs s') : s'.Solvent count where
  size := hs.size.trans h.size
  within k hk := by
    rw [hs.settings, hs.steps]
    exact h.within k hk

/-- A session beyond its fuel stays so if nothing is spent. -/
theorem Overdrawn.of_spendsAs (h : s.Overdrawn count fuel) (hs : s.SpendsAs s') :
    s'.Overdrawn count fuel := by
  obtain ⟨k, hk, hfuel, hsteps⟩ := h.spent
  exact ⟨hs.size.trans h.size, k, hk, by rw [hs.settings, hfuel], by rw [hs.steps, hsteps]⟩

/-- Sessions with the same meters have spent the same. -/
theorem spendsAs_of_meters (h : s'.meters = s.meters) : s.SpendsAs s' := by
  have hmeter (k : MeterId) : s'.meter k = s.meter k := by rw [meter, meter, h]
  exact ⟨by rw [h], fun k => by rw [hmeter], fun k => by rw [hmeter]⟩

/-- A change to a meter that counts no step spends nothing. -/
theorem spendsAs_modifyMeter (s : Session) (m : MeterId) {f : Meter → Meter}
    (hsettings : ∀ a, (f a).settings = a.settings) (hsteps : ∀ a, (f a).steps = a.steps) :
    s.SpendsAs (s.modifyMeter m f) where
  size := size_modifyMeter s m f
  settings k := by
    rcases meter_modifyMeter_of s m k f with h | h <;> rw [h]
    exact hsettings _
  steps k := by
    rcases meter_modifyMeter_of s m k f with h | h <;> rw [h]
    exact hsteps _

/-- A session within its fuel stays so after a step for which there is fuel. -/
theorem Solvent.charged (h : s.Solvent count) {m : MeterId}
    (hfuel : m < count → (s.meter m).steps + 1 ≤ (s.meter m).settings.fuel) :
    (Likeness.charged m s).Solvent count where
  size := (size_modifyMeter s m _).trans h.size
  within k hk := by
    rw [Likeness.charged, meter_modifyMeter s _ (h.size ▸ hk)]
    split
    · rename_i hmk
      subst hmk
      exact hfuel hk
    · exact h.within k hk

/-- A session within its fuel is one step beyond it after a step for which there is none. -/
theorem Solvent.overdrawn_charged (h : s.Solvent count) {m : MeterId} (hm : m < count)
    (hfuel : (s.meter m).settings.fuel < (s.meter m).steps + 1) :
    (Likeness.charged m s).Overdrawn count (s.meter m).settings.fuel := by
  have hwithin := h.within m hm
  have hmeter := Likeness.meter_charged (h.size ▸ hm : m < s.meters.size)
  refine ⟨(size_modifyMeter s m _).trans h.size, m, hm, ?_, ?_⟩
  · rw [hmeter]
  · rw [hmeter]
    exact Nat.le_antisymm (Nat.succ_le_succ hwithin) hfuel

/-- A meter that was never opened counts no steps. -/
theorem charge_unopened {m : MeterId} (hm : ¬ m < s.meters.size) :
    Run.charge m s = .ok () (Likeness.charged m s) := by
  have hmeter : (Likeness.charged m s).meter m = {} := by
    rw [Likeness.charged, meter_modifyMeter_unopened s m _ hm]
    simp [meter, hm]
  change (if ((Likeness.charged m s).meter m).steps >
      ((Likeness.charged m s).meter m).settings.fuel then
      throw (.nonTermination (.fuel ((Likeness.charged m s).meter m).settings.fuel))
    else pure () : Run Unit) (Likeness.charged m s) = _
  rw [hmeter]
  rfl

end Session

/-! ## Runs that count their steps -/

/-- What a run that starts within the fuel may leave behind, if it fails so. -/
def Failure.Leaves (count : Nat) (s : Session) : Failure → Prop
  | .nonTermination (.fuel limit) => s.Overdrawn count limit
  | _ => s.Solvent count

/-- A failure is for want of fuel if and only if it names that guard. -/
theorem Failure.isSpent_eq_true {e : Failure} :
    e.isSpent = true ↔ ∃ limit, e = .nonTermination (.fuel limit) := by
  constructor
  · intro h
    unfold isSpent at h
    split at h
    · exact ⟨_, rfl⟩
    · cases h
  · rintro ⟨limit, rfl⟩
    rfl

/-- A failure for another reason leaves a session within its fuel. -/
theorem Failure.leaves_iff {e : Failure} (he : e.isSpent = false) {count : Nat} {s : Session} :
    e.Leaves count s ↔ s.Solvent count := by
  cases e with
  | nonTermination guard =>
    cases guard with
    | fuel limit => cases he
    | _ => exact Iff.rfl
  | _ => exact Iff.rfl

/-- What a failure leaves behind it still does if nothing more is spent. -/
theorem Failure.Leaves.of_spendsAs {e : Failure} {count : Nat} {s s' : Session}
    (h : e.Leaves count s) (hs : s.SpendsAs s') : e.Leaves count s' := by
  cases e with
  | nonTermination guard =>
    cases guard with
    | fuel limit => exact Session.Overdrawn.of_spendsAs h hs
    | _ => exact Session.Solvent.of_spendsAs h hs
  | _ => exact Session.Solvent.of_spendsAs h hs

/-- From a session within the fuel the run leaves one within the fuel, unless it fails for want of
it. -/
structure Run.Accounted (count : Nat) {α : Type} (x : Run α) : Prop where
  ok : ∀ {s s' : Session} {a : α}, s.Solvent count → x s = .ok a s' → s'.Solvent count
  error : ∀ {s s' : Session} {e : Failure}, s.Solvent count → x s = .error e s' → e.Leaves count s'

namespace Run

variable {count : Nat} {α β : Type}

/-- To answer at once is accounted for. -/
theorem accounted_pure (a : α) : Accounted count (pure a : Run α) where
  ok hs h := by
    cases h
    exact hs
  error _ h := nomatch h

/-- To fail at once, not for want of fuel, is accounted for. -/
theorem accounted_throw {e : Failure} (he : e.isSpent = false) :
    Accounted count (throw e : Run α) where
  ok _ h := nomatch h
  error hs h := by
    cases h
    exact (Failure.leaves_iff he).2 hs

/-- Runs that are accounted for are so one after the other. -/
theorem Accounted.bind {x : Run α} {f : α → Run β} (hx : Accounted count x)
    (hf : ∀ a, Accounted count (f a)) : Accounted count (x >>= f) where
  ok hs h := by
    obtain ⟨a, t, hxs, hft⟩ := bind_eq_ok.1 h
    exact (hf a).ok (hx.ok hs hxs) hft
  error {s s' e} hs h := by
    cases hxs : x s with
    | ok a t =>
      rw [bind_ok hxs] at h
      exact (hf a).error (hx.ok hs hxs) h
    | error e' t =>
      rw [bind_error hxs] at h
      cases h
      exact hx.error hs hxs

/-- To look at the session is accounted for. -/
theorem accounted_get : Accounted count (get : Run Session) where
  ok hs h := by
    cases h
    exact hs
  error _ h := nomatch h

/-- To change a session in other things than steps. -/
theorem accounted_modify {f : Session → Session} (hf : ∀ s, Session.SpendsAs s (f s)) :
    Accounted count (modify f : Run Unit) where
  ok {s _ _} hs h := by
    cases h
    exact hs.of_spendsAs (hf s)
  error _ h := nomatch h

/-- To record an event is accounted for, since it costs nothing. -/
theorem accounted_record (e : Event) : Accounted count (record e) :=
  accounted_modify fun _ => Session.spendsAs_of_meters rfl

/-- To keep the value of an argument is accounted for, since it costs nothing. -/
theorem accounted_settle (id : Nat) (v : Value) : Accounted count (settle id v) :=
  accounted_modify fun s => Session.spendsAs_of_meters (Session.meters_settle id v s)

/-- To draw a probe is accounted for, since it costs nothing. -/
theorem accounted_probe (m : MeterId) : Accounted count (probe m) := by
  refine accounted_get.bind fun _ => (accounted_modify fun s => ?_).bind fun _ => accounted_pure _
  exact Session.spendsAs_modifyMeter s m (fun _ => rfl) fun _ => rfl

/-- To put an argument off is accounted for, since it costs nothing. -/
theorem accounted_suspend (x : Suspension) : Accounted count (suspend x) := by
  refine accounted_get.bind fun _ => (accounted_modify fun _ => ?_).bind fun _ => accounted_pure _
  exact Session.spendsAs_of_meters rfl

/-- To check the nesting is accounted for: a run that nests too deeply has not run out of fuel. -/
theorem accounted_checkDepth (m : MeterId) (t : Term) : Accounted count (checkDepth m t) := by
  refine accounted_get.bind fun s => ?_
  dsimp only
  split
  · exact (accounted_record _).bind fun _ => accounted_throw rfl
  · exact accounted_pure _

/-- A nested run is accounted for if the run is. -/
theorem accounted_nest {x : Run α} (m : MeterId) (hx : Accounted count x) :
    Accounted count (nest m x) := by
  have hdown (s : Session) : s.SpendsAs (Likeness.deeper m s) :=
    Session.spendsAs_modifyMeter s m (fun _ => rfl) fun _ => rfl
  have hup (s : Session) : s.SpendsAs (Likeness.shallower m s) :=
    Session.spendsAs_modifyMeter s m (fun _ => rfl) fun _ => rfl
  constructor
  · intro s s' a hs h
    rw [Likeness.nest_eq] at h
    split at h
    · rename_i hxs
      cases h
      exact (hx.ok (hs.of_spendsAs (hdown s)) hxs).of_spendsAs (hup _)
    · cases h
  · intro s s' e hs h
    rw [Likeness.nest_eq] at h
    split at h
    · cases h
    · rename_i hxs
      cases h
      exact (hx.error (hs.of_spendsAs (hdown s)) hxs).of_spendsAs (hup _)

/-- To charge a step keeps within the fuel, or takes the one step too many and fails. -/
theorem accounted_charge (m : MeterId) : Accounted count (charge m) := by
  constructor
  · intro s s' a hs h
    by_cases hm : m < s.meters.size
    · rw [Likeness.charge_eq hm] at h
      split at h
      · cases h
      · rename_i hfuel
        cases h
        exact hs.charged fun _ => Nat.le_of_not_lt hfuel
    · rw [Session.charge_unopened hm] at h
      cases h
      exact hs.charged fun hlt => (hm (hs.size ▸ hlt)).elim
  · intro s s' e hs h
    by_cases hm : m < s.meters.size
    · rw [Likeness.charge_eq hm] at h
      split at h
      · rename_i hfuel
        cases h
        exact hs.overdrawn_charged (hs.size ▸ hm) hfuel
      · cases h
    · rw [Session.charge_unopened hm] at h
      cases h

end Run

namespace Eval

open Run

variable {count : Nat} {call : Call}

/-- To force an entry is accounted for if calls are. -/
theorem accounted_force (hcall : ∀ m d, Accounted count (call m d)) (e : Entry) :
    Accounted count (force call e) := by
  cases e with
  | value v => exact accounted_pure v
  | thunk id =>
    refine accounted_get.bind fun s => ?_
    split
    · exact accounted_pure _
    · exact (hcall _ _).bind fun v => (accounted_settle id v).bind fun _ => accounted_pure _
    · exact accounted_throw rfl

/-- That steps are counted is a law of runs. -/
theorem accounted_law (hcall : ∀ m d, Accounted count (call m d)) :
    Law call (Accounted count) where
  pure := accounted_pure
  throw := accounted_throw
  bind := Accounted.bind
  record := accounted_record
  charge := accounted_charge
  checkDepth := accounted_checkDepth
  nest := accounted_nest
  probe := accounted_probe
  suspend := accounted_suspend
  force := accounted_force hcall
  call := hcall

/-- All of evaluation is accounted for. -/
theorem run_accounted (frames : Nat) : Law (run frames) (Accounted count) :=
  run_obeys (Φ := Accounted count) (fun _ _ => accounted_throw rfl) (fun _ => accounted_law) frames

/-- A run one level deeper is on an account that is one level deeper. -/
theorem meter_deeper {m : MeterId} {s : Session} (hm : m < s.meters.size) :
    (Likeness.deeper m s).meter m = { s.meter m with depth := (s.meter m).depth + 1 } := by
  rw [Likeness.deeper, Session.meter_modifyMeter s _ hm, if_pos rfl]

/-- A step is charged one level deeper as it is one level up. -/
theorem charge_deeper {m : MeterId} {s : Session} (hm : m < s.meters.size) :
    charge m (Likeness.deeper m s) =
      if (s.meter m).settings.fuel < (s.meter m).steps + 1 then
        .error (.nonTermination (.fuel (s.meter m).settings.fuel))
          (Likeness.charged m (Likeness.deeper m s))
      else .ok () (Likeness.charged m (Likeness.deeper m s)) := by
  have hopened : m < (Likeness.deeper m s).meters.size := by
    rw [Likeness.deeper, Session.size_modifyMeter]
    exact hm
  rw [Likeness.charge_eq hopened, meter_deeper hm]

/-- Where evaluations are not nested too deeply yet, one more may be begun. -/
theorem evaluate_eq_nest {m : MeterId} {s : Session} (hm : m < s.meters.size)
    (hdepth : (s.meter m).depth < (s.meter m).settings.maxDepth) (frames : Nat) (t : Term)
    (env : Env) (dims : IntervalEnv) :
    evaluate (frames + 1) m t env dims s =
      nest m (chargedStep (run frames) m t env dims) s := by
  have hcheck : checkDepth m t (Likeness.deeper m s) = .ok () (Likeness.deeper m s) := by
    rw [Likeness.checkDepth_eq, meter_deeper hm, if_neg (Nat.not_lt.2 hdepth)]
  change nest m (checkDepth m t >>= fun _ => chargedStep (run frames) m t env dims) s = _
  rw [Likeness.nest_eq, bind_ok hcheck, Likeness.nest_eq]

/-- An evaluator that has taken too many steps evaluates nothing. -/
theorem evaluate_overdrawn {m : MeterId} {s : Session} (hm : m < s.meters.size)
    (hdepth : (s.meter m).depth < (s.meter m).settings.maxDepth)
    (hfuel : (s.meter m).settings.fuel < (s.meter m).steps) (frames : Nat) (t : Term) (env : Env)
    (dims : IntervalEnv) :
    ∃ s', evaluate (frames + 1) m t env dims s =
      .error (.nonTermination (.fuel (s.meter m).settings.fuel)) s' := by
  have hcharge := charge_deeper hm
  rw [if_pos (Nat.lt_succ_of_lt hfuel)] at hcharge
  refine ⟨Likeness.shallower m (Likeness.charged m (Likeness.deeper m s)), ?_⟩
  rw [evaluate_eq_nest hm hdepth, Likeness.nest_eq, chargedStep, bind_error hcharge]

end Eval

/-! ## Sequences of operations -/

/-- No meter is opened or closed. -/
def Session.SameMeters (s s' : Session) : Prop :=
  s'.meters.size = s.meters.size

instance : Session.Chain Session.SameMeters where
  refl _ := rfl
  trans h h' := h'.trans h

/-- No step of evaluation opens or closes a meter. -/
theorem Session.sameMeters_lawful (call : Call) : Lawful SameMeters call where
  record _ _ := rfl
  charge m s := size_modifyMeter s m _
  probe m s := size_modifyMeter s m _
  nest {m s s'} h := by
    have hin : s'.meters.size = s.meters.size := h.trans (size_modifyMeter s m _)
    exact (size_modifyMeter s' m _).trans hin
  suspend _ _ := rfl
  settle {id _ s s' v} _ _ h := by
    have hsame : s'.meters.size = s.meters.size := h
    rw [SameMeters, meters_settle, hsame]

/-- No operation opens or closes a meter. -/
theorem Operation.sameMeters (frames : Nat) (m : MeterId) (env : Env) (op : Operation) :
    Run.Keeps Session.SameMeters (op.run frames m env) := by
  refine op.law_run (Φ := Run.Keeps Session.SameMeters) (fun frames => ?_) frames m env
  have hlawful (frames : Nat) := Session.sameMeters_lawful (Eval.run frames)
  exact Eval.keeps_law (hlawful frames) (Eval.run_keeps hlawful frames)

/-- An evaluator at work: its session, and the entries that operations take their operands
from. -/
structure Workplace where
  session : Session
  env : Env

namespace Workplace

/-- Carry an operation out, with so many calls nested at most. What it builds is at hand from then
on. If it fails there is nothing more at hand, and what it has spent stays spent. -/
def perform (w : Workplace) (task : Nat × Operation) : Workplace where
  session := (task.2.run task.1 0 w.env).after w.session
  env :=
    match task.2.run task.1 0 w.env w.session with
    | .ok (some e) _ => e :: w.env
    | _ => w.env

/-- Carry operations out one after the other, whether they answer or fail. -/
def performAll (w : Workplace) (tasks : List (Nat × Operation)) : Workplace :=
  tasks.foldl perform w

/-- The account of the evaluator. -/
def account (w : Workplace) : Meter :=
  w.session.meter 0

/-- A list of operations opens and closes no meter. -/
theorem size_performAll (w : Workplace) (tasks : List (Nat × Operation)) :
    (w.performAll tasks).session.meters.size = w.session.meters.size := by
  induction tasks generalizing w with
  | nil => rfl
  | cons task rest ih =>
    exact (ih (w.perform task)).trans (task.2.sameMeters task.1 0 w.env w.session)

/-- An operation advances the session of the evaluator, whether it answers or fails. -/
theorem advances_perform (w : Workplace) (task : Nat × Operation) :
    w.session.Advances 0 (w.perform task).session :=
  (Run.Advancing.keeps w.session).toAdvances

/-- A list of operations advances the session of the evaluator. -/
theorem advances_performAll (w : Workplace) (tasks : List (Nat × Operation)) :
    w.session.Advances 0 (w.performAll tasks).session := by
  induction tasks generalizing w with
  | nil => exact .refl 0 w.session
  | cons task rest ih => exact (w.advances_perform task).trans (ih (w.perform task))

/-- An operation that is begun within the fuel ends within it, or fails for want of fuel after one
step too many. -/
theorem perform_within {w : Workplace} (hone : w.session.meters.size = 1)
    (hfuel : w.account.steps ≤ w.account.settings.fuel) (frames : Nat) (op : Operation) :
    (w.perform (frames, op)).account.steps ≤ w.account.settings.fuel ∧
        (∀ limit s, op.run frames 0 w.env w.session ≠ .error (.nonTermination (.fuel limit)) s) ∨
      (w.perform (frames, op)).account.steps = w.account.settings.fuel + 1 ∧
        ∃ s, op.run frames 0 w.env w.session =
          .error (.nonTermination (.fuel w.account.settings.fuel)) s := by
  have hsolvent : w.session.Solvent 1 := by
    refine ⟨hone, fun k hk => ?_⟩
    obtain rfl := Nat.lt_one_iff.1 hk
    exact hfuel
  have hrun := op.law_run (Φ := Run.Accounted 1) Eval.run_accounted frames 0 w.env
  have hsettings : (w.perform (frames, op)).account.settings = w.account.settings :=
    (w.advances_perform (frames, op)).settings
  have within {s : Session} (hs : s.Solvent 1) (hend : (w.perform (frames, op)).session = s) :
      (w.perform (frames, op)).account.steps ≤ w.account.settings.fuel := by
    rw [← hsettings, account, hend]
    exact hs.within 0 Nat.one_pos
  cases hres : op.run frames 0 w.env w.session with
  | ok r s => exact .inl ⟨within (hrun.ok hsolvent hres) (Run.after_ok hres), nofun⟩
  | error e s =>
    have hend : (w.perform (frames, op)).session = s := Run.after_error hres
    have hleft := hrun.error hsolvent hres
    cases hspent : e.isSpent with
    | false =>
      refine .inl ⟨within ((Failure.leaves_iff hspent).1 hleft) hend, ?_⟩
      rintro limit s' heq
      cases heq
      cases hspent
    | true =>
      obtain ⟨limit, rfl⟩ := Failure.isSpent_eq_true.1 hspent
      obtain ⟨k, hk, hlimit, hsteps⟩ := Session.Overdrawn.spent hleft
      obtain rfl := Nat.lt_one_iff.1 hk
      rw [← hend] at hlimit hsteps
      obtain rfl : limit = w.account.settings.fuel := hlimit.symm.trans (congrArg _ hsettings)
      exact .inr ⟨hsteps, s, rfl⟩

end Workplace

/-- Accounting. Whatever an evaluator has done since it was idle, and whether the operations have
answered or failed, after the next operation no evaluation is under way, and no fewer steps are
counted than before. Begun within the fuel, the operation ends within it and does not fail for want
of fuel, or it does so fail and has taken exactly one step too many. Once too many steps were taken,
each later evaluation fails for want of fuel. -/
theorem accounts_kept {w : Workplace} (hone : w.session.meters.size = 1)
    (hidle : w.account.depth = 0) (past : List (Nat × Operation)) (frames : Nat)
    (op : Operation) :
    let fuel := w.account.settings.fuel
    let now := w.performAll past
    let next := now.perform (frames, op)
    now.account.depth = 0 ∧ next.account.depth = 0 ∧
    w.account.steps ≤ now.account.steps ∧ now.account.steps ≤ next.account.steps ∧
    (now.account.steps ≤ fuel →
      next.account.steps ≤ fuel ∧
          (∀ limit s, op.run frames 0 now.env now.session ≠
            .error (.nonTermination (.fuel limit)) s) ∨
        next.account.steps = fuel + 1 ∧
          ∃ s, op.run frames 0 now.env now.session = .error (.nonTermination (.fuel fuel)) s) ∧
    (fuel < now.account.steps →
      ∀ (later : List (Nat × Operation)) (frames : Nat) (t : Term) (env : Env)
        (dims : IntervalEnv), ∃ s,
        Eval.evaluate (frames + 1) 0 t env dims (now.performAll later).session =
          .error (.nonTermination (.fuel fuel)) s) := by
  intro fuel now next
  have hnow : w.session.Advances 0 now.session := w.advances_performAll past
  have hnext : now.session.Advances 0 next.session := now.advances_perform (frames, op)
  have hsize : now.session.meters.size = 1 := (w.size_performAll past).trans hone
  have hsettings : now.account.settings = w.account.settings := hnow.settings
  refine ⟨hnow.depth.trans hidle, (hnow.trans hnext).depth.trans hidle, hnow.steps, hnext.steps,
    fun hfuel => ?_, fun hfuel later frames t env dims => ?_⟩
  · have hwithin := Workplace.perform_within hsize (hsettings ▸ hfuel) frames op
    rwa [hsettings] at hwithin
  · have hlater : now.session.Advances 0 (now.performAll later).session :=
      now.advances_performAll later
    have hall := hnow.trans hlater
    have hopened : 0 < (now.performAll later).session.meters.size := by
      rw [now.size_performAll, hsize]
      exact Nat.one_pos
    have hsame : (now.performAll later).account.settings = w.account.settings := hall.settings
    have hroom : (now.performAll later).account.depth <
        (now.performAll later).account.settings.maxDepth := by
      rw [show (now.performAll later).account.depth = 0 from hall.depth.trans hidle]
      exact Settings.maxDepth_pos _
    have hspent : (now.performAll later).account.settings.fuel <
        (now.performAll later).account.steps := by
      rw [hsame]
      exact Nat.lt_of_lt_of_le hfuel hlater.steps
    have hover := Eval.evaluate_overdrawn hopened hroom hspent frames t env dims
    rwa [show ((now.performAll later).session.meter 0).settings = _ from hsame] at hover

/-- Settings with fuel for two steps. -/
def frugal : Settings :=
  { Settings.default with fuel := 2, fuel_pos := by decide }

/-- A new evaluator that has fuel for two steps. -/
def twoSteps : Workplace where
  session := { meters := #[{ settings := frugal }] }
  env := []

/-- To apply an abstraction takes a step for the application, one for the abstraction and one for
its body. -/
def threeSteps : Operation :=
  .evaluate (.app (.lam "x" (.var 0)) (.univ 0)) []

/-- With fuel for two steps an operation of three fails at the third, and nothing is evaluated from
then on. -/
theorem accounts_kept_twoSteps :
    (∃ s, threeSteps.run 10 0 [] twoSteps.session = .error (.nonTermination (.fuel 2)) s) ∧
    (twoSteps.perform (10, threeSteps)).account.steps = 3 ∧
    ∀ (later : List (Nat × Operation)) (t : Term), ∃ s,
      Eval.evaluate 1 0 t [] [] ((twoSteps.perform (10, threeSteps)).performAll later).session =
        .error (.nonTermination (.fuel 2)) s := by
  have hthree : (twoSteps.perform (10, threeSteps)).account.steps = 3 := by decide +kernel
  obtain ⟨_, _, _, _, hfirst, _⟩ := accounts_kept (w := twoSteps) rfl rfl [] 10 threeSteps
  obtain ⟨_, _, _, _, _, hlater⟩ :=
    accounts_kept (w := twoSteps) rfl rfl [(10, threeSteps)] 10 threeSteps
  refine ⟨?_, hthree, fun later t => hlater ?_ later 0 t [] []⟩
  · rcases hfirst (Nat.zero_le _) with ⟨hwithin, _⟩ | ⟨_, hfails⟩
    · exact absurd (hthree ▸ hwithin : 3 ≤ 2) (by decide)
    · exact hfails
  · exact hthree ▸ (by decide : 2 < 3)

end SmoothCubical
