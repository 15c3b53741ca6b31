import Mathlib.Algebra.Order.BigOperators.Group.Finset
import SmoothCubical.Proofs.Growth
import SmoothCubical.Proofs.Termination.Values

/-!
# Runs that finish

A run is given for each number of calls that may nest. It finishes if that number does not matter
once it is large enough (`Run.Terminates`). The steps that are left to all meters together go down
with every step that is charged, and nothing else changes them (`Session.left`). So what is shown
of runs here is that they finish, leave no more steps than they found, and keep the session regular
(`Run.Ends`); sequencing keeps that (`Ends.bind`). Besides, `Ends` says what is known of a session
in which a run was cut off for want of calls.
-/

set_option autoImplicit false

namespace SmoothCubical

/-! ## The steps that are left -/

/-- The steps that are left to an account, with the one that is too many. -/
def Meter.left (a : Meter) : Nat :=
  a.settings.fuel + 1 - a.steps

/-- The steps that are left to all accounts together. -/
def Session.left (s : Session) : Nat :=
  ∑ m ∈ Finset.range s.meters.size, (s.meter m).left

/-- There are `k` accounts, and the arguments that were put off are regular. -/
structure Session.Regular (k : Nat) (s : Session) : Prop where
  size : s.meters.size = k
  meter : ∀ (id : Nat) (c : Cell), s.cells[id]? = some c → c.suspension.meter < k
  env : ∀ (id : Nat) (c : Cell), s.cells[id]? = some c → ∀ e ∈ c.suspension.env, e.Regular k
  value : ∀ (id : Nat) (x : Suspension) (v : Value), s.cells[id]? = some ⟨x, some v⟩ → v.Regular k

namespace Session

variable {s s' : Session} {k : Nat}

/-- The steps that are left depend on the accounts only. -/
theorem left_congr (h : s.meters = s'.meters) : s.left = s'.left := by
  unfold left meter
  rw [h]

/-- To change an account opens and closes none. -/
theorem size_modifyMeters (m : MeterId) (f : Meter → Meter) :
    (s.modifyMeter m f).meters.size = s.meters.size := by
  simp [modifyMeter]

/-- To change an account leaves no more steps, if it leaves no more steps to the account. -/
theorem left_modifyMeter_le (m : MeterId) {f : Meter → Meter} (hf : ∀ a, (f a).left ≤ a.left) :
    (s.modifyMeter m f).left ≤ s.left := by
  unfold left
  rw [size_modifyMeters]
  refine Finset.sum_le_sum fun i hi => ?_
  rw [meter_modifyMeter s f (Finset.mem_range.1 hi)]
  split
  · exact hf _
  · exact Nat.le_refl _

/-- To change an account without counting a step leaves as many steps. -/
theorem left_modifyMeter_eq (m : MeterId) {f : Meter → Meter} (hf : ∀ a, (f a).left = a.left) :
    (s.modifyMeter m f).left = s.left := by
  unfold left
  rw [size_modifyMeters]
  refine Finset.sum_congr rfl fun i hi => ?_
  rw [meter_modifyMeter s f (Finset.mem_range.1 hi)]
  split
  · exact hf _
  · rfl

/-- To count a step on an account that is open leaves fewer steps. -/
theorem left_modifyMeter_lt {m : MeterId} (hm : m < s.meters.size) {f : Meter → Meter}
    (hf : ∀ a, (f a).left ≤ a.left) (hlt : (f (s.meter m)).left < (s.meter m).left) :
    (s.modifyMeter m f).left < s.left := by
  unfold left
  rw [size_modifyMeters]
  refine Finset.sum_lt_sum (fun i hi => ?_) ⟨m, Finset.mem_range.2 hm, ?_⟩
  · rw [meter_modifyMeter s f (Finset.mem_range.1 hi)]
    split
    · exact hf _
    · exact Nat.le_refl _
  · rwa [meter_modifyMeter s f hm, if_pos rfl]

/-- A regular session stays regular when an account is changed. -/
theorem Regular.modifyMeter (h : s.Regular k) (m : MeterId) (f : Meter → Meter) :
    (s.modifyMeter m f).Regular k where
  size := (size_modifyMeters m f).trans h.size
  meter := h.meter
  env := h.env
  value := h.value

/-- To put a regular computation off keeps the session regular. -/
theorem Regular.push (h : s.Regular k) {x : Suspension} (hm : x.meter < k)
    (henv : ∀ e ∈ x.env, e.Regular k) :
    Regular k { s with cells := s.cells.push { suspension := x } } := by
  have found (id : Nat) (c : Cell)
      (hc : (s.cells.push { suspension := x })[id]? = some c) :
      s.cells[id]? = some c ∨ c = { suspension := x } := by
    rw [Array.getElem?_push] at hc
    split at hc
    · exact .inr (Option.some.inj hc).symm
    · exact .inl hc
  refine ⟨h.size, fun id c hc => ?_, fun id c hc => ?_, fun id y v hc => ?_⟩
  · rcases found id c hc with hc | rfl
    · exact h.meter id c hc
    · exact hm
  · rcases found id c hc with hc | rfl
    · exact h.env id c hc
    · exact henv
  · rcases found id _ hc with hc | heq
    · exact h.value id y v hc
    · cases heq

/-- To keep a regular value keeps the session regular. -/
theorem Regular.setValue (h : s.Regular k) (id : Nat) {v : Value} (hv : v.Regular k) :
    Regular k { s with cells := s.cells.modify id fun c => { c with value := some v } } := by
  have found (id' : Nat) (c : Cell)
      (hc : (s.cells.modify id fun c => { c with value := some v })[id']? = some c) :
      ∃ c', s.cells[id']? = some c' ∧ (c = c' ∨ c = { c' with value := some v }) := by
    rw [Array.getElem?_modify] at hc
    split at hc
    · obtain ⟨c', hc', rfl⟩ := Option.map_eq_some_iff.1 hc
      exact ⟨c', hc', .inr rfl⟩
    · exact ⟨c, hc, .inl rfl⟩
  refine ⟨h.size, fun id' c hc => ?_, fun id' c hc => ?_, fun id' y w hc => ?_⟩
  · obtain ⟨c', hc', heq⟩ := found id' c hc
    have hsame : c.suspension = c'.suspension := by rcases heq with rfl | rfl <;> rfl
    exact hsame ▸ h.meter id' c' hc'
  · obtain ⟨c', hc', heq⟩ := found id' c hc
    have hsame : c.suspension = c'.suspension := by rcases heq with rfl | rfl <;> rfl
    exact hsame ▸ h.env id' c' hc'
  · obtain ⟨c', hc', heq | heq⟩ := found id' _ hc
    · subst heq
      exact h.value id' y w hc'
    · cases heq
      exact hv

/-- A regular session stays regular when a regular value is kept. -/
theorem Regular.settle (h : s.Regular k) (id : Nat) {v : Value} (hv : v.Regular k) :
    ((Run.settle id v).after s).Regular k := by
  have hkept := h.setValue id hv
  obtain ⟨meters, cells, events, sharing⟩ := s
  cases sharing with
  | byNeed => exact hkept
  | byName => exact h

end Session

/-! ## Finishing -/

/-- Whether the failure is for want of calls that may nest. -/
def Failure.isFrames : Failure → Bool
  | .nonTermination .frames => true
  | _ => false

/-- The run was not cut off for want of calls that may nest. -/
def IsFinal {α : Type} (r : EStateM.Result Failure Session α) : Prop :=
  ∀ s, r ≠ .error (.nonTermination .frames) s

namespace Run

variable {α β : Type}

/-- If enough calls may nest, the run ends in one way, and that is no cut-off for want of calls. -/
def Terminates (x : Nat → Run α) (s : Session) : Prop :=
  ∃ (N : Nat) (r : EStateM.Result Failure Session α),
    IsFinal r ∧ ∀ frames, N ≤ frames → x frames s = r

/-- The outcome leaves a regular session with no more steps, and an answer as `P` says. If it is a
cut-off for want of calls, the session is as `C` says. -/
def Orderly (k : Nat) (C : Session → Prop) (P : α → Session → Prop) (s : Session) :
    EStateM.Result Failure Session α → Prop
  | .ok a s' => s'.Regular k ∧ s'.left ≤ s.left ∧ P a s'
  | .error e s' => s'.Regular k ∧ s'.left ≤ s.left ∧ (e.isFrames = true → C s')

/-- The run is orderly however many calls may nest, and finishes if enough may. -/
structure Ends (k : Nat) (C : Nat → Session → Prop) (P : α → Session → Prop) (x : Nat → Run α)
    (s : Session) : Prop where
  orderly : ∀ frames, Orderly k (C frames) P s (x frames s)
  terminates : Terminates x s

/-- If calls may nest `W` deep, the run has taken a step by now: fewer than `L` are left. -/
def Prompt (L W frames : Nat) (s : Session) : Prop :=
  W ≤ frames → s.left < L

/-- The run finishes, and nothing is said about cut-offs. -/
abbrev Finishes (k : Nat) (P : α → Session → Prop) (x : Nat → Run α) (s : Session) : Prop :=
  Ends k (fun _ _ => True) P x s

variable {k : Nat} {C : Nat → Session → Prop} {P : α → Session → Prop} {Q : β → Session → Prop}
  {s : Session}

/-- An orderly outcome for which no cut-off is allowed is final. -/
theorem Orderly.isFinal {r : EStateM.Result Failure Session α}
    (h : Orderly k (fun _ => False) P s r) : IsFinal r := by
  intro s' heq
  subst heq
  exact h.2.2 rfl

/-- An orderly outcome is so for weaker conditions. -/
theorem Orderly.mono {C C' : Session → Prop} {P' : α → Session → Prop}
    {r : EStateM.Result Failure Session α} (h : Orderly k C P s r)
    (hC : ∀ s', s'.left ≤ s.left → C s' → C' s')
    (hP : ∀ a s', s'.left ≤ s.left → P a s' → P' a s') : Orderly k C' P' s r := by
  cases r with
  | ok a s' => exact ⟨h.1, h.2.1, hP a s' h.2.1 h.2.2⟩
  | error e s' => exact ⟨h.1, h.2.1, fun he => hC s' h.2.1 (h.2.2 he)⟩

/-- A run that nests no calls finishes as it ends. -/
theorem Ends.const {x : Run α} (h : Orderly k (fun _ => False) P s (x s)) :
    Ends k C P (fun _ => x) s :=
  ⟨fun _ => h.mono (fun _ _ => False.elim) fun _ _ _ ha => ha, 0, x s, h.isFinal, fun _ _ => rfl⟩

/-- To answer at once ends. -/
theorem Ends.pure (hs : s.Regular k) {a : α} (ha : P a s) :
    Ends k C P (fun _ => Pure.pure a) s :=
  .const ⟨hs, Nat.le_refl _, ha⟩

/-- To fail at once, not for want of calls, ends. -/
theorem Ends.throw (hs : s.Regular k) {e : Failure} (he : e.isFrames = false) :
    Ends k C P (fun _ => MonadExcept.throw e) s := by
  refine .const ⟨hs, Nat.le_refl _, ?_⟩
  simp [he]

/-- If a run terminates, and so does what is done with any answer of it, then both do. -/
theorem Terminates.bind {x : Nat → Run α} {f : Nat → α → Run β} (hx : Terminates x s)
    (hf : ∀ n a s', x n s = .ok a s' → Terminates (fun n => f n a) s') :
    Terminates (fun n => x n >>= f n) s := by
  obtain ⟨N, r, hfinal, hr⟩ := hx
  cases r with
  | error e s' =>
    refine ⟨N, .error e s', fun s'' heq => ?_, fun n hn => bind_error (hr n hn)⟩
    cases heq
    exact hfinal s' rfl
  | ok a s' =>
    obtain ⟨N', r', hfinal', hr'⟩ := hf N a s' (hr N (Nat.le_refl N))
    refine ⟨max N N', r', hfinal', fun n hn => ?_⟩
    exact (bind_ok (hr n (by omega))).trans (hr' n (by omega))

/-- Runs that end, one after the other, end as a whole. -/
theorem Ends.bind {x : Nat → Run α} {f : Nat → α → Run β} (hx : Ends k C P x s)
    (hf : ∀ a s', s'.Regular k → s'.left ≤ s.left → P a s' → Ends k C Q (fun n => f n a) s') :
    Ends k C Q (fun n => x n >>= f n) s := by
  constructor
  · intro frames
    have hout := hx.orderly frames
    cases hrun : x frames s with
    | ok a s' =>
      rw [hrun] at hout
      obtain ⟨hs', hleft, ha⟩ := hout
      have hrest := (hf a s' hs' hleft ha).orderly frames
      rw [bind_ok hrun]
      cases hfrun : f frames a s' with
      | ok b s'' =>
        rw [hfrun] at hrest
        exact ⟨hrest.1, Nat.le_trans hrest.2.1 hleft, hrest.2.2⟩
      | error e s'' =>
        rw [hfrun] at hrest
        exact ⟨hrest.1, Nat.le_trans hrest.2.1 hleft, hrest.2.2⟩
    | error e s' =>
      rw [hrun] at hout
      rw [bind_error hrun]
      exact hout
  · refine hx.terminates.bind fun n a s' hrun => ?_
    have hout := hx.orderly n
    rw [hrun] at hout
    exact (hf a s' hout.1 hout.2.1 hout.2.2).terminates

/-- A run that ends does so for every weaker condition on its answer. -/
theorem Ends.mono {P' : α → Session → Prop} {x : Nat → Run α} (hx : Ends k C P x s)
    (h : ∀ a s', s'.left ≤ s.left → P a s' → P' a s') : Ends k C P' x s :=
  ⟨fun frames => (hx.orderly frames).mono (fun _ _ hC => hC) h, hx.terminates⟩

/-- Less may be said about cut-offs. -/
theorem Ends.relax {C' : Nat → Session → Prop} {x : Nat → Run α} (hx : Ends k C P x s)
    (h : ∀ n s', s'.left ≤ s.left → C n s' → C' n s') : Ends k C' P x s :=
  ⟨fun frames => (hx.orderly frames).mono (h frames) fun _ _ _ ha => ha, hx.terminates⟩

/-- A run that takes a step in good time does so, or has taken it before. -/
theorem Ends.promptly {L K W : Nat} {x : Nat → Run α} (hx : Ends k (Prompt s.left W) P x s)
    (h : s.left < L ∨ s.left ≤ L ∧ W ≤ K) : Ends k (Prompt L K) P x s := by
  refine hx.relax fun n s' hle hprompt hn => ?_
  rcases h with hless | ⟨hsame, hW⟩
  · omega
  · have hstep := hprompt (Nat.le_trans hW hn)
    omega

/-- A run that ends finishes. -/
theorem Ends.finishes {x : Nat → Run α} (hx : Ends k C P x s) : Finishes k P x s :=
  hx.relax fun _ _ _ _ => trivial

/-- A run that needs one call more finishes if it does not need it any more after it. -/
theorem Ends.succ {x : Nat → Run α} (hx : Ends k (fun n => C (n + 1)) P (fun n => x (n + 1)) s)
    (hzero : Orderly k (C 0) P s (x 0 s)) : Ends k C P x s := by
  constructor
  · intro frames
    cases frames with
    | zero => exact hzero
    | succ n => exact hx.orderly n
  · obtain ⟨N, r, hfinal, hr⟩ := hx.terminates
    refine ⟨N + 1, r, hfinal, fun n hn => ?_⟩
    obtain ⟨n, rfl⟩ : ∃ n', n = n' + 1 := ⟨n - 1, by omega⟩
    exact hr n (by omega)

/-- To hand an answer of the syntax on ends. -/
theorem Ends.ofFault (hs : s.Regular k) {x : Except Fault α} (hP : ∀ a, x = .ok a → P a s) :
    Ends k C P (fun _ => Run.ofFault x) s := by
  cases x with
  | ok a => exact .pure hs (hP a rfl)
  | error f => exact .throw hs rfl

/-- A question about syntax. -/
theorem ends_ofFault (hs : s.Regular k) (x : Except Fault α) :
    Ends k C (fun _ _ => True) (fun _ => Run.ofFault x) s :=
  .ofFault hs fun _ _ => trivial

/-- A loop ends if it does for each member of its list. -/
theorem Ends.forM {x : Nat → α → Run Unit} (as : List α)
    (hx : ∀ a s', s'.Regular k → Ends k C (fun _ _ => True) (fun n => x n a) s')
    (hs : s.Regular k) : Ends k C (fun _ _ => True) (fun n => as.forM (x n)) s := by
  induction as generalizing s with
  | nil => exact .pure hs trivial
  | cons a rest ih => exact (hx a s hs).bind fun _ s₁ hs₁ _ _ => ih hs₁

/-! ## The parts that look at the session -/

/-- To look at the session ends. -/
theorem ends_get (hs : s.Regular k) :
    Ends k C (fun a s' => a = s ∧ s' = s) (fun _ => (get : Run Session)) s :=
  .const ⟨hs, Nat.le_refl _, rfl, rfl⟩

/-- To record an event ends, at the cost of no step. -/
theorem ends_record (hs : s.Regular k) (e : Event) :
    Ends k C (fun _ s' => s'.left = s.left) (fun _ => record e) s := by
  have hkept : ({ s with events := e :: s.events } : Session).left = s.left :=
    Session.left_congr rfl
  exact .const ⟨⟨hs.size, hs.meter, hs.env, hs.value⟩, Nat.le_of_eq hkept, hkept⟩

/-- A step that is charged is one step less. -/
theorem ends_charge (hs : s.Regular k) {m : MeterId} (hm : m < k) :
    Ends k C (fun _ s' => s'.left < s.left) (fun _ => charge m) s := by
  let charged (a : Meter) : Meter := { a with steps := a.steps + 1 }
  have hsize : m < s.meters.size := hs.size ▸ hm
  have hle (a : Meter) : (charged a).left ≤ a.left := by
    simp only [Meter.left, charged]
    omega
  have hmeter : (s.modifyMeter m charged).meter m = charged (s.meter m) := by
    rw [Session.meter_modifyMeter s charged hsize, if_pos rfl]
  have hrun : charge m s =
      (if (charged (s.meter m)).steps > (charged (s.meter m)).settings.fuel then
        MonadExcept.throw (.nonTermination (.fuel (charged (s.meter m)).settings.fuel))
      else Pure.pure () : Run Unit) (s.modifyMeter m charged) := by
    rw [← hmeter]
    rfl
  have hregular := hs.modifyMeter m charged
  refine .const ?_
  rw [hrun]
  split
  · exact ⟨hregular, Session.left_modifyMeter_le m hle, by simp [Failure.isFrames]⟩
  · rename_i hfuel
    have hlt : (charged (s.meter m)).left < (s.meter m).left := by
      simp only [Meter.left, charged] at hfuel ⊢
      omega
    have hless := Session.left_modifyMeter_lt hsize hle hlt
    exact ⟨hregular, Nat.le_of_lt hless, hless⟩

/-- To check the nesting ends, at the cost of no step. -/
theorem ends_checkDepth (hs : s.Regular k) (m : MeterId) (t : Term) :
    Ends k C (fun _ s' => s'.left = s.left) (fun _ => checkDepth m t) s := by
  refine (ends_get hs).bind fun a s' _ _ h => ?_
  obtain ⟨rfl, rfl⟩ := h
  dsimp only
  split
  · exact (ends_record hs _).bind fun _ s' hs' _ _ => .throw hs' rfl
  · exact .pure hs rfl

/-- To draw a probe ends, at the cost of no step. -/
theorem ends_probe (hs : s.Regular k) (m : MeterId) :
    Ends k C (fun _ s' => s'.left = s.left) (fun _ => probe m) s := by
  have hkept : (s.modifyMeter m fun a => { a with probes := a.probes + 1 }).left = s.left :=
    Session.left_modifyMeter_eq m fun _ => rfl
  exact .const ⟨hs.modifyMeter m _, Nat.le_of_eq hkept, hkept⟩

/-- One level deeper as many steps are left, and the level does not matter to what is said. -/
theorem Ends.nest {m : MeterId} {x : Nat → Run α}
    (hx : Ends k C P x (s.modifyMeter m fun a => { a with depth := a.depth + 1 }))
    (hC : ∀ n s' s'', s''.left = s'.left → C n s' → C n s'')
    (hP : ∀ a s' s'', s''.left = s'.left → P a s' → P a s'') :
    Ends k C P (fun n => Run.nest m (x n)) s := by
  have hdown : (s.modifyMeter m fun a => { a with depth := a.depth + 1 }).left = s.left :=
    Session.left_modifyMeter_eq m fun _ => rfl
  have hup (s' : Session) : (s'.modifyMeter m fun a => { a with depth := a.depth - 1 }).left =
      s'.left := Session.left_modifyMeter_eq m fun _ => rfl
  constructor
  · intro frames
    have hout := hx.orderly frames
    unfold Run.nest
    cases hrun : x frames (s.modifyMeter m fun a => { a with depth := a.depth + 1 }) with
    | ok a s' =>
      rw [hrun] at hout
      refine ⟨hout.1.modifyMeter m _, ?_, hP a s' _ (hup s') hout.2.2⟩
      rw [hup, ← hdown]
      exact hout.2.1
    | error e s' =>
      rw [hrun] at hout
      refine ⟨hout.1.modifyMeter m _, ?_, fun he => hC frames s' _ (hup s') (hout.2.2 he)⟩
      rw [hup, ← hdown]
      exact hout.2.1
  · obtain ⟨N, r, hfinal, hr⟩ := hx.terminates
    cases r with
    | ok a s' =>
      refine ⟨N, .ok a (s'.modifyMeter m fun a => { a with depth := a.depth - 1 }), ?_, ?_⟩
      · intro s'' heq
        cases heq
      · intro n hn
        simp only [Run.nest, hr n hn]
    | error e s' =>
      refine ⟨N, .error e (s'.modifyMeter m fun a => { a with depth := a.depth - 1 }), ?_, ?_⟩
      · intro s'' heq
        cases heq
        exact hfinal s' rfl
      · intro n hn
        simp only [Run.nest, hr n hn]

/-- To put a regular argument off ends, at the cost of no step. -/
theorem ends_suspend (hs : s.Regular k) {x : Suspension} (hm : x.meter < k)
    (henv : ∀ e ∈ x.env, e.Regular k) :
    Ends k C (fun e s' => e.Regular k ∧ s'.left = s.left) (fun _ => suspend x) s := by
  have hkept : ({ s with cells := s.cells.push { suspension := x } } : Session).left = s.left :=
    Session.left_congr rfl
  exact .const ⟨hs.push hm henv, Nat.le_of_eq hkept, .thunk, hkept⟩

/-- To keep a regular value ends, at the cost of no step. -/
theorem ends_settle (hs : s.Regular k) (id : Nat) {v : Value} (hv : v.Regular k) :
    Ends k C (fun _ s' => s'.left = s.left) (fun _ => settle id v) s := by
  have hkept : ((settle id v).after s).left = s.left :=
    Session.left_congr (Session.meters_settle id v s)
  have hout : settle id v s = .ok () ((settle id v).after s) := rfl
  refine .const ?_
  rw [hout]
  exact ⟨hs.settle id hv, Nat.le_of_eq hkept, hkept⟩

end Run

end SmoothCubical
