import SmoothCubical.Proofs.Growth
import SmoothCubical.Proofs.Likeness.Values

/-!
# Runs that are alike

Two runs are compared only as far as both go on: a run that a guard cuts off may be compared with
any other. Otherwise alike runs both answer, with answers so related, or both fail alike.

The value that a session keeps for an argument may have been computed long ago. What is known of it
is the run that computed it, from a session that was then as this one is now. `Session.Certified`
says that for all values kept, and every run keeps it. A probe in play must not be among those that
were drawn in such a run. The probes that were drawn before the run or after it are not, so it is
asked of a comparison that no probe in play is drawn between its beginning and its end.
-/

set_option autoImplicit false

namespace SmoothCubical

/-! ## Sessions that follow each other -/

namespace Session

/-- Arguments are computed each time they are looked at, and no value of one is kept. -/
structure Plain (s : Session) : Prop where
  byName : s.sharing = .byName
  unkept : ∀ (id : Nat) (x : Suspension) (v : Value), s.cells[id]? ≠ some ⟨x, some v⟩

/-- The second session has spent no less on the meter, and knows what the first has put off. -/
structure Precedes (m : MeterId) (s s' : Session) : Prop where
  steps : (s.meter m).steps ≤ (s'.meter m).steps
  probes : (s.meter m).probes ≤ (s'.meter m).probes
  origin : ∀ {id x}, s.origin id = some x → s'.origin id = some x

/-- The second session is one that a run on the first may leave. -/
structure Advances (m : MeterId) (s s' : Session) : Prop extends Precedes m s s' where
  opened : m < s.meters.size → m < s'.meters.size
  settings : (s'.meter m).settings = (s.meter m).settings
  depth : (s'.meter m).depth = (s.meter m).depth
  plain : s.Plain → s'.Plain

/-- None of the points is a probe that is drawn between the two sessions. -/
def Clear (m : MeterId) (points : Int → Prop) (s s' : Session) : Prop :=
  ∀ l, points l → ∀ n, (s.meter m).probes ≤ n → n < (s'.meter m).probes → l ≠ Run.probeBase - n

/-- Each value that the session keeps was computed by a run from a good session to one that
precedes it, and none of the points was drawn as a probe meanwhile. -/
def CertifiedBy (m : MeterId) (points : Int → Prop) (good : Session → Prop) (s : Session) : Prop :=
  ∀ (id : Nat) (x : Suspension) (v : Value), s.cells[id]? = some ⟨x, some v⟩ → x.meter = m →
    ∃ (frames : Nat) (b a : Session), Eval.run frames m x.demand b = .ok v a ∧
      m < b.meters.size ∧ good b ∧ b.Clear m points a ∧ a.Precedes m s

/-- The values that the session keeps are certified, and those that were kept when they were
computed are certified in turn. -/
def Certified (m : MeterId) (points : Int → Prop) (s : Session) : Prop :=
  ∃ good : Session → Prop, good s ∧ ∀ t, good t → t.CertifiedBy m points good

variable {m : MeterId} {points points' : Int → Prop} {s s' s'' : Session}

/-- A session precedes itself. -/
theorem Precedes.refl (m : MeterId) (s : Session) : s.Precedes m s :=
  ⟨Nat.le_refl _, Nat.le_refl _, id⟩

/-- A session precedes what is preceded by one that it precedes. -/
theorem Precedes.trans (h : s.Precedes m s') (h' : s'.Precedes m s'') : s.Precedes m s'' where
  steps := Nat.le_trans h.steps h'.steps
  probes := Nat.le_trans h.probes h'.probes
  origin hx := h'.origin (h.origin hx)

/-- A run may leave the session as it is. -/
theorem Advances.refl (m : MeterId) (s : Session) : s.Advances m s :=
  ⟨.refl m s, id, rfl, rfl, id⟩

/-- A run may leave what another leaves of what a run may leave. -/
theorem Advances.trans (h : s.Advances m s') (h' : s'.Advances m s'') : s.Advances m s'' where
  toPrecedes := h.toPrecedes.trans h'.toPrecedes
  opened hm := h'.opened (h.opened hm)
  settings := h'.settings.trans h.settings
  depth := h'.depth.trans h.depth
  plain hs := h'.plain (h.plain hs)

/-- What is not drawn between two sessions is drawn neither before nor after a third between them.
-/
theorem Clear.mono (h : s.Clear m points s'') (hs : s.Precedes m s')
    (hs' : s'.Precedes m s'') : s.Clear m points s' ∧ s'.Clear m points s'' :=
  ⟨fun l hl n hn hlt => h l hl n hn (Nat.lt_of_lt_of_le hlt hs'.probes),
    fun l hl n hn hlt => h l hl n (Nat.le_trans hs.probes hn) hlt⟩

/-- Values are certified still if more sessions count as good. -/
theorem CertifiedBy.mono {good good' : Session → Prop} (h : s.CertifiedBy m points good)
    (hgood : ∀ t, good t → good' t) : s.CertifiedBy m points good' := by
  intro id x v hc hx
  obtain ⟨frames, b, a, hrun, hopened, hb, hclear, ha⟩ := h id x v hc hx
  exact ⟨frames, b, a, hrun, hopened, hgood b hb, hclear, ha⟩

/-- Values are certified if and only if they were computed from sessions whose values are certified.
-/
theorem certified_iff : s.Certified m points ↔ s.CertifiedBy m points (Certified m points) := by
  constructor
  · rintro ⟨good, hs, hall⟩
    exact (hall s hs).mono fun t ht => ⟨good, ht, hall⟩
  · intro h
    refine ⟨fun t => t = s ∨ t.Certified m points, .inl rfl, ?_⟩
    rintro t (rfl | ⟨good, ht, hall⟩)
    · exact h.mono fun _ => .inr
    · exact (hall t ht).mono fun _ hb => .inr ⟨good, hb, hall⟩

/-- A session that keeps no values has only certified ones. -/
theorem Plain.certified (h : s.Plain) : s.Certified m points :=
  certified_iff.2 fun id x v hc _ => (h.unkept id x v hc).elim

/-- Values stay certified in any session that keeps the same and has spent no less. -/
theorem Certified.of_cells (h : s.Certified m points) (hcells : s'.cells = s.cells)
    (hs : s.Precedes m s') : s'.Certified m points := by
  refine certified_iff.2 fun id x v hc hx => ?_
  rw [hcells] at hc
  obtain ⟨frames, b, a, hrun, hopened, hb, hclear, ha⟩ := certified_iff.1 h id x v hc hx
  exact ⟨frames, b, a, hrun, hopened, hb, hclear, ha.trans hs⟩

/-- Values that are certified with some points in play are so with fewer. -/
theorem Certified.mono (h : s.Certified m points') (hpoints : ∀ l, points l → points' l) :
    s.Certified m points := by
  refine ⟨Certified m points', h, fun t ht id x v hc hx => ?_⟩
  obtain ⟨frames, b, a, hrun, hopened, hb, hclear, ha⟩ := certified_iff.1 ht id x v hc hx
  exact ⟨frames, b, a, hrun, hopened, hb, fun l hl => hclear l (hpoints l hl), ha⟩

/-- The second session is one that a run on the first may leave, and its values are certified if
those of the first are. -/
structure Continues (m : MeterId) (s s' : Session) : Prop extends Advances m s s' where
  certified : m < s.meters.size → ∀ points, s.Certified m points → s.Clear m points s' →
    s'.Certified m points

/-- A session that continues another is continued by what continues it. -/
theorem Continues.trans (h : s.Continues m s') (h' : s'.Continues m s'') :
    s.Continues m s'' where
  toAdvances := h.toAdvances.trans h'.toAdvances
  certified hm points hs hclear := by
    have ⟨hfirst, hsecond⟩ := hclear.mono h.toPrecedes h'.toPrecedes
    exact h'.certified (h.opened hm) points (h.certified hm points hs hfirst) hsecond

instance : Chain (Continues m) where
  refl s := ⟨.refl m s, fun _ _ hs _ => hs⟩
  trans := Continues.trans

/-- A session in which only accounts and events have changed. -/
theorem Continues.of_cells (hcells : s'.cells = s.cells) (hsharing : s'.sharing = s.sharing)
    (hsize : s'.meters.size = s.meters.size)
    (hsettings : (s'.meter m).settings = (s.meter m).settings)
    (hdepth : (s'.meter m).depth = (s.meter m).depth)
    (hsteps : (s.meter m).steps ≤ (s'.meter m).steps)
    (hprobes : (s.meter m).probes ≤ (s'.meter m).probes) : s.Continues m s' := by
  have hprecedes : s.Precedes m s' := by
    refine ⟨hsteps, hprobes, ?_⟩
    intro id x hx
    rwa [origin, hcells]
  refine ⟨⟨hprecedes, fun hm => hsize ▸ hm, hsettings, hdepth, fun h => ?_⟩, ?_⟩
  · exact ⟨hsharing.trans h.byName, hcells ▸ h.unkept⟩
  · intro _ points hs _
    exact hs.of_cells hcells hprecedes

/-- A meter that was not opened is not changed. -/
theorem meter_modifyMeter_unopened (s : Session) (k : MeterId) (f : Meter → Meter)
    (hm : ¬ m < s.meters.size) : (s.modifyMeter k f).meter m = s.meter m := by
  simp [meter, Session.modifyMeter, hm]

/-- To change one meter changes any other not at all, or in the same way. -/
theorem meter_modifyMeter_of (s : Session) (k m : MeterId) (f : Meter → Meter) :
    (s.modifyMeter k f).meter m = s.meter m ∨ (s.modifyMeter k f).meter m = f (s.meter m) := by
  by_cases hm : m < s.meters.size
  · rw [meter_modifyMeter s f hm]
    split
    · exact .inr rfl
    · exact .inl rfl
  · exact .inl (meter_modifyMeter_unopened s k f hm)

/-- To change a meter opens and closes none. -/
theorem size_modifyMeter (s : Session) (k : MeterId) (f : Meter → Meter) :
    (s.modifyMeter k f).meters.size = s.meters.size := by
  simp [modifyMeter]

/-- A session is continued after a change to a meter that takes nothing back, and leaves settings
and depth alone. -/
theorem Continues.modifyMeter (s : Session) (k : MeterId) {f : Meter → Meter}
    (hsettings : ∀ a, (f a).settings = a.settings) (hdepth : ∀ a, (f a).depth = a.depth)
    (hsteps : ∀ a, a.steps ≤ (f a).steps) (hprobes : ∀ a, a.probes ≤ (f a).probes) :
    s.Continues m (s.modifyMeter k f) := by
  have hcells : (s.modifyMeter k f).cells = s.cells := rfl
  have hsharing : (s.modifyMeter k f).sharing = s.sharing := rfl
  apply of_cells hcells hsharing (size_modifyMeter s k f) <;>
    rcases meter_modifyMeter_of s k m f with h | h
  · exact congrArg Meter.settings h
  · exact (congrArg Meter.settings h).trans (hsettings _)
  · exact congrArg Meter.depth h
  · exact (congrArg Meter.depth h).trans (hdepth _)
  · exact Nat.le_of_eq (congrArg Meter.steps h).symm
  · exact Nat.le_trans (hsteps _) (Nat.le_of_eq (congrArg Meter.steps h).symm)
  · exact Nat.le_of_eq (congrArg Meter.probes h).symm
  · exact Nat.le_trans (hprobes _) (Nat.le_of_eq (congrArg Meter.probes h).symm)

/-- To put a computation off keeps what is known. -/
theorem Continues.suspend (m : MeterId) (x : Suspension) (s : Session) :
    s.Continues m { s with cells := s.cells.push { suspension := x } } := by
  have hprecedes : s.Precedes m { s with cells := s.cells.push { suspension := x } } :=
    ⟨Nat.le_refl _, Nat.le_refl _, s.origin_push x⟩
  have hkept {id : Nat} {y : Suspension} {v : Value}
      (hc : (s.cells.push { suspension := x })[id]? = some ⟨y, some v⟩) :
      s.cells[id]? = some ⟨y, some v⟩ := by
    rw [Array.getElem?_push] at hc
    split at hc
    · cases hc
    · exact hc
  refine ⟨⟨hprecedes, id, rfl, rfl, fun h => ⟨h.byName, fun id y v hc => ?_⟩⟩, ?_⟩
  · exact h.unkept id y v (hkept hc)
  · intro _ points hs _
    refine certified_iff.2 fun id y v hc hy => ?_
    obtain ⟨frames, b, a, hrun, hopened, hb, hclear, ha⟩ :=
      certified_iff.1 hs id y v (hkept hc) hy
    exact ⟨frames, b, a, hrun, hopened, hb, hclear, ha.trans hprecedes⟩

/-- A session that computes arguments each time they are looked at keeps no value. -/
theorem settle_byName (hs : s.sharing = .byName) (id : Nat) (v : Value) :
    (Run.settle id v).after s = s := by
  obtain ⟨meters, cells, events, sharing⟩ := s
  cases hs
  rfl

/-- A session that shares arguments keeps the value under its number. -/
theorem settle_byNeed (hs : s.sharing = .byNeed) (id : Nat) (v : Value) :
    (Run.settle id v).after s =
      { s with cells := s.cells.modify id fun c => { c with value := some v } } := by
  obtain ⟨meters, cells, events, sharing⟩ := s
  cases hs
  rfl

/-- A session precedes the one that keeps one more value. -/
theorem Precedes.settle (m : MeterId) (id : Nat) (v : Value) (s : Session) :
    s.Precedes m ((Run.settle id v).after s) := by
  cases hs : s.sharing with
  | byName =>
    rw [settle_byName hs]
    exact .refl m s
  | byNeed =>
    rw [settle_byNeed hs]
    exact ⟨Nat.le_refl _, Nat.le_refl _, fun hx => s.origin_setValue id v ▸ hx⟩

/-- To keep a value is to keep the certificate of the run that has computed it. -/
theorem Continues.settle {frames id : Nat} {x : Suspension} {v : Value}
    (hc : s.cells[id]? = some ⟨x, none⟩)
    (hrun : Eval.run frames x.meter x.demand s = .ok v s') (h : s.Continues m s') :
    s.Continues m ((Run.settle id v).after s') := by
  have hid : s'.origin id = some x := h.origin (by rw [origin, hc]; rfl)
  have hprecedes := Precedes.settle m id v s'
  cases hsharing : s'.sharing with
  | byName => rwa [settle_byName hsharing]
  | byNeed =>
    rw [settle_byNeed hsharing] at hprecedes ⊢
    refine ⟨⟨h.toPrecedes.trans hprecedes, h.opened, h.settings, h.depth, fun hs => ?_⟩, ?_⟩
    · have hname := (h.plain hs).byName
      rw [hsharing] at hname
      cases hname
    · intro hm points hs hclear
      have hs' := h.certified hm points hs hclear
      refine certified_iff.2 fun id' y w hw hy => ?_
      rw [Array.getElem?_modify] at hw
      split at hw
      · rename_i heq
        subst heq
        obtain ⟨c, hc', hset⟩ := Option.map_eq_some_iff.1 hw
        rw [origin, hc'] at hid
        obtain rfl : c.suspension = x := Option.some.inj hid
        cases hset
        exact ⟨frames, s, s', hy ▸ hrun, hm, hs, hclear, hprecedes⟩
      · obtain ⟨frames, b, a, hrun, hopened, hb, hclear, ha⟩ :=
          certified_iff.1 hs' id' y w hw hy
        exact ⟨frames, b, a, hrun, hopened, hb, hclear, ha.trans hprecedes⟩

/-- To change the depth of a meter is to spend nothing. -/
theorem meter_depth (s : Session) (k m : MeterId) (g : Nat → Nat) :
    ∃ d, (s.modifyMeter k fun a => { a with depth := g a.depth }).meter m =
      { s.meter m with depth := d } := by
  rcases meter_modifyMeter_of s k m (fun a => { a with depth := g a.depth }) with h | h
  · exact ⟨_, h⟩
  · exact ⟨_, h⟩

/-- A change of depth spends nothing. -/
theorem Precedes.depth (s : Session) (k m : MeterId) (g : Nat → Nat) :
    s.Precedes m (s.modifyMeter k fun a => { a with depth := g a.depth }) := by
  obtain ⟨d, hd⟩ := s.meter_depth k m g
  refine ⟨?_, ?_, id⟩
  · exact Nat.le_of_eq (congrArg Meter.steps hd).symm
  · exact Nat.le_of_eq (congrArg Meter.probes hd).symm

/-- A run one level deeper comes back to the level it has left. -/
theorem Continues.nest {k : MeterId}
    (h : (s.modifyMeter k fun a => { a with depth := a.depth + 1 }).Continues m s') :
    s.Continues m (s'.modifyMeter k fun a => { a with depth := a.depth - 1 }) := by
  have hdown := Precedes.depth s k m (· + 1)
  have hup := Precedes.depth s' k m (· - 1)
  obtain ⟨d, hd⟩ := s.meter_depth k m (· + 1)
  obtain ⟨d', hd'⟩ := s'.meter_depth k m (· - 1)
  refine ⟨⟨(hdown.trans h.toPrecedes).trans hup, fun hm => ?_, ?_, ?_, fun hs => ?_⟩, ?_⟩
  · rw [size_modifyMeter]
    exact h.opened (by rwa [size_modifyMeter])
  · rw [hd']
    change (s'.meter m).settings = _
    rw [h.settings, hd]
  · by_cases hm : m < s.meters.size
    · have hm' := h.opened (by rwa [size_modifyMeter])
      have hdepth := h.depth
      rw [meter_modifyMeter s _ hm] at hdepth
      rw [meter_modifyMeter s' _ hm']
      split
      · rename_i hk
        rw [if_pos hk] at hdepth
        simp [hdepth]
      · rename_i hk
        rwa [if_neg hk] at hdepth
    · have hzero : (s.meter m).depth = 0 := by simp [meter, hm]
      have hdepth := h.depth
      rw [meter_modifyMeter_unopened s k _ hm, hzero] at hdepth
      rcases meter_modifyMeter_of s' k m (fun a => { a with depth := a.depth - 1 }) with hs | hs <;>
        rw [hs, hzero]
      · exact hdepth
      · simp [hdepth]
  · exact ⟨(h.plain ⟨hs.byName, hs.unkept⟩).byName, (h.plain ⟨hs.byName, hs.unkept⟩).unkept⟩
  · intro hm points hs hclear
    have hdeeper : (s.modifyMeter k fun a => { a with depth := a.depth + 1 }).Certified m points :=
      hs.of_cells rfl hdown
    have hinside := h.certified (by rwa [size_modifyMeter]) points hdeeper fun l hl n hn hlt =>
      hclear l hl n (Nat.le_trans hdown.probes hn) (Nat.lt_of_lt_of_le hlt hup.probes)
    exact hinside.of_cells rfl hup

/-- Every step of evaluation continues the session. -/
theorem continues_lawful (m : MeterId) (frames : Nat) :
    Lawful (Continues m) (Eval.run frames) where
  record _ _ := .of_cells rfl rfl rfl rfl rfl (Nat.le_refl _) (Nat.le_refl _)
  charge k s := .modifyMeter s k (fun _ => rfl) (fun _ => rfl) (fun a => Nat.le_succ a.steps)
    fun _ => Nat.le_refl _
  probe k s := .modifyMeter s k (fun _ => rfl) (fun _ => rfl) (fun _ => Nat.le_refl _)
    fun a => Nat.le_succ a.probes
  nest h := h.nest
  suspend x s := .suspend m x s
  settle hc hrun h := h.settle hc hrun

end Session

/-- The run leaves a session that continues the one it has found. -/
class Run.Advancing (m : MeterId) {α : Type} (x : Run α) : Prop where
  keeps : Run.Keeps (Session.Continues m) x

/-- Evaluation continues the session. -/
theorem Eval.run_continues (m : MeterId) (frames : Nat) :
    KeepingCall (Session.Continues m) (run frames) :=
  run_keeps (Session.continues_lawful m) frames

/-- To continue the session is a law of evaluation. -/
theorem Eval.continues_law (m : MeterId) (frames : Nat) :
    Law (run frames) (Run.Keeps (Session.Continues m)) :=
  keeps_law (Session.continues_lawful m frames) (run_continues m frames)

namespace Run

variable {m : MeterId} {α β : Type}

instance (a : α) : Advancing m (pure a : Run α) := ⟨keeps_pure a⟩

instance (e : Failure) : Advancing m (throw e : Run α) := ⟨keeps_throw e⟩

instance Advancing.bind (x : Run α) (f : α → Run β) [hx : Advancing m x]
    [hf : ∀ a, Advancing m (f a)] : Advancing m (x >>= f) :=
  ⟨hx.keeps.bind fun a => (hf a).keeps⟩

instance (x : Except Fault α) : Advancing m (ofFault x) :=
  ⟨Eval.law_ofFault (Eval.continues_law m 0) x⟩

instance (e : Event) : Advancing m (record e) :=
  ⟨(Eval.continues_law m 0).record e⟩

instance (k : MeterId) : Advancing m (charge k) :=
  ⟨(Eval.continues_law m 0).charge k⟩

instance (k : MeterId) (t : Term) : Advancing m (checkDepth k t) :=
  ⟨(Eval.continues_law m 0).checkDepth k t⟩

instance (k : MeterId) : Advancing m (probe k) :=
  ⟨(Eval.continues_law m 0).probe k⟩

instance (x : Suspension) : Advancing m (suspend x) :=
  ⟨(Eval.continues_law m 0).suspend x⟩

end Run

namespace Eval

open Run

variable {m k : MeterId} {f : Nat}

instance (d : Demand) : Advancing m (run f k d) := ⟨run_continues m f k d⟩

instance (t : Term) (env : Env) (dims : IntervalEnv) : Advancing m (evaluate f k t env dims) := by
  unfold evaluate
  infer_instance

instance (e : Entry) : Advancing m (force (run f) e) :=
  ⟨(continues_law m f).force e⟩

instance (env : Env) (i : Int) : Advancing m (lookup (run f) env i) := by
  unfold lookup
  infer_instance

instance (a : Line) (r : Interval) : Advancing m (lineAt (run f) k a r) :=
  ⟨law_lineAt (continues_law m f) k a r⟩

instance (v w : Value) : Advancing m (apply (run f) k v w) :=
  ⟨law_apply (continues_law m f) k v w⟩

instance (v : Value) (r : Interval) : Advancing m (pathApply (run f) k v r) :=
  ⟨law_pathApply (continues_law m f) k v r⟩

instance (a : Line) (r : Interval) : Advancing m (piAt (run f) k a r) :=
  ⟨law_piAt (continues_law m f) k a r⟩

instance (a : Line) (r : Interval) : Advancing m (pathTypeAt (run f) k a r) :=
  ⟨law_pathTypeAt (continues_law m f) k a r⟩

instance (y : Carried) (r : Interval) : Advancing m (carriedAt (run f) k y r) :=
  ⟨law_carriedAt (continues_law m f) k y r⟩

instance (s t : Interval) (a : Line) (fs : List Tube) (v y : Value) :
    Advancing m (compFunctionAt (run f) k s t a fs v y) :=
  ⟨law_compFunctionAt (continues_law m f) k s t a fs v y⟩

instance (s t : Interval) (a : Line) (v y : Value) :
    Advancing m (coeFunctionAt (run f) k s t a v y) :=
  ⟨law_coeFunctionAt (continues_law m f) k s t a v y⟩

instance (a : Term) (env : Env) (dims : IntervalEnv) : Advancing m (closeFamily a env dims) :=
  ⟨law_closeFamily (continues_law m 0) a env dims⟩

instance (env : Env) (dims : IntervalEnv) (face : Face × Term) :
    Advancing m (closeTube env dims face) := by
  unfold closeTube
  infer_instance

instance (env : Env) (dims : IntervalEnv) (fs : List (Face × Term)) :
    Advancing m (closeTubes env dims fs) :=
  ⟨law_closeTubes (continues_law m 0) env dims fs⟩

instance (t : Term) (env : Env) (dims : IntervalEnv) : Advancing m (step (run f) k t env dims) :=
  ⟨law_step (continues_law m f) k t env dims⟩

instance (t : Term) (env : Env) (dims : IntervalEnv) :
    Advancing m (chargedStep (run f) k t env dims) := by
  unfold chargedStep
  infer_instance

end Eval

/-- No value that is certified was computed while the next probe was in play. -/
theorem Session.Certified.probe {m : MeterId} {points : Int → Prop} {s : Session}
    (h : s.Certified m points) :
    s.Certified m fun l => points l ∨ l = Run.probeBase - (s.meter m).probes := by
  refine ⟨fun t => t.Certified m points ∧ (t.meter m).probes ≤ (s.meter m).probes,
    ⟨h, Nat.le_refl _⟩, ?_⟩
  rintro t ⟨ht, hprobes⟩ id x v hc hx
  obtain ⟨frames, b, a, hrun, hopened, hb, hclear, ha⟩ := certified_iff.1 ht id x v hc hx
  have hba : b.Precedes m a := by
    have hcont := Eval.run_continues m frames m x.demand b
    rw [Run.after_ok hrun] at hcont
    exact hcont.toPrecedes
  have hat := Nat.le_trans ha.probes hprobes
  refine ⟨frames, b, a, hrun, hopened, ⟨hb, Nat.le_trans hba.probes hat⟩, ?_, ha⟩
  rintro l (hl | rfl) n hn hlt
  · exact hclear l hl n hn hlt
  · omega

/-! ## Comparing runs -/

/-- The failures of a run that was cut off. An argument that is not known counts as one. -/
inductive Failure.IsCut : Failure → Prop
  | nonTermination (guard : Guard) : IsCut (.nonTermination guard)
  | unknownThunk (id : Nat) : IsCut (.unknownThunk id)

namespace Session

/-- A run from the first session to the second can be compared. All that is put off meanwhile is
known beforehand. -/
structure Ready (m : MeterId) (origin : Nat → Option Suspension) (points : Int → Prop)
    (s e : Session) : Prop where
  opened : m < s.meters.size
  certified : s.Certified m points
  clear : s.Clear m points e
  known : ∀ {id x}, e.origin id = some x → origin id = some x

/-- The first session computes arguments each time they are looked at, and has spent no less on the
meter than the second. -/
structure Outspends (m : MeterId) (s s' : Session) : Prop where
  opened : m < s.meters.size
  opened' : m < s'.meters.size
  plain : s.Plain
  settings : (s'.meter m).settings = (s.meter m).settings
  depth : (s'.meter m).depth = (s.meter m).depth
  steps : (s'.meter m).steps ≤ (s.meter m).steps

variable {m : MeterId} {origin : Nat → Option Suspension} {points : Int → Prop}
  {s s' e e' : Session}

/-- To change both accounts alike. -/
theorem Outspends.modifyMeter (h : s.Outspends m s') {f : Meter → Meter}
    (hsettings : ∀ a a' : Meter, a'.settings = a.settings → (f a').settings = (f a).settings)
    (hdepth : ∀ a a' : Meter, a'.depth = a.depth → (f a').depth = (f a).depth)
    (hsteps : ∀ a a' : Meter, a'.steps ≤ a.steps → (f a').steps ≤ (f a).steps) :
    (s.modifyMeter m f).Outspends m (s'.modifyMeter m f) := by
  have hmeter := meter_modifyMeter s f h.opened (m := m)
  have hmeter' := meter_modifyMeter s' f h.opened' (m := m)
  rw [if_pos rfl] at hmeter hmeter'
  refine ⟨?_, ?_, ⟨h.plain.byName, h.plain.unkept⟩, ?_, ?_, ?_⟩
  · rw [size_modifyMeter]
    exact h.opened
  · rw [size_modifyMeter]
    exact h.opened'
  · rw [hmeter, hmeter']
    exact hsettings _ _ h.settings
  · rw [hmeter, hmeter']
    exact hdepth _ _ h.depth
  · rw [hmeter, hmeter']
    exact hsteps _ _ h.steps

/-- A run that can be compared can be so up to any point before its end. -/
theorem Ready.shorten (h : s.Ready m origin points e) (he : e'.Precedes m e) :
    s.Ready m origin points e' where
  opened := h.opened
  certified := h.certified
  clear l hl n hn hlt := h.clear l hl n hn (Nat.lt_of_lt_of_le hlt he.probes)
  known hx := h.known (he.origin hx)

/-- A run that can be compared with some points in play can be so with fewer. -/
theorem Ready.mono {points' : Int → Prop} (h : s.Ready m origin points' e)
    (hpoints : ∀ l, points l → points' l) : s.Ready m origin points e where
  opened := h.opened
  certified := h.certified.mono hpoints
  clear l hl := h.clear l (hpoints l hl)
  known := h.known

/-- A run that can be compared can be so from any point on its way. -/
theorem Ready.advance (h : s.Ready m origin points e) (hs : s.Continues m s')
    (hs' : s'.Precedes m e) : s'.Ready m origin points e := by
  have ⟨hfirst, hsecond⟩ := h.clear.mono hs.toPrecedes hs'
  exact ⟨hs.opened h.opened, hs.certified h.opened points h.certified hfirst, hsecond, h.known⟩

end Session

namespace Likeness

/-- The points of the first run. -/
def left (L : Likeness) (l : Int) : Prop :=
  ∃ l', L.Level l l'

/-- The points of the second run. -/
def right (L : Likeness) (l' : Int) : Prop :=
  ∃ l, L.Level l l'

/-- Where no probes are in play, the first run has points in scope only. -/
theorem left_nonneg {L : Likeness} (hL : L.Exact) (l : Int) (h : L.left l) : 0 ≤ l := by
  obtain ⟨l', hl | hl⟩ := h
  · exact L.fixed_nonneg l hl.1
  · rw [hL] at hl
    cases hl

/-- Where no probes are in play, the second run has points in scope only. -/
theorem right_nonneg {L : Likeness} (hL : L.Exact) (l' : Int) (h : L.right l') : 0 ≤ l' := by
  obtain ⟨l, hl | hl⟩ := h
  · exact hl.2 ▸ L.fixed_nonneg l hl.1
  · rw [hL] at hl
    cases hl

/-- A further pair of probes adds one point to the first run. -/
theorem left_insert {L : Likeness} {p p' : Int} {hp : p < 0} {hp' : p' < 0}
    {hfresh : ∀ q ∈ L.probes, q.1 ≠ p ∧ q.2 ≠ p'} (l : Int)
    (h : (L.insert p p' hp hp' hfresh).left l) : L.left l ∨ l = p := by
  obtain ⟨l', hl | hl⟩ := h
  · exact .inl ⟨l', .inl hl⟩
  · rcases List.mem_cons.1 hl with heq | hl
    · exact .inr (Prod.mk.inj heq).1
    · exact .inl ⟨l', .inr hl⟩

/-- A further pair of probes adds one point to the second run. -/
theorem right_insert {L : Likeness} {p p' : Int} {hp : p < 0} {hp' : p' < 0}
    {hfresh : ∀ q ∈ L.probes, q.1 ≠ p ∧ q.2 ≠ p'} (l' : Int)
    (h : (L.insert p p' hp hp' hfresh).right l') : L.right l' ∨ l' = p' := by
  obtain ⟨l, hl | hl⟩ := h
  · exact .inl ⟨l, .inl hl⟩
  · rcases List.mem_cons.1 hl with heq | hl
    · exact .inr (Prod.mk.inj heq).2
    · exact .inl ⟨l, .inr hl⟩

/-- Where the first run evaluates a family at a point, in whatever session it may be compared in, it
finds what the second holds in its place, unless it is cut off. -/
class Faithful (L : Likeness) : Prop where
  finds : ∀ {c : IntervalClosure} {a : Value}, L.steady c a →
    ∀ (f : Nat) (s : Session) (r : Interval),
      s.Ready L.meter L.origin L.left ((Eval.run f L.meter (.instantiateAt c r)).after s) →
      (∃ v t, Eval.run f L.meter (.instantiateAt c r) s = .ok v t ∧ L.Values v a) ∨
        ∃ e t, Eval.run f L.meter (.instantiateAt c r) s = .error e t ∧ e.IsCut

instance {L : Likeness} [hL : L.Faithful] {p p' : Int} {hp : p < 0} {hp' : p' < 0}
    {hfresh : ∀ q ∈ L.probes, q.1 ≠ p ∧ q.2 ≠ p'} : (L.insert p p' hp hp' hfresh).Faithful where
  finds hc f s r hs := by
    have hpoints (l : Int) (hl : L.left l) : (L.insert p p' hp hp' hfresh).left l := by
      obtain ⟨l', hl⟩ := hl
      exact ⟨l', hl.mono (le_insert hp hp' hfresh)⟩
    rcases hL.finds hc f s r (hs.mono hpoints) with ⟨v, t, hrun, hv⟩ | hcut
    · exact .inl ⟨v, t, hrun, hv.mono (le_insert hp hp' hfresh)⟩
    · exact .inr hcut

/-- How two runs on a meter may end. If the comparison is loose, they may fail for different
reasons. If it is strict, the second spends no more than the first and is not cut off before it. -/
inductive Outcome (m : MeterId) (loose strict : Prop) {α β : Type} (R : α → β → Prop) :
    EStateM.Result Failure Session α → EStateM.Result Failure Session β → Prop
  | ok {a : α} {b : β} {s s' : Session} :
      R a b → (strict → s.Outspends m s') → Outcome m loose strict R (.ok a s) (.ok b s')
  | error {e e' : Failure} {s s' : Session} :
      (¬ loose → e.Alike e') → (strict → s.Outspends m s') →
        Outcome m loose strict R (.error e s) (.error e' s')
  | cut {e : Failure} {s : Session} {y : EStateM.Result Failure Session β} :
      e.IsCut → Outcome m loose strict R (.error e s) y
  | cut' {x : EStateM.Result Failure Session α} {e' : Failure} {s' : Session} :
      e'.IsCut → (strict → ∃ id, e' = .unknownThunk id) →
        Outcome m loose strict R x (.error e' s')

/-- From the one session and from the other the runs end alike, provided that they can be compared
and that the first ends after so many steps. -/
def Alike (L : Likeness) (strict : Prop) (limit : Nat) {α β : Type} (R : α → β → Prop)
    (x : Run α) (s : Session) (y : Run β) (s' : Session) : Prop :=
  s.Ready L.meter L.origin L.left (x.after s) → s'.Ready L.meter L.origin' L.right (y.after s') →
    ((x.after s).meter L.meter).steps ≤ limit → (strict → s.Outspends L.meter s') →
    Outcome L.meter L.loose strict R (x s) (y s')

variable {L : Likeness} {strict : Prop} {limit : Nat} {α β γ δ : Type} {P : α → β → Prop}
  {R : γ → δ → Prop} {s s' : Session}

/-- Runs that answer at once with related answers end alike. -/
theorem Alike.pure {a : α} {b : β} (h : P a b) :
    L.Alike strict limit P (pure a : Run α) s (pure b : Run β) s' :=
  fun _ _ _ hahead => .ok h hahead

/-- Runs that fail at once end alike if their failures are alike. -/
theorem Alike.throw {e e' : Failure} (h : ¬ L.loose → e.Alike e') :
    L.Alike strict limit P (throw e : Run α) s (throw e' : Run β) s' :=
  fun _ _ _ hahead => .error h hahead

/-- Outcomes that are alike are so for every wider relation on their answers. -/
theorem Outcome.mono {m : MeterId} {loose : Prop} {P' : α → β → Prop}
    {u : EStateM.Result Failure Session α} {w : EStateM.Result Failure Session β}
    (h : Outcome m loose strict P u w) (hP : ∀ a b, P a b → P' a b) :
    Outcome m loose strict P' u w := by
  cases h with
  | ok hab hahead => exact .ok (hP _ _ hab) hahead
  | error he hahead => exact .error he hahead
  | cut he => exact .cut he
  | cut' he hstrict => exact .cut' he hstrict

/-- The first part of a run ends before the whole does. -/
theorem precedes_bind {m : MeterId} (x : Run α) {f : α → Run γ}
    (hf : ∀ a, Run.Advancing m (f a)) (s : Session) :
    (x.after s).Precedes m ((x >>= f).after s) := by
  cases hx : x s with
  | ok a t =>
    rw [Run.after_ok hx, Run.after_bind_ok hx]
    exact ((hf a).keeps t).toPrecedes
  | error e t =>
    rw [Run.after_error hx, Run.after_bind_error hx]
    exact .refl m t

/-- Runs that are alike, and go on alike. -/
theorem Alike.andThen {x : Run α} {y : Run β} {f : α → Run γ} {g : β → Run δ}
    [hxm : Run.Advancing L.meter x] [hym : Run.Advancing L.meter y]
    (hx : L.Alike strict limit P x s y s') (hfm : ∀ a, Run.Advancing L.meter (f a))
    (hgm : ∀ b, Run.Advancing L.meter (g b))
    (hf : ∀ a t b t', x s = .ok a t → y s' = .ok b t' → P a b →
      L.Alike strict limit R (f a) t (g b) t') :
    L.Alike strict limit R (x >>= f) s (y >>= g) s' := by
  intro hs hs' hlimit hahead
  have hend := precedes_bind x hfm s
  have hend' := precedes_bind y hgm s'
  have hout := hx (hs.shorten hend) (hs'.shorten hend') (Nat.le_trans hend.steps hlimit) hahead
  have hmid := hs.advance (hxm.keeps s) hend
  have hmid' := hs'.advance (hym.keeps s') hend'
  cases hxs : x s with
  | error e t =>
    rw [hxs] at hout
    rw [Run.bind_error hxs]
    cases hys : y s' with
    | error e' t' =>
      rw [hys] at hout
      rw [Run.bind_error hys]
      cases hout with
      | error he hahead => exact .error he hahead
      | cut he => exact .cut he
      | cut' he hstrict => exact .cut' he hstrict
    | ok b t' =>
      rw [hys] at hout
      cases hout with
      | cut he => exact .cut he
  | ok a t =>
    rw [hxs] at hout
    rw [Run.after_ok hxs] at hmid
    cases hys : y s' with
    | error e' t' =>
      rw [hys] at hout
      rw [Run.bind_error hys]
      cases hout with
      | cut' he hstrict => exact .cut' he hstrict
    | ok b t' =>
      rw [hys] at hout
      rw [Run.after_ok hys] at hmid'
      rw [Run.after_bind_ok hxs] at hmid hlimit
      rw [Run.after_bind_ok hys] at hmid'
      rw [Run.bind_ok hxs, Run.bind_ok hys]
      cases hout with
      | ok hab hahead => exact hf a t b t' hxs hys hab hmid hmid' hlimit hahead

/-- Runs that are alike, and go on alike by rules that are known to advance. -/
theorem Alike.bind {x : Run α} {y : Run β} {f : α → Run γ} {g : β → Run δ}
    [Run.Advancing L.meter x] [Run.Advancing L.meter y]
    [hfm : ∀ a, Run.Advancing L.meter (f a)] [hgm : ∀ b, Run.Advancing L.meter (g b)]
    (hx : L.Alike strict limit P x s y s')
    (hf : ∀ a t b t', x s = .ok a t → y s' = .ok b t' → P a b →
      L.Alike strict limit R (f a) t (g b) t') :
    L.Alike strict limit R (x >>= f) s (y >>= g) s' :=
  hx.andThen hfm hgm hf

/-- An answer to a question about syntax. -/
theorem Alike.ofFault {x : Except Fault α} {y : Except Fault β} (h : L.Answers P x y) :
    L.Alike strict limit P (Run.ofFault x) s (Run.ofFault y) s' := by
  cases h with
  | ok hab => exact .pure hab
  | error hf =>
    refine fun _ _ _ hahead => .error (fun hL => ?_) hahead
    rw [hf hL]
    exact .refl _

/-- What is recorded does not matter to runs that end alike. -/
theorem Alike.record (e e' : Event) :
    L.Alike strict limit (fun _ _ => True) (Run.record e) s (Run.record e') s' := by
  intro _ _ _ hahead
  refine .ok trivial fun hstrict => ?_
  obtain ⟨hm, hm', hplain, hsettings, hdepth, hsteps⟩ := hahead hstrict
  exact ⟨hm, hm', ⟨hplain.byName, hplain.unkept⟩, hsettings, hdepth, hsteps⟩

/-- The session after a step was charged. -/
def charged (m : MeterId) (s : Session) : Session :=
  s.modifyMeter m fun a => { a with steps := a.steps + 1 }

/-- A step that is charged is on the account. -/
theorem meter_charged {m : MeterId} (hm : m < s.meters.size) :
    (charged m s).meter m = { s.meter m with steps := (s.meter m).steps + 1 } := by
  rw [charged, Session.meter_modifyMeter s _ hm, if_pos rfl]

/-- To charge a step is to count it, and to fail if there are none left. -/
theorem charge_eq {m : MeterId} (hm : m < s.meters.size) :
    Run.charge m s =
      if (s.meter m).settings.fuel < (s.meter m).steps + 1 then
        .error (.nonTermination (.fuel (s.meter m).settings.fuel)) (charged m s)
      else .ok () (charged m s) := by
  change (if ((charged m s).meter m).steps > ((charged m s).meter m).settings.fuel then
      throw (.nonTermination (.fuel ((charged m s).meter m).settings.fuel))
    else pure () : Run Unit) (charged m s) = _
  rw [meter_charged hm]
  by_cases h : (s.meter m).settings.fuel < (s.meter m).steps + 1
  · rw [if_pos h, if_pos h]
    rfl
  · rw [if_neg h, if_neg h]
    rfl

/-- A step is charged to both, unless one of them has none left. -/
theorem Alike.charge : L.Alike strict limit
    (fun _ _ => True) (Run.charge L.meter) s (Run.charge L.meter) s' := by
  intro hs hs' _ hahead
  rw [charge_eq hs.opened, charge_eq hs'.opened]
  split
  · exact .cut (.nonTermination _)
  · rename_i hfuel
    have hahead' (hstrict : strict) :
        (charged L.meter s).Outspends L.meter (charged L.meter s') := by
      apply (hahead hstrict).modifyMeter
      · exact fun a a' h => h
      · exact fun a a' h => h
      · exact fun a a' h => Nat.succ_le_succ h
    split
    · rename_i hfuel'
      refine .cut' (.nonTermination _) fun hstrict => ?_
      obtain ⟨_, _, _, hsettings, _, hsteps⟩ := hahead hstrict
      rw [hsettings] at hfuel'
      omega
    · exact .ok trivial hahead'

/-- To check the nesting is to fail if it is too deep, and to do nothing if not. -/
theorem checkDepth_eq (m : MeterId) (t : Term) (s : Session) :
    Run.checkDepth m t s =
      if (s.meter m).settings.maxDepth < (s.meter m).depth then
        .error (.nonTermination (.depth (s.meter m).settings.maxDepth))
          { s with events := .depthLimit t :: s.events }
      else .ok () s := by
  change (if (s.meter m).depth > (s.meter m).settings.maxDepth then do
      Run.record (.depthLimit t)
      throw (.nonTermination (.depth (s.meter m).settings.maxDepth))
    else pure () : Run Unit) s = _
  by_cases h : (s.meter m).settings.maxDepth < (s.meter m).depth
  · rw [if_pos h, if_pos h]
    rfl
  · rw [if_neg h, if_neg h]
    rfl

/-- The nesting is checked in both runs, and each is cut off or goes on. -/
theorem Alike.checkDepth (t t' : Term) : L.Alike strict limit (fun _ _ => True)
    (Run.checkDepth L.meter t) s (Run.checkDepth L.meter t') s' := by
  intro _ _ _ hahead
  rw [checkDepth_eq, checkDepth_eq]
  split
  · exact .cut (.nonTermination _)
  · rename_i hdepth
    split
    · rename_i hdepth'
      refine .cut' (.nonTermination _) fun hstrict => ?_
      obtain ⟨_, _, _, hsettings, hsame, _⟩ := hahead hstrict
      rw [hsettings, hsame] at hdepth'
      exact (hdepth hdepth').elim
    · exact .ok trivial hahead

/-- The session one level deeper. -/
def deeper (m : MeterId) (s : Session) : Session :=
  s.modifyMeter m fun a => { a with depth := a.depth + 1 }

/-- The session one level up. -/
def shallower (m : MeterId) (s : Session) : Session :=
  s.modifyMeter m fun a => { a with depth := a.depth - 1 }

/-- A run that can be compared one level up can be so one level deeper. -/
theorem ready_deeper {m : MeterId} {origin : Nat → Option Suspension} {points : Int → Prop}
    {e : Session} (h : s.Ready m origin points (shallower m e)) :
    (deeper m s).Ready m origin points e := by
  have hdown := Session.Precedes.depth s m m (· + 1)
  have hup := Session.Precedes.depth e m m (· - 1)
  refine ⟨?_, h.certified.of_cells rfl hdown, ?_, h.known⟩
  · rw [deeper, Session.size_modifyMeter]
    exact h.opened
  · intro l hl n hn hlt
    have hn' := Nat.le_trans hdown.probes hn
    exact h.clear l hl n hn' (Nat.lt_of_lt_of_le hlt hup.probes)

/-- A nested run is the run from one level deeper, and back up in the end. -/
theorem nest_eq (m : MeterId) (x : Run α) (s : Session) :
    Run.nest m x s =
      match x (deeper m s) with
      | .ok a t => .ok a (shallower m t)
      | .error e t => .error e (shallower m t) :=
  rfl

/-- A nested run leaves what the run leaves, one level up. -/
theorem after_nest (m : MeterId) (x : Run α) (s : Session) :
    (Run.nest m x).after s = shallower m (x.after (deeper m s)) := by
  rw [Run.after, Run.after, nest_eq]
  cases x (deeper m s) <;> rfl

/-- Both runs go one level deeper, and come back up. -/
theorem Alike.nest {x : Run α} {y : Run β}
    (h : L.Alike strict limit P x (deeper L.meter s) y (deeper L.meter s')) :
    L.Alike strict limit P (Run.nest L.meter x) s (Run.nest L.meter y) s' := by
  have hup {t t' : Session} (ht : strict → t.Outspends L.meter t') (hstrict : strict) :
      (shallower L.meter t).Outspends L.meter (shallower L.meter t') := by
    apply (ht hstrict).modifyMeter
    · exact fun a a' h => h
    · exact fun a a' h => congrArg (· - 1) h
    · exact fun a a' h => h
  intro hs hs' hlimit hahead
  rw [after_nest] at hs hs' hlimit
  have hend := Session.Precedes.depth (x.after (deeper L.meter s)) L.meter L.meter (· - 1)
  have hdown (hstrict : strict) : (deeper L.meter s).Outspends L.meter (deeper L.meter s') := by
    apply (hahead hstrict).modifyMeter
    · exact fun a a' h => h
    · exact fun a a' h => congrArg (· + 1) h
    · exact fun a a' h => h
  have hout := h (ready_deeper hs) (ready_deeper hs') (Nat.le_trans hend.steps hlimit) hdown
  rw [nest_eq, nest_eq]
  generalize x (deeper L.meter s) = u at hout ⊢
  generalize y (deeper L.meter s') = w at hout ⊢
  cases hout with
  | ok hab hahead => exact .ok hab (hup hahead)
  | error he hahead => exact .error he (hup hahead)
  | cut he => exact .cut he
  | cut' he hstrict =>
    cases u <;> exact .cut' he hstrict

/-- The session after a probe was drawn. -/
def probed (m : MeterId) (s : Session) : Session :=
  s.modifyMeter m fun a => { a with probes := a.probes + 1 }

/-- A probe is numbered by how many were drawn before. -/
theorem probe_eq (m : MeterId) (s : Session) :
    Run.probe m s = .ok (.var (Run.probeBase - (s.meter m).probes)) (probed m s) :=
  rfl

/-- A probe is none of the points in play, and a run can be compared that has it in play. -/
theorem ready_probed {m : MeterId} {origin : Nat → Option Suspension} {points : Int → Prop}
    {e : Session} (h : s.Ready m origin points e) (he : (probed m s).Precedes m e) :
    (∀ l, points l → l ≠ Run.probeBase - (s.meter m).probes) ∧
      (probed m s).Ready m origin
        (fun l => points l ∨ l = Run.probeBase - (s.meter m).probes) e := by
  have hmeter : ((probed m s).meter m).probes = (s.meter m).probes + 1 := by
    rw [probed, Session.meter_modifyMeter s _ h.opened, if_pos rfl]
  have hcont := (Session.continues_lawful m 0).probe m s
  have hprobes := he.probes
  refine ⟨fun l hl => h.clear l hl _ (Nat.le_refl _) (by omega), ?_, ?_, ?_, h.known⟩
  · exact hcont.opened h.opened
  · exact h.certified.probe.of_cells rfl hcont.toPrecedes
  · rintro l (hl | rfl) n hn hlt
    · exact h.clear l hl n (by omega) hlt
    · omega

end Likeness

end SmoothCubical
