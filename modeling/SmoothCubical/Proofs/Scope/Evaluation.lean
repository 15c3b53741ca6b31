import SmoothCubical.Proofs.Growth
import SmoothCubical.Proofs.Scope.Values

/-!
# Evaluating in scope

Demands in scope are met by values in scope, and if the terms are in scope then no fault of syntax
is found on the way (`run_safe`). A probe is in scope only while the shape of a family is looked
at; of that shape nothing is kept but a name.

An argument may be looked at in a scope other than the one it was put off in, and its value stays
for all later looks. So a session is sound if each value that it keeps is in every scope that the
computation which was put off is in, and the evaluation of an argument is followed in all these
scopes at once.
-/

set_option autoImplicit false

namespace SmoothCubical

/-! ## Sessions and runs -/

namespace Session

/-- Each value that the session keeps is in scope wherever what was put off is. -/
def Sound (s : Session) : Prop :=
  ∀ (id : Nat) (x : Suspension) (v : Value), s.cells[id]? = some ⟨x, some v⟩ →
    ∀ S : Scope, (∀ {id x}, s.origin id = some x → S.origin id = some x) → x.In S → v.In S

/-- The second session is sound and knows what was put off in the first. -/
structure Leads (s s' : Session) : Prop where
  origin : ∀ {id x}, s.origin id = some x → s'.origin id = some x
  sound : s'.Sound

variable {s s' s'' : Session}

/-- A sound session leads to itself. -/
theorem Sound.refl (hs : s.Sound) : s.Leads s :=
  ⟨id, hs⟩

/-- A session that leads to another leads wherever that one does. -/
theorem Leads.trans (h : s.Leads s') (h' : s'.Leads s'') : s.Leads s'' :=
  ⟨fun hx => h'.origin (h.origin hx), h'.sound⟩

/-- What was in scope stays in scope. -/
theorem Leads.le (h : s.Leads s') (S : Scope) : (S.during s).Le (S.during s') :=
  ⟨id, id, id, id, h.origin⟩

/-- A session with the same arguments is as sound. -/
theorem Sound.of_cells (hs : s.Sound) (hcells : s'.cells = s.cells) : s.Leads s' := by
  have horigin : s'.origin = s.origin := by
    funext id
    rw [origin, origin, hcells]
  refine ⟨fun hx => horigin ▸ hx, ?_⟩
  intro id x v hc S hS hx
  rw [hcells] at hc
  rw [horigin] at hS
  exact hs id x v hc S hS hx

/-- What is put off is known from then on. -/
theorem Sound.push (hs : s.Sound) (x : Suspension) :
    s.Leads { s with cells := s.cells.push { suspension := x } } ∧
      origin { s with cells := s.cells.push { suspension := x } } s.cells.size = some x := by
  refine ⟨⟨s.origin_push x, ?_⟩, s.origin_push_self x⟩
  intro id y v hc S hS hy
  simp only [Array.getElem?_push] at hc
  split at hc
  · cases hc
  · exact hs id y v hc S (fun hz => hS (s.origin_push x hz)) hy

/-- A value may be kept if it is in scope wherever what was put off is. -/
theorem Sound.setValue (hs : s.Sound) {id : Nat} {x : Suspension} {v : Value}
    (hid : s.origin id = some x)
    (hv : ∀ S : Scope, (∀ {id x}, s.origin id = some x → S.origin id = some x) →
      x.In S → v.In S) :
    s.Leads { s with cells := s.cells.modify id fun c => { c with value := some v } } := by
  have horigin := s.origin_setValue id v
  refine ⟨fun hy => horigin ▸ hy, ?_⟩
  intro id' y w hc S hS hy
  rw [horigin] at hS
  simp only [Array.getElem?_modify] at hc
  split at hc
  · rename_i heq
    subst heq
    obtain ⟨c, hc, hset⟩ := Option.map_eq_some_iff.1 hc
    rw [origin, hc] at hid
    obtain rfl : c.suspension = x := Option.some.inj hid
    cases hset
    exact hv S hS hy
  · exact hs id' y w hc S hS hy

/-- To keep the value of an argument leads on if the value is in every scope that the argument is
in. -/
theorem Sound.settle (hs : s.Sound) {id : Nat} {x : Suspension} {v : Value}
    (hid : s.origin id = some x)
    (hv : ∀ S : Scope, (∀ {id x}, s.origin id = some x → S.origin id = some x) →
      x.In S → v.In S) : s.Leads ((Run.settle id v).after s) := by
  have hkept := hs.setValue hid hv
  obtain ⟨meters, cells, events, sharing⟩ := s
  cases sharing with
  | byNeed => exact hkept
  | byName => exact hs.refl

end Session

/-- The failures that a run may end with. Faults of syntax are found only if terms may be out of
scope, and no argument is unknown. -/
def Failure.AllowedIf (lax : Prop) : Failure → Prop
  | .fault _ => lax
  | .unknownThunk _ => False
  | _ => True

/-- From the session, the run leads to a sound session, and ends with an answer as described or
with a failure that is allowed. -/
def Run.Safe {α : Type} (lax : Prop) (P : Session → α → Prop) (x : Run α) (s : Session) : Prop :=
  match x s with
  | .ok a s' => s.Leads s' ∧ P s' a
  | .error e s' => s.Leads s' ∧ e.AllowedIf lax

namespace Run

variable {α β : Type} {lax : Prop} {P : Session → α → Prop} {Q : Session → β → Prop}
  {s : Session}

/-- To answer at once is safe in a sound session. -/
theorem safe_pure (hs : s.Sound) {a : α} (h : P s a) : Safe lax P (pure a : Run α) s :=
  ⟨hs.refl, h⟩

/-- To fail at once is safe in a sound session if the failure is allowed. -/
theorem safe_throw (hs : s.Sound) {e : Failure} (h : e.AllowedIf lax) :
    Safe lax P (throw e : Run α) s :=
  ⟨hs.refl, h⟩

/-- Safe runs can be sequenced, the second from any session that the first leads to. -/
theorem Safe.bind {x : Run α} {f : α → Run β} (hx : Safe lax P x s)
    (hf : ∀ a s', s.Leads s' → P s' a → Safe lax Q (f a) s') : Safe lax Q (x >>= f) s := by
  unfold Safe at hx ⊢
  change match EStateM.bind x f s with
    | .ok b s' => _
    | .error e s' => _
  unfold EStateM.bind
  cases hxs : x s with
  | error e t =>
    rw [hxs] at hx
    exact hx
  | ok a t =>
    rw [hxs] at hx
    have hft := hf a t hx.1 hx.2
    unfold Safe at hft
    dsimp only
    cases hfs : f a t with
    | error e u =>
      rw [hfs] at hft
      exact ⟨hx.1.trans hft.1, hft.2⟩
    | ok b u =>
      rw [hfs] at hft
      exact ⟨hx.1.trans hft.1, hft.2⟩

/-- A safe run is so for every weaker condition on its answer. -/
theorem Safe.mono {P' : Session → α → Prop} {x : Run α} (hx : Safe lax P x s)
    (h : ∀ s' a, P s' a → P' s' a) : Safe lax P' x s := by
  unfold Safe at hx ⊢
  cases hxs : x s with
  | error e t =>
    rw [hxs] at hx
    exact hx
  | ok a t =>
    rw [hxs] at hx
    exact ⟨hx.1, h t a hx.2⟩

/-- A safe run that answers does so as it should, in a session that it leads to. -/
theorem Safe.ok {x : Run α} {s' : Session} {a : α} (h : Safe lax P x s) (hx : x s = .ok a s') :
    s.Leads s' ∧ P s' a := by
  unfold Safe at h
  rw [hx] at h
  exact h

/-- A safe run that fails does so as is allowed, in a session that it leads to. -/
theorem Safe.error {x : Run α} {s' : Session} {e : Failure} (h : Safe lax P x s)
    (hx : x s = .error e s') : s.Leads s' ∧ e.AllowedIf lax := by
  unfold Safe at h
  rw [hx] at h
  exact h

/-- A safe run leads to the session that it leaves. -/
theorem Safe.after {x : Run α} (h : Safe lax P x s) : s.Leads (x.after s) := by
  unfold Run.after
  cases hx : x s with
  | ok a s' => exact (h.ok hx).1
  | error e s' => exact (h.error hx).1

/-- What a run answers is what it answers from this session. -/
theorem Safe.tracked {x : Run α} (hx : Safe lax P x s) :
    Safe lax (fun s' a => P s' a ∧ x s = .ok a s') x s := by
  unfold Safe at hx ⊢
  cases hxs : x s with
  | error e t =>
    rw [hxs] at hx
    exact hx
  | ok a t =>
    rw [hxs] at hx
    exact ⟨hx.1, hx.2, rfl⟩

/-- A question about syntax that is answered if terms are in scope. -/
theorem safe_ofFault (hs : s.Sound) {x : Except Fault α} (h : ∀ a, x = .ok a → P s a)
    (hx : lax ∨ ∃ a, x = .ok a) : Safe lax P (ofFault x) s := by
  cases x with
  | ok a => exact safe_pure hs (h a rfl)
  | error f =>
    rcases hx with hlax | ⟨a, ha⟩
    · exact safe_throw hs hlax
    · cases ha

/-- To look at a sound session is safe. -/
theorem safe_get (hs : s.Sound) :
    Safe lax (fun s' a => s = s' ∧ s = a) (get : Run Session) s :=
  ⟨hs.refl, rfl, rfl⟩

/-- A change of the session that does not touch the arguments. -/
theorem safe_modify (hs : s.Sound) {f : Session → Session} (hf : (f s).cells = s.cells) :
    Safe lax (fun _ _ => True) (modify f : Run Unit) s :=
  ⟨hs.of_cells hf, trivial⟩

/-- To record an event is safe. -/
theorem safe_record (hs : s.Sound) (e : Event) : Safe lax (fun _ _ => True) (record e) s :=
  safe_modify hs rfl

/-- To charge a step is safe, since a guard is allowed to cut the run off. -/
theorem safe_charge (hs : s.Sound) (m : MeterId) :
    Safe lax (fun _ _ => True) (charge m) s := by
  apply (safe_modify hs rfl).bind
  intro _ s₁ hs₁ _
  apply (safe_get hs₁.sound).bind
  intro a s₂ hs₂ _
  dsimp only
  split
  · exact safe_throw hs₂.sound trivial
  · exact safe_pure hs₂.sound trivial

/-- To check the nesting is safe, since a guard is allowed to cut the run off. -/
theorem safe_checkDepth (hs : s.Sound) (m : MeterId) (t : Term) :
    Safe lax (fun _ _ => True) (checkDepth m t) s := by
  apply (safe_get hs).bind
  intro a s₁ hs₁ _
  dsimp only
  split
  · apply (safe_record hs₁.sound _).bind
    intro _ s₂ hs₂ _
    exact safe_throw hs₂.sound trivial
  · exact safe_pure hs₁.sound trivial

/-- To draw a probe is safe. -/
theorem safe_probe (hs : s.Sound) (m : MeterId) :
    Safe lax (fun _ _ => True) (probe m) s := by
  apply (safe_get hs).bind
  intro a s₁ hs₁ _
  apply (safe_modify hs₁.sound rfl).bind
  intro _ s₂ hs₂ _
  exact safe_pure hs₂.sound trivial

/-- A nested run is safe if the run is, in every session on the way. -/
theorem Safe.nest {m : MeterId} {x : Run α} (hs : s.Sound)
    (hP : ∀ s₁ s₂ a, s₁.Leads s₂ → P s₁ a → P s₂ a)
    (hx : ∀ s', s.Leads s' → Safe lax P x s') : Safe lax P (nest m x) s := by
  have hdeeper : s.Leads (s.modifyMeter m fun a => { a with depth := a.depth + 1 }) :=
    hs.of_cells rfl
  have hin := hx _ hdeeper
  unfold Safe at hin ⊢
  unfold Run.nest
  cases hxs : x (s.modifyMeter m fun a => { a with depth := a.depth + 1 }) with
  | error e t =>
    rw [hxs] at hin
    have hup : t.Leads (t.modifyMeter m fun a => { a with depth := a.depth - 1 }) :=
      hin.1.sound.of_cells rfl
    exact ⟨(hdeeper.trans hin.1).trans hup, hin.2⟩
  | ok a t =>
    rw [hxs] at hin
    have hup : t.Leads (t.modifyMeter m fun a => { a with depth := a.depth - 1 }) :=
      hin.1.sound.of_cells rfl
    exact ⟨(hdeeper.trans hin.1).trans hup, hP _ _ _ hup hin.2⟩

/-- To open a meter is safe. -/
theorem safe_openMeter (hs : s.Sound) (settings : Settings) :
    Safe lax (fun _ _ => True) (openMeter settings) s := by
  apply (safe_get hs).bind
  intro a s₁ hs₁ _
  apply (safe_modify hs₁.sound rfl).bind
  intro _ s₂ hs₂ _
  exact safe_pure hs₂.sound trivial

/-- What is put off in scope is an argument in scope. -/
theorem safe_suspend {S : Scope} (hs : s.Sound) {x : Suspension} (hx : x.In (S.during s)) :
    Safe lax (fun s' e => e.In (S.during s')) (suspend x) s := by
  obtain ⟨hleads, hknown⟩ := hs.push x
  refine ⟨hleads, ?_⟩
  have hx' : x.In (S.during { s with cells := s.cells.push { suspension := x } }) :=
    ⟨hx.toClosed.mono (hleads.le S), hx.meter⟩
  exact hx'.entry hknown

end Run

/-! ## The rules -/

namespace Eval

open Run

/-- The value is in scope of the session. -/
def InScope (S : Scope) (s : Session) (v : Value) : Prop :=
  v.In (S.during s)

/-- Demands in scope are met in scope, by any meter in scope. -/
def SafeCall (call : Call) : Prop :=
  ∀ {S : Scope} {s : Session} {m : MeterId} {d : Demand}, s.Sound → S.meter m →
    d.In (S.during s) → Safe S.lax (InScope S) (call m d) s

section Rules

variable {call : Call} (hcall : SafeCall call) {S : Scope} {s : Session} {m : MeterId}
include hcall

/-- To force an entry in scope is safe and finds a value in scope. -/
theorem safe_force (hs : s.Sound) {e : Entry} (he : e.In (S.during s)) :
    Safe S.lax (InScope S) (force call e) s := by
  cases e with
  | value v =>
    cases he with
    | value hv => exact safe_pure hs hv
  | thunk id =>
    obtain ⟨x, hid, hx⟩ := he.suspension
    obtain ⟨⟨y, value⟩, hc, hy⟩ := Option.map_eq_some_iff.1 hid
    obtain rfl : y = x := hy
    apply (safe_get hs).bind
    rintro _ _ - ⟨rfl, rfl⟩
    rw [hc]
    cases value with
    | some v => exact safe_pure hs (hs id y v hc _ (fun h => h) hx)
    | none =>
      have hdemand (T : Scope) (hT : y.In (T.during s)) :
          Safe T.lax (InScope T) (call y.meter y.demand) s :=
        hcall hs hT.meter (.evaluate hT.toClosed)
      apply (hdemand S hx).tracked.bind
      rintro v s₁ hs₁ ⟨hv, heq⟩
      have hkept := hs₁.sound.settle (hs₁.origin hid) (v := v) fun T hT hy => by
        -- The computation referred to nothing that was put off while it ran.
        have hearlier : y.In (T.during s) :=
          hy.restrict (fun h => hT (hs₁.origin h)) hx
        have hrun := hdemand T hearlier
        unfold Safe at hrun
        rw [heq] at hrun
        exact hrun.2.mono (Scope.during_le hT)
      have hsettle : Safe S.lax (fun s' _ => s₁.Leads s') (settle id v) s₁ := ⟨hkept, hkept⟩
      apply hsettle.bind
      intro _ s₂ hs₂ _
      exact safe_pure hs₂.sound (hv.mono (hs₂.le S))

/-- To look a family in scope up at a point in scope is safe. -/
theorem safe_lineAt (hs : s.Sound) (hm : S.meter m) {a : Line} (ha : a.In (S.during s))
    {r : Interval} (hr : r.On S.point) : Safe S.lax (InScope S) (lineAt call m a r) s := by
  cases ha with
  | constant hv => exact safe_pure hs hv
  | varying hc => exact hcall hs hm (.instantiateAt hc hr)

/-- To apply a function in scope to an argument in scope is safe. -/
theorem safe_apply (hs : s.Sound) (hm : S.meter m) {f v : Value} (hf : f.In (S.during s))
    (hv : v.In (S.during s)) : Safe S.lax (InScope S) (apply call m f v) s := by
  cases hf with
  | lam hb => exact hcall hs hm (.instantiate hb (.value hv))
  | untyped hn => exact safe_pure hs (.untyped (.app hn hv))
  | @typed n a hn ha =>
    cases ha with
    | pi _ hb =>
      apply (hcall hs hm (.instantiate hb (.value hv))).bind
      intro ty s₁ hs₁ hty
      exact safe_pure hs₁.sound (.typed ((Neutral.In.app hn hv).mono (hs₁.le S)) hty)
    | _ => exact safe_pure hs (.untyped (.app hn hv))
  | _ => exact safe_throw hs trivial

omit hcall in
/-- A stuck path in scope is in scope at each point. -/
theorem stuckPathAt_in {n : Neutral} {a l r : Value} (hn : n.In S) (ha : a.In S) (hl : l.In S)
    (hr : r.In S) {k : Interval} (hk : k.On S.point) : (stuckPathAt n a l r k).In S := by
  cases k with
  | zero => exact hl
  | one => exact hr
  | var level => exact .typed (.pathApp hn hk) ha

/-- To take a path in scope at a point in scope is safe. -/
theorem safe_pathApply (hs : s.Sound) (hm : S.meter m) {p : Value} (hp : p.In (S.during s))
    {r : Interval} (hr : r.On S.point) : Safe S.lax (InScope S) (pathApply call m p r) s := by
  cases hp with
  | pathLam hb => exact hcall hs hm (.instantiateAt hb hr)
  | untyped hn => exact safe_pure hs (.untyped (.pathApp hn hr))
  | typed hn ha =>
    cases ha with
    | path ha hl hr' => exact safe_pure hs (stuckPathAt_in hn ha hl hr' hr)
    | smoothPath ha hl hr' => exact safe_pure hs (stuckPathAt_in hn ha hl hr' hr)
    | _ => exact safe_pure hs (.untyped (.pathApp hn hr))
  | _ => exact safe_throw hs trivial

/-- To look up a function type in a family in scope is safe, and its parts are in scope. -/
theorem safe_piAt (hs : s.Sound) (hm : S.meter m) {a : Line} (ha : a.In (S.during s))
    {r : Interval} (hr : r.On S.point) :
    Safe S.lax (fun s' p => p.1.In (S.during s') ∧ p.2.In (S.during s')) (piAt call m a r) s := by
  apply (safe_lineAt hcall hs hm ha hr).bind
  intro ty s₁ hs₁ hty
  cases hty with
  | pi ha hb => exact safe_pure hs₁.sound ⟨ha, hb⟩
  | _ => exact safe_throw hs₁.sound trivial

/-- To look up a path type in a family in scope is safe, and its parts are in scope. -/
theorem safe_pathTypeAt (hs : s.Sound) (hm : S.meter m) {a : Line} (ha : a.In (S.during s))
    {r : Interval} (hr : r.On S.point) :
    Safe S.lax (fun s' p => p.1.In (S.during s') ∧ p.2.1.In (S.during s') ∧
      p.2.2.In (S.during s')) (pathTypeAt call m a r) s := by
  apply (safe_lineAt hcall hs hm ha hr).bind
  intro ty s₁ hs₁ hty
  cases hty with
  | path ha hl hr => exact safe_pure hs₁.sound ⟨ha, hl, hr⟩
  | smoothPath ha hl hr => exact safe_pure hs₁.sound ⟨ha, hl, hr⟩
  | _ => exact safe_throw hs₁.sound trivial

/-- To find a moved argument in scope at a point in scope is safe. -/
theorem safe_carriedAt (hs : s.Sound) (hm : S.meter m) {y : Carried} (hy : y.In (S.during s))
    {r : Interval} (hr : r.On S.point) : Safe S.lax (InScope S) (carriedAt call m y r) s := by
  cases hy with
  | mk hd hstart hv => exact hcall hs hm (.coe hstart hr hd hv)

/-- The shape of a family is looked at at a probe, which is in scope only there. -/
theorem safe_shape_bind {α : Type} {P : Session → α → Prop} {f : Value → Run α} (hs : s.Sound)
    (hm : S.meter m) {a : Line} (ha : a.In (S.during s))
    (hf : ∀ shape s', s.Leads s' → Safe S.lax P (f shape) s') :
    Safe S.lax P (probe m >>= fun r => lineAt call m a r >>= f) s := by
  apply (safe_probe hs m).bind
  intro r s₁ hs₁ _
  have ha₁ : a.In ((S.probing r).during s₁) :=
    (ha.mono (hs₁.le S)).mono ((S.during s₁).le_probing r)
  apply (safe_lineAt hcall (S := S.probing r) hs₁.sound hm ha₁ (S.on_probing r)).bind
  intro shape s₂ hs₂ _
  exact hf shape s₂ (hs₁.trans hs₂)

omit hcall in
/-- The tube of the first partial element that is given everywhere is one of the tubes. -/
theorem firstTrue?_in {faces : List Tube} (h : S.Tubes faces) {u : IntervalClosure}
    (hu : firstTrue? faces = some u) : u.In S := by
  induction faces with
  | nil => cases hu
  | cons face rest ih =>
    unfold firstTrue? at hu
    split at hu
    · cases hu
      exact (h face List.mem_cons_self).2
    · exact ih (fun f hf => h f (List.mem_cons_of_mem face hf)) hu

omit hcall in
/-- Of partial elements in scope, those on possible faces are in scope. -/
theorem possible_in {faces : List Tube} (h : S.Tubes faces) : S.Tubes (possible faces) :=
  fun face hface => h face (List.mem_filter.1 hface).1

/-- To compose in scope is safe. -/
theorem safe_comp (hs : s.Sound) (hm : S.meter m) {r r' : Interval} (hr : r.On S.point)
    (hr' : r'.On S.point) {a : Line} (ha : a.In (S.during s)) {faces : List Tube}
    (hfaces : (S.during s).Tubes faces) {v : Value} (hv : v.In (S.during s)) :
    Safe S.lax (InScope S) (comp call m r r' a faces v) s := by
  unfold comp
  split
  · rename_i u hu
    exact hcall hs hm (.instantiateAt (firstTrue?_in hfaces hu) hr')
  · split
    · exact safe_pure hs hv
    · apply safe_shape_bind hcall hs hm ha
      intro shape s₁ hs₁
      have hle := hs₁.le S
      have hfaces₁ := (possible_in hfaces).mono hle
      split
      · exact safe_pure hs₁.sound (.lam (.comp hm hr hr' (ha.mono hle) hfaces₁.covers
          hfaces₁.bodies (hv.mono hle)))
      · exact safe_pure hs₁.sound (.pathLam (.comp hm hr hr' (ha.mono hle) hfaces₁.covers
          hfaces₁.bodies (hv.mono hle)))
      · exact safe_pure hs₁.sound (.pathLam (.comp hm hr hr' (ha.mono hle) hfaces₁.covers
          hfaces₁.bodies (hv.mono hle)))
      · apply (safe_record hs₁.sound _).bind
        intro _ s₂ hs₂ _
        have hle₂ := (hs₁.trans hs₂).le S
        apply (safe_lineAt hcall hs₂.sound hm (ha.mono hle₂) hr').bind
        intro ty s₃ hs₃ hty
        have hle₃ := ((hs₁.trans hs₂).trans hs₃).le S
        have hfaces₃ := (possible_in hfaces).mono hle₃
        exact safe_pure hs₃.sound (.typed (.comp hr hr' (ha.mono hle₃) hfaces₃.covers
          hfaces₃.bodies (hv.mono hle₃)) hty)

/-- To coerce in scope is safe. -/
theorem safe_coe (hs : s.Sound) (hm : S.meter m) {r r' : Interval} (hr : r.On S.point)
    (hr' : r'.On S.point) {a : Line} (ha : a.In (S.during s)) {v : Value}
    (hv : v.In (S.during s)) : Safe S.lax (InScope S) (coe call m r r' a v) s := by
  unfold coe
  split
  · exact safe_pure hs hv
  · split
    · exact safe_pure hs hv
    · apply safe_shape_bind hcall hs hm ha
      intro shape s₁ hs₁
      have hle := hs₁.le S
      have hpath : InScope S s₁ (.pathLam "k" (.comp m r r' a [] v)) :=
        .pathLam (.comp hm hr hr' (ha.mono hle) nofun nofun (hv.mono hle))
      split
      · exact safe_pure hs₁.sound (hv.mono hle)
      · exact safe_pure hs₁.sound (.lam (.coe hm hr hr' (ha.mono hle) (hv.mono hle)))
      · exact safe_pure hs₁.sound hpath
      · exact safe_pure hs₁.sound hpath
      · apply (safe_record hs₁.sound _).bind
        intro _ s₂ hs₂ _
        have hle₂ := (hs₁.trans hs₂).le S
        apply (safe_lineAt hcall hs₂.sound hm (ha.mono hle₂) hr').bind
        intro ty s₃ hs₃ hty
        have hle₃ := ((hs₁.trans hs₂).trans hs₃).le S
        exact safe_pure hs₃.sound (.typed (.coe hr hr' (ha.mono hle₃) (hv.mono hle₃)) hty)

omit hcall in
/-- An argument in scope that is moved along the domains of a family in scope is in scope. -/
theorem carry_in (hm : S.meter m) {a : Line} (ha : a.In S) (flag : Bool) {r : Interval}
    (hr : r.On S.point) {y : Value} (hy : y.In S) : (carry m a flag r y).In S :=
  .mk (.varying (.domain hm ha)) hr hy

/-- To apply a composite of functions in scope is safe. -/
theorem safe_compFunctionAt (hs : s.Sound) (hm : S.meter m) {r r' : Interval}
    (hr : r.On S.point) (hr' : r'.On S.point) {a : Line} (ha : a.In (S.during s))
    {faces : List Tube} (hfaces : (S.during s).Tubes faces) {v y : Value}
    (hv : v.In (S.during s)) (hy : y.In (S.during s)) :
    Safe S.lax (InScope S) (compFunctionAt call m r r' a faces v y) s := by
  have hcarry := carry_in (S := S.during s) hm ha a.isConstant hr' hy
  apply (safe_carriedAt hcall hs hm hcarry hr).bind
  intro x s₁ hs₁ hx
  apply (safe_apply hcall hs₁.sound hm (hv.mono (hs₁.le S)) hx).bind
  intro start s₂ hs₂ hstart
  have hle := (hs₁.trans hs₂).le S
  refine hcall hs₂.sound hm (.comp hr hr' (.varying (.codomain hm (ha.mono hle)
    (hcarry.mono hle))) ?_ hstart)
  intro face hface
  obtain ⟨f, hf, rfl⟩ := List.mem_map.1 hface
  have hin := hfaces.mono hle f hf
  exact ⟨hin.1, .app hm hin.2 (hcarry.mono hle)⟩

/-- To apply a function that was moved in scope is safe. -/
theorem safe_coeFunctionAt (hs : s.Sound) (hm : S.meter m) {r r' : Interval}
    (hr : r.On S.point) (hr' : r'.On S.point) {a : Line} (ha : a.In (S.during s)) {v y : Value}
    (hv : v.In (S.during s)) (hy : y.In (S.during s)) :
    Safe S.lax (InScope S) (coeFunctionAt call m r r' a v y) s := by
  have hcarry := carry_in (S := S.during s) hm ha false hr' hy
  apply (safe_carriedAt hcall hs hm hcarry hr).bind
  intro x s₁ hs₁ hx
  apply (safe_apply hcall hs₁.sound hm (hv.mono (hs₁.le S)) hx).bind
  intro start s₂ hs₂ hstart
  have hle := (hs₁.trans hs₂).le S
  exact hcall hs₂.sound hm (.coe hr hr' (.varying (.codomain hm (ha.mono hle)
    (hcarry.mono hle))) hstart)

/-- To take a composite of paths in scope at a point in scope is safe. -/
theorem safe_compPathAt (hs : s.Sound) (hm : S.meter m) {r r' : Interval} (hr : r.On S.point)
    (hr' : r'.On S.point) {a : Line} (ha : a.In (S.during s)) {faces : List Tube}
    (hfaces : (S.during s).Tubes faces) {v : Value} (hv : v.In (S.during s)) {k : Interval}
    (hk : k.On S.point) : Safe S.lax (InScope S) (compPathAt call m r r' a faces v k) s := by
  apply (safe_pathApply hcall hs hm hv hk).bind
  intro start s₁ hs₁ hstart
  have hle := hs₁.le S
  refine hcall hs₁.sound hm (.comp hr hr' (.varying (.element hm (ha.mono hle))) ?_ hstart)
  intro face hface
  rcases List.mem_append.1 hface with hface | hface
  · obtain ⟨f, hf, rfl⟩ := List.mem_map.1 hface
    have hin := hfaces.mono hle f hf
    exact ⟨hin.1, .pathApp hm hin.2 hk⟩
  · simp only [List.mem_cons, List.not_mem_nil, or_false] at hface
    rcases hface with rfl | rfl
    · exact ⟨Scope.covers_of_on (Cofibration.on_eq hk (.inl rfl)), .left hm (ha.mono hle)⟩
    · exact ⟨Scope.covers_of_on (Cofibration.on_eq hk (.inr rfl)), .right hm (ha.mono hle)⟩

/-- To instantiate an abstraction in scope by an entry in scope is safe. -/
theorem safe_instantiate (hs : s.Sound) (hm : S.meter m) {c : Closure} (hc : c.In (S.during s))
    {e : Entry} (he : e.In (S.during s)) :
    Safe S.lax (InScope S) (instantiate call m c e) s := by
  cases hc with
  | body hentries hpoints hterm =>
    refine hcall hs hm (.evaluate ⟨?_, hpoints, hterm⟩)
    intro e' he'
    rcases List.mem_cons.1 he' with rfl | he'
    · exact he
    · exact hentries e' he'
  | comp hm' hr hr' ha hφs hus hv =>
    apply (safe_force hcall hs he).bind
    intro y s₁ hs₁ hy
    have hle := hs₁.le S
    have hfaces : (S.during s).Tubes _ := fun f hf => ⟨hφs f hf, hus f hf⟩
    exact safe_compFunctionAt hcall hs₁.sound hm' hr hr' (ha.mono hle) (hfaces.mono hle)
      (hv.mono hle) hy
  | coe hm' hr hr' ha hv =>
    apply (safe_force hcall hs he).bind
    intro y s₁ hs₁ hy
    have hle := hs₁.le S
    exact safe_coeFunctionAt hcall hs₁.sound hm' hr hr' (ha.mono hle) (hv.mono hle) hy

/-- To instantiate an interval abstraction in scope at a point in scope is safe. -/
theorem safe_instantiateAt (hs : s.Sound) (hm : S.meter m) {c : IntervalClosure}
    (hc : c.In (S.during s)) {r : Interval} (hr : r.On S.point) :
    Safe S.lax (InScope S) (instantiateAt call m c r) s := by
  cases hc with
  | body hentries hpoints hterm =>
    refine hcall hs hm (.evaluate ⟨hentries, ?_, hterm⟩)
    intro r' hr'
    rcases List.mem_cons.1 hr' with rfl | hr'
    · exact hr
    · exact hpoints r' hr'
  | choice hu hv hw =>
    cases r with
    | zero => exact safe_pure hs hu
    | one => exact safe_pure hs hv
    | var level => exact safe_pure hs hw
  | domain hm' ha =>
    apply (safe_piAt hcall hs hm' ha hr).bind
    intro p s₁ hs₁ hp
    exact safe_pure hs₁.sound hp.1
  | codomain hm' ha hy =>
    apply (safe_piAt hcall hs hm' ha hr).bind
    intro p s₁ hs₁ hp
    apply (safe_carriedAt hcall hs₁.sound hm' (hy.mono (hs₁.le S)) hr).bind
    intro y s₂ hs₂ hy
    exact hcall hs₂.sound hm' (.instantiate (hp.2.mono (hs₂.le S)) (.value hy))
  | element hm' ha =>
    apply (safe_pathTypeAt hcall hs hm' ha hr).bind
    intro p s₁ hs₁ hp
    exact safe_pure hs₁.sound hp.1
  | left hm' ha =>
    apply (safe_pathTypeAt hcall hs hm' ha hr).bind
    intro p s₁ hs₁ hp
    exact safe_pure hs₁.sound hp.2.1
  | right hm' ha =>
    apply (safe_pathTypeAt hcall hs hm' ha hr).bind
    intro p s₁ hs₁ hp
    exact safe_pure hs₁.sound hp.2.2
  | app hm' hu hy =>
    apply (hcall hs hm' (.instantiateAt hu hr)).bind
    intro f s₁ hs₁ hf
    apply (safe_carriedAt hcall hs₁.sound hm' (hy.mono (hs₁.le S)) hr).bind
    intro y s₂ hs₂ hy
    exact safe_apply hcall hs₂.sound hm' (hf.mono (hs₂.le S)) hy
  | pathApp hm' hu hk =>
    apply (hcall hs hm' (.instantiateAt hu hr)).bind
    intro p s₁ hs₁ hp
    exact safe_pathApply hcall hs₁.sound hm' hp hk
  | comp hm' hr₁ hr₂ ha hφs hus hv =>
    exact safe_compPathAt hcall hs hm' hr₁ hr₂ ha (fun f hf => ⟨hφs f hf, hus f hf⟩) hv hr

omit hcall in
/-- To close a family in scope is safe, and the result is in scope. -/
theorem safe_closeFamily (hs : s.Sound) {a : Term} {env : Env} {dims : IntervalEnv}
    (hentries : ∀ e ∈ env, e.In (S.during s)) (hpoints : ∀ r ∈ dims, r.On S.point)
    (ha : S.Scoped env.length (dims.length + 1) a) :
    Safe S.lax (fun s' line => line.In (S.during s')) (closeFamily a env dims) s := by
  have hmentions : Safe S.lax (fun s' (_ : Bool) => s.Leads s')
      (ofFault (a.mentions 0)) s := by
    apply safe_ofFault hs
    · intro b _
      exact hs.refl
    · exact ha.imp id fun ha => Term.mentions_answered (Term.isWhole_of_isScoped ha) 0
  apply hmentions.bind
  intro moves s₁ hs₁ _
  have hbody : IntervalClosure.In (S.during s) (.body env dims a) := .body hentries hpoints ha
  exact safe_pure hs₁.sound (.varying (hbody.mono (hs₁.le S)))

omit hcall in
/-- To close partial elements in scope is safe, and the results are in scope. -/
theorem safe_closeTubes (hs : s.Sound) {env : Env} {dims : IntervalEnv}
    (hentries : ∀ e ∈ env, e.In (S.during s)) (hpoints : ∀ r ∈ dims, r.On S.point)
    {fs : List (Face × Term)} (hfs : S.ScopedBranches env.length dims.length fs) :
    Safe S.lax (fun s' tubes => (S.during s').Tubes tubes) (closeTubes env dims fs) s := by
  induction fs generalizing s with
  | nil => exact safe_pure hs nofun
  | cons face rest ih =>
    obtain ⟨φ, u⟩ := face
    obtain ⟨hφ, hu, hrest⟩ := Scope.scopedBranches_cons.1 hfs
    have hcof : Safe S.lax (fun _ c => S.Covers c) (ofFault (φ.cofibration dims)) s := by
      apply safe_ofFault hs
      · intro c hc
        rcases hφ with hlax | hφ
        · exact Scope.covers_cofibration hlax hpoints hc
        · obtain ⟨c', hc', hon⟩ := Face.cofibration_answered hpoints hφ
          rw [hc] at hc'
          cases hc'
          exact Scope.covers_of_on hon
      · refine hφ.imp id fun hφ => ?_
        obtain ⟨c, hc, _⟩ := Face.cofibration_answered hpoints hφ
        exact ⟨c, hc⟩
    have hbody : IntervalClosure.In (S.during s) (.body env dims u) := .body hentries hpoints hu
    have htube : Safe S.lax (fun s' tube => S.Covers tube.1 ∧ tube.2.In (S.during s'))
        (closeTube env dims (φ, u)) s := by
      apply hcof.bind
      intro c s₁ hs₁ hc
      exact safe_pure hs₁.sound ⟨hc, hbody.mono (hs₁.le S)⟩
    apply htube.bind
    intro tube s₁ hs₁ htube
    apply (ih hs₁.sound (fun e he => (hentries e he).mono (hs₁.le S)) hrest).bind
    intro tubes s₂ hs₂ htubes
    refine safe_pure hs₂.sound fun face hface => ?_
    rcases List.mem_cons.1 hface with rfl | hface
    · exact ⟨htube.1, htube.2.mono (hs₂.le S)⟩
    · exact htubes face hface

omit hcall in
/-- A dimension in scope is resolved safely, to a point in scope. -/
theorem safe_resolve (hs : s.Sound) {dims : IntervalEnv} (hpoints : ∀ r ∈ dims, r.On S.point)
    {d : Dim} (hd : S.ScopedDim dims.length d) :
    Safe S.lax (fun _ r => r.On S.point) (ofFault (dims.resolve d)) s := by
  apply safe_ofFault hs
  · intro r hr
    exact IntervalEnv.resolve_on hpoints hr
  · exact hd.imp id IntervalEnv.resolve_answered

/-- A variable in scope is looked up safely. -/
theorem safe_lookup (hs : s.Sound) {env : Env} (hentries : ∀ e ∈ env, e.In (S.during s))
    {count : Nat} {i : Int} (hi : S.Scoped env.length count (.var i)) :
    Safe S.lax (InScope S) (lookup call env i) s := by
  have hfind : Safe S.lax (fun s' e => e.In (S.during s')) (ofFault (findEntry env i)) s := by
    unfold findEntry
    apply safe_ofFault hs
    · intro e he
      split at he
      · rename_i e' hget
        cases he
        exact hentries e (Index.mem_of_get? hget)
      · cases he
    · refine hi.imp id fun hi => ?_
      obtain ⟨e, he⟩ := Index.get?_of_inScope hi
      exact ⟨e, by rw [he]⟩
  apply hfind.bind
  intro e s₁ hs₁ he
  exact safe_force hcall hs₁.sound he

/-- One step of evaluation in scope is safe, at every term. -/
theorem safe_step (hs : s.Sound) (hm : S.meter m) {t : Term} {env : Env} {dims : IntervalEnv}
    (h : (S.during s).Closed env dims t) : Safe S.lax (InScope S) (step call m t env dims) s := by
  obtain ⟨hentries, hpoints, hterm⟩ := h
  have value {t : Term} (ht : S.Scoped env.length dims.length t) {s' : Session}
      (hs' : s.Leads s') : Safe S.lax (InScope S) (call m (.evaluate true t env dims)) s' :=
    hcall hs'.sound hm (.evaluate ⟨fun e he => (hentries e he).mono (hs'.le S), hpoints, ht⟩)
  have entries {s' : Session} (hs' : s.Leads s') : ∀ e ∈ env, e.In (S.during s') :=
    fun e he => (hentries e he).mono (hs'.le S)
  cases t with
  | univ level => exact safe_pure hs .univ
  | var i => exact safe_lookup hcall hs hentries hterm
  | pi x a b =>
    obtain ⟨ha, hb⟩ := Scope.scoped_pi.1 hterm
    apply (value ha hs.refl).bind
    intro a s₁ hs₁ ha
    exact safe_pure hs₁.sound (.pi ha (.body (entries hs₁) hpoints hb))
  | lam x b => exact safe_pure hs (.lam (.body hentries hpoints hterm))
  | app f a =>
    obtain ⟨hf, ha⟩ := Scope.scoped_app.1 hterm
    apply (value hf hs.refl).bind
    intro f s₁ hs₁ hf
    split
    · rename_i x b
      cases hf with
      | lam hb =>
        have hx : Suspension.In (S.during s₁) ⟨m, false, a, env, dims⟩ :=
          ⟨⟨entries hs₁, hpoints, ha⟩, hm⟩
        apply (safe_suspend hs₁.sound hx).bind
        intro e s₂ hs₂ he
        exact hcall hs₂.sound hm (.instantiate (hb.mono (hs₂.le S)) he)
    · apply (value ha hs₁).bind
      intro v s₂ hs₂ hv
      exact safe_apply hcall hs₂.sound hm (hf.mono (hs₂.le S)) hv
  | path a l r =>
    obtain ⟨ha, hl, hr⟩ := Scope.scoped_path.1 hterm
    apply (value ha hs.refl).bind
    intro a s₁ hs₁ ha
    apply (value hl hs₁).bind
    intro l s₂ hs₂ hl
    apply (value hr (hs₁.trans hs₂)).bind
    intro r s₃ hs₃ hr
    exact safe_pure hs₃.sound (.path (ha.mono ((hs₂.trans hs₃).le S)) (hl.mono (hs₃.le S)) hr)
  | pathLam x b => exact safe_pure hs (.pathLam (.body hentries hpoints hterm))
  | pathApp p d =>
    obtain ⟨hp, hd⟩ := Scope.scoped_pathApp.1 hterm
    apply (value hp hs.refl).bind
    intro p s₁ hs₁ hp
    apply (safe_resolve hs₁.sound hpoints hd).bind
    intro r s₂ hs₂ hr
    exact safe_pathApply hcall hs₂.sound hm (hp.mono (hs₂.le S)) hr
  | smoothPath order a l r =>
    obtain ⟨ha, hl, hr⟩ := Scope.scoped_smoothPath.1 hterm
    apply (value ha hs.refl).bind
    intro a s₁ hs₁ ha
    apply (value hl hs₁).bind
    intro l s₂ hs₂ hl
    apply (value hr (hs₁.trans hs₂)).bind
    intro r s₃ hs₃ hr
    exact safe_pure hs₃.sound
      (.smoothPath (ha.mono ((hs₂.trans hs₃).le S)) (hl.mono (hs₃.le S)) hr)
  | comp d d' a fs b =>
    obtain ⟨hd, hd', ha, hfs, hb⟩ := Scope.scoped_comp.1 hterm
    apply (safe_closeFamily hs hentries hpoints ha).bind
    intro line s₁ hs₁ hline
    apply (value hb hs₁).bind
    intro v s₂ hs₂ hv
    apply (safe_closeTubes hs₂.sound (entries (hs₁.trans hs₂)) hpoints hfs).bind
    intro tubes s₃ hs₃ htubes
    apply (safe_resolve hs₃.sound hpoints hd').bind
    intro r' s₄ hs₄ hr'
    apply (safe_resolve hs₄.sound hpoints hd).bind
    intro r s₅ hs₅ hr
    have hlate := hs₄.trans hs₅
    exact hcall hs₅.sound hm (.comp hr hr' (hline.mono (((hs₂.trans hs₃).trans hlate).le S))
      (htubes.mono (hlate.le S)) (hv.mono ((hs₃.trans hlate).le S)))
  | coe d d' a b =>
    obtain ⟨hd, hd', ha, hb⟩ := Scope.scoped_coe.1 hterm
    apply (safe_closeFamily hs hentries hpoints ha).bind
    intro line s₁ hs₁ hline
    apply (safe_resolve hs₁.sound hpoints hd).bind
    intro r s₂ hs₂ hr
    apply (safe_resolve hs₂.sound hpoints hd').bind
    intro r' s₃ hs₃ hr'
    apply (value hb ((hs₁.trans hs₂).trans hs₃)).bind
    intro v s₄ hs₄ hv
    exact hcall hs₄.sound hm (.coe hr hr' (hline.mono (((hs₂.trans hs₃).trans hs₄).le S)) hv)
  | hcomp a fs b =>
    obtain ⟨ha, hfs, hb⟩ := Scope.scoped_hcomp.1 hterm
    apply (value ha hs.refl).bind
    intro a s₁ hs₁ ha
    apply (value hb hs₁).bind
    intro v s₂ hs₂ hv
    apply (safe_closeTubes hs₂.sound (entries (hs₁.trans hs₂)) hpoints hfs).bind
    intro tubes s₃ hs₃ htubes
    exact hcall hs₃.sound hm (.comp trivial trivial
      (.constant (ha.mono ((hs₂.trans hs₃).le S))) htubes (hv.mono (hs₃.le S)))
  | missing =>
    apply safe_throw hs
    exact hterm.resolve_right (by simp [Term.isScoped])

/-- Demands in scope are met safely if calls meet them so. -/
theorem safe_answer : SafeCall (answer call) := by
  intro S s m d hs hm hd
  cases hd with
  | @evaluate nests t env dims hclosed =>
    have charged {s' : Session} (hs' : s.Leads s') :
        Safe S.lax (InScope S) (chargedStep call m t env dims) s' := by
      apply (safe_charge hs'.sound m).bind
      intro _ s₁ hs₁ _
      exact safe_step hcall hs₁.sound hm (hclosed.mono ((hs'.trans hs₁).le S))
    cases nests with
    | false => exact charged hs.refl
    | true =>
      apply Safe.nest hs
      · intro s₁ s₂ v hs₂ hv
        exact hv.mono (hs₂.le S)
      · intro s₁ hs₁
        apply (safe_checkDepth hs₁.sound m t).bind
        intro _ s₂ hs₂ _
        exact charged (hs₁.trans hs₂)
  | instantiate hc he => exact safe_instantiate hcall hs hm hc he
  | instantiateAt hc hr => exact safe_instantiateAt hcall hs hm hc hr
  | comp hr hr' ha hfs hv => exact safe_comp hcall hs hm hr hr' ha hfs hv
  | coe hr hr' ha hv => exact safe_coe hcall hs hm hr hr' ha hv

end Rules

/-- Demands in scope are met in scope, however many calls may nest. -/
theorem run_safe : ∀ frames, SafeCall (run frames)
  | 0 => fun hs _ _ => safe_throw hs trivial
  | frames + 1 => safe_answer (run_safe frames)

end Eval

end SmoothCubical
