import SmoothCubical.Proofs.Likeness.Runs

/-!
# Evaluating alike

Demands that are alike are met alike, from sessions with any history (`run_alike`). Where one run
finds an argument computed and the other does not, the run that has computed it is compared with
the one that the other makes now. That run has ended before, so the comparison is by induction on
the steps that the first run has spent when it ends.

If the first run computes arguments each time it looks at them, then the second, with as many
frames, spends no more steps and is not cut off before it (`run_strict`).
-/

set_option autoImplicit false

namespace SmoothCubical.Likeness

open Eval

/-- If the entry is an argument that was put off, it was not looked at yet. -/
def Pending (s : Session) : Entry → Prop
  | .value _ => True
  | .thunk id => ∃ x, s.cells[id]? = some ⟨x, none⟩

/-- A body is run only at an argument that was not looked at yet. -/
def Unforced (s : Session) : Demand → Prop
  | .instantiate _ e => Pending s e
  | _ => True

/-- Demands that are alike are met alike, with so many frames in the one run and in the other. -/
def Calls (strict : Prop) (limit f f' : Nat) : Prop :=
  ∀ (L : Likeness) [L.Faithful] (d d' : Demand) (s s' : Session), L.Demands d d' →
    Unforced s d → Unforced s' d' →
    L.Alike strict limit L.Values (run f L.meter d) s (run f' L.meter d') s'

/-- Entries that are alike are looked at alike, right after a step was charged. -/
def Looks (strict : Prop) (limit f f' : Nat) : Prop :=
  ∀ (L : Likeness) [L.Faithful] (e e' : Entry) (s s' : Session), L.Entries e e' →
    L.meter < s.meters.size → s.Certified L.meter L.left →
    L.Alike strict limit L.Values (force (run f) e) (charged L.meter s) (force (run f') e') s'

variable {L : Likeness} [L.Faithful] {strict : Prop} {limit f f' : Nat} {s s' : Session}

/-! ## Arguments -/

/-- To force an argument that was put off is to return the value that is kept, or else to compute it
and keep it. -/
theorem force_thunk (call : Call) (id : Nat) (s : Session) :
    force call (.thunk id) s =
      (match s.cells[id]? with
      | some ⟨_, some v⟩ => pure v
      | some ⟨x, none⟩ => do
        let v ← call x.meter x.demand
        Run.settle id v
        return v
      | none => throw (.unknownThunk id) : Run Value) s :=
  rfl

/-- To force an argument that is still pending is to compute it and keep the value. -/
theorem force_pending {call : Call} {id : Nat} {x : Suspension}
    (hc : s.cells[id]? = some ⟨x, none⟩) :
    force call (.thunk id) s =
      match call x.meter x.demand s with
      | .ok v t => .ok v ((Run.settle id v).after t)
      | .error e t => .error e t := by
  rw [force_thunk, hc]
  dsimp only
  cases hx : call x.meter x.demand s with
  | ok v t =>
    rw [Run.bind_ok hx]
    rfl
  | error e t => rw [Run.bind_error hx]

/-- To force an argument whose value is kept is to return that value. -/
theorem force_kept {call : Call} {id : Nat} {x : Suspension} {v : Value}
    (hc : s.cells[id]? = some ⟨x, some v⟩) : force call (.thunk id) s = .ok v s := by
  rw [force_thunk, hc]
  rfl

/-- To force an argument that was never put off fails. -/
theorem force_unknown {call : Call} {id : Nat} (hc : s.cells[id]? = none) :
    force call (.thunk id) s = .error (.unknownThunk id) s := by
  rw [force_thunk, hc]
  rfl

/-- The session that computes an argument precedes the one that keeps its value. -/
theorem precedes_force {m : MeterId} (call : Call) {id : Nat} {x : Suspension}
    (hc : s.cells[id]? = some ⟨x, none⟩) :
    ((call x.meter x.demand).after s).Precedes m ((force call (.thunk id)).after s) := by
  unfold Run.after
  rw [force_pending hc]
  cases call x.meter x.demand s with
  | ok v t => exact .settle m id v t
  | error e t => exact .refl m t

/-- A session that has spent no less still has when both keep a value. -/
theorem outspends_settle {m : MeterId} {t t' : Session} (h : t.Outspends m t') (id id' : Nat)
    (v v' : Value) :
    ((Run.settle id v).after t).Outspends m ((Run.settle id' v').after t') := by
  have hmeters := Session.meters_settle id' v' t'
  have hmeter : ((Run.settle id' v').after t').meter m = t'.meter m := by
    rw [Session.meter, hmeters, Session.meter]
  rw [Session.settle_byName h.plain.byName]
  refine ⟨h.opened, hmeters ▸ h.opened', h.plain, ?_, ?_, ?_⟩ <;> rw [hmeter]
  · exact h.settings
  · exact h.depth
  · exact h.steps

/-- What the session has put off under a number is what is known beforehand. -/
theorem suspension_eq {m : MeterId} {origin : Nat → Option Suspension} {points : Int → Prop}
    {e : Session} (h : s.Ready m origin points e) (he : s.Precedes m e) {id : Nat}
    {x y : Suspension} {value : Option Value} (hc : s.cells[id]? = some ⟨x, value⟩)
    (hy : origin id = some y) : x = y := by
  have hx : s.origin id = some x := by
    rw [Session.origin, hc]
    rfl
  rw [h.known (he.origin hx)] at hy
  exact Option.some.inj hy

/-- The run that has computed a value which the session keeps can be compared. -/
theorem certificate {m : MeterId} {origin : Nat → Option Suspension} {points : Int → Prop}
    {e : Session} (hs : s.Certified m points)
    (hknown : ∀ {id x}, e.origin id = some x → origin id = some x) (he : s.Precedes m e)
    {id : Nat} {x : Suspension} {v : Value} (hc : s.cells[id]? = some ⟨x, some v⟩)
    (hx : x.meter = m) :
    ∃ (frames : Nat) (b a : Session), run frames m x.demand b = .ok v a ∧
      b.Ready m origin points a ∧ a.Precedes m s := by
  obtain ⟨frames, b, a, hrun, hopened, hb, hclear, ha⟩ := Session.certified_iff.1 hs id x v hc hx
  exact ⟨frames, b, a, hrun, ⟨hopened, hb, hclear, fun hy => hknown (he.origin (ha.origin hy))⟩, ha⟩

/-- Arguments that neither run has looked at are computed alike. -/
theorem alike_forcePending (hcall : Calls strict limit f f') {id id' : Nat}
    (he : L.Entries (.thunk id) (.thunk id')) {x x' : Suspension}
    (hc : s.cells[id]? = some ⟨x, none⟩) (hc' : s'.cells[id']? = some ⟨x', none⟩) :
    L.Alike strict limit L.Values (force (run f) (.thunk id)) s
      (force (run f') (.thunk id')) s' := by
  intro hs hs' hlimit hahead
  cases he with
  | @thunk _ _ nests D t t' env env' dims dims' hid hid' henv hdims ht =>
    have hadv : s.Precedes L.meter ((force (run f) (.thunk id)).after s) :=
      (Run.Advancing.keeps s).toPrecedes
    have hadv' : s'.Precedes L.meter ((force (run f') (.thunk id')).after s') :=
      (Run.Advancing.keeps s').toPrecedes
    obtain rfl := suspension_eq hs hadv hc hid
    obtain rfl := suspension_eq hs' hadv' hc' hid'
    have hend := precedes_force (m := L.meter) (run f) hc
    have hend' := precedes_force (m := L.meter) (run f') hc'
    have hout := hcall L (.evaluate nests t env dims) (.evaluate nests t' env' dims') s s'
      (.evaluate henv hdims ht) trivial trivial (hs.shorten hend) (hs'.shorten hend')
      (Nat.le_trans hend.steps hlimit) hahead
    rw [force_pending hc, force_pending hc']
    unfold Suspension.demand
    dsimp only
    generalize run f L.meter (.evaluate nests t env dims) s = u at hout ⊢
    generalize run f' L.meter (.evaluate nests t' env' dims') s' = w at hout ⊢
    cases hout with
    | ok hv hahead => exact .ok hv fun hstrict => outspends_settle (hahead hstrict) id id' _ _
    | error he hahead => exact .error he hahead
    | cut he => exact .cut he
    | cut' he hstrict => cases u <;> exact .cut' he hstrict

omit [L.Faithful] in
/-- Computations that are alike are put off under numbers that are alike. -/
theorem alike_suspend {nests : Bool} {D : Int → Int → Prop} {t t' : Term} (ht : Terms D t t')
    {env env' : Env} (henv : L.Environments env env') {dims dims' : IntervalEnv}
    (hdims : L.DimsBy D dims dims') :
    L.Alike strict limit L.Entries (Run.suspend ⟨L.meter, nests, t, env, dims⟩) s
      (Run.suspend ⟨L.meter, nests, t', env', dims'⟩) s' := by
  intro hs hs' _ hahead
  refine .ok (.thunk (hs.known (s.origin_push_self _)) (hs'.known (s'.origin_push_self _)) henv
    hdims ht) fun hstrict => ?_
  obtain ⟨hm, hm', hplain, hsettings, hdepth, hsteps⟩ := hahead hstrict
  exact ⟨hm, hm', (Session.Continues.suspend L.meter _ s).plain hplain, hsettings, hdepth, hsteps⟩

/-- To hand on an answer of the syntax leaves the session as it is. -/
theorem eq_of_ofFault {α : Type} {x : Except Fault α} {a : α} {t : Session}
    (h : Run.ofFault x s = .ok a t) : t = s := by
  cases x with
  | ok b => exact (EStateM.Result.ok.inj h).2.symm
  | error f => cases h

/-- A session that has spent no less than another has so after a run. -/
theorem outspends_advance {m : MeterId} {t : Session} (h : s.Outspends m s')
    (ht : s.Advances m t) : t.Outspends m s' where
  opened := ht.opened h.opened
  opened' := h.opened'
  plain := ht.plain h.plain
  settings := h.settings.trans ht.settings.symm
  depth := h.depth.trans ht.depth.symm
  steps := Nat.le_trans h.steps ht.steps

/-! ## Eliminations -/

section Rules

variable (hcall : Calls strict limit f f')
include hcall

/-- Families that are alike are alike at points that stand for each other. -/
theorem alike_lineAt {a a' : Line} (ha : L.Lines a a') {r r' : Interval} (hr : L.Points r r') :
    L.Alike strict limit L.Values (lineAt (run f) L.meter a r) s
      (lineAt (run f') L.meter a' r') s' := by
  cases ha with
  | varying hc => exact hcall L _ _ s s' (.instantiateAt hc hr) trivial trivial
  | constant ha => exact .pure ha
  | @steady c v hc =>
    -- The second run is at its end; the first has to find what the second holds.
    intro hs _ _ hahead
    have hadv := (Run.Advancing.keeps (m := L.meter) (x := run f L.meter (.instantiateAt c r))
      s).toAdvances
    rcases Faithful.finds hc f s r hs with ⟨w, t, hrun, hw⟩ | ⟨e, t, hrun, he⟩
    · rw [Run.after_ok hrun] at hadv
      change Outcome _ _ _ _ (run f L.meter (.instantiateAt c r) s) _
      rw [hrun]
      exact .ok hw fun hstrict => outspends_advance (hahead hstrict) hadv
    · change Outcome _ _ _ _ (run f L.meter (.instantiateAt c r) s) _
      rw [hrun]
      exact .cut he

/-- Functions that are alike give alike results at arguments that are. -/
theorem alike_apply {v v' w w' : Value} (hv : L.Values v v') (hw : L.Values w w') :
    L.Alike strict limit L.Values (apply (run f) L.meter v w) s
      (apply (run f') L.meter v' w') s' := by
  have hfail := hv.notFunction
  cases hv with
  | lam hb => exact hcall L _ _ s s' (.instantiate hb (.value hw)) trivial trivial
  | untyped hn => exact .pure (.untyped (.app hn hw))
  | typed hn ha =>
    cases ha with
    | pi ha hb =>
      apply Alike.bind (hcall L _ _ s s' (.instantiate hb (.value hw)) trivial trivial)
      intro ty t ty' t' _ _ hty
      exact .pure (.typed (.app hn hw) hty)
    | _ => exact .pure (.untyped (.app hn hw))
  | _ => exact .throw hfail

omit hcall [L.Faithful] in
/-- Stuck paths that are alike are so at points that stand for each other. -/
theorem stuckPathAt_alike {n n' : Neutral} (hn : L.Neutrals n n') {a a' l l' r r' : Value}
    (ha : L.Values a a') (hl : L.Values l l') (hr : L.Values r r') {k k' : Interval}
    (hk : L.Points k k') : L.Values (stuckPathAt n a l r k) (stuckPathAt n' a' l' r' k') := by
  cases hk with
  | zero => exact hl
  | one => exact hr
  | var hk => exact .typed (.pathApp hn (.var hk)) ha

/-- Paths that are alike give alike results at points that stand for each other. -/
theorem alike_pathApply {v v' : Value} (hv : L.Values v v') {k k' : Interval}
    (hk : L.Points k k') :
    L.Alike strict limit L.Values (pathApply (run f) L.meter v k) s
      (pathApply (run f') L.meter v' k') s' := by
  have hfail := hv.notPath hk
  cases hv with
  | pathLam hb => exact hcall L _ _ s s' (.instantiateAt hb hk) trivial trivial
  | untyped hn => exact .pure (.untyped (.pathApp hn hk))
  | typed hn ha =>
    cases ha with
    | path ha hl hr => exact .pure (stuckPathAt_alike hn ha hl hr hk)
    | smoothPath ha hl hr => exact .pure (stuckPathAt_alike hn ha hl hr hk)
    | _ => exact .pure (.untyped (.pathApp hn hk))
  | _ => exact .throw hfail

/-- Moved arguments that are alike are so at points that stand for each other. -/
theorem alike_carriedAt {y y' : Carried} (hy : L.Carrieds y y') {r r' : Interval}
    (hr : L.Points r r') :
    L.Alike strict limit L.Values (carriedAt (run f) L.meter y r) s
      (carriedAt (run f') L.meter y' r') s' := by
  cases hy with
  | mk hd hstart hv => exact hcall L _ _ s s' (.coe hstart hr hd hv) trivial trivial

/-! ## Kan operations -/

/-- The function types that alike families are at a point have alike parts. -/
theorem alike_piAt {a a' : Line} (ha : L.Lines a a') {r r' : Interval} (hr : L.Points r r') :
    L.Alike strict limit (fun p p' => L.Values p.1 p'.1 ∧ L.Closures p.2 p'.2)
      (piAt (run f) L.meter a r) s (piAt (run f') L.meter a' r') s' := by
  apply (alike_lineAt hcall ha hr).andThen
  · intro ty
    split <;> infer_instance
  · intro ty
    split <;> infer_instance
  · intro ty t ty' t' _ _ hty
    have hfail := hty.notFunctionType
    cases hty with
    | pi ha hb => exact .pure ⟨ha, hb⟩
    | _ => exact .throw hfail

/-- The path types that alike families are at a point have alike parts. -/
theorem alike_pathTypeAt {a a' : Line} (ha : L.Lines a a') {r r' : Interval}
    (hr : L.Points r r') :
    L.Alike strict limit
      (fun p p' => L.Values p.1 p'.1 ∧ L.Values p.2.1 p'.2.1 ∧ L.Values p.2.2 p'.2.2)
      (pathTypeAt (run f) L.meter a r) s (pathTypeAt (run f') L.meter a' r') s' := by
  apply (alike_lineAt hcall ha hr).andThen
  · intro ty
    split <;> infer_instance
  · intro ty
    split <;> infer_instance
  · intro ty t ty' t' _ _ hty
    have hfail := hty.notPathType
    cases hty with
    | path ha hl hr => exact .pure ⟨ha, hl, hr⟩
    | smoothPath ha hl hr => exact .pure ⟨ha, hl, hr⟩
    | _ => exact .throw hfail

/-- The shapes of two families have the same outermost form, although they are looked at at
different probes. The probes go out of play with the shapes. -/
theorem alike_shape {a a' : Line} (ha : L.Lines a a') :
    L.Alike strict limit (fun v v' => ∃ L' : Likeness, L'.Values v v')
      (Run.probe L.meter >>= fun r => lineAt (run f) L.meter a r) s
      (Run.probe L.meter >>= fun r => lineAt (run f') L.meter a' r) s' := by
  intro hs hs' hlimit hahead
  rw [Run.after_bind_ok (probe_eq L.meter s)] at hs hlimit
  rw [Run.after_bind_ok (probe_eq L.meter s')] at hs'
  rw [Run.bind_ok (probe_eq L.meter s), Run.bind_ok (probe_eq L.meter s')]
  obtain ⟨hp, hready⟩ := ready_probed hs (Run.Advancing.keeps _).toPrecedes
  obtain ⟨hp', hready'⟩ := ready_probed hs' (Run.Advancing.keeps _).toPrecedes
  have hneg (n : Nat) : Run.probeBase - n < 0 := by
    simp only [Run.probeBase]
    omega
  have hfresh : ∀ q ∈ L.probes, q.1 ≠ Run.probeBase - (s.meter L.meter).probes ∧
      q.2 ≠ Run.probeBase - (s'.meter L.meter).probes := fun q hq =>
    ⟨hp q.1 ⟨q.2, .inr hq⟩, hp' q.2 ⟨q.1, .inr hq⟩⟩
  have hle := le_insert (hneg _) (hneg _) hfresh
  have hahead' (hstrict : strict) : (probed L.meter s).Outspends L.meter (probed L.meter s') := by
    apply (hahead hstrict).modifyMeter
    · exact fun a a' h => h
    · exact fun a a' h => h
    · exact fun a a' h => h
  have hline := alike_lineAt hcall (ha.mono hle) (.var (.inr List.mem_cons_self))
    (hready.mono left_insert) (hready'.mono right_insert) hlimit hahead'
  exact hline.mono fun v v' hv => ⟨_, hv⟩

/-- Compositions of alike parts end alike. A probe is drawn in both runs, and the two stand for each
other. -/
theorem alike_comp {r r' t t' : Interval} (hr : L.Points r r') (ht : L.Points t t')
    {a a' : Line} (ha : L.Lines a a') {fs fs' : List Tube} (hfs : L.Tubes fs fs') {v v' : Value}
    (hv : L.Values v v') :
    L.Alike strict limit L.Values (comp (run f) L.meter r t a fs v) s
      (comp (run f') L.meter r' t' a' fs' v') s' := by
  have hfirst := hfs.firstTrue?
  have hpossible := hfs.possible
  unfold comp
  generalize firstTrue? fs = u at hfirst ⊢
  generalize firstTrue? fs' = w at hfirst ⊢
  cases hfirst with
  | some hu => exact hcall L _ _ s s' (.instantiateAt hu ht) trivial trivial
  | none =>
    have hmoves := ht.eq_iff hr
    by_cases heq : t = r
    · simp only [heq, hmoves.1 heq, if_true]
      exact .pure hv
    · simp only [heq, mt hmoves.2 heq, if_false]
      rw [← bind_assoc, ← bind_assoc]
      apply (alike_shape hcall ha).andThen
      · intro shape
        split <;> infer_instance
      · intro shape
        split <;> infer_instance
      · rintro shape t₁ shape' t₁' - - ⟨L', hshape⟩
        have hpending : L.Alike strict limit L.Values (do
            Run.record (.compPending shape)
            let ty ← lineAt (run f) L.meter a t
            return .stuck (.comp r t a (possible fs) v) (some ty)) t₁ (do
            Run.record (.compPending shape')
            let ty ← lineAt (run f') L.meter a' t'
            return .stuck (.comp r' t' a' (possible fs') v') (some ty)) t₁' := by
          apply (Alike.record _ _).bind
          intro _ t₂ _ t₂' _ _ _
          apply (alike_lineAt hcall ha ht).bind
          intro ty t₃ ty' t₃' _ _ hty
          exact .pure (.typed (.comp hr ht ha hpossible hv) hty)
        cases hshape with
        | pi => exact .pure (.lam (.comp hr ht ha hpossible hv))
        | path => exact .pure (.pathLam (.comp hr ht ha hpossible hv))
        | smoothPath => exact .pure (.pathLam (.comp hr ht ha hpossible hv))
        | _ => exact hpending

omit hcall [L.Faithful] in
/-- Families that are alike carry the same flag. -/
theorem isConstant_eq {a a' : Line} (ha : L.Lines a a') : a.isConstant = a'.isConstant := by
  cases ha <;> rfl

/-- Coercions of alike parts end alike. A probe is drawn in both runs, and the two stand for each
other. -/
theorem alike_coe {r r' t t' : Interval} (hr : L.Points r r') (ht : L.Points t t')
    {a a' : Line} (ha : L.Lines a a') {v v' : Value} (hv : L.Values v v') :
    L.Alike strict limit L.Values (coe (run f) L.meter r t a v) s
      (coe (run f') L.meter r' t' a' v') s' := by
  have hmoves := hr.eq_iff ht
  unfold coe
  by_cases heq : r = t
  · simp only [heq, hmoves.1 heq, if_true]
    exact .pure hv
  · simp only [heq, mt hmoves.2 heq, if_false, isConstant_eq ha]
    cases a'.isConstant with
    | true => exact .pure hv
    | false =>
      simp only [Bool.false_eq_true, if_false]
      rw [← bind_assoc, ← bind_assoc]
      apply (alike_shape hcall ha).andThen
      · intro shape
        split <;> infer_instance
      · intro shape
        split <;> infer_instance
      · rintro shape t₁ shape' t₁' - - ⟨L', hshape⟩
        have hpending : L.Alike strict limit L.Values (do
            Run.record (.coePending shape)
            let ty ← lineAt (run f) L.meter a t
            return .stuck (.coe r t a v) (some ty)) t₁ (do
            Run.record (.coePending shape')
            let ty ← lineAt (run f') L.meter a' t'
            return .stuck (.coe r' t' a' v') (some ty)) t₁' := by
          apply (Alike.record _ _).bind
          intro _ t₂ _ t₂' _ _ _
          apply (alike_lineAt hcall ha ht).bind
          intro ty t₃ ty' t₃' _ _ hty
          exact .pure (.typed (.coe hr ht ha hv) hty)
        cases hshape with
        | univ => exact .pure hv
        | pi => exact .pure (.lam (.coe hr ht ha hv))
        | path => exact .pure (.pathLam (.comp hr ht ha .nil hv))
        | smoothPath => exact .pure (.pathLam (.comp hr ht ha .nil hv))
        | _ => exact hpending

omit hcall [L.Faithful] in
/-- Arguments that are alike still are when they are moved along the domains of alike families. -/
theorem carrieds_carry {a a' : Line} (ha : L.Lines a a') (flag : Bool) {t t' : Interval}
    (ht : L.Points t t') {y y' : Value} (hy : L.Values y y') :
    L.Carrieds (carry L.meter a flag t y) (carry L.meter a' flag t' y') :=
  .mk (.varying (.domain ha)) ht hy

/-- Composites of functions that are alike end alike at alike arguments. -/
theorem alike_compFunctionAt {r r' t t' : Interval} (hr : L.Points r r') (ht : L.Points t t')
    {a a' : Line} (ha : L.Lines a a') {fs fs' : List Tube} (hfs : L.Tubes fs fs')
    {v v' y y' : Value} (hv : L.Values v v') (hy : L.Values y y') :
    L.Alike strict limit L.Values (compFunctionAt (run f) L.meter r t a fs v y) s
      (compFunctionAt (run f') L.meter r' t' a' fs' v' y') s' := by
  unfold compFunctionAt
  rw [isConstant_eq ha]
  have hcarry := carrieds_carry ha a'.isConstant ht hy
  apply (alike_carriedAt hcall hcarry hr).bind
  intro x t₁ x' t₁' _ _ hx
  apply (alike_apply hcall hv hx).bind
  intro w t₂ w' t₂' _ _ hw
  have htubes := hfs.map fun u u' hu => .app hu hcarry
  exact hcall L _ _ t₂ t₂' (.comp hr ht (.varying (.codomain ha hcarry)) htubes hw) trivial trivial

/-- Functions that were moved and are alike end alike at alike arguments. -/
theorem alike_coeFunctionAt {r r' t t' : Interval} (hr : L.Points r r') (ht : L.Points t t')
    {a a' : Line} (ha : L.Lines a a') {v v' y y' : Value} (hv : L.Values v v')
    (hy : L.Values y y') :
    L.Alike strict limit L.Values (coeFunctionAt (run f) L.meter r t a v y) s
      (coeFunctionAt (run f') L.meter r' t' a' v' y') s' := by
  have hcarry := carrieds_carry ha false ht hy
  apply (alike_carriedAt hcall hcarry hr).bind
  intro x t₁ x' t₁' _ _ hx
  apply (alike_apply hcall hv hx).bind
  intro w t₂ w' t₂' _ _ hw
  exact hcall L _ _ t₂ t₂' (.coe hr ht (.varying (.codomain ha hcarry)) hw) trivial trivial

/-- Composites of paths that are alike end alike at points that stand for each other. -/
theorem alike_compPathAt {r r' t t' : Interval} (hr : L.Points r r') (ht : L.Points t t')
    {a a' : Line} (ha : L.Lines a a') {fs fs' : List Tube} (hfs : L.Tubes fs fs')
    {v v' : Value} (hv : L.Values v v') {k k' : Interval} (hk : L.Points k k') :
    L.Alike strict limit L.Values (compPathAt (run f) L.meter r t a fs v k) s
      (compPathAt (run f') L.meter r' t' a' fs' v' k') s' := by
  unfold compPathAt
  rw [isConstant_eq ha]
  apply (alike_pathApply hcall hv hk).bind
  intro w t₁ w' t₁' _ _ hw
  have htubes := hfs.map fun u u' hu => .pathApp hu hk
  have hends : L.Tubes [(Cofibration.eq k 0, IntervalClosure.left L.meter a),
      (Cofibration.eq k 1, IntervalClosure.right L.meter a)]
      [(Cofibration.eq k' 0, IntervalClosure.left L.meter a'),
        (Cofibration.eq k' 1, IntervalClosure.right L.meter a')] := by
    apply Tubes.cons (hk.isTrue_eq 0) (fun hL => by rw [hk.eq hL]) (.left ha)
    exact .cons (hk.isTrue_eq 1) (fun hL => by rw [hk.eq hL]) (.right ha) .nil
  exact hcall L _ _ t₁ t₁' (.comp hr ht (.varying (.element ha)) (Tubes.append hends htubes) hw)
    trivial trivial

/-! ## Closures -/

/-- Abstractions that are alike are instantiated alike. -/
theorem alike_instantiate {c c' : Closure} (hc : L.Closures c c') {e e' : Entry}
    (he : L.Entries e e') (hp : Pending s e) (hp' : Pending s' e') :
    L.Alike strict limit L.Values (instantiate (run f) L.meter c e) s
      (instantiate (run f') L.meter c' e') s' := by
  have hforce : L.Alike strict limit L.Values (force (run f) e) s (force (run f') e') s' := by
    cases he with
    | value hv => exact .pure hv
    | thunk hid hid' henv hdims ht =>
      obtain ⟨x, hx⟩ := hp
      obtain ⟨x', hx'⟩ := hp'
      exact alike_forcePending hcall (.thunk hid hid' henv hdims ht) hx hx'
  cases hc with
  | body henv hdims ht =>
    exact hcall L _ _ s s' (.evaluate (.cons he henv) hdims ht) trivial trivial
  | comp hr ht ha hfs hv =>
    apply hforce.bind
    intro y t₁ y' t₁' _ _ hy
    exact alike_compFunctionAt hcall hr ht ha hfs hv hy
  | coe hr ht ha hv =>
    apply hforce.bind
    intro y t₁ y' t₁' _ _ hy
    exact alike_coeFunctionAt hcall hr ht ha hv hy

/-- Interval abstractions that are alike are instantiated alike, at points that stand for each
other. -/
theorem alike_instantiateAt {c c' : IntervalClosure} (hc : L.IntervalClosures c c')
    {r r' : Interval} (hr : L.Points r r') :
    L.Alike strict limit L.Values (instantiateAt (run f) L.meter c r) s
      (instantiateAt (run f') L.meter c' r') s' := by
  cases hc with
  | body henv hdims ht =>
    exact hcall L _ _ s s' (.evaluate henv (hdims.cons hr) ht) trivial trivial
  | choice hu hv hw =>
    cases hr with
    | zero => exact .pure hu
    | one => exact .pure hv
    | var => exact .pure hw
  | domain ha =>
    apply (alike_piAt hcall ha hr).bind
    intro p t₁ p' t₁' _ _ hp
    exact .pure hp.1
  | codomain ha hy =>
    apply (alike_piAt hcall ha hr).bind
    intro p t₁ p' t₁' _ _ hp
    apply (alike_carriedAt hcall hy hr).bind
    intro y t₂ y' t₂' _ _ hy
    exact hcall L _ _ t₂ t₂' (.instantiate hp.2 (.value hy)) trivial trivial
  | element ha =>
    apply (alike_pathTypeAt hcall ha hr).bind
    intro p t₁ p' t₁' _ _ hp
    exact .pure hp.1
  | left ha =>
    apply (alike_pathTypeAt hcall ha hr).bind
    intro p t₁ p' t₁' _ _ hp
    exact .pure hp.2.1
  | right ha =>
    apply (alike_pathTypeAt hcall ha hr).bind
    intro p t₁ p' t₁' _ _ hp
    exact .pure hp.2.2
  | app hu hy =>
    apply Alike.bind (hcall L _ _ s s' (.instantiateAt hu hr) trivial trivial)
    intro v t₁ v' t₁' _ _ hv
    apply (alike_carriedAt hcall hy hr).bind
    intro y t₂ y' t₂' _ _ hy
    exact alike_apply hcall hv hy
  | pathApp hu hk =>
    apply Alike.bind (hcall L _ _ s s' (.instantiateAt hu hr) trivial trivial)
    intro v t₁ v' t₁' _ _ hv
    exact alike_pathApply hcall hv hk
  | comp hs ht ha hfs hv => exact alike_compPathAt hcall hs ht ha hfs hv hr

/-! ## Terms -/

omit hcall [L.Faithful] in
/-- Families whose terms are alike are closed alike, with the same flag. -/
theorem alike_closeFamily {D : Int → Int → Prop} {a a' : Term} (ha : Terms (Under D) a a')
    {env env' : Env} (henv : L.Environments env env') {dims dims' : IntervalEnv}
    (hdims : L.DimsBy D dims dims') :
    L.Alike strict limit L.Lines (closeFamily a env dims) s (closeFamily a' env' dims') s' := by
  have hmoves : a.mentions 0 = a'.mentions 0 :=
    ha.mentions_eq (Int.le_refl 0) (Int.le_refl 0) fun _ _ => Under.eq_zero_iff
  unfold closeFamily
  rw [hmoves]
  apply (Alike.ofFault (.refl (fun _ => rfl) (a'.mentions 0))).bind
  rintro moves t₁ _ t₁' - - rfl
  exact .pure (.varying (.body henv hdims ha))

omit hcall [L.Faithful] in
/-- Systems whose terms are alike are closed alike. -/
theorem alike_closeTubes {env env' : Env} (henv : L.Environments env env')
    {D : Int → Int → Prop} {dims dims' : IntervalEnv} (hdims : L.DimsBy D dims dims')
    {fs fs' : List (Face × Term)} (hfs : Term.BranchesMatch .same (fun i j => i = j) D fs fs') :
    L.Alike strict limit L.Tubes (closeTubes env dims fs) s (closeTubes env' dims' fs') s' := by
  induction fs generalizing fs' s s' with
  | nil =>
    cases hfs
    exact .pure .nil
  | cons face rest ih =>
    cases hfs with
    | @cons _ _ φ φ' u u' _ rest' hface hbody hrest =>
      have htube : L.Alike strict limit (fun p p' => L.Formulas p.1 p'.1 ∧
          L.IntervalClosures p.2 p'.2) (closeTube env dims (φ, u)) s
          (closeTube env' dims' (φ', u')) s' := by
        apply (Alike.ofFault (hdims.cofibration hface)).bind
        intro c t₁ c' t₁' _ _ hc
        exact .pure ⟨hc, .body henv hdims hbody⟩
      apply htube.bind
      rintro ⟨c, v⟩ t₁ ⟨c', v'⟩ t₁' - - ⟨hc, hv⟩
      apply (ih hrest).bind
      intro fs t₂ fs' t₂' _ _ hfs
      exact .pure (.cons hc.1 hc.2 hv hfs)

omit hcall in
/-- What was just put off is pending. -/
theorem pending_suspend {x : Suspension} {e : Entry} {t : Session}
    (h : Run.suspend x s = .ok e t) : Pending t e := by
  obtain ⟨rfl, rfl⟩ := EStateM.Result.ok.inj h
  refine ⟨x, ?_⟩
  simp

/-- The value of a term that is no variable. -/
theorem alike_step {D : Int → Int → Prop} {t t' : Term} (ht : Terms D t t')
    (hvar : ∀ i, t ≠ .var i) {env env' : Env} (henv : L.Environments env env')
    {dims dims' : IntervalEnv} (hdims : L.DimsBy D dims dims') :
    L.Alike strict limit L.Values (step (run f) L.meter t env dims) s
      (step (run f') L.meter t' env' dims') s' := by
  have value {t t' : Term} (ht : Terms D t t') (s s' : Session) : L.Alike strict limit L.Values
      (run f L.meter (.evaluate true t env dims)) s
      (run f' L.meter (.evaluate true t' env' dims')) s' :=
    hcall L _ _ s s' (.evaluate henv hdims ht) trivial trivial
  cases ht with
  | univ => exact .pure .univ
  | @var _ _ i j => exact (hvar i rfl).elim
  | @pi _ _ x y a a' b b' hname ha hb =>
    obtain rfl : x = y := hname
    rw [under_eq] at hb
    apply (value ha s s').bind
    intro v t₁ v' t₁' _ _ hv
    exact .pure (.pi hv (.body henv hdims hb))
  | @lam _ _ x y b b' hname hb =>
    obtain rfl : x = y := hname
    rw [under_eq] at hb
    exact .pure (.lam (.body henv hdims hb))
  | @app _ _ g g' a a' hg ha =>
    apply (value hg s s').andThen
    · intro v
      split <;> infer_instance
    · intro v
      split <;> infer_instance
    · intro v t₁ v' t₁' _ _ hv
      have hargument : L.Alike strict limit L.Values
          (run f L.meter (.evaluate true a env dims) >>= fun w => apply (run f) L.meter v w) t₁
          (run f' L.meter (.evaluate true a' env' dims') >>= fun w => apply (run f') L.meter v' w)
          t₁' := by
        apply (value ha t₁ t₁').bind
        intro w t₂ w' t₂' _ _ hw
        exact alike_apply hcall hv hw
      cases hv with
      | lam hb =>
        apply (alike_suspend ha henv hdims).bind
        intro e t₂ e' t₂' he he' hthunk
        exact hcall L _ _ t₂ t₂' (.instantiate hb hthunk) (pending_suspend he)
          (pending_suspend he')
      | _ => exact hargument
  | path ha hl hr =>
    apply (value ha s s').bind
    intro a t₁ a' t₁' _ _ ha
    apply (value hl t₁ t₁').bind
    intro l t₂ l' t₂' _ _ hl
    apply (value hr t₂ t₂').bind
    intro r t₃ r' t₃' _ _ hr
    exact .pure (.path ha hl hr)
  | @pathLam _ _ x y b b' hname hb =>
    obtain rfl : x = y := hname
    exact .pure (.pathLam (.body henv hdims hb))
  | pathApp hp hd =>
    apply (value hp s s').bind
    intro v t₁ v' t₁' _ _ hv
    apply (Alike.ofFault (hdims.resolve hd)).bind
    intro r t₂ r' t₂' _ _ hr
    exact alike_pathApply hcall hv hr
  | smoothPath ha hl hr =>
    apply (value ha s s').bind
    intro a t₁ a' t₁' _ _ ha
    apply (value hl t₁ t₁').bind
    intro l t₂ l' t₂' _ _ hl
    apply (value hr t₂ t₂').bind
    intro r t₃ r' t₃' _ _ hr
    exact .pure (.smoothPath ha hl hr)
  | comp hsource htarget ha hfs hb =>
    apply (alike_closeFamily ha henv hdims).bind
    intro line t₁ line' t₁' _ _ hline
    apply (value hb t₁ t₁').bind
    intro v t₂ v' t₂' _ _ hv
    apply (alike_closeTubes henv hdims hfs).bind
    intro tubes t₃ tubes' t₃' _ _ htubes
    apply (Alike.ofFault (hdims.resolve htarget)).bind
    intro target t₄ target' t₄' _ _ htarget
    apply (Alike.ofFault (hdims.resolve hsource)).bind
    intro source t₅ source' t₅' _ _ hsource
    exact hcall L _ _ t₅ t₅' (.comp hsource htarget hline htubes hv) trivial trivial
  | coe hsource htarget ha hb =>
    apply (alike_closeFamily ha henv hdims).bind
    intro line t₁ line' t₁' _ _ hline
    apply (Alike.ofFault (hdims.resolve hsource)).bind
    intro source t₂ source' t₂' _ _ hsource
    apply (Alike.ofFault (hdims.resolve htarget)).bind
    intro target t₃ target' t₃' _ _ htarget
    apply (value hb t₃ t₃').bind
    intro v t₄ v' t₄' _ _ hv
    exact hcall L _ _ t₄ t₄' (.coe hsource htarget hline hv) trivial trivial
  | hcomp ha hfs hb =>
    apply (value ha s s').bind
    intro a t₁ a' t₁' _ _ ha
    apply (value hb t₁ t₁').bind
    intro v t₂ v' t₂' _ _ hv
    apply (alike_closeTubes henv hdims hfs).bind
    intro tubes t₃ tubes' t₃' _ _ htubes
    exact hcall L _ _ t₃ t₃' (.comp .zero .one (.constant ha) htubes hv) trivial trivial
  | missing => exact .throw fun _ => .refl _

variable (hlook : Looks strict limit f f')
include hlook

/-- One step of evaluation ends alike on terms that are alike, with what it costs. -/
theorem alike_chargedStep {D : Int → Int → Prop} {t t' : Term} (ht : Terms D t t')
    {env env' : Env} (henv : L.Environments env env') {dims dims' : IntervalEnv}
    (hdims : L.DimsBy D dims dims') :
    L.Alike strict limit L.Values (chargedStep (run f) L.meter t env dims) s
      (chargedStep (run f') L.meter t' env' dims') s' := by
  by_cases hvar : ∃ i, t = .var i
  · obtain ⟨i, rfl⟩ := hvar
    cases ht with
    | @var _ _ _ j hij =>
      obtain rfl : i = j := hij
      intro hs hs' hlimit hahead
      refine Alike.bind Alike.charge ?_ hs hs' hlimit hahead
      intro _ t₁ _ t₁' hcharge _ _
      rw [charge_eq hs.opened] at hcharge
      split at hcharge
      · cases hcharge
      · cases hcharge
        apply (Alike.ofFault (henv.findEntry i)).bind
        intro e t₂ e' t₂' he _ hentry
        rw [eq_of_ofFault he]
        exact hlook L e e' s t₂' hentry hs.opened hs.certified
  · apply Alike.charge.bind
    intro _ t₁ _ t₁' _ _ _
    exact alike_step hcall ht (fun i hi => hvar ⟨i, hi⟩) henv hdims

/-- Demands that are alike are met alike if calls meet them so. -/
theorem alike_answer {d d' : Demand} (hd : L.Demands d d') (hu : Unforced s d)
    (hu' : Unforced s' d') :
    L.Alike strict limit L.Values (answer (run f) L.meter d) s (answer (run f') L.meter d') s' := by
  cases hd with
  | @evaluate nests _ t t' _ _ _ _ henv hdims ht =>
    cases nests with
    | true =>
      apply Alike.nest
      apply (Alike.checkDepth t t').bind
      intro _ t₁ _ t₁' _ _ _
      exact alike_chargedStep hcall hlook ht henv hdims
    | false => exact alike_chargedStep hcall hlook ht henv hdims
  | instantiate hc he => exact alike_instantiate hcall hc he hu hu'
  | instantiateAt hc hr => exact alike_instantiateAt hcall hc hr
  | comp hr ht ha hfs hv => exact alike_comp hcall hr ht ha hfs hv
  | coe hr ht ha hv => exact alike_coe hcall hr ht ha hv

end Rules

/-! ## Arguments that were looked at before -/

/-- Two ends of a run with the same answer or the same failure. -/
inductive Agrees {α : Type} : EStateM.Result Failure Session α →
    EStateM.Result Failure Session α → Prop
  | ok (a : α) (s s' : Session) : Agrees (.ok a s) (.ok a s')
  | error (e : Failure) (s s' : Session) : Agrees (.error e s) (.error e s')

/-- Outcomes that are alike still are if each is exchanged for one that agrees with it. -/
theorem Outcome.agree {m : MeterId} {loose : Prop} {α β : Type} {R : α → β → Prop}
    {u u' : EStateM.Result Failure Session α} {w w' : EStateM.Result Failure Session β}
    (h : Outcome m loose False R u w) (hu : Agrees u u') (hw : Agrees w w') :
    Outcome m loose False R u' w' := by
  cases hu with
  | ok a t t' =>
    cases hw with
    | ok b r r' =>
      cases h with
      | ok hab _ => exact .ok hab False.elim
    | error e r r' =>
      cases h with
      | cut' he _ => exact .cut' he False.elim
  | error e t t' =>
    cases hw with
    | ok b r r' =>
      cases h with
      | cut he => exact .cut he
    | error e' r r' =>
      cases h with
      | error he _ => exact .error he False.elim
      | cut he => exact .cut he
      | cut' he _ => exact .cut' he False.elim

/-- Behind the value of an argument there is a run that computes it: the present one, or one that
ended before the session `t`. -/
theorem force_run {m : MeterId} {origin : Nat → Option Suspension} {points : Int → Prop}
    {id : Nat} {x : Suspension} (t : Session)
    (hs : s.Ready m origin points ((force (run f) (.thunk id)).after s))
    (hcells : s.cells = t.cells) (ht : t.Certified m points) (hts : t.Precedes m s)
    (hx : origin id = some x) (hm : x.meter = m) :
    s.cells[id]? = none ∨ ∃ (frames : Nat) (b : Session),
      b.Ready m origin points ((run frames m x.demand).after b) ∧
      Agrees (run frames m x.demand b) (force (run f) (.thunk id) s) ∧
      (frames = f ∧ ((run frames m x.demand).after b).Precedes m
          ((force (run f) (.thunk id)).after s) ∨
        (((run frames m x.demand).after b).meter m).steps ≤ (t.meter m).steps) := by
  have hadv : s.Precedes m ((force (run f) (.thunk id)).after s) :=
    (Run.Advancing.keeps s).toPrecedes
  cases hc : s.cells[id]? with
  | none => exact .inl rfl
  | some c =>
    right
    obtain ⟨y, _ | v⟩ := c
    · obtain rfl := suspension_eq hs hadv hc hx
      subst hm
      have hend := precedes_force (m := y.meter) (run f) hc
      refine ⟨f, s, hs.shorten hend, ?_, .inl ⟨rfl, hend⟩⟩
      rw [force_pending hc]
      cases run f y.meter y.demand s with
      | ok v r => exact .ok v r _
      | error e r => exact .error e r _
    · obtain rfl := suspension_eq hs hadv hc hx
      have hend : (force (run f) (.thunk id)).after s = s := Run.after_ok (force_kept hc)
      rw [hend] at hs
      rw [hcells] at hc
      obtain ⟨frames, b, a, hrun, hb, ha⟩ := certificate ht hs.known hts hc hm
      refine ⟨frames, b, ?_, ?_, .inr ?_⟩
      · rwa [Run.after_ok hrun]
      · rw [hrun, force_kept (hcells ▸ hc)]
        exact .ok v a s
      · rw [Run.after_ok hrun]
        exact ha.steps

/-- The runs behind the values of two arguments are alike, if the present one is alike to any other
and one that ended before `t` is. -/
theorem alike_forceAfter (t : Session) {e e' : Entry} (he : L.Entries e e')
    (hcells : s.cells = t.cells) (ht : t.Certified L.meter L.left) (hts : t.Precedes L.meter s)
    (hpresent : ∀ f', Calls False limit f f')
    (hpast : ∀ f f', Calls False (t.meter L.meter).steps f f') :
    L.Alike False limit L.Values (force (run f) e) s (force (run f') e') s' := by
  intro hs hs' hlimit _
  cases he with
  | value hv => exact .ok hv False.elim
  | @thunk id id' nests D u u' env env' dims dims' hid hid' henv hdims hu =>
    rcases force_run t hs hcells ht hts hid rfl with hc | ⟨f₁, b, hb, hfb, hwhen⟩
    · rw [force_unknown hc]
      exact .cut (.unknownThunk id)
    rcases force_run s' hs' rfl hs'.certified (.refl _ _) hid' rfl with hc | ⟨f₁', b', hb', hfb', _⟩
    · rw [force_unknown hc]
      exact .cut' (.unknownThunk id') False.elim
    have hdemand : L.Demands (.evaluate nests u env dims) (.evaluate nests u' env' dims') :=
      .evaluate henv hdims hu
    obtain ⟨limit', hcalls, hlimit'⟩ : ∃ limit', Calls False limit' f₁ f₁' ∧
        (((run f₁ L.meter (.evaluate nests u env dims)).after b).meter L.meter).steps ≤ limit' := by
      rcases hwhen with ⟨rfl, hend⟩ | hended
      · exact ⟨limit, hpresent f₁', Nat.le_trans hend.steps hlimit⟩
      · exact ⟨_, hpast f₁ f₁', hended⟩
    have hout := hcalls L _ _ b b' hdemand trivial trivial hb hb' hlimit' False.elim
    exact hout.agree hfb hfb'

/-- A run that has ended before the step was charged is compared at fewer steps. -/
theorem looks_lax (hcall : ∀ f', Calls False limit f f')
    (hbefore : ∀ limit' < limit, ∀ f f', Calls False limit' f f') : Looks False limit f f' := by
  intro L _ e e' s s' he hm hcertified hs hs' hlimit hahead
  have hsteps : (s.meter L.meter).steps < limit := by
    have hadv : (charged L.meter s).Precedes L.meter ((force (run f) e).after _) :=
      (Run.Advancing.keeps _).toPrecedes
    have hle := Nat.le_trans hadv.steps hlimit
    rw [meter_charged hm] at hle
    exact hle
  have hcharge := (Session.continues_lawful L.meter 0).charge L.meter s
  exact alike_forceAfter s he rfl hcertified hcharge.toPrecedes hcall (hbefore _ hsteps) hs hs'
    hlimit hahead

/-- Whichever values the sessions keep, and whatever they have spent: demands that are alike are
met alike, unless one of the runs is cut off. -/
theorem run_alike (limit f f' : Nat) : Calls False limit f f' := by
  induction limit using Nat.strongRecOn generalizing f f' with
  | ind limit hbefore =>
    induction f generalizing f' with
    | zero =>
      intro L _ d d' s s' _ _ _ _ _ _ _
      exact .cut (.nonTermination .frames)
    | succ f ih =>
      intro L _ d d' s s' hd hu hu'
      cases f' with
      | zero =>
        intro _ _ _ _
        exact .cut' (.nonTermination .frames) False.elim
      | succ f' => exact alike_answer (ih f') (looks_lax ih hbefore) hd hu hu'

/-- Entries that are alike are looked at alike. -/
theorem alike_force {e e' : Entry} (he : L.Entries e e') :
    L.Alike False limit L.Values (force (run f) e) s (force (run f') e') s' := by
  intro hs hs' hlimit hahead
  exact alike_forceAfter s he rfl hs.certified (.refl _ _) (run_alike limit f) (run_alike _) hs hs'
    hlimit hahead

/-- A variable finds alike values in environments that are alike. -/
theorem alike_lookup {env env' : Env} (henv : L.Environments env env') (i : Int) :
    L.Alike False limit L.Values (lookup (run f) env i) s (lookup (run f') env' i) s' := by
  apply (Alike.ofFault (henv.findEntry i)).bind
  intro e t e' t' _ _ he
  exact alike_force he

/-- A session that keeps no values computes an argument where the other may find it computed, and
spends no less. -/
theorem looks_strict (hcall : Calls True limit f f) (hlook : Looks False limit f f) :
    Looks True limit f f := by
  intro L _ e e' s s' he hm hcertified hs hs' hlimit hahead
  cases he with
  | value hv => exact .ok hv hahead
  | @thunk id id' nests D t t' env env' dims dims' hid hid' henv hdims ht =>
    have hentries : L.Entries (.thunk id) (.thunk id') := .thunk hid hid' henv hdims ht
    cases hc' : s'.cells[id']? with
    | none =>
      rw [force_unknown hc']
      exact .cut' (.unknownThunk id') fun _ => ⟨id', rfl⟩
    | some c' =>
      obtain ⟨x', _ | v'⟩ := c'
      · cases hc : (charged L.meter s).cells[id]? with
        | none =>
          rw [force_unknown hc]
          exact .cut (.unknownThunk id)
        | some c =>
          obtain ⟨x, _ | v⟩ := c
          · exact alike_forcePending hcall hentries hc hc' hs hs' hlimit hahead
          · exact ((hahead trivial).plain.unkept id x v hc).elim
      · have hout := hlook L _ _ s s' hentries hm hcertified hs hs' hlimit False.elim
        have hadv := (Run.Advancing.keeps (m := L.meter) (x := force (run f) (.thunk id))
          (charged L.meter s)).toAdvances
        rw [force_kept hc'] at hout ⊢
        cases hleft : force (run f) (.thunk id) (charged L.meter s) with
        | ok v r =>
          rw [hleft] at hout
          rw [Run.after_ok hleft] at hadv
          cases hout with
          | ok hv _ => exact .ok hv fun hstrict => outspends_advance (hahead hstrict) hadv
        | error e r =>
          rw [hleft] at hout
          cases hout with
          | cut he => exact .cut he

/-- A session that keeps no values spends no less than any other on demands that are alike, and
the other is not cut off before it. -/
theorem run_strict (limit f : Nat) : Calls True limit f f := by
  induction f with
  | zero =>
    intro L _ d d' s s' _ _ _ _ _ _ _
    exact .cut (.nonTermination .frames)
  | succ f ih =>
    intro L _ d d' s s' hd hu hu'
    have hlook : Looks False limit f f :=
      looks_lax (run_alike limit f) fun limit' _ => run_alike limit'
    exact alike_answer ih (looks_strict ih hlook) hd hu hu'

/-- A comparison may be strict or not, if as many frames are there where it is. -/
theorem run_calls {strict : Prop} {f f' : Nat} (hf : strict → f' = f) (limit : Nat) :
    Calls strict limit f f' := by
  by_cases h : strict
  · obtain rfl := hf h
    rw [eq_true h]
    exact run_strict limit f'
  · rw [eq_false h]
    exact run_alike limit f f'

end SmoothCubical.Likeness
