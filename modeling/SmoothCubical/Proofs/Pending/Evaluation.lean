import SmoothCubical.Proofs.Pending.Values

/-!
# Evaluation leaves only pending what is stuck

Demands that obey the law of an orderly session are met by values that obey it, and the session
stays orderly (`run_tidy`). Only two rules leave an operation pending. Both have looked at the
family at a probe just before, and the law asks for nothing but that.
-/

set_option autoImplicit false

namespace SmoothCubical

/-- From the session, the run goes on to an orderly session, and an answer is as described. -/
def Run.Tidy {α : Type} (owner : Option MeterId) (P : Session → α → Prop) (x : Run α)
    (s : Session) : Prop :=
  match x s with
  | .ok a s' => s.Onward s' ∧ s'.Orderly owner ∧ P s' a
  | .error _ s' => s.Onward s' ∧ s'.Orderly owner

namespace Run

open Session (Chain)

variable {α β : Type} {owner : Option MeterId} {P : Session → α → Prop} {Q : Session → β → Prop}
  {s : Session}

/-- To answer at once is tidy in an orderly session. -/
theorem tidy_pure (hs : s.Orderly owner) {a : α} (h : P s a) :
    Tidy owner P (pure a : Run α) s :=
  ⟨Chain.refl s, hs, h⟩

/-- To fail at once is tidy in an orderly session. -/
theorem tidy_throw (hs : s.Orderly owner) (e : Failure) : Tidy owner P (throw e : Run α) s :=
  ⟨Chain.refl s, hs⟩

/-- Tidy runs can be sequenced, the second from any orderly session that the first goes on to. -/
theorem Tidy.bind {x : Run α} {f : α → Run β} (hx : Tidy owner P x s)
    (hf : ∀ a s', s.Onward s' → s'.Orderly owner → P s' a → Tidy owner Q (f a) s') :
    Tidy owner Q (x >>= f) s := by
  unfold Tidy at hx ⊢
  cases hxs : x s with
  | error e t =>
    rw [hxs] at hx
    rw [bind_error hxs]
    exact hx
  | ok a t =>
    rw [hxs] at hx
    obtain ⟨hst, ht, ha⟩ := hx
    have hft := hf a t hst ht ha
    rw [bind_ok hxs]
    unfold Tidy at hft
    cases hfs : f a t with
    | error e u =>
      rw [hfs] at hft
      exact ⟨Chain.trans hst hft.1, hft.2⟩
    | ok b u =>
      rw [hfs] at hft
      exact ⟨Chain.trans hst hft.1, hft.2⟩

/-- A tidy run that answers does so as described, in an orderly session that it goes on to. -/
theorem Tidy.ok {x : Run α} {s' : Session} {a : α} (h : Tidy owner P x s) (hx : x s = .ok a s') :
    s.Onward s' ∧ s'.Orderly owner ∧ P s' a := by
  unfold Tidy at h
  rw [hx] at h
  exact h

/-- A tidy run leaves an orderly session that it goes on to. -/
theorem Tidy.after {x : Run α} (h : Tidy owner P x s) :
    s.Onward (x.after s) ∧ (x.after s).Orderly owner := by
  unfold Tidy at h
  unfold Run.after
  cases hx : x s with
  | ok a s' =>
    rw [hx] at h
    exact ⟨h.1, h.2.1⟩
  | error e s' =>
    rw [hx] at h
    exact h

/-- An answer of the syntax is handed on tidily. -/
theorem tidy_ofFault (hs : s.Orderly owner) {x : Except Fault α} (h : ∀ a, x = .ok a → P s a) :
    Tidy owner P (ofFault x) s := by
  cases x with
  | ok a => exact tidy_pure hs (h a rfl)
  | error f => exact tidy_throw hs _

/-- To look at an orderly session is tidy. -/
theorem tidy_get (hs : s.Orderly owner) :
    Tidy owner (fun s' a => s = s' ∧ s = a) (get : Run Session) s :=
  ⟨Chain.refl s, hs, rfl, rfl⟩

/-- A change of the session that does not touch the arguments. -/
theorem tidy_modify (hs : s.Orderly owner) {f : Session → Session} (hon : s.Onward (f s))
    (hsize : s.meters.size ≤ (f s).meters.size) (hcells : (f s).cells = s.cells) :
    Tidy owner (fun s' _ => s' = f s) (modify f : Run Unit) s :=
  ⟨hon, hs.of_cells (fun m => (hon m).toPrecedes) hsize hcells, rfl⟩

/-- To record an event is tidy. -/
theorem tidy_record (hs : s.Orderly owner) (e : Event) :
    Tidy owner (fun s' _ => s.Onward s') (record e) s := by
  have hon : s.Onward { s with events := e :: s.events } :=
    fun m => (Session.continues_lawful m 0).record e s
  exact ⟨hon, hs.of_cells (fun m => (hon m).toPrecedes) (Nat.le_refl _) rfl, hon⟩

/-- To charge a step is tidy, also if there are none left. -/
theorem tidy_charge (hs : s.Orderly owner) (m : MeterId) :
    Tidy owner (fun _ _ => True) (charge m) s := by
  have hsize := Session.size_modifyMeter s m fun a => { a with steps := a.steps + 1 }
  apply (tidy_modify hs (fun k => (Session.continues_lawful k 0).charge m s)
    (Nat.le_of_eq hsize.symm) rfl).bind
  intro _ s₁ _ hs₁ _
  apply (tidy_get hs₁).bind
  intro a s₂ _ hs₂ _
  dsimp only
  split
  · exact tidy_throw hs₂ _
  · exact tidy_pure hs₂ trivial

/-- To check the nesting is tidy, also if it is too deep. -/
theorem tidy_checkDepth (hs : s.Orderly owner) (m : MeterId) (t : Term) :
    Tidy owner (fun _ _ => True) (checkDepth m t) s := by
  apply (tidy_get hs).bind
  intro a s₁ _ hs₁ _
  dsimp only
  split
  · apply (tidy_record hs₁ _).bind
    intro _ s₂ _ hs₂ _
    exact tidy_throw hs₂ _
  · exact tidy_pure hs₁ trivial

/-- To draw a probe is tidy, and it is the probe that was next. -/
theorem tidy_probe (hs : s.Orderly owner) (m : MeterId) :
    Tidy owner (fun s' r => r = .var (probeBase - (s.meter m).probes) ∧
      s' = Likeness.probed m s) (probe m) s := by
  have hon : s.Onward (Likeness.probed m s) := fun k => (Session.continues_lawful k 0).probe m s
  have hsize := Session.size_modifyMeter s m fun a => { a with probes := a.probes + 1 }
  exact ⟨hon, hs.of_cells (fun k => (hon k).toPrecedes) (Nat.le_of_eq hsize.symm) rfl, rfl, rfl⟩

/-- A nested run is tidy if the run is, in every session on the way. -/
theorem Tidy.nest {m : MeterId} {x : Run α} (hs : s.Orderly owner)
    (hP : ∀ s₁ s₂ a, (∀ m, s₁.Precedes m s₂) → P s₁ a → P s₂ a)
    (hx : ∀ s', (∀ m, s.Precedes m s') → s'.Orderly owner → Tidy owner P x s') :
    Tidy owner P (nest m x) s := by
  have hdeeper := hx (Likeness.deeper m s) (fun k => Session.Precedes.depth s m k (· + 1))
    (hs.of_cells (fun k => Session.Precedes.depth s m k (· + 1))
      (Nat.le_of_eq (Session.size_modifyMeter s m _).symm) rfl)
  have hup {t : Session} (ht : t.Orderly owner) : (Likeness.shallower m t).Orderly owner :=
    ht.of_cells (fun k => Session.Precedes.depth t m k (· - 1))
      (Nat.le_of_eq (Session.size_modifyMeter t m _).symm) rfl
  unfold Tidy at hdeeper ⊢
  rw [Likeness.nest_eq]
  cases hxs : x (Likeness.deeper m s) with
  | error e t =>
    rw [hxs] at hdeeper
    exact ⟨fun k => (hdeeper.1 k).nest, hup hdeeper.2⟩
  | ok a t =>
    rw [hxs] at hdeeper
    obtain ⟨hon, ht, ha⟩ := hdeeper
    exact ⟨fun k => (hon k).nest, hup ht,
      hP _ _ _ (fun k => Session.Precedes.depth t m k (· - 1)) ha⟩

/-- To put a computation off is tidy if its environment obeys the law. -/
theorem tidy_suspend (hs : s.Orderly owner) {x : Suspension} (hm : (s.law owner).meter x.meter)
    (hx : ∀ e ∈ x.env, e.Obeys (s.law owner)) :
    Tidy owner (fun s' e => e.Obeys (s'.law owner)) (suspend x) s :=
  ⟨fun m => .suspend m x s, hs.push hx, .thunk (s.origin_push_self x) hm⟩

end Run

namespace Eval

open Run

variable {owner : Option MeterId} {f : Nat} {s : Session} {m : MeterId}

/-- The value obeys the law of the session. -/
def Obeying (owner : Option MeterId) (s : Session) (v : Value) : Prop :=
  v.Obeys (s.law owner)

/-- Demands that obey the law are met by values that do, by the evaluator if one is given. -/
def TidyCall (owner : Option MeterId) (f : Nat) : Prop :=
  ∀ {s : Session} {m : MeterId} {d : Demand}, s.Orderly owner → (s.law owner).meter m →
    d.Obeys (s.law owner) → Tidy owner (Obeying owner) (run f m d) s

/-! ## Partial elements -/

/-- Of partial elements that obey a law, the first that is given everywhere does. -/
theorem firstTrue?_obeys {K : PendingLaw} {faces : List Tube} (h : K.Tubes faces)
    {u : IntervalClosure} (hu : firstTrue? faces = some u) : u.Obeys K := by
  induction faces with
  | nil => cases hu
  | cons face rest ih =>
    unfold firstTrue? at hu
    split at hu
    · cases hu
      exact (h face List.mem_cons_self).2
    · exact ih (fun g hg => h g (List.mem_cons_of_mem face hg)) hu

/-- If no partial element is found that is given everywhere, none is. -/
theorem isTrue_of_firstTrue? {faces : List Tube} (h : firstTrue? faces = none) :
    ∀ face ∈ faces, face.1.isTrue = false := by
  induction faces with
  | nil => nofun
  | cons face rest ih =>
    unfold firstTrue? at h
    split at h
    · cases h
    · rename_i htrue
      exact List.forall_mem_cons.2 ⟨Bool.eq_false_iff.2 htrue, ih h⟩

/-- Of partial elements that obey a law, those on possible faces do. -/
theorem possible_obeys {K : PendingLaw} {faces : List Tube} (h : K.Tubes faces) :
    K.Tubes (possible faces) :=
  fun face hface => h face (List.mem_filter.1 hface).1

/-- If none of the faces is the whole cube, then those that are kept are proper. -/
theorem possible_isProper {K : PendingLaw} {faces : List Tube} (h : K.Tubes faces)
    (hfirst : firstTrue? faces = none) : ∀ face ∈ possible faces, face.1.IsProper := by
  intro face hface
  obtain ⟨hmem, hfalse⟩ := List.mem_filter.1 hface
  exact ⟨(h face hmem).1, isTrue_of_firstTrue? hfirst face hmem, by simpa using hfalse⟩

/-! ## The rules -/

section Rules

variable (hcall : TidyCall owner f)
include hcall

/-- To force an entry that obeys the law is tidy, and so is the value. -/
theorem tidy_force (hs : s.Orderly owner) {e : Entry} (he : e.Obeys (s.law owner)) :
    Tidy owner (Obeying owner) (force (run f) e) s := by
  cases he with
  | value hv => exact tidy_pure hs hv
  | @thunk id x hid hm =>
    obtain ⟨⟨y, value⟩, hc, hy⟩ := Option.map_eq_some_iff.1 hid
    obtain rfl : y = x := hy
    apply (tidy_get hs).bind
    rintro _ _ - - ⟨rfl, rfl⟩
    rw [hc]
    cases value with
    | some v => exact tidy_pure hs (hs.values hc hm)
    | none =>
      have hdemand : y.demand.Obeys (s.law owner) := .evaluate (hs.entries hid hm)
      -- The value is kept with the certificate of the run from `s`, so both are one step here.
      have hrun := hcall hs hm hdemand
      change Tidy owner (Obeying owner) (do
        let v ← run f y.meter y.demand
        settle id v
        return v) s
      unfold Tidy at hrun ⊢
      cases hv : run f y.meter y.demand s with
      | error e t =>
        rw [hv] at hrun
        rw [bind_error hv]
        exact hrun
      | ok v t =>
        rw [hv] at hrun
        obtain ⟨hon, ht, hobeys⟩ := hrun
        have hsettled : s.Onward ((settle id v).after t) := fun k => (hon k).settle hc hv
        have hle := Session.law_le (fun k => Session.Precedes.settle k id v t) owner
        rw [bind_ok hv]
        exact ⟨hsettled, hs.settle ht hsettled hobeys, hobeys.mono hle⟩

/-- To look a variable up is tidy in an environment that obeys the law. -/
theorem tidy_lookup (hs : s.Orderly owner) {env : Env} (henv : ∀ e ∈ env, e.Obeys (s.law owner))
    (i : Int) : Tidy owner (Obeying owner) (lookup (run f) env i) s := by
  have hfind : Tidy owner (fun s' e => e.Obeys (s'.law owner)) (ofFault (findEntry env i)) s := by
    unfold findEntry
    apply tidy_ofFault hs
    intro e he
    split at he
    · rename_i e' hget
      cases he
      exact henv e (Index.mem_of_get? hget)
    · cases he
  apply hfind.bind
  intro e s₁ _ hs₁ he
  exact tidy_force hcall hs₁ he

/-- To look a family up at a point is tidy if the family obeys the law. -/
theorem tidy_lineAt (hs : s.Orderly owner) (hm : (s.law owner).meter m) {a : Line}
    (ha : a.Obeys (s.law owner)) (r : Interval) :
    Tidy owner (Obeying owner) (lineAt (run f) m a r) s := by
  cases ha with
  | constant hv => exact tidy_pure hs hv
  | varying hc => exact hcall hs hm (.instantiateAt hc)

/-- To apply a function is tidy if it and its argument obey the law. -/
theorem tidy_apply (hs : s.Orderly owner) (hm : (s.law owner).meter m) {g v : Value}
    (hg : g.Obeys (s.law owner)) (hv : v.Obeys (s.law owner)) :
    Tidy owner (Obeying owner) (apply (run f) m g v) s := by
  cases hg with
  | lam hb => exact hcall hs hm (.instantiate hb (.value hv))
  | untyped hn => exact tidy_pure hs (.untyped (.app hn hv))
  | typed hn ha =>
    cases ha with
    | pi _ hb =>
      apply (hcall hs hm (.instantiate hb (.value hv))).bind
      intro ty s₁ hon hs₁ hty
      exact tidy_pure hs₁ (.typed ((Neutral.Obeys.app hn hv).mono (hon.law_le owner)) hty)
    | _ => exact tidy_pure hs (.untyped (.app hn hv))
  | _ => exact tidy_throw hs _

omit hcall in
/-- A stuck path that obeys a law does so at every point, also where it becomes an end of its type.
-/
theorem stuckPathAt_obeys {K : PendingLaw} {n : Neutral} {a l r : Value} (hn : n.Obeys K)
    (ha : a.Obeys K) (hl : l.Obeys K) (hr : r.Obeys K) (k : Interval) :
    (stuckPathAt n a l r k).Obeys K := by
  cases k with
  | zero => exact hl
  | one => exact hr
  | var level => exact .typed (.pathApp hn) ha

/-- To take a path at a point is tidy if the path obeys the law. -/
theorem tidy_pathApply (hs : s.Orderly owner) (hm : (s.law owner).meter m) {p : Value}
    (hp : p.Obeys (s.law owner)) (r : Interval) :
    Tidy owner (Obeying owner) (pathApply (run f) m p r) s := by
  cases hp with
  | pathLam hb => exact hcall hs hm (.instantiateAt hb)
  | untyped hn => exact tidy_pure hs (.untyped (.pathApp hn))
  | typed hn ha =>
    cases ha with
    | path ha hl hr => exact tidy_pure hs (stuckPathAt_obeys hn ha hl hr r)
    | smoothPath ha hl hr => exact tidy_pure hs (stuckPathAt_obeys hn ha hl hr r)
    | _ => exact tidy_pure hs (.untyped (.pathApp hn))
  | _ => exact tidy_throw hs _

/-- To look up a function type is tidy, and its parts obey the law if the family does. -/
theorem tidy_piAt (hs : s.Orderly owner) (hm : (s.law owner).meter m) {a : Line}
    (ha : a.Obeys (s.law owner)) (r : Interval) :
    Tidy owner (fun s' p => p.1.Obeys (s'.law owner) ∧ p.2.Obeys (s'.law owner))
      (piAt (run f) m a r) s := by
  apply (tidy_lineAt hcall hs hm ha r).bind
  intro ty s₁ _ hs₁ hty
  cases hty with
  | pi ha hb => exact tidy_pure hs₁ ⟨ha, hb⟩
  | _ => exact tidy_throw hs₁ _

/-- To look up a path type is tidy, and its parts obey the law if the family does. -/
theorem tidy_pathTypeAt (hs : s.Orderly owner) (hm : (s.law owner).meter m) {a : Line}
    (ha : a.Obeys (s.law owner)) (r : Interval) :
    Tidy owner (fun s' p => p.1.Obeys (s'.law owner) ∧ p.2.1.Obeys (s'.law owner) ∧
      p.2.2.Obeys (s'.law owner)) (pathTypeAt (run f) m a r) s := by
  apply (tidy_lineAt hcall hs hm ha r).bind
  intro ty s₁ _ hs₁ hty
  cases hty with
  | path ha hl hr => exact tidy_pure hs₁ ⟨ha, hl, hr⟩
  | smoothPath ha hl hr => exact tidy_pure hs₁ ⟨ha, hl, hr⟩
  | _ => exact tidy_throw hs₁ _

/-- To find a moved argument at a point is tidy if the argument obeys the law. -/
theorem tidy_carriedAt (hs : s.Orderly owner) (hm : (s.law owner).meter m) {y : Carried}
    (hy : y.Obeys (s.law owner)) (r : Interval) :
    Tidy owner (Obeying owner) (carriedAt (run f) m y r) s := by
  cases hy with
  | mk hd hv => exact hcall hs hm (.coe hd hv)

/-- The look at a family is what the law asks for. -/
theorem tidy_shape (hs : s.Orderly owner) (hm : (s.law owner).meter m) {a : Line}
    (ha : a.Obeys (s.law owner)) :
    Tidy owner (fun s' shape => ∀ k ∈ owner, s'.Found k a (shape.form = ·))
      (probe m >>= fun r => lineAt (run f) m a r) s := by
  apply (tidy_probe hs m).bind
  rintro r s₁ hon hs₁ ⟨rfl, rfl⟩
  have hline := tidy_lineAt hcall hs₁ hm (ha.mono (hon.law_le owner))
    (.var (probeBase - (s.meter m).probes))
  unfold Tidy at hline ⊢
  cases hrun : lineAt (run f) m a (.var (probeBase - (s.meter m).probes)) (Likeness.probed m s) with
  | error e t =>
    rw [hrun] at hline
    exact hline
  | ok shape t =>
    rw [hrun] at hline
    refine ⟨hline.1, hline.2.1, fun k hk => ?_⟩
    obtain rfl := hm k hk
    exact ⟨f, s, t, shape, hs.opened m hk, hs.certified m hk, hrun, .refl m t, rfl⟩

omit hcall in
/-- A family that was found to have a form was found to be whatever that form is. -/
theorem found_form {form : Form} {P : Form → Prop} {a : Line} (hform : P form)
    (h : ∀ k ∈ owner, s.Found k a (form = ·)) : ∀ k ∈ owner, s.Found k a P := by
  intro k hk
  obtain ⟨frames, b, e, shape, hopened, hb, hrun, he, rfl⟩ := h k hk
  exact ⟨frames, b, e, shape, hopened, hb, hrun, he, hform⟩

/-- An operation that is left pending has the family at its target for its type. -/
theorem tidy_pending (hs : s.Orderly owner) (hm : (s.law owner).meter m) {a : Line}
    (ha : a.Obeys (s.law owner)) (t : Interval) (e : Event) {n : Neutral}
    (hn : n.Obeys (s.law owner)) :
    Tidy owner (Obeying owner) (do
      record e
      let ty ← lineAt (run f) m a t
      return .stuck n (some ty)) s := by
  apply (tidy_record hs e).bind
  intro _ s₁ hon₁ hs₁ _
  have hle₁ := hon₁.law_le owner
  apply (tidy_lineAt hcall hs₁ hm (ha.mono hle₁) t).bind
  intro ty s₂ hon₂ hs₂ hty
  exact tidy_pure hs₂ (.typed ((hn.mono hle₁).mono (hon₂.law_le owner)) hty)

/-- A composition stays pending only if it goes somewhere, on faces that are proper, in a family
that was looked at. -/
theorem tidy_comp (hs : s.Orderly owner) (hm : (s.law owner).meter m) (r t : Interval) {a : Line}
    (ha : a.Obeys (s.law owner)) {faces : List Tube} (hfaces : (s.law owner).Tubes faces)
    {v : Value} (hv : v.Obeys (s.law owner)) :
    Tidy owner (Obeying owner) (comp (run f) m r t a faces v) s := by
  unfold comp
  split
  · rename_i u hu
    exact hcall hs hm (.instantiateAt (firstTrue?_obeys hfaces hu))
  · rename_i hfirst
    split
    · exact tidy_pure hs hv
    · rename_i hmoves
      rw [← bind_assoc]
      apply (tidy_shape hcall hs hm ha).bind
      intro shape s₁ hon hs₁ hshape
      have hle := hon.law_le owner
      have hfaces₁ := (possible_obeys hfaces).mono hle
      have hpending (hform : shape.form.isTakenApart = false) :
          Neutral.Obeys (s₁.law owner) (.comp r t a (possible faces) v) :=
        .comp hmoves (found_form hform hshape) (ha.mono hle) (possible_isProper hfaces hfirst)
          hfaces₁.bodies (hv.mono hle)
      have hpath : Obeying owner s₁ (.pathLam "k" (.comp m r t a (possible faces) v)) :=
        .pathLam (.comp hm (ha.mono hle) hfaces₁.canonical hfaces₁.bodies (hv.mono hle))
      cases shape with
      | pi x A c =>
        exact tidy_pure hs₁ (.lam (.comp hm (ha.mono hle) hfaces₁.canonical hfaces₁.bodies
          (hv.mono hle)))
      | path A L R => exact tidy_pure hs₁ hpath
      | smoothPath k A L R => exact tidy_pure hs₁ hpath
      | _ => exact tidy_pending hcall hs₁ hm (ha.mono hle) t _ (hpending rfl)

/-- A coercion stays pending only if it goes somewhere, along a family that was looked at. -/
theorem tidy_coe (hs : s.Orderly owner) (hm : (s.law owner).meter m) (r t : Interval) {a : Line}
    (ha : a.Obeys (s.law owner)) {v : Value} (hv : v.Obeys (s.law owner)) :
    Tidy owner (Obeying owner) (coe (run f) m r t a v) s := by
  unfold coe
  split
  · exact tidy_pure hs hv
  · rename_i hmoves
    split
    · exact tidy_pure hs hv
    · rw [← bind_assoc]
      apply (tidy_shape hcall hs hm ha).bind
      intro shape s₁ hon hs₁ hshape
      have hle := hon.law_le owner
      have hpending (hform : shape.form.isTakenApart = false ∧ shape.form ≠ .univ) :
          Neutral.Obeys (s₁.law owner) (.coe r t a v) :=
        .coe hmoves (found_form hform hshape) (ha.mono hle) (hv.mono hle)
      have hpath : Obeying owner s₁ (.pathLam "k" (.comp m r t a [] v)) :=
        .pathLam (.comp hm (ha.mono hle) nofun nofun (hv.mono hle))
      cases shape with
      | univ level => exact tidy_pure hs₁ (hv.mono hle)
      | pi x A c => exact tidy_pure hs₁ (.lam (.coe hm (ha.mono hle) (hv.mono hle)))
      | path A L R => exact tidy_pure hs₁ hpath
      | smoothPath k A L R => exact tidy_pure hs₁ hpath
      | lam => exact tidy_pending hcall hs₁ hm (ha.mono hle) t _ (hpending ⟨rfl, nofun⟩)
      | pathLam => exact tidy_pending hcall hs₁ hm (ha.mono hle) t _ (hpending ⟨rfl, nofun⟩)
      | stuck => exact tidy_pending hcall hs₁ hm (ha.mono hle) t _ (hpending ⟨rfl, nofun⟩)

omit hcall in
/-- An argument that is moved along the domains of a family obeys a law if both do. -/
theorem carry_obeys {K : PendingLaw} (hm : K.meter m) {a : Line} (ha : a.Obeys K) (flag : Bool)
    (r : Interval) {y : Value} (hy : y.Obeys K) : (carry m a flag r y).Obeys K :=
  .mk (.varying (.domain hm ha)) hy

/-- To apply a composite of functions is tidy if its parts obey the law. -/
theorem tidy_compFunctionAt (hs : s.Orderly owner) (hm : (s.law owner).meter m) (r t : Interval)
    {a : Line} (ha : a.Obeys (s.law owner)) {faces : List Tube}
    (hfaces : (s.law owner).Tubes faces) {v y : Value} (hv : v.Obeys (s.law owner))
    (hy : y.Obeys (s.law owner)) :
    Tidy owner (Obeying owner) (compFunctionAt (run f) m r t a faces v y) s := by
  have hcarry := carry_obeys hm ha a.isConstant t hy
  apply (tidy_carriedAt hcall hs hm hcarry r).bind
  intro x s₁ hon₁ hs₁ hx
  apply (tidy_apply hcall hs₁ hm (hv.mono (hon₁.law_le owner)) hx).bind
  intro start s₂ hon₂ hs₂ hstart
  have hle : (s.law owner).Le (s₂.law owner) :=
    Session.Onward.law_le (Session.Chain.trans hon₁ hon₂) owner
  refine hcall hs₂ hm (.comp (.varying (.codomain hm (ha.mono hle) (hcarry.mono hle))) ?_ hstart)
  intro face hface
  obtain ⟨g, hg, rfl⟩ := List.mem_map.1 hface
  have hobeys := hfaces.mono hle g hg
  exact ⟨hobeys.1, .app hm hobeys.2 (hcarry.mono hle)⟩

/-- To apply a function that was moved is tidy if its parts obey the law. -/
theorem tidy_coeFunctionAt (hs : s.Orderly owner) (hm : (s.law owner).meter m) (r t : Interval)
    {a : Line} (ha : a.Obeys (s.law owner)) {v y : Value} (hv : v.Obeys (s.law owner))
    (hy : y.Obeys (s.law owner)) :
    Tidy owner (Obeying owner) (coeFunctionAt (run f) m r t a v y) s := by
  have hcarry := carry_obeys hm ha false t hy
  apply (tidy_carriedAt hcall hs hm hcarry r).bind
  intro x s₁ hon₁ hs₁ hx
  apply (tidy_apply hcall hs₁ hm (hv.mono (hon₁.law_le owner)) hx).bind
  intro start s₂ hon₂ hs₂ hstart
  have hle : (s.law owner).Le (s₂.law owner) :=
    Session.Onward.law_le (Session.Chain.trans hon₁ hon₂) owner
  exact hcall hs₂ hm (.coe (.varying (.codomain hm (ha.mono hle) (hcarry.mono hle))) hstart)

/-- To take a composite of paths at a point is tidy if its parts obey the law. -/
theorem tidy_compPathAt (hs : s.Orderly owner) (hm : (s.law owner).meter m) (r t : Interval)
    {a : Line} (ha : a.Obeys (s.law owner)) {faces : List Tube}
    (hfaces : (s.law owner).Tubes faces) {v : Value} (hv : v.Obeys (s.law owner)) (k : Interval) :
    Tidy owner (Obeying owner) (compPathAt (run f) m r t a faces v k) s := by
  apply (tidy_pathApply hcall hs hm hv k).bind
  intro start s₁ hon hs₁ hstart
  have hle := hon.law_le owner
  refine hcall hs₁ hm (.comp (.varying (.element hm (ha.mono hle))) ?_ hstart)
  intro face hface
  rcases List.mem_append.1 hface with hface | hface
  · obtain ⟨g, hg, rfl⟩ := List.mem_map.1 hface
    have hobeys := hfaces.mono hle g hg
    exact ⟨hobeys.1, .pathApp hm hobeys.2⟩
  · simp only [List.mem_cons, List.not_mem_nil, or_false] at hface
    rcases hface with rfl | rfl
    · exact ⟨Cofibration.isCanonical_eq k 0, .left hm (ha.mono hle)⟩
    · exact ⟨Cofibration.isCanonical_eq k 1, .right hm (ha.mono hle)⟩

/-- To instantiate an abstraction is tidy if it and the entry obey the law. -/
theorem tidy_instantiate (hs : s.Orderly owner) (hm : (s.law owner).meter m) {c : Closure}
    (hc : c.Obeys (s.law owner)) {e : Entry} (he : e.Obeys (s.law owner)) :
    Tidy owner (Obeying owner) (instantiate (run f) m c e) s := by
  cases hc with
  | body henv => exact hcall hs hm (.evaluate (List.forall_mem_cons.2 ⟨he, henv⟩))
  | comp hm' ha hφs hus hv =>
    apply (tidy_force hcall hs he).bind
    intro y s₁ hon hs₁ hy
    have hle := hon.law_le owner
    have hfaces : (s.law owner).Tubes _ := fun g hg => ⟨hφs g hg, hus g hg⟩
    exact tidy_compFunctionAt hcall hs₁ hm' _ _ (ha.mono hle) (hfaces.mono hle) (hv.mono hle) hy
  | coe hm' ha hv =>
    apply (tidy_force hcall hs he).bind
    intro y s₁ hon hs₁ hy
    have hle := hon.law_le owner
    exact tidy_coeFunctionAt hcall hs₁ hm' _ _ (ha.mono hle) (hv.mono hle) hy

/-- To instantiate an interval abstraction is tidy if it obeys the law. -/
theorem tidy_instantiateAt (hs : s.Orderly owner) (hm : (s.law owner).meter m)
    {c : IntervalClosure} (hc : c.Obeys (s.law owner)) (r : Interval) :
    Tidy owner (Obeying owner) (instantiateAt (run f) m c r) s := by
  cases hc with
  | body henv => exact hcall hs hm (.evaluate henv)
  | choice hu hv hw =>
    cases r with
    | zero => exact tidy_pure hs hu
    | one => exact tidy_pure hs hv
    | var level => exact tidy_pure hs hw
  | domain hm' ha =>
    apply (tidy_piAt hcall hs hm' ha r).bind
    intro p s₁ _ hs₁ hp
    exact tidy_pure hs₁ hp.1
  | codomain hm' ha hy =>
    apply (tidy_piAt hcall hs hm' ha r).bind
    intro p s₁ hon₁ hs₁ hp
    apply (tidy_carriedAt hcall hs₁ hm' (hy.mono (hon₁.law_le owner)) r).bind
    intro y s₂ hon₂ hs₂ hy
    exact hcall hs₂ hm' (.instantiate (hp.2.mono (hon₂.law_le owner)) (.value hy))
  | element hm' ha =>
    apply (tidy_pathTypeAt hcall hs hm' ha r).bind
    intro p s₁ _ hs₁ hp
    exact tidy_pure hs₁ hp.1
  | left hm' ha =>
    apply (tidy_pathTypeAt hcall hs hm' ha r).bind
    intro p s₁ _ hs₁ hp
    exact tidy_pure hs₁ hp.2.1
  | right hm' ha =>
    apply (tidy_pathTypeAt hcall hs hm' ha r).bind
    intro p s₁ _ hs₁ hp
    exact tidy_pure hs₁ hp.2.2
  | app hm' hu hy =>
    apply (hcall hs hm' (.instantiateAt hu)).bind
    intro g s₁ hon₁ hs₁ hg
    apply (tidy_carriedAt hcall hs₁ hm' (hy.mono (hon₁.law_le owner)) r).bind
    intro y s₂ hon₂ hs₂ hy
    exact tidy_apply hcall hs₂ hm' (hg.mono (hon₂.law_le owner)) hy
  | pathApp hm' hu =>
    apply (hcall hs hm' (.instantiateAt hu)).bind
    intro p s₁ _ hs₁ hp
    exact tidy_pathApply hcall hs₁ hm' hp _
  | comp hm' ha hφs hus hv =>
    exact tidy_compPathAt hcall hs hm' _ _ ha (fun g hg => ⟨hφs g hg, hus g hg⟩) hv r

omit hcall in
/-- To close a family is tidy, and it obeys the law if the environment does. -/
theorem tidy_closeFamily (hs : s.Orderly owner) (a : Term) {env : Env} (dims : IntervalEnv)
    (henv : ∀ e ∈ env, e.Obeys (s.law owner)) :
    Tidy owner (fun s' line => line.Obeys (s'.law owner)) (closeFamily a env dims) s := by
  apply (tidy_ofFault hs (P := fun s' _ => s = s') fun _ _ => rfl).bind
  rintro moves _ - hs₁ rfl
  exact tidy_pure hs₁ (.varying (.body henv))

omit hcall in
/-- To close a system is tidy, and it obeys the law if the environment does. -/
theorem tidy_closeTubes (hs : s.Orderly owner) {env : Env} (dims : IntervalEnv)
    (henv : ∀ e ∈ env, e.Obeys (s.law owner)) (fs : List (Face × Term)) :
    Tidy owner (fun s' tubes => (s'.law owner).Tubes tubes) (closeTubes env dims fs) s := by
  induction fs generalizing s with
  | nil => exact tidy_pure hs nofun
  | cons face rest ih =>
    obtain ⟨φ, u⟩ := face
    have htube : Tidy owner (fun s' tube => tube.1.IsCanonical ∧ tube.2.Obeys (s'.law owner))
        (closeTube env dims (φ, u)) s := by
      apply (tidy_ofFault hs (P := fun s' c => s = s' ∧ c.IsCanonical) fun c hc =>
        ⟨rfl, Face.isCanonical_cofibration hc⟩).bind
      rintro c _ - hs₁ ⟨rfl, hc⟩
      exact tidy_pure hs₁ ⟨hc, .body henv⟩
    apply htube.bind
    intro tube s₁ hon₁ hs₁ htube
    apply (ih hs₁ fun e he => (henv e he).mono (hon₁.law_le owner)).bind
    intro tubes s₂ hon₂ hs₂ htubes
    refine tidy_pure hs₂ (List.forall_mem_cons.2 ⟨?_, htubes⟩)
    exact ⟨htube.1, htube.2.mono (hon₂.law_le owner)⟩

omit hcall in
/-- To resolve a dimension is tidy. -/
theorem tidy_resolve (hs : s.Orderly owner) (dims : IntervalEnv) (d : Dim) :
    Tidy owner (fun _ _ => True) (ofFault (dims.resolve d)) s :=
  tidy_ofFault hs fun _ _ => trivial

/-- One step of evaluation is tidy, at every term, if the environment obeys the law. -/
theorem tidy_step (hs : s.Orderly owner) (hm : (s.law owner).meter m) (t : Term) {env : Env}
    (dims : IntervalEnv) (henv : ∀ e ∈ env, e.Obeys (s.law owner)) :
    Tidy owner (Obeying owner) (step (run f) m t env dims) s := by
  have entries {s' : Session} (hon : s.Onward s') : ∀ e ∈ env, e.Obeys (s'.law owner) :=
    fun e he => (henv e he).mono (hon.law_le owner)
  have value (t : Term) {s' : Session} (hon : s.Onward s') (hs' : s'.Orderly owner) :
      Tidy owner (Obeying owner) (run f m (.evaluate true t env dims)) s' :=
    hcall hs' hm (.evaluate (entries hon))
  have hrefl : s.Onward s := Session.Chain.refl s
  -- Path types of both kinds have three parts, which are evaluated in this order.
  have endpoints (a l r : Term) {type : Value → Value → Value → Value}
      (htype : ∀ {K : PendingLaw} {a l r : Value}, a.Obeys K → l.Obeys K → r.Obeys K →
        (type a l r).Obeys K) :
      Tidy owner (Obeying owner) (do
        let a ← run f m (.evaluate true a env dims)
        let l ← run f m (.evaluate true l env dims)
        return type a l (← run f m (.evaluate true r env dims))) s := by
    apply (value a hrefl hs).bind
    intro a s₁ hon₁ hs₁ ha
    apply (value l hon₁ hs₁).bind
    intro l s₂ hon₂ hs₂ hl
    apply (value r (Session.Chain.trans hon₁ hon₂) hs₂).bind
    intro r s₃ hon₃ hs₃ hr
    have hle := hon₃.law_le owner
    exact tidy_pure hs₃ (htype ((ha.mono (hon₂.law_le owner)).mono hle) (hl.mono hle) hr)
  cases t with
  | univ level => exact tidy_pure hs .univ
  | var i => exact tidy_lookup hcall hs henv i
  | pi x a b =>
    apply (value a hrefl hs).bind
    intro a s₁ hon₁ hs₁ ha
    exact tidy_pure hs₁ (.pi ha (.body (entries hon₁)))
  | lam x b => exact tidy_pure hs (.lam (.body henv))
  | app g a =>
    apply (value g hrefl hs).bind
    intro g s₁ hon₁ hs₁ hg
    split
    · rename_i x b
      cases hg with
      | lam hb =>
        apply (tidy_suspend hs₁ (x := ⟨m, false, a, env, dims⟩) hm (entries hon₁)).bind
        intro e s₂ hon₂ hs₂ he
        exact hcall hs₂ hm (.instantiate (hb.mono (hon₂.law_le owner)) he)
    · apply (value a hon₁ hs₁).bind
      intro v s₂ hon₂ hs₂ hv
      exact tidy_apply hcall hs₂ hm (hg.mono (hon₂.law_le owner)) hv
  | path a l r => exact endpoints a l r .path
  | pathLam x b => exact tidy_pure hs (.pathLam (.body henv))
  | pathApp p d =>
    apply (value p hrefl hs).bind
    intro p s₁ hon₁ hs₁ hp
    apply (tidy_resolve hs₁ dims d).bind
    intro r s₂ hon₂ hs₂ _
    exact tidy_pathApply hcall hs₂ hm (hp.mono (hon₂.law_le owner)) r
  | smoothPath order a l r => exact endpoints a l r .smoothPath
  | comp d d' a fs b =>
    apply (tidy_closeFamily hs a dims henv).bind
    intro line s₁ hon₁ hs₁ hline
    apply (value b hon₁ hs₁).bind
    intro v s₂ hon₂ hs₂ hv
    apply (tidy_closeTubes hs₂ dims (entries (Session.Chain.trans hon₁ hon₂)) fs).bind
    intro tubes s₃ hon₃ hs₃ htubes
    apply (tidy_resolve hs₃ dims d').bind
    intro r' s₄ hon₄ hs₄ _
    apply (tidy_resolve hs₄ dims d).bind
    intro r s₅ hon₅ hs₅ _
    have hlate : s₃.Onward s₅ := Session.Chain.trans hon₄ hon₅
    have hlater : s₂.Onward s₅ := Session.Chain.trans hon₃ hlate
    exact hcall hs₅ hm (.comp ((hline.mono (hon₂.law_le owner)).mono (hlater.law_le owner))
      (htubes.mono (hlate.law_le owner)) (hv.mono (hlater.law_le owner)))
  | coe d d' a b =>
    apply (tidy_closeFamily hs a dims henv).bind
    intro line s₁ hon₁ hs₁ hline
    apply (tidy_resolve hs₁ dims d).bind
    intro r s₂ hon₂ hs₂ _
    apply (tidy_resolve hs₂ dims d').bind
    intro r' s₃ hon₃ hs₃ _
    have hlate : s₁.Onward s₃ := Session.Chain.trans hon₂ hon₃
    apply (value b (Session.Chain.trans hon₁ hlate) hs₃).bind
    intro v s₄ hon₄ hs₄ hv
    exact hcall hs₄ hm (.coe ((hline.mono (hlate.law_le owner)).mono (hon₄.law_le owner)) hv)
  | hcomp a fs b =>
    apply (value a hrefl hs).bind
    intro a s₁ hon₁ hs₁ ha
    apply (value b hon₁ hs₁).bind
    intro v s₂ hon₂ hs₂ hv
    apply (tidy_closeTubes hs₂ dims (entries (Session.Chain.trans hon₁ hon₂)) fs).bind
    intro tubes s₃ hon₃ hs₃ htubes
    have hle := hon₃.law_le owner
    exact hcall hs₃ hm (.comp (.constant ((ha.mono (hon₂.law_le owner)).mono hle)) htubes
      (hv.mono hle))
  | missing => exact tidy_throw hs _

/-- Demands are met tidily with one more call if they are so without. -/
theorem tidy_answer : TidyCall owner (f + 1) := by
  intro s m d hs hm hd
  change Tidy owner (Obeying owner) (answer (run f) m d) s
  cases hd with
  | @evaluate nests t env dims henv =>
    have charged {s' : Session} (hon : ∀ k, s.Precedes k s') (hs' : s'.Orderly owner) :
        Tidy owner (Obeying owner) (chargedStep (run f) m t env dims) s' := by
      apply (tidy_charge hs' m).bind
      intro _ s₁ hon₁ hs₁ _
      refine tidy_step hcall hs₁ hm t dims fun e he => ?_
      exact ((henv e he).mono (Session.law_le hon owner)).mono (hon₁.law_le owner)
    cases nests with
    | false => exact charged (fun k => .refl k s) hs
    | true =>
      apply Tidy.nest hs
      · intro s₁ s₂ v hon hv
        exact hv.mono (Session.law_le hon owner)
      · intro s₁ hon hs₁
        apply (tidy_checkDepth hs₁ m t).bind
        intro _ s₂ hon₂ hs₂ _
        exact charged (fun k => (hon k).trans (hon₂ k).toPrecedes) hs₂
  | instantiate hc he => exact tidy_instantiate hcall hs hm hc he
  | instantiateAt hc => exact tidy_instantiateAt hcall hs hm hc _
  | comp ha hfs hv => exact tidy_comp hcall hs hm _ _ ha hfs hv
  | coe ha hv => exact tidy_coe hcall hs hm _ _ ha hv

end Rules

/-- Demands that obey the law are met by values that do, however many calls may nest. -/
theorem run_tidy (owner : Option MeterId) : ∀ f, TidyCall owner f
  | 0 => fun hs _ _ => tidy_throw hs _
  | f + 1 => tidy_answer (run_tidy owner f)

end Eval

end SmoothCubical
