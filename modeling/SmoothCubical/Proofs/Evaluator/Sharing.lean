import SmoothCubical.Proofs.Evaluator.Operations
import SmoothCubical.Proofs.IdleCoercion

/-!
# Arguments that are computed once

An evaluator that keeps the values of arguments gives the normal forms of one that computes an
argument each time it is looked at, and spends no more steps (`call_by_need_refines`). The context
must hold nothing that belongs to another evaluator. The closures of Kan rules draw their probes on
the meter of the evaluator that made them. Two evaluators may thus draw the same probe, and whether
they do so while both probes are in play depends on how often arguments are computed
(`sharing_changes_normal_form`).
-/

set_option autoImplicit false

namespace SmoothCubical

/-! ## Evaluators that keep no values -/

/-- The session as it would be had no value of an argument been kept, and in which none is from
now on. -/
def Session.unshared (s : Session) : Session :=
  { s with sharing := .byName, cells := s.cells.map fun c => { c with value := none } }

namespace Session

variable {m : MeterId} {s : Session}

/-- Without its values, a session knows the same arguments. -/
theorem origin_unshared (s : Session) : s.unshared.origin = s.origin := by
  funext id
  simp only [origin, unshared, Array.getElem?_map, Option.map_map]
  rfl

/-- A session without its values computes arguments each time they are looked at. -/
theorem plain_unshared (s : Session) : s.unshared.Plain := by
  refine ⟨rfl, fun id x v hc => ?_⟩
  simp only [unshared, Array.getElem?_map, Option.map_eq_some_iff] at hc
  obtain ⟨c, _, hc⟩ := hc
  cases hc

/-- A session that keeps no values is sound. -/
theorem Plain.sound (h : s.Plain) : s.Sound :=
  fun id x v hc => (h.unkept id x v hc).elim

/-- A session leads to itself without its values. -/
theorem leads_unshared (s : Session) : s.Leads s.unshared where
  origin hx := by rwa [s.origin_unshared]
  sound := s.plain_unshared.sound

/-- A session without its values has spent no less. -/
theorem outspends_unshared (hm : m < s.meters.size) : s.unshared.Outspends m s where
  opened := hm
  opened' := hm
  plain := s.plain_unshared
  settings := rfl
  depth := rfl
  steps := Nat.le_refl _

end Session

/-! ## Contexts of one evaluator -/

/-- The context holds only what belongs to the evaluator on the meter, and its interval variables
are no probes. -/
structure Context.Owned (m : MeterId) (s : Session) (ctx : Context) : Prop where
  entries : ∀ e ∈ ctx.env, e.In ((Scope.owned m).during s)
  points : ∀ r ∈ ctx.dims, r.On (0 ≤ ·)

/-- The types of the variables belong to the evaluator, too. -/
structure Context.FullyOwned (m : MeterId) (s : Session) (ctx : Context) : Prop extends
    Context.Owned m s ctx where
  types : ∀ b ∈ ctx.bindings, b.ty.In ((Scope.owned m).during s)

/-- The context of a list of declarations, by a new evaluator. -/
def declareOn (frames : Nat) (settings : Settings) (xs : List Declaration) : Run Context := do
  let m ← Run.openMeter settings
  xs.foldlM (Declaration.addOn frames m) .empty

namespace Context.FullyOwned

variable {m : MeterId} {s s' : Session} {ctx ctx' : Context} {frames : Nat}

/-- A context that belongs to the evaluator still does in every session that is led to. -/
theorem mono (h : ctx.FullyOwned m s) (hs : s.Leads s') : ctx.FullyOwned m s' where
  entries e he := (h.entries e he).mono (hs.le _)
  points := h.points
  types b hb := (h.types b hb).mono (hs.le _)

/-- A value that the evaluator computes in a context of its own belongs to it. -/
theorem evaluate (hs : s.Serves m) (h : ctx.FullyOwned m s) {t : Term} {v : Value}
    (hrun : Eval.evaluate frames m t ctx.env ctx.dims s = .ok v s') :
    s'.Serves m ∧ s.Leads s' ∧ ctx.FullyOwned m s' ∧ v.In ((Scope.owned m).during s') := by
  have hdemand : Demand.In ((Scope.owned m).during s) (.evaluate true t ctx.env ctx.dims) :=
    .evaluate ⟨h.entries, h.points, .inl trivial⟩
  obtain ⟨hleads, hv⟩ := (Eval.run_safe (S := .owned m) frames hs.sound rfl hdemand).ok hrun
  have hserves := hs.step frames m (.evaluate t ctx.dims) fun e he =>
    (h.entries e he).mono (Scope.owned_le_known m s)
  rw [Operation.run, Run.after_bind_ok hrun] at hserves
  exact ⟨hserves, hleads, h.mono hleads, hv⟩

/-- A variable more, with a type and a value of the evaluator. -/
theorem cons (h : ctx.FullyOwned m s) (name : String) {ty v : Value}
    (hty : ty.In ((Scope.owned m).during s)) (hv : v.In ((Scope.owned m).during s)) :
    FullyOwned m s
      { ctx with bindings := ⟨name, ty⟩ :: ctx.bindings, env := .value v :: ctx.env } where
  entries := List.forall_mem_cons.2 ⟨.value hv, h.entries⟩
  points := h.points
  types := List.forall_mem_cons.2 ⟨hty, h.types⟩

/-- A context that is declared on the evaluator, entry by entry, belongs to it. -/
theorem addOn (hs : s.Serves m) (h : ctx.FullyOwned m s) (x : Declaration)
    (hadd : x.addOn frames m ctx s = .ok ctx' s') : s'.Serves m ∧ ctx'.FullyOwned m s' := by
  cases Declaration.added hadd with
  | hypothesis ha =>
    obtain ⟨hs₁, _, hctx₁, ha⟩ := h.evaluate hs ha
    exact ⟨hs₁, hctx₁.cons _ ha (.typed (.var trivial) ha)⟩
  | definition ha hv =>
    obtain ⟨hs₁, _, hctx₁, ha⟩ := h.evaluate hs ha
    obtain ⟨hs₂, hleads, hctx₂, hv⟩ := hctx₁.evaluate hs₁ hv
    exact ⟨hs₂, hctx₂.cons _ (ha.mono (hleads.le _)) hv⟩
  | dimension =>
    exact ⟨hs, ⟨h.entries, List.forall_mem_cons.2 ⟨Int.natCast_nonneg _, h.points⟩⟩, h.types⟩

/-- A context that belongs to the evaluator still does after it was extended by a list of entries.
-/
theorem addAllOn {xs : List Declaration} (hs : s.Serves m) (h : ctx.FullyOwned m s)
    (hadd : xs.foldlM (Declaration.addOn frames m) ctx s = .ok ctx' s') :
    s'.Serves m ∧ ctx'.FullyOwned m s' := by
  induction xs generalizing ctx s with
  | nil =>
    cases hadd
    exact ⟨hs, h⟩
  | cons x xs ih =>
    rw [List.foldlM_cons] at hadd
    obtain ⟨ctx₁, s₁, hx, hxs⟩ := Run.bind_eq_ok.1 hadd
    obtain ⟨hs₁, hctx₁⟩ := h.addOn hs x hx
    exact ih hs₁ hctx₁ hxs

end Context.FullyOwned

/-- A context that was declared by one evaluator belongs to it. -/
theorem fullyOwned_of_declareOn {frames : Nat} {settings : Settings} {xs : List Declaration}
    {sharing : Sharing} {ctx : Context} {s : Session}
    (h : declareOn frames settings xs { sharing } = .ok ctx s) :
    s.Serves 0 ∧ ctx.FullyOwned 0 s := by
  obtain ⟨m, s₀, hm, hxs⟩ := Run.bind_eq_ok.1 h
  cases hm
  have hserves := Session.serves_single { settings } sharing
  have howned : Context.FullyOwned 0 { meters := #[{ settings }], sharing } .empty :=
    ⟨⟨fun e he => (List.not_mem_nil he).elim, fun r hr => (List.not_mem_nil hr).elim⟩,
      fun b hb => (List.not_mem_nil hb).elim⟩
  exact howned.addAllOn hserves hxs

/-- A context that was declared on an evaluator belongs to it. -/
theorem owned_of_declareOn {frames : Nat} {settings : Settings} {xs : List Declaration}
    {sharing : Sharing} {ctx : Context} {s : Session}
    (h : declareOn frames settings xs { sharing } = .ok ctx s) :
    s.Serves 0 ∧ ctx.Owned 0 s := by
  obtain ⟨hserves, howned⟩ := fullyOwned_of_declareOn h
  exact ⟨hserves, howned.toOwned⟩

/-! ## Refinement -/

/-- How a run may end that refines another: if that one was not cut off, with the same term or a
failure that is alike, and with no more steps spent. -/
inductive Refines (m : MeterId) :
    EStateM.Result Failure Session Term → EStateM.Result Failure Session Term → Prop
  | ok {t : Term} {s s' : Session} :
      (s'.meter m).steps ≤ (s.meter m).steps → Refines m (.ok t s) (.ok t s')
  | error {e e' : Failure} {s s' : Session} :
      e.Alike e' → (s'.meter m).steps ≤ (s.meter m).steps → Refines m (.error e s) (.error e' s')
  | cutOff {guard : Guard} {s : Session} {y : EStateM.Result Failure Session Term} :
      Refines m (.error (.nonTermination guard) s) y

/-- Runs with alike outcomes, of which the second spends no more, refine each other if no argument
is unknown. -/
theorem refines_of_outcome {m : MeterId} {x y : Run Term} {s s' : Session}
    (h : Likeness.Outcome m False True (· = ·) (x s) (y s')) {lax : Prop}
    (hx : Run.Safe lax (fun _ _ => True) x s) (hy : Run.Safe lax (fun _ _ => True) y s') :
    Refines m (x s) (y s') := by
  generalize hu : x s = u at h
  generalize hw : y s' = w at h
  cases h with
  | ok ht hahead =>
    subst ht
    exact .ok (hahead trivial).steps
  | error he hahead => exact .error (he not_false) (hahead trivial).steps
  | cut he =>
    cases he with
    | nonTermination guard => exact .cutOff
    | unknownThunk id => exact (hx.error hu).2.elim
  | cut' _ hunknown =>
    obtain ⟨id, rfl⟩ := hunknown trivial
    exact (hy.error hw).2.elim

/-- Call by need refines call by name. In a context of its own, an evaluator that keeps the values
of arguments ends as it would if it computed them each time they are looked at, and spends no more
steps. -/
theorem call_by_need_refines {m : MeterId} {s : Session} (hs : s.Serves m) {ctx : Context}
    (hctx : ctx.Owned m s) (t : Term) (frames : Nat) :
    Refines m
      (normalizeOn frames m t ctx.env ctx.dims ctx.bindings.length ctx.dims.length s.unshared)
      (normalizeOn frames m t ctx.env ctx.dims ctx.bindings.length ctx.dims.length s) := by
  generalize ctx.bindings.length = d
  generalize ctx.dims.length = e
  have hentries : ∀ e ∈ ctx.env, e.In ((Scope.owned m).during s.unshared) := by
    unfold Scope.during
    rw [s.origin_unshared]
    exact hctx.entries
  have hplain := s.plain_unshared
  have hsafe := safe_normalizeOn (S := .owned m) (f := frames) trivial rfl hplain.sound hentries
    hctx.points t d e
  have hsafe' := safe_normalizeOn (S := .owned m) (f := frames) trivial rfl hs.sound hctx.entries
    hctx.points t d e
  apply refines_of_outcome _ hsafe hsafe'
  let x := normalizeOn frames m t ctx.env ctx.dims d e
  have hend : s.Precedes m (x.after s) := (Run.Advancing.keeps s).toPrecedes
  have hend' : s.Precedes m (x.after s.unshared) := by
    have hadv : s.unshared.Precedes m (x.after s.unshared) := (Run.Advancing.keeps _).toPrecedes
    refine ⟨hadv.steps, hadv.probes, fun hx => hadv.origin ?_⟩
    rwa [s.origin_unshared]
  let L := Likeness.between m (x.after s.unshared) (x.after s)
  have hholds : L.Holds ((Scope.owned m).during s) := Likeness.holds_owned hend' hend
  have henv : L.Environments ctx.env ctx.env :=
    .refl fun e he => (hctx.entries e he).alike hholds
  have hdims : L.Dims ctx.dims ctx.dims := .refl (fun _ hl => hl) hctx.points
  have hready : s.unshared.Ready m L.origin L.left (x.after s.unshared) :=
    ⟨hs.isOpened, hplain.certified, Session.clear_of_nonneg Likeness.left_between _ _, id⟩
  have hready' : s.Ready m L.origin' L.right (x.after s) := hs.ready Likeness.right_between _
  let limit := ((x.after s.unshared).meter m).steps
  have halike : L.Alike True limit (· = ·) x s.unshared x s :=
    alike_normalizeOn henv (Likeness.run_strict limit frames)
      (Likeness.quote_strict Likeness.exact_between limit frames) hdims t d e
  exact halike hready hready' (Nat.le_refl _) fun _ => Session.outspends_unshared hs.isOpened

/-- A path `P` between types. -/
def movingPath : Declaration :=
  .hypothesis "P" (.path (.univ 1) (.univ 0) (.univ 0))

/-- The function from types to types that is constantly `Type0`, moved along function types whose
codomains move along the argument. -/
def movedConstant : Declaration :=
  .definition "f" (.univ 0)
    (.coe .zero .one (.pi "y" (.univ 0) (.pathApp (.var 0) (.var 0))) (.lam "y" (.univ 0)))

/-- The redex of a function that looks at its argument `x` twice and then moves a type along a
family. The argument is moved along `P`, which is variable `i`. -/
def lookTwice (i : Int) (family base : Term) : Term :=
  let moved (t : Term) : Term := .coe .zero .one (.pathApp (.var i) (.var 0)) t
  .app (.lam "x" (.path (.var 0) (.var 0) (.coe .zero .one family base))) (moved (moved (.univ 0)))

/-- The family of `f` at a path of types that starts in the direction of the family. -/
def probedTwice : Term :=
  .app (.var 1) (.pathLam "k" (.coe (.var 1) (.var 0) (.pathApp (.var 2) (.var 0)) (.univ 0)))

/-- A term moved along the path that is variable `i`. -/
def movedAlong (i : Int) (t : Term) : Term :=
  .coe .zero .one (.pathApp (.var i) (.var 0)) t

/-- With `f` made by the same evaluator, the normal form does not depend on how often the argument
is computed. -/
theorem call_by_need_refines_lookTwice :
    ∃ (ctx : Context) (s r : Session) (n : Term),
      declareOn 100 .default [movingPath, movedConstant] {} = .ok ctx s ∧
      normalizeOn 100 0 (lookTwice 1 probedTwice (.univ 5)) ctx.env ctx.dims ctx.bindings.length
        ctx.dims.length s.unshared = .ok n r ∧
      Refines 0 (.ok n r) (normalizeOn 100 0 (lookTwice 1 probedTwice (.univ 5)) ctx.env ctx.dims
        ctx.bindings.length ctx.dims.length s) := by
  have hends : answer? (do
      let ctx ← declareOn 100 .default [movingPath, movedConstant]
      modify Session.unshared
      let _ ← normalizeOn 100 0 (lookTwice 1 probedTwice (.univ 5)) ctx.env ctx.dims
        ctx.bindings.length ctx.dims.length) = some () := by
    decide +kernel
  obtain ⟨_, hends⟩ := answer?_eq_some hends
  obtain ⟨ctx, s, hctx, hrest⟩ := Run.bind_eq_ok.1 hends
  obtain ⟨_, _, hmodify, hrest⟩ := Run.bind_eq_ok.1 hrest
  cases hmodify
  obtain ⟨n, r, hn, _⟩ := Run.bind_eq_ok.1 hrest
  obtain ⟨hserves, howned⟩ := owned_of_declareOn hctx
  have hrefines := call_by_need_refines hserves howned (lookTwice 1 probedTwice (.univ 5)) 100
  rw [hn] at hrefines
  exact ⟨ctx, s, r, n, hctx, hn, hrefines⟩

/-! ## A context of several evaluators -/

/-- How the normalization of a term in a declared context ends, with each entry of the context
evaluated by an evaluator of its own. -/
def endOf (sharing : Sharing) (xs : List Declaration) (t : Term) : Except Failure Term :=
  let run : Run Term := do
    let ctx ← Declaration.addAll 100 .default xs .empty
    Kernel.normalize 100 .default ctx t
  match run { sharing } with
  | .ok n _ => .ok n
  | .error e _ => .error e

/-- Whether two runs end with terms that are not the same, or with failures of one class that are
told differently. -/
def endApart : Except Failure Term → Except Failure Term → Bool
  | .ok n, .ok n' => !n.same n'
  | .error e, .error e' => e.kind == e'.kind && e.message != e'.message
  | _, _ => false

/-- Evaluators that keep values and evaluators that do not may end differently. If `f` was made by
another evaluator and the argument is computed once, then the probe at which `probedTwice` is looked
at and the probe that `f` draws there are the same. And a message may show the number of a probe. -/
theorem sharing_changes_normal_form :
    let fail : Term := .pathApp (.univ 0) (.var 0)
    endApart (endOf .byName [movingPath, movedConstant] (lookTwice 1 probedTwice (.univ 5)))
      (endOf .byNeed [movingPath, movedConstant] (lookTwice 1 probedTwice (.univ 5))) = true ∧
    endApart (endOf .byName [movingPath] (lookTwice 0 fail (.univ 0)))
      (endOf .byNeed [movingPath] (lookTwice 0 fail (.univ 0))) = true := by
  decide +kernel

end SmoothCubical
