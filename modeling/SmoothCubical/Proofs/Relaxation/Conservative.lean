import SmoothCubical.Proofs.Evaluator.Sharing
import SmoothCubical.Proofs.Relaxation.Judgment
import SmoothCubical.Proofs.Scope.Typing

/-!
# Relaxing is conservative

What is accepted under some rules is accepted under relaxed ones (`relaxation_conservative`). If
partial elements are compared as before, that is so in every context, and the type that is inferred
is the same. If they are no longer compared, the context has to belong to the evaluator; then the
type that is inferred reads back the same, unless a guard cuts the run off. Neither condition can be
dropped (`comparison_shows`). But an evaluator that computes arguments each time they are looked at
spends no less than any other, so what it accepts is not cut off under relaxed rules.
-/

set_option autoImplicit false

namespace SmoothCubical

/-- The run has answered as described, unless a guard has cut it off. Where it is sure to answer it
has not. -/
inductive UnlessCutOff (sure : Prop) {α : Type} (P : α → Session → Prop) :
    EStateM.Result Failure Session α → Prop
  | ok {a : α} {s : Session} : P a s → UnlessCutOff sure P (.ok a s)
  | cutOff {guard : Guard} {s : Session} :
      ¬ sure → UnlessCutOff sure P (.error (.nonTermination guard) s)

/-- What was answered as described was answered so for every weaker description. -/
theorem UnlessCutOff.mono {sure : Prop} {α : Type} {P P' : α → Session → Prop}
    {result : EStateM.Result Failure Session α} (h : UnlessCutOff sure P result)
    (hP : ∀ a s, P a s → P' a s) : UnlessCutOff sure P' result := by
  cases h with
  | ok ha => exact .ok (hP _ _ ha)
  | cutOff hnot => exact .cutOff hnot

/-- Unless a guard cuts one of them off, two runs answer one after the other. -/
theorem UnlessCutOff.bind {sure : Prop} {α β : Type} {P : α → Session → Prop}
    {Q : β → Session → Prop} {x : Run α} {f : α → Run β} {s : Session}
    (hx : UnlessCutOff sure P (x s))
    (hf : ∀ a t, x s = .ok a t → P a t → UnlessCutOff sure Q (f a t)) :
    UnlessCutOff sure Q ((x >>= f) s) := by
  generalize hxs : x s = u at hx
  cases hx with
  | ok ha =>
    rw [Run.bind_ok hxs]
    exact hf _ _ hxs ha
  | cutOff hnot =>
    rw [Run.bind_error hxs]
    exact .cutOff hnot

/-- Fail unless the second term is a type and the first has it. -/
def Typing.checkAs (d : Derivation) (ctx : Context) (term expected : Term) : Run Unit := do
  let _ ← inferUniverse d ctx expected
  check d ctx term (← eval d ctx expected)

/-! ## The same comparisons -/

section Kernel

open Run Typing

variable {σ τ : Settings} (hτ : σ.RelaxesTo τ)
  (hagree : σ.checkFaceAgreement = τ.checkFaceAgreement) {frames : Nat} {ctx : Context} {t : Term}
  {s r : Session}
include hτ hagree

/-- A type that was inferred is inferred under relaxed rules that compare partial elements as
before. -/
theorem infer_relaxed {ty : Value} (hrun : Kernel.infer frames σ ctx t s = .ok ty r) :
    ∃ r', Kernel.infer frames τ ctx t s = .ok ty r' ∧ r.Widens Settings.sameGuards r' :=
  derivation_relaxed (f := fun d => infer d ctx t) hτ
    (fun m => judge_below (d := ⟨frames, m, σ⟩) hτ hagree t ctx none)
    (fun _ => judge_completes (.refl _) t ctx none) hrun

/-- A check that was passed is passed under such rules by the same derivation. -/
theorem check_below (m : MeterId) (expected : Value) :
    Below (check ⟨frames, m, σ⟩ ctx t expected) (check ⟨frames, m, τ⟩ ctx t expected) :=
  (judge_below (d := ⟨frames, m, σ⟩) hτ hagree t ctx (some expected)).bind fun _ => .refl _

/-- A term that was accepted at a type is accepted there under such rules. -/
theorem check_relaxed {expected : Value}
    (hrun : Kernel.check frames σ ctx t expected s = .ok () r) :
    ∃ r', Kernel.check frames τ ctx t expected s = .ok () r' := by
  obtain ⟨r', hrun', _⟩ := derivation_relaxed (f := fun d => check d ctx t expected) hτ
    (fun m => check_below hτ hagree m expected)
    (fun _ => (judge_completes (.refl _) t ctx (some expected)).bind fun _ => .pure ()) hrun
  exact ⟨r', hrun'⟩

/-- A term that was accepted at another as its type is accepted there under such rules. -/
theorem checkTerm_relaxed {expected : Term}
    (hrun : Kernel.checkTerm frames σ ctx t expected s = .ok () r) :
    ∃ r', Kernel.checkTerm frames τ ctx t expected s = .ok () r' := by
  have hbelow (m : MeterId) :
      Below (checkAs ⟨frames, m, σ⟩ ctx t expected) (checkAs ⟨frames, m, τ⟩ ctx t expected) := by
    have huniverse : Below (inferUniverse ⟨frames, m, σ⟩ ctx expected)
        (inferUniverse ⟨frames, m, τ⟩ ctx expected) := by
      refine (judge_below (d := ⟨frames, m, σ⟩) hτ hagree expected ctx none).bind fun ty => ?_
      exact universeLevel_under ⟨frames, m, σ⟩ τ ctx ty ▸ .refl _
    refine huniverse.bind fun _ => (Below.refl (eval ⟨frames, m, σ⟩ ctx expected)).bind fun ty => ?_
    exact check_below hτ hagree m ty
  have hsame (m : MeterId) : CompletesBy Settings.sameGuards
      (checkAs ⟨frames, m, τ⟩ ctx t expected) (checkAs ⟨frames, m, τ⟩ ctx t expected) := by
    have hd : Derivation.Loosens ⟨frames, m, τ⟩ ⟨frames, m, τ⟩ := .refl _
    have huniverse : CompletesBy Settings.sameGuards (inferUniverse ⟨frames, m, τ⟩ ctx expected)
        (inferUniverse ⟨frames, m, τ⟩ ctx expected) :=
      (judge_completes hd expected ctx none).bind (universeLevel_completes hd ctx)
    refine huniverse.bind fun _ => ?_
    refine (evaluate_completes hd expected ctx.env ctx.dims).bind fun ty => ?_
    exact (judge_completes hd t ctx (some ty)).bind fun _ => .pure ()
  obtain ⟨r', hrun', _⟩ :=
    derivation_relaxed (f := fun d => checkAs d ctx t expected) hτ hbelow hsame hrun
  exact ⟨r', hrun'⟩

end Kernel

/-! ## Sessions of one evaluator -/

/-- The session serves the evaluator, with the values that it keeps or without them. -/
inductive Session.Hosts (m : MeterId) : Session → Prop
  | serves {s : Session} : s.Serves m → Hosts m s
  | unshared {s : Session} : s.Serves m → Hosts m s.unshared

namespace Session.Hosts

variable {m : MeterId} {s : Session}

/-- The meter of the evaluator that is hosted is open. -/
theorem isOpened (h : s.Hosts m) : m < s.meters.size := by
  cases h with
  | serves h => exact h.isOpened
  | unshared h => exact h.isOpened

/-- A session that hosts an evaluator is sound. -/
theorem sound (h : s.Hosts m) : s.Sound := by
  cases h with
  | serves h => exact h.sound
  | unshared h => exact (plain_unshared _).sound

/-- The values that a session keeps for the evaluator it hosts are certified. -/
theorem certified (h : s.Hosts m) {points : Int → Prop} (hpoints : ∀ l, points l → 0 ≤ l) :
    s.Certified m points := by
  cases h with
  | serves h => exact h.certified hpoints
  | unshared h => exact (plain_unshared _).certified

/-- From a session that hosts an evaluator a run can be compared. -/
theorem ready (h : s.Hosts m) {points : Int → Prop} (hpoints : ∀ l, points l → 0 ≤ l)
    (e : Session) : s.Ready m e.origin points e :=
  ⟨h.isOpened, h.certified hpoints, clear_of_nonneg hpoints s e, id⟩

/-- From the end of a run, another run can be compared. -/
theorem ready_after {α : Type} {x : Run α} [hx : Run.Advancing m x] (h : s.Hosts m)
    {points : Int → Prop} (hpoints : ∀ l, points l → 0 ≤ l) (e : Session) :
    (x.after s).Ready m e.origin points e where
  opened := (hx.keeps s).opened h.isOpened
  certified := (hx.keeps s).certified h.isOpened points (h.certified hpoints)
    (clear_of_nonneg hpoints _ _)
  clear := clear_of_nonneg hpoints _ _
  known := id

end Session.Hosts

/-! ## Contexts of one evaluator -/

section Owned

open Likeness Typing

variable {m : MeterId} {s₀ s s' : Session} {ctx : Context}

/-- A context that belongs to the evaluator is like itself. -/
theorem Context.FullyOwned.alike {L : Likeness} (h : ctx.FullyOwned m s₀)
    (hL : L.Holds ((Scope.owned m).during s₀)) : L.Contexts ctx ctx where
  length := rfl
  types i := by
    cases hb : ctx.bindings[i]? with
    | none => exact .none
    | some b => exact .some ((h.types b (List.mem_of_getElem? hb)).alike hL)
  env := .refl fun e he => (h.entries e he).alike hL
  dims := rfl
  points := h.points

/-- What belongs to the evaluator is in scope of every context. -/
theorem Context.owned_le_scope (ctx : Context) (m : MeterId) (s : Session) :
    ((Scope.owned m).during s).Le ((ctx.scope (.owned m)).during s) :=
  ⟨.inl, .inl, id, id, id⟩

/-- A context that belongs to the evaluator is in scope. -/
theorem Context.FullyOwned.inScope (h : ctx.FullyOwned m s) : ctx.In (.owned m) s where
  types b hb := (h.types b hb).mono (ctx.owned_le_scope m s)
  entries e he := (h.entries e he).mono (ctx.owned_le_scope m s)
  points r hr := (h.points r hr).mono fun _ => .inl
  length := .inl trivial

/-- A run with the outcome of one that answers has answered too, unless a guard has cut it off. -/
theorem unlessCutOff_of_outcome {α β : Type} {y : Run β} {k : MeterId} {loose sure lax : Prop}
    {R : α → β → Prop} {P : Session → β → Prop} {a : α} {r : Session}
    (hout : Outcome k loose sure R (.ok a r) (y s')) (hsafe : Run.Safe lax P y s') :
    UnlessCutOff sure (fun b r' => R a b ∧ (sure → r.Outspends k r')) (y s') := by
  generalize hy : y s' = w at hout ⊢
  cases hout with
  | ok hab hahead => exact .ok ⟨hab, hahead⟩
  | cut' he hunknown =>
    cases he with
    | nonTermination guard =>
      refine .cutOff fun hsure => ?_
      obtain ⟨id, hid⟩ := hunknown hsure
      cases hid
    | unknownThunk id => exact (hsafe.error hy).2.elim

/-- Where a run is followed in whatever belongs to the evaluator. -/
theorem unlessCutOff_owned {α β : Type} {x : Run α} {y : Run β} [Run.Advancing m x]
    [Run.Advancing m y] {sure lax : Prop} {R : Likeness → α → β → Prop} {P : Session → β → Prop}
    (hs : s.Hosts m) (hs' : s'.Hosts m) (hlead : s₀.Leads s) (hlead' : s₀.Leads s')
    (hahead : sure → s.Outspends m s') (hsafe : Run.Safe lax P y s')
    (hxy : ∀ L : Likeness, [L.Faithful] → L.meter = m → L.Exact →
      L.Holds ((Scope.owned m).during s₀) → L.Follows sure (R L) x s y s') {a : α} {r : Session}
    (hrun : x s = .ok a r) :
    UnlessCutOff sure (fun b r' => R (between m r (y.after s')) a b ∧ (sure → r.Outspends m r'))
      (y s') := by
  have hend : s.Precedes m (x.after s) := (Run.Advancing.keeps s).toPrecedes
  have hend' : s'.Precedes m (y.after s') := (Run.Advancing.keeps s').toPrecedes
  have hholds : (between m (x.after s) (y.after s')).Holds ((Scope.owned m).during s₀) :=
    holds_of_origin (fun hx => hend.origin (hlead.origin hx)) fun hx =>
      hend'.origin (hlead'.origin hx)
  have hfollows := hxy (between m (x.after s) (y.after s')) rfl exact_between hholds
  have hout := hfollows (hs.ready left_between _) (hs'.ready right_between _) hahead a r hrun
  rw [Run.after_ok hrun] at hout
  exact unlessCutOff_of_outcome hout hsafe

/-- What answered in one session of the evaluator answers alike in another. -/
theorem unlessCutOff_again {α β : Type} {x : Run α} {y : Run β} [Run.Advancing m x]
    [Run.Advancing m y] {lax : Prop} {R : Likeness → α → β → Prop} {P : Session → β → Prop}
    (hs : s₀.Attends m s) (hs' : s₀.Attends m s') (hsafe : Run.Safe lax P y s')
    (hxy : ∀ L : Likeness, [L.Faithful] → L.meter = m → L.Exact →
      L.Holds ((Scope.owned m).during s₀) → ∀ limit, L.Alike False limit (R L) x s y s') {a : α}
    {r : Session} (hrun : x s = .ok a r) :
    UnlessCutOff False (fun b r' => R (between m r r') a b ∧ y s' = .ok b r') (y s') := by
  have hends := unlessCutOff_owned (.serves hs.serves) (.serves hs'.serves) hs.leads hs'.leads
    False.elim hsafe (fun L _ hm hL hholds => .of_alike (hxy L hm hL hholds)) hrun
  generalize hy : y s' = result at hends ⊢
  cases hends with
  | cutOff hnot => exact .cutOff hnot
  | ok h =>
    rw [Run.after_ok hy] at h
    exact .ok ⟨h.1, rfl⟩

section

variable {x y : Run Value} [Run.Advancing m x] [Run.Advancing m y] {v v' : Value} {r r' : Session}
  {sure : Prop} {k k' : Nat}

/-- Alike values at the ends of two runs have the same outcome when they are read back. -/
theorem outcome_quote (hs : s.Hosts m) (hs' : s'.Hosts m) (hx : x s = .ok v r)
    (hy : y s' = .ok v' r') (hv : (between m r r').Values v v') (hahead : sure → r.Outspends m r')
    (hk : sure → k' = k) (d e : Nat) :
    Outcome m False sure (· = ·) (Readback.quote k m d e v r)
      (Readback.quote k' m d e v' r') := by
  let u := Readback.quote k m d e v
  let w := Readback.quote k' m d e v'
  have hend : r.Precedes m (u.after r) := (Run.Advancing.keeps r).toPrecedes
  have hend' : r'.Precedes m (w.after r') := (Run.Advancing.keeps r').toPrecedes
  let L := between m (u.after r) (w.after r')
  have hready : (x.after s).Ready m L.origin L.left (u.after r) := hs.ready_after left_between _
  have hready' : (y.after s').Ready m L.origin' L.right (w.after r') :=
    hs'.ready_after right_between _
  rw [Run.after_ok hx] at hready
  rw [Run.after_ok hy] at hready'
  exact quote_readers exact_between hk _ d e v v' r r' (Int.natCast_nonneg e)
    (hv.mono (between_le hend hend')) hready hready' (Nat.le_refl _) hahead

/-- Alike values at the ends of two runs read back the same. -/
theorem unlessCutOff_quote {S : Scope} (hlax : S.lax) (hm : S.meter m) (hs : s.Hosts m)
    (hs' : s'.Hosts m) (hx : x s = .ok v r) (hy : y s' = .ok v' r')
    (hsafe : Run.Safe S.lax (Eval.InScope S) y s') (hv : (between m r r').Values v v')
    (hahead : sure → r.Outspends m r') (hk : sure → k' = k) (d e : Nat) {n : Term} {q : Session}
    (hread : Readback.quote k m d e v r = .ok n q) :
    UnlessCutOff sure (fun n' _ => n' = n) (Readback.quote k' m d e v' r') := by
  obtain ⟨hleads, hin⟩ := hsafe.ok hy
  have hout := outcome_quote hs hs' hx hy hv hahead hk d e
  rw [hread] at hout
  apply (unlessCutOff_of_outcome hout
    (Readback.quote_safe m k' hleads.sound hm (.inl hlax) hin)).mono
  rintro _ _ ⟨rfl, _⟩
  rfl

end

instance (d : Derivation) (ctx : Context) (t e : Term) : Run.Advancing m (checkAs d ctx t e) := by
  unfold checkAs
  infer_instance

/-- A term is judged safely in a context that belongs to the evaluator. -/
theorem safeJudgment_owned (frames : Nat) (settings : Settings) (t : Term) :
    SafeJudgment (.owned m) ⟨frames, m, settings⟩ t :=
  judge_safe ⟨rfl, .inl trivial⟩ t

variable {σ τ : Settings} (hτ : σ.RelaxesTo τ) (hctx : ctx.FullyOwned m s₀) (hs : s.Hosts m)
  (hs' : s'.Hosts m) (hlead : s₀.Leads s) (hlead' : s₀.Leads s') {frames frames' : Nat}
  {sure : Prop} (hahead : sure → s.Outspends m s') (hframes : sure → frames' = frames) {t : Term}
  {r : Session}

section

include hctx hs hs' hlead hlead' hahead

/-- Where the judgment on one term is followed by the one on another, the types that are inferred
read back the same. -/
theorem infer_followed_owned {t' : Term}
    (hfollows : ∀ L : Likeness, [L.Faithful] → L.meter = m → L.Exact → L.Contexts ctx ctx →
      L.Follows sure L.Values (infer ⟨frames, m, σ⟩ ctx t) s (infer ⟨frames', m, τ⟩ ctx t') s')
    {ty : Value} (hrun : infer ⟨frames, m, σ⟩ ctx t s = .ok ty r) :
    UnlessCutOff sure
      (fun ty' r' => ∀ (k k' : Nat) (n : Term) (q : Session),
        Readback.quote k m ctx.depth ctx.dimDepth ty r = .ok n q →
        UnlessCutOff (sure ∧ k' = k) (fun n' _ => n' = n)
          (Readback.quote k' m ctx.depth ctx.dimDepth ty' r'))
      (infer ⟨frames', m, τ⟩ ctx t' s') := by
  have hin' := (hctx.mono hlead').inScope
  have hsafe' := (safeJudgment_owned frames' τ t').infers hs'.sound hin' (.inl trivial)
  have hends : UnlessCutOff sure
      (fun ty' r' => (between m r ((infer ⟨frames', m, τ⟩ ctx t').after s')).Values ty ty' ∧
        (sure → r.Outspends m r'))
      (infer ⟨frames', m, τ⟩ ctx t' s') := by
    refine unlessCutOff_owned (R := fun L => L.Values) hs hs' hlead hlead' hahead hsafe' ?_ hrun
    intro L _ hm hL hholds
    exact hfollows L hm hL (hctx.alike hholds)
  generalize hrun' : infer ⟨frames', m, τ⟩ ctx t' s' = y at hends ⊢
  cases hends with
  | cutOff hnot => exact .cutOff hnot
  | ok hty =>
    obtain ⟨hty, hahead'⟩ := hty
    rw [Run.after_ok hrun'] at hty
    refine .ok fun k k' n q hread => ?_
    exact unlessCutOff_quote trivial rfl hs hs' hrun hrun' hsafe' hty (fun h => hahead' h.1)
      And.right _ _ hread

end

include hτ hctx hs hs' hlead hlead' hahead hframes

/-- A type that was inferred in a context of the evaluator is inferred under relaxed rules, and
reads back the same. -/
theorem infer_relaxed_owned {ty : Value} (hrun : infer ⟨frames, m, σ⟩ ctx t s = .ok ty r) :
    UnlessCutOff sure
      (fun ty' r' => ∀ (k k' : Nat) (n : Term) (q : Session),
        Readback.quote k m ctx.depth ctx.dimDepth ty r = .ok n q →
        UnlessCutOff (sure ∧ k' = k) (fun n' _ => n' = n)
          (Readback.quote k' m ctx.depth ctx.dimDepth ty' r'))
      (infer ⟨frames', m, τ⟩ ctx t s') := by
  refine infer_followed_owned hctx hs hs' hlead hlead' hahead ?_ hrun
  rintro L _ rfl hL hctxs
  exact (judge_follows ⟨hL, hframes, hτ⟩ t).infers hctxs

/-- A check that was passed in a context of the evaluator is passed under relaxed rules, at a type
of the evaluator. -/
theorem check_relaxed_owned {expected : Value}
    (hexpected : expected.In ((Scope.owned m).during s₀))
    (hrun : check ⟨frames, m, σ⟩ ctx t expected s = .ok () r) :
    UnlessCutOff sure (fun _ _ => True) (check ⟨frames', m, τ⟩ ctx t expected s') := by
  have hgoal : expected.In ((ctx.scope (.owned m)).during s') :=
    (hexpected.mono (hlead'.le _)).mono (ctx.owned_le_scope m s')
  have hsafe : Run.Safe True (fun _ _ => True) (check ⟨frames', m, τ⟩ ctx t expected) s' := by
    apply ((safeJudgment_owned frames' τ t).checks hs'.sound (hctx.mono hlead').inScope
      (.inl trivial) hgoal).bind
    intro _ s₁ hs₁ _
    exact Run.safe_pure hs₁.sound trivial
  refine (unlessCutOff_owned (R := fun _ _ _ => True) hs hs' hlead hlead' hahead hsafe ?_
    hrun).mono fun _ _ _ => trivial
  rintro L _ rfl hL hholds
  have hjudge := judge_follows ⟨hL, hframes, hτ⟩ t
  apply (hjudge.checks (hctx.alike hholds) (hexpected.alike hholds)).bind
  intro _ _ _ _ _
  exact .pure trivial

/-- A check that was passed in a context of the evaluator is passed under relaxed rules, at a type
that is given as a term. -/
theorem checkAs_relaxed_owned {expected : Term}
    (hrun : checkAs ⟨frames, m, σ⟩ ctx t expected s = .ok () r) :
    UnlessCutOff sure (fun _ _ => True) (checkAs ⟨frames', m, τ⟩ ctx t expected s') := by
  have hd : Derivation.On (.owned m) ⟨frames', m, τ⟩ := ⟨rfl, .inl trivial⟩
  have hin' := (hctx.mono hlead').inScope
  have hsafe : Run.Safe True (fun _ _ => True) (checkAs ⟨frames', m, τ⟩ ctx t expected) s' := by
    have huniverse : Run.Safe True (fun _ _ => True)
        (inferUniverse ⟨frames', m, τ⟩ ctx expected) s' := by
      apply ((judge_safe hd expected).infers hs'.sound hin' (.inl trivial)).bind
      intro ty s₁ hs₁ hty
      exact safe_universeLevel hd hs₁.sound hty
    apply huniverse.bind
    intro _ s₁ hs₁ _
    apply (safe_eval hd hs₁.sound (hin'.mono hs₁) (.inl trivial)).bind
    intro ty s₂ hs₂ hty
    apply ((judge_safe hd t).checks hs₂.sound (hin'.mono (hs₁.trans hs₂)) (.inl trivial) hty).bind
    intro _ s₃ hs₃ _
    exact Run.safe_pure hs₃.sound trivial
  refine (unlessCutOff_owned (R := fun _ _ _ => True) hs hs' hlead hlead' hahead hsafe ?_
    hrun).mono fun _ _ _ => trivial
  rintro L _ rfl hL hholds
  have hctxs := hctx.alike hholds
  have hrel : L.Relaxing sure frames frames' σ τ := ⟨hL, hframes, hτ⟩
  have huniverse : L.Follows sure (fun _ _ => True)
      (inferUniverse ⟨frames, L.meter, σ⟩ ctx expected) s
      (inferUniverse ⟨frames', L.meter, τ⟩ ctx expected) s' := by
    apply ((judge_follows hrel expected).infers hctxs).bind
    intro ty t₁ ty' t₁' hty
    exact (follows_universeLevel hty).mono fun _ _ _ => trivial
  apply huniverse.bind
  intro _ t₁ _ t₁' _
  apply (follows_eval hrel hctxs expected).bind
  intro v t₂ v' t₂' hv
  apply ((judge_follows hrel t).checks hctxs hv).bind
  intro _ _ _ _ _
  exact .pure trivial

end Owned

/-! ## Relaxing is conservative -/

/-- Relaxing the rules is conservative. If partial elements are compared as before, whatever the
kernel accepts it still accepts, with the same type, in every context. If they are not, the same is
so where the context belongs to the evaluator, from any two sessions that know the context, and
unless a guard cuts the judgment off; the types that are inferred read back the same. No guard does
where the first session computes arguments each time they are looked at and the second has spent no
more. -/
theorem relaxation_conservative {σ τ : Settings} (hτ : σ.RelaxesTo τ) :
    (σ.checkFaceAgreement = τ.checkFaceAgreement →
      ∀ (frames : Nat) (ctx : Context) (t : Term) (s r : Session),
        (∀ ty, Kernel.infer frames σ ctx t s = .ok ty r →
          ∃ r', Kernel.infer frames τ ctx t s = .ok ty r' ∧
            ∀ (k : Nat) (depth dimDepth : Int) (n : Term) (q : Session),
              Kernel.quote k σ depth dimDepth ty r = .ok n q →
              ∃ q', Kernel.quote k τ depth dimDepth ty r' = .ok n q') ∧
        (∀ expected, Kernel.check frames σ ctx t expected s = .ok () r →
          ∃ r', Kernel.check frames τ ctx t expected s = .ok () r') ∧
        ∀ expected, Kernel.checkTerm frames σ ctx t expected s = .ok () r →
          ∃ r', Kernel.checkTerm frames τ ctx t expected s = .ok () r') ∧
    ∀ (m : MeterId) (s₀ s s' : Session) (ctx : Context), ctx.FullyOwned m s₀ → s.Hosts m →
      s'.Hosts m → s₀.Leads s → s₀.Leads s' →
      ∀ (frames frames' : Nat) (t : Term) (r : Session),
        (∀ ty, Typing.infer ⟨frames, m, σ⟩ ctx t s = .ok ty r →
          UnlessCutOff (s.Outspends m s' ∧ frames' = frames)
            (fun ty' r' => ∀ (k k' : Nat) (n : Term) (q : Session),
              Readback.quote k m ctx.depth ctx.dimDepth ty r = .ok n q →
              UnlessCutOff ((s.Outspends m s' ∧ frames' = frames) ∧ k' = k) (fun n' _ => n' = n)
                (Readback.quote k' m ctx.depth ctx.dimDepth ty' r'))
            (Typing.infer ⟨frames', m, τ⟩ ctx t s')) ∧
        (∀ expected, expected.In ((Scope.owned m).during s₀) →
          Typing.check ⟨frames, m, σ⟩ ctx t expected s = .ok () r →
          UnlessCutOff (s.Outspends m s' ∧ frames' = frames) (fun _ _ => True)
            (Typing.check ⟨frames', m, τ⟩ ctx t expected s')) ∧
        ∀ expected, Typing.checkAs ⟨frames, m, σ⟩ ctx t expected s = .ok () r →
          UnlessCutOff (s.Outspends m s' ∧ frames' = frames) (fun _ _ => True)
            (Typing.checkAs ⟨frames', m, τ⟩ ctx t expected s') := by
  constructor
  · intro hagree frames ctx t s r
    refine ⟨fun ty hrun => ?_, fun expected => check_relaxed hτ hagree,
      fun expected => checkTerm_relaxed hτ hagree⟩
    obtain ⟨r', hrun', hr⟩ := infer_relaxed hτ hagree hrun
    exact ⟨r', hrun', fun _ _ _ _ _ hread => quote_sameGuards hτ hr hread⟩
  · intro m s₀ s s' ctx hctx hs hs' hlead hlead' frames frames' t r
    exact ⟨fun ty => infer_relaxed_owned hτ hctx hs hs' hlead hlead' And.left And.right,
      fun expected => check_relaxed_owned hτ hctx hs hs' hlead hlead' And.left And.right,
      fun expected => checkAs_relaxed_owned hτ hctx hs hs' hlead hlead' And.left And.right⟩

/-- A path `P`, the moved constant `f`, a type `A`, a function `h` and an interval variable. The
codomain of `h` is `Type5` moved along what `f` is at a path of types that are moved along `P`. -/
def probedCodomain : List Declaration :=
  let types : Term := .pathLam "k" (.coe (.var 1) (.var 0) (.pathApp (.var 3) (.var 0)) (.univ 0))
  [movingPath, movedConstant, .hypothesis "A" (.univ 0),
    .hypothesis "h" (.pi "_" (.univ 0) (.coe .zero .one (.app (.var 2) types) (.univ 5))),
    .dimension]

/-- The function `h` at a composition: `A` moved along `P`, with the same as a partial element. -/
def atComposition : Term :=
  let moved : Term := .coe .zero .one (.pathApp (.var 3) (.var 0)) (.var 1)
  .app (.var 0) (.comp .zero .one (.univ 0) [(.eq 0 .zero, moved)] moved)

/-- The default settings with the rules for universes and smooth paths relaxed, and the comparison
of partial elements on or off. -/
def relaxedRules (agreement : Bool) : Settings :=
  { Settings.default with
    universeRule := .cumulative, maxSmoothOrder := 2000, checkFaceAgreement := agreement }

/-- The default rules are relaxed by larger orders of smoothness and cumulative universes. -/
theorem relaxesTo_relaxedRules (agreement : Bool) :
    Settings.default.RelaxesTo (relaxedRules agreement) :=
  ⟨rfl, rfl, .inr ⟨rfl, rfl⟩, Nat.le_of_ble_eq_true rfl, fun _ => rfl⟩

/-- The type of `h` at a composition is inferred under relaxed rules too. With the context made by
one evaluator, the partial element need not be compared: what is inferred where arguments are
computed each time is inferred where their values are kept, and reads back the same. -/
theorem relaxation_conservative_atComposition :
    (∃ (ctx : Context) (s r r' : Session) (ty : Value),
      Declaration.addAll 200 .default probedCodomain .empty {} = .ok ctx s ∧
      Kernel.infer 200 .default ctx atComposition s = .ok ty r ∧
      Kernel.infer 200 (relaxedRules true) ctx atComposition s = .ok ty r') ∧
    ∃ (ctx : Context) (s r r' q q' : Session) (ty ty' : Value) (n : Term),
      declareOn 200 .default probedCodomain {} = .ok ctx s ∧
      Typing.infer ⟨200, 0, .default⟩ ctx atComposition s.unshared = .ok ty r ∧
      Typing.infer ⟨200, 0, relaxedRules false⟩ ctx atComposition s = .ok ty' r' ∧
      Readback.quote 200 0 ctx.depth ctx.dimDepth ty r = .ok n q ∧
      Readback.quote 200 0 ctx.depth ctx.dimDepth ty' r' = .ok n q' := by
  have hkernel : answer? (do
      let ctx ← Declaration.addAll 200 .default probedCodomain .empty
      let _ ← Kernel.infer 200 .default ctx atComposition) = some () := by
    decide +kernel
  have howned : answer? (do
      let ctx ← declareOn 200 .default probedCodomain
      modify Session.unshared
      let ty ← Typing.infer ⟨200, 0, .default⟩ ctx atComposition
      let _ ← Readback.quote 200 0 ctx.depth ctx.dimDepth ty) = some () := by
    decide +kernel
  obtain ⟨_, hkernel⟩ := answer?_eq_some hkernel
  obtain ⟨_, howned⟩ := answer?_eq_some howned
  constructor
  · obtain ⟨ctx, s, hctx, hrest⟩ := Run.bind_eq_ok.1 hkernel
    obtain ⟨ty, r, hty, _⟩ := Run.bind_eq_ok.1 hrest
    obtain ⟨hinfer, _, _⟩ := (relaxation_conservative (relaxesTo_relaxedRules true)).1 rfl 200 ctx
      atComposition s r
    obtain ⟨r', hty', _⟩ := hinfer ty hty
    exact ⟨ctx, s, r, r', ty, hctx, hty, hty'⟩
  · obtain ⟨ctx, s, hctx, hrest⟩ := Run.bind_eq_ok.1 howned
    obtain ⟨_, _, hmodify, hrest⟩ := Run.bind_eq_ok.1 hrest
    cases hmodify
    obtain ⟨ty, r, hty, hrest⟩ := Run.bind_eq_ok.1 hrest
    obtain ⟨n, q, hn, _⟩ := Run.bind_eq_ok.1 hrest
    obtain ⟨hserves, hfully⟩ := fullyOwned_of_declareOn hctx
    have hsure : s.unshared.Outspends 0 s ∧ 200 = 200 :=
      ⟨Session.outspends_unshared hserves.isOpened, rfl⟩
    obtain ⟨hinfer, _, _⟩ := (relaxation_conservative (relaxesTo_relaxedRules false)).2 0 s
      s.unshared s ctx hfully (.unshared hserves) (.serves hserves) s.leads_unshared
      hserves.sound.refl 200 200 atComposition r
    have hends := hinfer ty hty
    generalize hty' : Typing.infer ⟨200, 0, relaxedRules false⟩ ctx atComposition s = y at hends
    cases hends with
    | cutOff hnot => exact (hnot hsure).elim
    | @ok ty' r' hread =>
      have hreads := hread 200 200 n q hn
      generalize hn' : Readback.quote 200 0 ctx.depth ctx.dimDepth ty' r' = z at hreads
      cases hreads with
      | cutOff hnot => exact (hnot ⟨hsure, rfl⟩).elim
      | ok heq =>
        subst heq
        exact ⟨ctx, s, r, r', q, _, ty, ty', _, hctx, hty, hty', hn, hn'⟩

/-! ## Comparisons that show -/

/-- What the type of `h` at a composition reads back to, with each entry of the context evaluated by
an evaluator of its own. -/
def readInferred (agreement : Bool) : Except Failure Term :=
  let settings := { Settings.default with checkFaceAgreement := agreement }
  let run : Run Term := do
    let ctx ← Declaration.addAll 200 .default probedCodomain .empty
    let ty ← Kernel.infer 200 settings ctx atComposition
    Kernel.quote 200 settings ctx.depth ctx.dimDepth ty
  match run {} with
  | .ok n _ => .ok n
  | .error e _ => .error e

/-- A type `D`, the function `K` that keeps the first of two arguments, a function `h` and an
interval variable. -/
def keptArgument : List Declaration :=
  [.hypothesis "D" (.univ 0),
    .definition "K" (.pi "_" (.univ 0) (.pi "_" (.univ 1) (.univ 0)))
      (.lam "y" (.lam "z" (.var 1))),
    .hypothesis "h" (.pi "_" (.univ 0) (.univ 0)), .dimension]

/-- The types of functions from paths that begin and end where `K` keeps a nested composition. -/
def fromPathsAtKept : Term :=
  let kept : Term := .app (.var 1) (.hcomp (.univ 0) [] (.hcomp (.univ 0) [] (.var 2)))
  .pi "p" (.path (.pi "_" (.univ 1) (.univ 0)) kept kept) (.univ 0)

/-- The function `h` at a composition of what the path begins with at `Type0`, with the same as a
partial element. -/
def atKept : Term :=
  let first : Term := .app (.pathApp (.var 0) .zero) (.univ 0)
  .lam "p" (.app (.var 1) (.comp .zero .one (.univ 0) [(.eq 0 .zero, first)] first))

/-- What the check of `atKept` fails with, if it does, where evaluations may nest four deep. -/
def checkAtKept? (agreement : Bool) : Option (Option FailureKind) :=
  let settings :=
    { Settings.default with
      maxDepth := 4, checkFaceAgreement := agreement, maxDepth_pos := Nat.le_of_ble_eq_true rfl }
  answer? do
    let ctx ← Declaration.addAll 200 .default keptArgument .empty
    failureKind? (Kernel.checkTerm 200 settings ctx atKept fromPathsAtKept)

/-- Comparisons of partial elements show: they draw probes, and keep the values of the arguments
that they compute. Without them, a probe that is drawn later may be one that an evaluator of the
context draws too, so that another type is inferred; and an argument may be computed only where
evaluations nest too deep, so that what was accepted is cut off. -/
theorem comparison_shows :
    endApart (readInferred true) (readInferred false) = true ∧
    (readInferred true).toBool = true ∧
    checkAtKept? true = some none ∧
    checkAtKept? false = some (some .nonTermination) := by
  refine ⟨?_, ?_, ?_, ?_⟩ <;> decide +kernel

end SmoothCubical
