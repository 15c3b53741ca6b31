import SmoothCubical.Proofs.Weakening

/-!
# Weakening for typing

One more hypothesis changes no judgment: a shifted term has a type exactly if the term has one, and
that type, read back, is the shifted type; and it is checked against a type of the smaller context
with the same verdict (`judgments_shift`).

The two judgments go in step, as the two normalizations of `normalize_shift` do. Besides the entries
of a context its types are looked at, and these, too, hold no other levels than those of the
context. So does the type that a term is checked against; it may refer to other arguments of the
session than the context does (`Context.HoldsOwn.join`).
-/

set_option autoImplicit false

namespace SmoothCubical

/-! ## A context and one with a hypothesis more -/

namespace Correspondence

variable {d : Int} {known known' : Nat → Prop}

/-- No two levels stand for one when those from some depth on are one higher. -/
theorem weaken_biUnique (d : Int) (known : Nat → Prop) :
    Relator.BiUnique (weaken d known).level := by
  constructor
  · intro l k l' hl hk
    change l' = shiftedIndex d l at hl
    change l' = shiftedIndex d k at hk
    unfold shiftedIndex at hl hk
    split at hl <;> split at hk <;> omega
  · intro l l' k' hl hk
    change l' = shiftedIndex d l at hl
    change k' = shiftedIndex d l at hk
    rw [hl, hk]

/-- What corresponds if some arguments are known does so if more are. -/
theorem below_extends (h : ∀ id, known id → known' id) :
    (below d known').Extends (below d known) :=
  ⟨id, id, id, h _⟩

/-- Sessions that correspond in some arguments and in others correspond in all of them. -/
theorem Sessions.join {s s' : Session} (h : (below d known).Sessions s s')
    (h' : (below d known').Sessions s s') :
    (below d fun id => known id ∨ known' id).Sessions s s' where
  meters := h.meters
  sharing := h.sharing
  size := h.size
  later id hid := .inl (h.later id hid)
  cells id c c' hlooked hc hc' := by
    rcases hlooked with hid | hid
    · exact (h.cells id c c' hid hc hc').extend (below_extends fun _ => .inl)
    · exact (h'.cells id c c' hid hc hc').extend (below_extends fun _ => .inr)

end Correspondence

open Correspondence

/-- A context holds its own levels only, also together with other arguments that do. -/
theorem Context.HoldsOwn.join {ctx : Context} {s : Session} {known known' : Nat → Prop}
    (h : ctx.HoldsOwn s known) (hs : (below ctx.depth known').Sessions s s) :
    ctx.HoldsOwn s fun id => known id ∨ known' id where
  env := h.env.extend (below_extends fun _ => .inl)
  types i b hb := (h.types i b hb).extend (below_extends fun _ => .inl)
  session := h.session.join hs

/-- A context that holds its own levels only corresponds to itself with one hypothesis more. -/
theorem Context.HoldsOwn.skip {ctx : Context} {s : Session} {known : Nat → Prop}
    (h : ctx.HoldsOwn s known) (x : String) (a : Value) :
    (weaken ctx.depth known).Contexts (fun i j => j = shiftedIndex 0 i) ctx (ctx.extend x a) where
  env := .skip (h.env.extend (weaken_extends_below ctx.depth known))
  types := by
    intro i j b b' hij hb hb'
    have hfound : Index.get? (ctx.extend x a).bindings j = Index.get? ctx.bindings i := by
      subst hij
      exact get?_shiftedIndex _ _ i
    rw [hfound, hb] at hb'
    cases hb'
    exact (h.types i b hb).extend (weaken_extends_below ctx.depth known)
  bound := .skip _ ctx.bindings
  dims := rfl
  depth := weaken_reads (Int.natCast_nonneg _)

/-! ## Judging a shifted term -/

/-- What is read back in a context has no part missing. -/
theorem isWhole_of_quote {ctx : Context} {v : Value} {frames : Nat} {settings : Settings}
    {s s' : Session} {n : Term}
    (hn : Kernel.quote frames settings ctx.depth ctx.dimDepth v s = .ok n s') :
    n.isWhole = true := by
  have hread : Run.Yields false
      (fun n => n.isNormal ctx.bindings.length ctx.dims.length = true)
      (Kernel.quote frames settings ctx.depth ctx.dimDepth v) s := by
    refine Run.yields_openMeter_bind fun m s₁ _ => ?_
    exact (Readback.quote_isNormal m frames _ _ v s₁).mono fun n hn => hn.1
  unfold Run.Yields at hread
  rw [hn] at hread
  exact Term.isWhole_of_isNormal hread.2

/-- Corresponding types read back to a type and its shift. -/
theorem quote_shift {ctx : Context} {known : Nat → Prop} {v v' : Value}
    (hv : (weaken ctx.depth known).Values v v') {s s' : Session}
    (hs : (weaken ctx.depth known).Sessions s s') (x : String) (a : Value) (frames : Nat)
    (settings : Settings) :
    EndShifted (Kernel.quote frames settings ctx.depth ctx.dimDepth v s)
      (Kernel.quote frames settings (ctx.extend x a).depth (ctx.extend x a).dimDepth v' s') := by
  have hread : (weaken ctx.depth known).InStep
      ((weaken ctx.depth known).ReadMatch ctx.depth (ctx.extend x a).depth)
      (Kernel.quote frames settings ctx.depth ctx.dimDepth v)
      (Kernel.quote frames settings (ctx.extend x a).depth (ctx.extend x a).dimDepth v') := by
    refine (openMeter_inStep settings).bind fun m _ hm => ?_
    subst hm
    exact quote_inStep m frames (weaken_reads (Int.natCast_nonneg _)) ctx.dimDepth hv
  exact (hread s s' hs).endShifted fun n s₁ hn => isWhole_of_quote hn

/-- Two judgments end alike: with answers that are related, or with failures of one kind. What was
spent is the same in any case. -/
def SameVerdict {α : Type} (R : α → Session → α → Session → Prop)
    (x y : EStateM.Result Failure Session α) : Prop :=
  match x, y with
  | .ok a s, .ok a' s' => R a s a' s' ∧ s.meters = s'.meters
  | .error e s, .error e' s' => e.kind = e'.kind ∧ s.meters = s'.meters
  | _, _ => False

/-- If the first of two runs with one verdict has answered, so has the second, at the same cost. -/
theorem SameVerdict.answer {α : Type} {R : α → Session → α → Session → Prop} {a : α} {s : Session}
    {y : EStateM.Result Failure Session α} (h : SameVerdict R (.ok a s) y) :
    ∃ a' s', y = .ok a' s' ∧ R a s a' s' ∧ s.meters = s'.meters := by
  cases y with
  | ok a' s' => exact ⟨a', s', rfl, h⟩
  | error e s' => exact h.elim

/-- Judgments that agree have one verdict. -/
theorem Correspondence.Verdicts.sameVerdict {C : Correspondence} {α : Type} {R : α → α → Prop}
    {S : α → Session → α → Session → Prop} {x y : EStateM.Result Failure Session α}
    (h : C.Verdicts R x y) (hS : ∀ a a' s s', R a a' → C.Sessions s s' → S a s a' s') :
    SameVerdict S x y := by
  cases h with
  | ok hab hs => exact ⟨hS _ _ _ _ hab hs, hs.meters⟩
  | error he hs => exact ⟨he, hs.meters⟩

/-- Weakening for typing. Under one more hypothesis of any type, a shifted term has a type exactly
if the term has one, and the two types read back to a type and its shift; the shifted term is
checked against any type of the smaller context with the same verdict. All failures are of the same
kind, and both judgments take as many steps. The context may have been declared in a session in
which anything was asked before.

Both judgments start from one session. Of two calls that are made one after the other the second may
end otherwise: the closures that the first leaves in kept arguments remember its evaluator. -/
theorem judgments_shift {ctx : Context} {s : Session}
    (hctx : ctx.Declared (fun _ _ => True) Context.Requests s) (x : String) (a : Value)
    {t t' : Term} (ht : t.shift? 1 0 = .ok t') (frames : Nat) (settings : Settings) :
    SameVerdict
        (fun ty s₁ ty' s₂ => ∀ (frames : Nat) (settings : Settings),
          EndShifted (Kernel.quote frames settings ctx.depth ctx.dimDepth ty s₁)
            (Kernel.quote frames settings (ctx.extend x a).depth (ctx.extend x a).dimDepth ty' s₂))
        (Kernel.infer frames settings ctx t s)
        (Kernel.infer frames settings (ctx.extend x a) t' s) ∧
      ∀ ty : Value, ctx.Owns s ty →
        SameVerdict (fun _ _ _ _ => True) (Kernel.check frames settings ctx t ty s)
          (Kernel.check frames settings (ctx.extend x a) t' ty s) := by
  have hown := hctx.holdsOwn
  obtain rfl := Term.shift_of_shift? ht
  have hterm (known : Nat → Prop) : Term.Matches (weaken ctx.depth known)
      (fun i j => j = shiftedIndex 0 i) (· = ·) t (t.shift 1 0) :=
    t.matches_shift (fun _ => rfl) (fun _ => rfl) (by omega)
  constructor
  · have hunique := weaken_biUnique ctx.depth (ctx.Reaches s)
    have hlarger := weaken_extends_below ctx.depth (ctx.Reaches s)
    have hinfer := infer_agrees hunique (hown.skip x a) (hterm _) frames settings s s
      (hown.session.extend hlarger id)
    exact hinfer.sameVerdict fun ty ty' s₁ s₂ hty hs => quote_shift hty hs x a
  · rintro ty ⟨known, hs, hty⟩
    have hboth := hown.join hs
    have hunique := weaken_biUnique ctx.depth fun id => ctx.Reaches s id ∨ known id
    have hlarger := weaken_extends_below ctx.depth fun id => ctx.Reaches s id ∨ known id
    have hty := (hty.extend (below_extends fun _ => .inr)).extend hlarger
    have hcheck := check_agrees hunique (hboth.skip x a) (hterm _) hty frames settings s s
      (hboth.session.extend hlarger id)
    exact hcheck.sameVerdict fun _ _ _ _ _ _ => trivial

/-- The type of `elementAtMoved`. -/
def predicateAtMoved : Term :=
  .app (.var 1) (.coe .zero .one (.pi "x" (.pathApp (.var 4) (.var 0)) (.var 4)) (.var 2))

/-- The element at the moved function has its type under one hypothesis more, and is checked against
it there, after it was judged before in the same session. -/
theorem judgments_shift_elementAtMoved :
    ∃ (ctx : Context) (s : Session) (expected ty ty' : Value) (s₁ s₂ s₃ s₄ : Session),
      ctx.Declared (fun _ _ => True) Context.Requests s ∧ ctx.Owns s expected ∧
      Kernel.infer 100 .default ctx elementAtMoved s = .ok ty s₁ ∧
      Kernel.infer 100 .default (ctx.extend "w" (.univ 3)) (elementAtMoved.shift 1 0) s =
        .ok ty' s₂ ∧
      EndShifted (Kernel.quote 100 .default ctx.depth ctx.dimDepth ty s₁)
        (Kernel.quote 100 .default (ctx.depth + 1) ctx.dimDepth ty' s₂) ∧
      Kernel.check 100 .default ctx elementAtMoved expected s = .ok () s₃ ∧
      Kernel.check 100 .default (ctx.extend "w" (.univ 3)) (elementAtMoved.shift 1 0) expected s =
        .ok () s₄ := by
  have hanswer : answer? (do
      let ctx ← Declaration.addAll 100 .default predicateOnFunctions .empty
      (Request.infer elementAtMoved).run 100 .default ctx
      let expected ← Kernel.evaluate 100 .default predicateAtMoved ctx.env ctx.dims
      let s ← get
      let _ ← Kernel.infer 100 .default ctx elementAtMoved
      set s
      Kernel.check 100 .default ctx elementAtMoved expected) = some () := by
    decide +kernel
  obtain ⟨s', hrun⟩ := answer?_eq_some hanswer
  obtain ⟨ctx, s₀, hadd, hrest⟩ := Run.bind_eq_ok.1 hrun
  obtain ⟨_, s₅, hasked, hrest⟩ := Run.bind_eq_ok.1 hrest
  obtain ⟨expected, s, hexpected, hrest⟩ := Run.bind_eq_ok.1 hrest
  obtain ⟨_, _, hget, hrest⟩ := Run.bind_eq_ok.1 hrest
  cases hget
  obtain ⟨ty, s₁, hinfer, hrest⟩ := Run.bind_eq_ok.1 hrest
  obtain ⟨_, _, hset, hcheck⟩ := Run.bind_eq_ok.1 hrest
  cases hset
  have hadded : ctx.Declared (fun _ _ => True) Context.Requests s₀ :=
    (Context.Declared.empty .byNeed).addAll (fun _ _ _ => trivial) hadd
  have hbefore : ctx.Declared (fun _ _ => True) Context.Requests s₅ :=
    hadded.meanwhile ⟨100, .default, .infer elementAtMoved, (Run.after_ok hasked).symm⟩
  have howns := hbefore.owns (.new 100 .default) hexpected
  have hrequest : ctx.Requests s₅ s := by
    refine ⟨100, .default, .evaluate predicateAtMoved, ?_⟩
    rw [Request.after_evaluate, Run.after_ok hexpected]
  have hctx := hbefore.meanwhile hrequest
  have hmoved : elementAtMoved.shift? 1 0 = .ok (elementAtMoved.shift 1 0) := rfl
  obtain ⟨hinfers, hchecks⟩ := judgments_shift hctx "w" (.univ 3) hmoved 100 .default
  have hchecks := hchecks expected howns
  rw [hinfer] at hinfers
  rw [hcheck] at hchecks
  obtain ⟨ty', s₂, hinfer', hty, _⟩ := hinfers.answer
  obtain ⟨_, s₄, hcheck', _, _⟩ := hchecks.answer
  exact ⟨ctx, s, expected, ty, ty', s₁, s₂, s', s₄, hctx, howns, hinfer, hinfer',
    hty 100 .default, hcheck, hcheck'⟩

end SmoothCubical
