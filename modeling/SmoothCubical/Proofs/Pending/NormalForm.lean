import SmoothCubical.Proofs.Evaluator.Sharing
import SmoothCubical.Proofs.Pending.Reading
import SmoothCubical.Proofs.Scope.Safety
import SmoothCubical.Proofs.Stability.NormalForm
import SmoothCubical.Proofs.Termination.Kernel
import SmoothCubical.Proofs.Weakening

/-!
# The grammar of normal forms

In a normal form only eliminations are applied, or taken points of, and each Kan operation is stuck.
For the families of the operations this holds of what one evaluator makes, and so of closed terms
(`normal_form_grammar`). Where the entries of a context were made by evaluators of their own, a
probe of the one may be a probe of the other. Then a family may look stuck that is not, and a
composition in a function type stays pending (`composition_left_in_function_type`).
-/

set_option autoImplicit false

namespace SmoothCubical

/-! ## Contexts in which what is pending is stuck -/

/-- What belongs to the evaluator, if one is given, and mentions no interval variables. -/
def Scope.ground (owner : Option MeterId) : Scope where
  level _ := True
  point _ := False
  meter k := ∀ m ∈ owner, k = m
  lax := True
  origin _ := none

/-- The scope of an evaluator has its meter. -/
theorem Scope.ground_some (m : MeterId) : (Scope.ground (some m)).meter m :=
  fun _ hk => Option.some.inj hk

/-- The scope of several evaluators has every meter. -/
theorem Scope.ground_none (m : MeterId) : (Scope.ground none).meter m :=
  fun k hk => (Option.not_mem_none k hk).elim

/-- The context is in scope, and all that is pending in its entries obeys the law of the session. -/
structure Context.Neat (owner : Option MeterId) (s : Session) (ctx : Context) : Prop where
  session : s.Neat owner
  inside : ctx.In (.ground owner) s
  entries : ∀ e ∈ ctx.env, e.Obeys (s.law owner)

/-- From the one session a value was computed in the context, which is neat in the session after
it. -/
structure Context.Evaluated (owner : Option MeterId) (s : Session) (v : Value) (s' : Session)
    (ctx : Context) : Prop where
  leads : s.Leads s'
  neat : ctx.Neat owner s'
  placed : Eval.Placed (ctx.scope (.ground owner)) owner s' v

/-- A new account has spent nothing. -/
theorem Session.Precedes.openMeter (s : Session) (settings : Settings) (m : MeterId) :
    s.Precedes m { s with meters := s.meters.push { settings } } := by
  have hmeter : Session.meter { s with meters := s.meters.push { settings } } m =
      if m = s.meters.size then { settings } else s.meter m := by
    unfold Session.meter
    rw [Array.getElem?_push]
    split <;> rfl
  have hnew : s.meter s.meters.size = {} := by simp [Session.meter]
  refine ⟨?_, ?_, id⟩ <;> rw [hmeter] <;> split
  · rename_i hm
    rw [hm, hnew]
  · exact Nat.le_refl _
  · rename_i hm
    rw [hm, hnew]
  · exact Nat.le_refl _

/-- A new evaluator has put nothing off, so that the session is orderly for it. -/
theorem Session.Orderly.of_unused {m : MeterId} {s : Session} (hm : m < s.meters.size)
    (hother : ∀ id x, s.origin id = some x → x.meter ≠ m) : s.Orderly (some m) := by
  have hcell {id : Nat} {x : Suspension} {v : Value} (hc : s.cells[id]? = some ⟨x, some v⟩) :
      x.meter ≠ m := hother id x (by rw [origin, hc]; rfl)
  refine ⟨?_, ?_, fun hid hx => ?_, fun hc hx => ?_⟩
  · rintro k ⟨⟩
    exact hm
  · rintro k ⟨⟩
    exact certified_iff.2 fun id x v hc hx => (hcell hc hx).elim
  · exact (hother _ _ hid (hx m rfl)).elim
  · exact (hcell hc (hx m rfl)).elim

/-- A neat session of several evaluators stays neat when a meter is opened. -/
theorem Session.Neat.openMeter {s : Session} (h : s.Neat none) (settings : Settings) :
    Session.Neat none { s with meters := s.meters.push { settings } } where
  sound := (h.sound.of_cells rfl).sound
  orderly := h.orderly.of_cells (.openMeter s settings) (by simp) rfl

namespace Context.Neat

open Eval

variable {owner : Option MeterId} {ctx : Context} {s s' : Session}

/-- The empty context is neat in a neat session. -/
theorem empty (hs : s.Neat owner) : Context.empty.Neat owner s where
  session := hs
  inside := ⟨nofun, nofun, nofun, .inl trivial⟩
  entries := nofun

/-- A neat context is so in every later neat session. -/
theorem mono (h : ctx.Neat owner s) (hs : ∀ m, s.Precedes m s') (hs' : s'.Neat owner) :
    ctx.Neat owner s' where
  session := hs'
  inside := h.inside.mono ⟨(hs 0).origin, hs'.sound⟩
  entries e he := (h.entries e he).mono (Session.law_le hs owner)

/-- A neat context of several evaluators stays neat when a meter is opened. -/
theorem openMeter (h : ctx.Neat none s) (settings : Settings) :
    ctx.Neat none { s with meters := s.meters.push { settings } } :=
  h.mono (.openMeter s settings) (h.session.openMeter settings)

/-- The scope of the context is one in which values can be read back. -/
theorem suits (owner : Option MeterId) (ctx : Context) :
    (ctx.scope (.ground owner)).Suits owner ctx.dims.length where
  point l hl := by
    have hrange := hl.resolve_left id
    simp only [Index.inScope, Bool.and_eq_true, decide_eq_true_eq] at hrange
    exact hrange
  meter _ hk := hk

/-- To evaluate a term in a neat context is a demand in scope that obeys the law. -/
theorem demand (h : ctx.Neat owner s) (t : Term) :
    Demand.In ((ctx.scope (.ground owner)).during s) (.evaluate true t ctx.env ctx.dims) ∧
      Demand.Obeys (s.law owner) (.evaluate true t ctx.env ctx.dims) :=
  ⟨.evaluate ⟨h.inside.entries, h.inside.points, .inl trivial⟩, .evaluate h.entries⟩

section Evaluator

variable {m : MeterId} (hm : (Scope.ground owner).meter m) {frames : Nat} {t : Term}
include hm

/-- To evaluate a term keeps the context neat, whether there is an answer or not. -/
theorem after (h : ctx.Neat owner s) (frames : Nat) (t : Term) :
    ctx.Neat owner ((Eval.evaluate frames m t ctx.env ctx.dims).after s) := by
  obtain ⟨hin, hobeys⟩ := h.demand t
  have hleads := (run_safe (S := ctx.scope (.ground owner)) frames h.session.sound hm hin).after
  obtain ⟨hon, horderly⟩ := (run_tidy owner frames h.session.orderly hm hobeys).after
  exact h.mono (fun k => (hon k).toPrecedes) ⟨hleads.sound, horderly⟩

/-- What is evaluated in a neat context leaves the context neat, and is in scope and obeys the law.
-/
theorem evaluate (h : ctx.Neat owner s) {v : Value}
    (hrun : Eval.evaluate frames m t ctx.env ctx.dims s = .ok v s') :
    ctx.Evaluated owner s v s' := by
  obtain ⟨hin, hobeys⟩ := h.demand t
  obtain ⟨hon, hs', hv⟩ := gives_run (S := ctx.scope (.ground owner)) frames h.session hm hm hin
    hobeys v s' hrun
  exact ⟨hon.leads hs', h.mono (fun k => (hon k).toPrecedes) hs', hv⟩

/-- A normal form has the shape of one, and what is pending in it is stuck. -/
theorem normalize (h : ctx.Neat owner s) {n : Term}
    (hrun : normalizeOn frames m t ctx.env ctx.dims ctx.bindings.length ctx.dims.length s =
      .ok n s') :
    ctx.Neat owner s' ∧ n.isNormal ctx.bindings.length ctx.dims.length = true ∧
      n.isBlocked owner.isSome ctx.dims.length = true := by
  obtain ⟨v, s₁, hv, hn⟩ := Run.bind_eq_ok.1 hrun
  obtain ⟨_, h₁, hv⟩ := h.evaluate hm hv
  obtain ⟨hon, hs', hblocked, _⟩ := Readback.quote_blocked owner m frames
    (S := ctx.scope (.ground owner)) h₁.session hm (suits owner ctx) hv.1 hv.2 n s' hn
  have hnormal := Readback.quote_isNormal m frames ctx.bindings.length ctx.dims.length v s₁
  unfold Run.Yields at hnormal
  rw [hn] at hnormal
  exact ⟨h₁.mono (fun k => (hon k).toPrecedes) hs', hnormal.2.1, hblocked⟩

end Evaluator

/-- A neat context can be extended by a hypothesis whose type is in scope and obeys the law. -/
theorem extend (h : ctx.Neat owner s) (name : String) {ty : Value}
    (hty : Placed (ctx.scope (.ground owner)) owner s ty) : (ctx.extend name ty).Neat owner s where
  session := h.session
  inside := h.inside.extend name hty.1
  entries := List.forall_mem_cons.2 ⟨.value (.typed .var hty.2), h.entries⟩

/-- A neat context can be extended by a definition that is in scope and obeys the law. -/
theorem define (h : ctx.Neat owner s) (name : String) {ty v : Value}
    (hty : ty.In ((ctx.scope (.ground owner)).during s))
    (hv : Placed (ctx.scope (.ground owner)) owner s v) : (ctx.define name ty v).Neat owner s where
  session := h.session
  inside := h.inside.define name hty hv.1
  entries := List.forall_mem_cons.2 ⟨.value hv.2, h.entries⟩

/-- A neat context can be extended by an interval variable. -/
theorem extendDim (h : ctx.Neat owner s) : ctx.extendDim.Neat owner s where
  session := h.session
  inside := h.inside.extendDim
  entries := h.entries

end Context.Neat

/-! ## Contexts of one evaluator and of several -/

namespace Context.Neat

variable {owner : Option MeterId} {ctx ctx' : Context} {s s' : Session}

/-- A context stays neat with an entry more, if evaluation keeps it so. -/
theorem addBy {evaluate : Term → Run Value}
    (heval : ∀ {t v s s'}, ctx.Neat owner s → evaluate t s = .ok v s' →
      ctx.Evaluated owner s v s')
    (h : ctx.Neat owner s) {x : Declaration} (hadd : x.addBy evaluate ctx s = .ok ctx' s') :
    ctx'.Neat owner s' := by
  cases Declaration.added hadd with
  | hypothesis ha =>
    obtain ⟨_, h₁, ha⟩ := heval h ha
    exact h₁.extend _ ha
  | definition ha hv =>
    obtain ⟨_, h₁, ha⟩ := heval h ha
    obtain ⟨hleads, h₂, hv⟩ := heval h₁ hv
    exact h₂.define _ (ha.1.mono (hleads.le _)) hv
  | dimension => exact h.extendDim

/-- The kernel evaluates with an evaluator that is new, which is fine if the context may belong to
several. -/
theorem evaluateNew (h : ctx.Neat none s) {frames : Nat} {settings : Settings} {t : Term}
    {v : Value} (hrun : Kernel.evaluate frames settings t ctx.env ctx.dims s = .ok v s') :
    ctx.Evaluated none s v s' := by
  obtain ⟨m, s₁, hm, hv⟩ := Run.bind_eq_ok.1 hrun
  cases hm
  obtain ⟨hleads, h', hv⟩ := (h.openMeter settings).evaluate (Scope.ground_none _) hv
  exact ⟨⟨hleads.origin, hleads.sound⟩, h', hv⟩

end Context.Neat

/-- A context that was put together entry by entry by the evaluator on the meter. It may have
evaluated and normalized terms in between. -/
inductive Context.DeclaredOn (m : MeterId) : Context → Session → Prop
  | empty {s : Session} :
      m < s.meters.size → s.Sound → (∀ id x, s.origin id = some x → x.meter ≠ m) →
        DeclaredOn m .empty s
  | add {ctx ctx' : Context} {s s' : Session} (frames : Nat) (x : Declaration) :
      DeclaredOn m ctx s → x.addOn frames m ctx s = .ok ctx' s' → DeclaredOn m ctx' s'
  | evaluate {ctx : Context} {s : Session} (frames : Nat) (t : Term) :
      DeclaredOn m ctx s →
        DeclaredOn m ctx ((Eval.evaluate frames m t ctx.env ctx.dims).after s)
  | normalize {ctx : Context} {s s' : Session} (frames : Nat) {t n : Term} :
      DeclaredOn m ctx s →
        normalizeOn frames m t ctx.env ctx.dims ctx.bindings.length ctx.dims.length s = .ok n s' →
        DeclaredOn m ctx s'

/-- A context that one evaluator has built is neat. -/
theorem Context.DeclaredOn.neat {m : MeterId} {ctx : Context} {s : Session}
    (h : ctx.DeclaredOn m s) : ctx.Neat (some m) s := by
  have hm := Scope.ground_some m
  induction h with
  | empty hopened hsound hother => exact .empty ⟨hsound, .of_unused hopened hother⟩
  | evaluate frames t _ ih => exact ih.after hm frames t
  | normalize frames _ hrun ih => exact (ih.normalize hm hrun).1
  | add frames x _ hadd ih => exact ih.addBy (fun h hv => h.evaluate hm hv) hadd

/-- A term was evaluated in the context. -/
def Context.Evaluates (ctx : Context) (s s' : Session) : Prop :=
  ∃ (frames : Nat) (settings : Settings) (t : Term),
    s' = Run.after (Kernel.evaluate frames settings t ctx.env ctx.dims) s

/-- The session before anything was asked. -/
theorem Session.neat_initial (sharing : Sharing) : Session.Neat none { sharing } where
  sound id x v hc := by simp at hc
  orderly := by
    refine ⟨nofun, nofun, fun hid => ?_, fun hc => ?_⟩
    · simp [Session.origin] at hid
    · simp at hc

/-- A context that several evaluators have built is neat. -/
theorem Context.Declared.neat {ctx : Context} {s : Session}
    (h : ctx.Declared (fun _ _ => True) Context.Evaluates s) : ctx.Neat none s := by
  induction h with
  | empty sharing => exact .empty (Session.neat_initial sharing)
  | entry x _ _ hevaluates hadd ih =>
    cases hevaluates with
    | new frames settings => exact ih.addBy (fun h hv => h.evaluateNew hv) hadd
    | used frames _ => exact ih.addBy (fun h hv => h.evaluate (Scope.ground_none _) hv) hadd
  | @meanwhile ctx s s' _ hbetween ih =>
    obtain ⟨frames, settings, t, rfl⟩ := hbetween
    have hopen : Run.openMeter settings s =
        .ok s.meters.size { s with meters := s.meters.push { settings } } := rfl
    unfold Kernel.evaluate
    rw [Run.after_bind_ok hopen]
    exact (ih.openMeter settings).after (Scope.ground_none _) frames t

/-! ## Sessions in which a new evaluator can be opened -/

/-- To evaluate in a context is one of the requests that can be made of it. -/
theorem Context.Evaluates.asked {ctx : Context} {s s' : Session} (h : ctx.Evaluates s s') :
    ctx.Asked s s' := by
  obtain ⟨frames, settings, t, rfl⟩ := h
  rw [← Request.after_evaluate]
  exact .request frames settings (.evaluate t)

/-- The empty context belongs to an evaluator that is opened when others have been used. -/
theorem Context.Declared.opens {ctx : Context} {s : Session}
    (h : ctx.Declared (fun _ _ => True) Context.Evaluates s) (settings : Settings) :
    Context.DeclaredOn s.meters.size .empty
      { s with meters := s.meters.push { settings } } := by
  have hregular := (h.mono Context.Evaluates.asked).regular.1
  apply DeclaredOn.empty
  · simp
  · exact (h.neat.session.openMeter settings).sound
  · intro id x hx
    obtain ⟨c, hc, rfl⟩ := Option.map_eq_some_iff.1 hx
    exact Nat.ne_of_lt (hregular.meter id c hc)

/-! ## The grammar -/

/-- In a normal form only eliminations are applied, or taken points of, and there is no homogeneous
composition. Each Kan operation goes somewhere, and each of its faces holds somewhere but not
everywhere. No family of a composition is a function or path type, and no family of a coercion is
one or a universe, provided that the context and the normal form come from one evaluator. This is so
for closed terms whatever was evaluated before. -/
theorem normal_form_grammar (frames : Nat) (ctx : Context) (t n : Term) (s s' : Session) :
    (∀ settings : Settings, ctx.Declared (fun _ _ => True) Context.Evaluates s →
      Kernel.normalize frames settings ctx t s = .ok n s' →
      n.isNormal ctx.bindings.length ctx.dims.length = true ∧
        n.isBlocked false ctx.dims.length = true) ∧
    (∀ m : MeterId, ctx.DeclaredOn m s →
      normalizeOn frames m t ctx.env ctx.dims ctx.bindings.length ctx.dims.length s = .ok n s' →
      n.isNormal ctx.bindings.length ctx.dims.length = true ∧
        n.isBlocked true ctx.dims.length = true) ∧
    ∀ settings : Settings, ctx.Declared (fun _ _ => True) Context.Evaluates s →
      Kernel.normalize frames settings .empty t s = .ok n s' →
      n.isNormal 0 0 = true ∧ n.isBlocked true 0 = true := by
  refine ⟨fun settings hctx hn => ?_, fun m hctx hn => ?_, fun settings hctx hn => ?_⟩
  · obtain ⟨m, s₁, hm, hn⟩ := Run.bind_eq_ok.1 hn
    cases hm
    exact ((hctx.neat.openMeter settings).normalize (Scope.ground_none _) hn).2
  · exact (hctx.neat.normalize (Scope.ground_some m) hn).2
  · obtain ⟨m, s₁, hm, hn⟩ := Run.bind_eq_ok.1 hn
    cases hm
    exact ((hctx.opens settings).neat.normalize (Scope.ground_some _) hn).2

/-! ## A family that looks stuck -/

/-- A path `P` between types, a type `p`, and the function from types to types that is constantly
`Type0 → Type0`, moved along function types whose codomains move along the argument. -/
def movedFunctionType : List Declaration :=
  [movingPath, .hypothesis "p" (.univ 0),
    .definition "f" (.univ 0)
      (.coe .zero .one (.pi "y" (.univ 0) (.pathApp (.var 0) (.var 0)))
        (.lam "y" (.pi "x" (.univ 0) (.univ 0))))]

/-- The function at paths that are moved in the direction of the family. All its values are function
types, which takes a probe to find out. -/
def probedFunctionType : Term :=
  .app (.var 0) (.pathLam "k" (.pathApp (.coe (.var 1) (.var 0)
    (.path (.univ 1) (.univ 0) (.pathApp (.var 2) (.var 0))) (.var 1)) .zero))

/-- A type that is moved along `P` twice. It takes two probes to find its value. -/
def movedTwice : Term :=
  .coe .zero .one (.pathApp (.var 2) (.var 0))
    (.coe .zero .one (.pathApp (.var 2) (.var 0)) (.univ 0))

/-- The composition of that type with itself, on the faces, in the family. -/
def composedInProbed (faces : List Face) : Term :=
  .comp .zero .one probedFunctionType (faces.map fun φ => (φ, movedTwice)) movedTwice

/-- The function that moves a type along the path it is given. -/
def movedUnderPath : Term :=
  .lam "q" (.coe .zero .one (.pathApp (.var 0) (.var 0)) (.univ 0))

/-- A context that one evaluator has built can be extended by it with a list of entries. -/
theorem Context.DeclaredOn.addAllOn {m : MeterId} {frames : Nat} {xs : List Declaration}
    {ctx ctx' : Context} {s s' : Session} (h : ctx.DeclaredOn m s)
    (hadd : xs.foldlM (Declaration.addOn frames m) ctx s = .ok ctx' s') : ctx'.DeclaredOn m s' := by
  induction xs generalizing ctx s with
  | nil =>
    cases hadd
    exact h
  | cons x xs ih =>
    rw [List.foldlM_cons] at hadd
    obtain ⟨ctx₁, s₁, hx, hxs⟩ := Run.bind_eq_ok.1 hadd
    exact ih (h.add frames x hx) hxs

/-- A context that was declared by a new evaluator is declared on it. -/
theorem declaredOn_of_declareOn {frames : Nat} {settings : Settings} {xs : List Declaration}
    {sharing : Sharing} {ctx : Context} {s : Session}
    (h : declareOn frames settings xs { sharing } = .ok ctx s) : ctx.DeclaredOn 0 s := by
  obtain ⟨m, s₀, hm, hxs⟩ := Run.bind_eq_ok.1 h
  cases hm
  exact ((Context.Declared.empty sharing).opens settings).addAllOn hxs

/-- With `f` made by the same evaluator the composition is taken apart, also on a face. With `f`
made by another one the rest of the grammar holds, and for a closed term all of it does. -/
theorem normal_form_grammar_composedInProbed :
    let t := composedInProbed [.eq 0 .zero]
    (∃ (ctx : Context) (s s' : Session) (n : Term),
      declareOn 100 .default (movedFunctionType ++ [.dimension]) {} = .ok ctx s ∧
      normalizeOn 100 0 t ctx.env ctx.dims ctx.bindings.length ctx.dims.length s = .ok n s' ∧
      n.isNormal ctx.bindings.length ctx.dims.length = true ∧
      n.isBlocked true ctx.dims.length = true) ∧
    (∃ (ctx : Context) (s s' : Session) (n : Term),
      ctx.Declared (fun _ _ => True) Context.Evaluates s ∧
      Kernel.normalize 100 .default ctx t s = .ok n s' ∧
      n.isNormal ctx.bindings.length ctx.dims.length = true ∧
      n.isBlocked false ctx.dims.length = true) ∧
    ∃ (ctx : Context) (s s' : Session) (n : Term),
      ctx.Declared (fun _ _ => True) Context.Evaluates s ∧
      Kernel.normalize 100 .default .empty movedUnderPath s = .ok n s' ∧
      n.isNormal 0 0 = true ∧ n.isBlocked true 0 = true := by
  intro t
  have hone : answer? (do
      let ctx ← declareOn 100 .default (movedFunctionType ++ [.dimension])
      let _ ← normalizeOn 100 0 t ctx.env ctx.dims ctx.bindings.length ctx.dims.length) =
        some () := by
    decide +kernel
  have hseveral : answer? (do
      let ctx ← Declaration.addAll 100 .default (movedFunctionType ++ [.dimension]) .empty
      let s ← get
      let _ ← Kernel.normalize 100 .default ctx t
      set s
      let _ ← Kernel.normalize 100 .default .empty movedUnderPath) = some () := by
    decide +kernel
  obtain ⟨_, hone⟩ := answer?_eq_some hone
  obtain ⟨ctx, s, hctx, hrest⟩ := Run.bind_eq_ok.1 hone
  obtain ⟨n, s', hn, _⟩ := Run.bind_eq_ok.1 hrest
  obtain ⟨_, hseveral⟩ := answer?_eq_some hseveral
  obtain ⟨ctx₁, s₁, hctx₁, hrest⟩ := Run.bind_eq_ok.1 hseveral
  obtain ⟨_, _, hget, hrest⟩ := Run.bind_eq_ok.1 hrest
  cases hget
  obtain ⟨n₁, s₁', hn₁, hrest⟩ := Run.bind_eq_ok.1 hrest
  obtain ⟨_, _, hset, hrest⟩ := Run.bind_eq_ok.1 hrest
  cases hset
  obtain ⟨n₂, s₂', hn₂, _⟩ := Run.bind_eq_ok.1 hrest
  have hdeclared : ctx₁.Declared (fun _ _ => True) Context.Evaluates s₁ :=
    (Context.Declared.empty .byNeed).addAll (fun _ _ _ => trivial) hctx₁
  have hgrammar := (normal_form_grammar 100 ctx t n s s').2.1 0 (declaredOn_of_declareOn hctx) hn
  have hgrammar₁ := (normal_form_grammar 100 ctx₁ t n₁ s₁ s₁').1 .default hdeclared hn₁
  have hgrammar₂ :=
    (normal_form_grammar 100 ctx₁ movedUnderPath n₂ s₁ s₂').2.2 .default hdeclared hn₂
  exact ⟨⟨ctx, s, s', n, hctx, hn, hgrammar⟩, ⟨ctx₁, s₁, s₁', n₁, hdeclared, hn₁, hgrammar₁⟩,
    ⟨ctx₁, s₁, s₂', n₂, hdeclared, hn₂, hgrammar₂⟩⟩

/-- In a context of several evaluators a composition in a function type may stay pending. When the
family is looked at, the probe that `f` draws is the one at which it is looked at, and the family
looks stuck. When it is read back, it is a function type. -/
theorem composition_left_in_function_type :
    ∃ n : Term, endOf .byNeed movedFunctionType (composedInProbed []) = .ok n ∧
      n.same (.comp .zero .one (.pi "x" (.univ 0) (.univ 0)) [] movedTwice) = true ∧
      n.isBlocked true 0 = false := by
  have hend : (match endOf .byNeed movedFunctionType (composedInProbed []) with
      | .ok n => n.same (.comp .zero .one (.pi "x" (.univ 0) (.univ 0)) [] movedTwice) &&
        !n.isBlocked true 0
      | .error _ => false) = true := by
    decide +kernel
  split at hend
  · rename_i n hn
    simp only [Bool.and_eq_true, Bool.not_eq_true'] at hend
    exact ⟨n, hn, hend⟩
  · cases hend

end SmoothCubical
