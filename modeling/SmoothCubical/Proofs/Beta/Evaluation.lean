import SmoothCubical.Proofs.Beta.Values

/-!
# Evaluation reduces

What a pure demand computes is a reduct of what it stands for (`Eval.run_finds`). That depends
neither on what was computed before, nor on the types that stuck values carry. The session that is
left bears out what was meant before, so that runs can be chained.

Whatever else is asked, no argument changes its meaning (`Eval.FindingCall.law`). An evaluation with
Kan operations may look at the same arguments, and keeps the same values for them.
-/

set_option autoImplicit false

namespace SmoothCubical

open Skeleton

namespace Run

variable {α β : Type} {M : Meaning} {P : Meaning → α → Prop} {Q : Meaning → β → Prop}

/-- From every session that bears the meaning out, the run leaves one that follows if it answers,
and the answer is as described. -/
def Finds (M : Meaning) (P : Meaning → α → Prop) (x : Run α) : Prop :=
  ∀ s, s.Means M → ∀ a s', x s = .ok a s' → ∃ M', s.Follows M s' M' ∧ P M' a

/-- To answer at once. -/
theorem finds_pure {a : α} (h : P M a) : Finds M P (pure a : Run α) := by
  rintro s hs _ _ ⟨⟩
  exact ⟨M, .refl hs, h⟩

/-- To fail is to leave nothing to be described. -/
theorem finds_throw (e : Failure) : Finds M P (throw e : Run α) :=
  nofun

/-- What is found first is there for what comes after. -/
theorem Finds.bind {x : Run α} {f : α → Run β} (hx : Finds M P x)
    (hf : ∀ a M', M.Le M' → P M' a → Finds M' Q (f a)) : Finds M Q (x >>= f) := by
  intro s hs b s' hrun
  obtain ⟨a, s₁, hxs, hfs⟩ := bind_eq_ok.1 hrun
  obtain ⟨M₁, hfollows, ha⟩ := hx s hs a s₁ hxs
  obtain ⟨M₂, hfollows', hb⟩ := hf a M₁ (hfollows.le hs) ha s₁ hfollows.means b s' hfs
  exact ⟨M₂, hfollows.trans hfollows', hb⟩

/-- What is found may be described by less. -/
theorem Finds.mono {P' : Meaning → α → Prop} {x : Run α} (hx : Finds M P x)
    (h : ∀ M' a, P M' a → P' M' a) : Finds M P' x := by
  intro s hs a s' hrun
  obtain ⟨M', hfollows, ha⟩ := hx s hs a s' hrun
  exact ⟨M', hfollows, h M' a ha⟩

/-- A fault of the syntax is handed on. -/
theorem finds_ofFault {x : Except Fault α} (h : ∀ a, x = .ok a → P M a) :
    Finds M P (ofFault x) := by
  cases x with
  | ok a => exact finds_pure (h a rfl)
  | error f => exact finds_throw _

/-- A run that leaves the arguments alone bears every meaning out. -/
theorem finds_of_cells {x : Run α} (hx : ∀ s a s', x s = .ok a s' → s'.cells = s.cells ∧ P M a) :
    Finds M P x := by
  intro s hs a s' hrun
  obtain ⟨hcells, ha⟩ := hx s a s' hrun
  exact ⟨M, .of_cells hs hcells, ha⟩

/-- To charge a step leaves the arguments alone. -/
theorem finds_charge (m : MeterId) : Finds M (fun _ _ => True) (charge m) := by
  refine finds_of_cells fun s _ s' hrun => ⟨?_, trivial⟩
  obtain ⟨_, s₁, hmodify, hrest⟩ := bind_eq_ok.1 hrun
  obtain ⟨a, s₂, hget, hcheck⟩ := bind_eq_ok.1 hrest
  cases hmodify
  cases hget
  dsimp only at hcheck
  split at hcheck
  · cases hcheck
  · cases hcheck
    rfl

/-- To check the nesting leaves the arguments alone. -/
theorem finds_checkDepth (m : MeterId) (t : Term) :
    Finds M (fun _ _ => True) (checkDepth m t) := by
  refine finds_of_cells fun s _ s' hrun => ⟨?_, trivial⟩
  obtain ⟨a, s₁, hget, hcheck⟩ := bind_eq_ok.1 hrun
  cases hget
  split at hcheck
  · obtain ⟨_, _, _, hthrow⟩ := bind_eq_ok.1 hcheck
    cases hthrow
  · cases hcheck
    rfl

/-- A new meter leaves the arguments alone. -/
theorem finds_openMeter (settings : Settings) :
    Finds M (fun _ _ => True) (openMeter settings) := by
  refine finds_of_cells fun s _ s' hrun => ?_
  cases hrun
  exact ⟨rfl, trivial⟩

/-- A nested run finds what the run does. -/
theorem Finds.nest {x : Run α} (hx : Finds M P x) (m : MeterId) : Finds M P (nest m x) := by
  intro s hs a s' hrun
  unfold Run.nest at hrun
  split at hrun
  · next hinner =>
    cases hrun
    have hdeeper : s.Follows M (s.modifyMeter m fun a => { a with depth := a.depth + 1 }) M :=
      .of_cells hs rfl
    obtain ⟨M', hfollows, ha⟩ := hx _ hdeeper.means _ _ hinner
    exact ⟨M', (hdeeper.trans hfollows).trans (.of_cells hfollows.means rfl), ha⟩
  · cases hrun

/-- An argument that is put off stands for what it would compute. -/
theorem finds_suspend {x : Suspension} {u : Skeleton} (hx : x.demand.Denotes M u) :
    Finds M (fun M' e => e.Denotes M' u) (suspend x) := by
  intro s hs e s' hrun
  cases hrun
  obtain ⟨M', hfollows, hnew⟩ := hs.suspend hx
  exact ⟨M', hfollows, .thunk hnew⟩

end Run

/-! ## Whatever is run -/

/-- Whatever meaning the first session bears out, the second follows with some meaning. -/
def Session.KeepsMeaning (s s' : Session) : Prop :=
  ∀ M, s.Means M → ∃ M', s.Follows M s' M'

namespace Session.KeepsMeaning

/-- A session with the same arguments keeps every meaning. -/
theorem of_cells {s s' : Session} (hcells : s'.cells = s.cells) : s.KeepsMeaning s' :=
  fun M hs => ⟨M, .of_cells hs hcells⟩

instance : Session.Chain KeepsMeaning where
  refl _ := of_cells rfl
  trans h h' M hs := by
    obtain ⟨M₁, hfollows⟩ := h M hs
    obtain ⟨M₂, hfollows'⟩ := h' M₁ hfollows.means
    exact ⟨M₂, hfollows.trans hfollows'⟩

end Session.KeepsMeaning

/-- Of a run that keeps every meaning nothing is known but that. -/
theorem Run.Keeps.finds {α : Type} {x : Run α} (hx : Run.Keeps Session.KeepsMeaning x)
    (M : Meaning) : Run.Finds M (fun _ _ => True) x := by
  intro s hs a s' hrun
  obtain ⟨M', hfollows⟩ := hx s M hs
  rw [Run.after_ok hrun] at hfollows
  exact ⟨M', hfollows, trivial⟩

/-! ## Evaluation -/

namespace Eval

open Run

/-- Every demand that stands for a skeleton is met with something that the skeleton reduces to, and
every other demand at least keeps what arguments mean. -/
structure FindingCall (call : Call) : Prop where
  finds : ∀ (m : MeterId) {d : Demand} {M : Meaning} {u : Skeleton}, d.Denotes M u →
    Finds M (fun M' v => v.Computes M' u) (call m d)
  keeps : KeepingCall Session.KeepsMeaning call

/-- An argument that is looked at for the first time keeps something that its meaning reduces to. -/
theorem FindingCall.settle {call : Call} (hcall : FindingCall call) {M : Meaning} {s s' : Session}
    (hs : s.Means M) {id : Nat} {u : Skeleton} (hid : M id = some u) {x : Suspension}
    (hc : s.cells[id]? = some ⟨x, none⟩) {v : Value} (hrun : call x.meter x.demand s = .ok v s') :
    ∃ M', s.Follows M ((Run.settle id v).after s') M' ∧ v.Computes M' u := by
  obtain ⟨c, hc', hmeans⟩ := hs id u hid
  obtain rfl : ⟨x, none⟩ = c := Option.some.inj (hc.symm.trans hc')
  obtain ⟨M', hfollows, hv⟩ := hcall.finds x.meter hmeans.demand s hs v s' hrun
  have hkept := hfollows.means.settle id v fun w hw => by
    rw [hfollows.le hs id u hid] at hw
    cases hw
    exact hv
  exact ⟨M', hfollows.trans hkept, hv⟩

/-- A dimension that is an interval variable stands for the point that it is found to be. -/
theorem finds_resolve {M : Meaning} {dims : IntervalEnv} (hdims : dims.IsGeneric) {r : Dim}
    (hr : r.isVar = true) :
    Finds M (fun _ point => ∃ level, point = .var level ∧
      r.skeleton dims.skeletons = .var (.point level)) (ofFault (dims.resolve r)) := by
  refine finds_ofFault fun point hpoint => ?_
  cases r with
  | var i =>
    have hget : Index.get? dims i = some point := IntervalEnv.find_eq_ok.1 hpoint
    obtain ⟨level, rfl⟩ := hdims point (Index.mem_of_get? hget)
    refine ⟨level, rfl, find_of_get? ?_⟩
    rw [IntervalEnv.skeletons, Index.get?_map, hget]
    rfl
  | zero | one | missing => cases hr

section Rules

variable {call : Call} (hcall : FindingCall call) {M : Meaning}
include hcall

/-- An entry computes what it stands for, and an argument that is looked at for the first time
keeps what it has computed. -/
theorem finds_force {e : Entry} {u : Skeleton} (he : e.Denotes M u) :
    Finds M (fun M' v => v.Computes M' u) (force call e) := by
  cases he with
  | value hv => exact finds_pure hv.computes
  | @thunk id _ hid =>
    intro s hs v s' hrun
    obtain ⟨⟨x, looked⟩, hc, hmeans⟩ := hs id u hid
    obtain ⟨_, _, hget, hrun⟩ := bind_eq_ok.1 hrun
    cases hget
    rw [hc] at hrun
    cases looked with
    | some w =>
      cases hrun
      exact ⟨M, .refl hs, hmeans.value v rfl⟩
    | none =>
      obtain ⟨w, s₁, hcomputed, hrest⟩ := bind_eq_ok.1 hrun
      obtain ⟨_, s₂, hsettle, hanswer⟩ := bind_eq_ok.1 hrest
      cases hanswer
      have hkept := hcall.settle hs hid hc hcomputed
      rwa [after_ok hsettle] at hkept

/-- A variable computes what it stands for. -/
theorem finds_lookup {env : Env} {σ : List Skeleton} (henv : Env.Denotes M env σ) (i : Int) :
    Finds M (fun M' v => v.Computes M' (find σ i)) (lookup call env i) := by
  refine Finds.bind (P := fun M' e => e.Denotes M' (find σ i)) (finds_ofFault fun e he => ?_)
    fun e M' _ he => finds_force hcall he
  unfold findEntry at he
  split at he
  · next hget =>
    cases he
    exact henv i _ hget
  · cases he

/-- The body of a function computes what it stands for at an argument. -/
theorem finds_body {c : Closure} {w : Skeleton} (hc : c.Denotes M w) {e : Entry} {u : Skeleton}
    (he : e.Denotes M u) (m : MeterId) :
    Finds M (fun M' v => v.Computes M' (.app .function w u)) (call m (.instantiate c e)) := by
  cases hc with
  | body henv hdims ht =>
    refine (hcall.finds m (.instantiate (.body henv hdims ht) he)).mono fun M' v hv => ?_
    exact hv.before (.beta _ _ _)

/-- The body of a path computes what it stands for at a point. -/
theorem finds_bodyAt {c : IntervalClosure} {w : Skeleton} (hc : c.Denotes M w) (level : Int)
    (m : MeterId) :
    Finds M (fun M' v => v.Computes M' (.app .path w (.var (.point level))))
      (call m (.instantiateAt c (.var level))) := by
  cases hc with
  | body henv hdims ht =>
    refine (hcall.finds m (.instantiateAt (.body henv hdims ht))).mono fun M' v hv => ?_
    exact hv.before (.beta _ _ _)

/-- Application computes the application of what is meant. The type of the result is computed along
if the function is stuck, and may be anything. -/
theorem finds_apply {f v : Value} {u w : Skeleton} (hf : f.Denotes M u) (hv : v.Denotes M w)
    (m : MeterId) :
    Finds M (fun M' v => v.Computes M' (.app .function u w)) (apply call m f v) := by
  cases hf with
  | lam hc => exact finds_body hcall hc (.value hv) m
  | @stuck n ty _ hn =>
    have hstuck {M' : Meaning} (hM : M.Le M') (ty' : Option Value) :
        Value.Computes M' (.stuck (.app n v) ty') (.app .function u w) :=
      (Value.Denotes.stuck (.app (hn.mono hM) (hv.mono hM))).computes
    unfold apply
    split
    · next heq => cases heq
    · next heq =>
      cases heq
      exact ((hcall.keeps m _).finds M).bind fun ty M' hM _ => finds_pure (hstuck hM _)
    · next heq =>
      cases heq
      exact finds_pure (hstuck (.refl M) _)
    · exact finds_throw _
  | univ | pi | path | smoothPath | pathLam => exact finds_throw _

/-- To take a path at an interval variable computes that of what is meant. -/
theorem finds_pathApply {p : Value} {u : Skeleton} (hp : p.Denotes M u) (level : Int)
    (m : MeterId) :
    Finds M (fun M' v => v.Computes M' (.app .path u (.var (.point level))))
      (pathApply call m p (.var level)) := by
  cases hp with
  | pathLam hc => exact finds_bodyAt hcall hc level m
  | @stuck n ty _ hn =>
    have hstuck (ty' : Option Value) : Value.Computes M (.stuck (.pathApp n (.var level)) ty')
        (.app .path u (.var (.point level))) :=
      (Value.Denotes.stuck (.pathApp hn)).computes
    unfold pathApply
    split
    · next heq => cases heq
    · next heq =>
      cases heq
      exact finds_pure (hstuck _)
    · next heq =>
      cases heq
      exact finds_pure (hstuck _)
    · next heq =>
      cases heq
      exact finds_pure (hstuck _)
    · exact finds_throw _
  | univ | pi | lam | path | smoothPath => exact finds_throw _

section Step

variable {env : Env} {dims : IntervalEnv} {σ : List Skeleton} (henv : Env.Denotes M env σ)
  (hdims : dims.IsGeneric) (m : MeterId)
include henv hdims

/-- A part of a pure term computes what it stands for. -/
theorem finds_part {M' : Meaning} (hM : M.Le M') {t : Term} (ht : t.isPure = true) :
    Finds M' (fun M' v => v.Computes M' (t.skeleton σ dims.skeletons))
      (call m (.evaluate true t env dims)) :=
  hcall.finds m (.evaluate (henv.mono hM) hdims ht)

/-- The three parts of a type of paths compute what they stand for, one after the other. -/
theorem finds_pathType {former : Former} {make : Value → Value → Value → Value}
    (hmake : ∀ {M' : Meaning} {a l r : Value} {u v w : Skeleton}, a.Denotes M' u →
      l.Denotes M' v → r.Denotes M' w → (make a l r).Denotes M' (.type former u v w))
    {a l r : Term} (ha : a.isPure = true) (hl : l.isPure = true) (hr : r.isPure = true) :
    Finds M (fun M' v => v.Computes M' (.type former (a.skeleton σ dims.skeletons)
        (l.skeleton σ dims.skeletons) (r.skeleton σ dims.skeletons)))
      (do
        return make (← call m (.evaluate true a env dims)) (← call m (.evaluate true l env dims))
          (← call m (.evaluate true r env dims))) := by
  refine (finds_part hcall henv hdims m (.refl M) ha).bind fun va M₁ hM₁ hva => ?_
  refine (finds_part hcall henv hdims m hM₁ hl).bind fun vl M₂ hM₂ hvl => ?_
  refine (finds_part hcall henv hdims m (hM₁.trans hM₂) hr).bind fun vr M₃ hM₃ hvr => ?_
  obtain ⟨u, hu, hva⟩ := hva
  obtain ⟨v, hv, hvl⟩ := hvl
  obtain ⟨w, hw, hvr⟩ := hvr
  refine finds_pure ⟨_, .type former hu hv hw, ?_⟩
  exact hmake (hva.mono (hM₂.trans hM₃)) (hvl.mono hM₃) hvr

/-- One step of evaluation computes what a pure term stands for. -/
theorem finds_step {t : Term} (ht : t.isPure = true) :
    Finds M (fun M' v => v.Computes M' (t.skeleton σ dims.skeletons)) (step call m t env dims) := by
  have value {M'} (hM : M.Le M') {t} := finds_part hcall henv hdims m hM (t := t)
  cases t with
  | univ level => exact finds_pure Value.Denotes.univ.computes
  | var i => exact finds_lookup hcall henv i
  | pi x a b =>
    simp only [Term.isPure, Bool.and_eq_true] at ht
    refine (value (.refl M) ht.1).bind fun va M' hM hva => ?_
    obtain ⟨u, hu, hva⟩ := hva
    have hclosure : Closure.Denotes M' (.body env dims b) _ := .body (henv.mono hM) hdims ht.2
    exact finds_pure ⟨_, .type .pi hu (.refl _) (.refl _), .pi hva hclosure⟩
  | lam x b =>
    have hb : b.isPure = true := ht
    exact finds_pure (Value.Denotes.lam (.body henv hdims hb)).computes
  | app f a =>
    simp only [Term.isPure, Bool.and_eq_true] at ht
    refine (value (.refl M) ht.1).bind fun vf M₁ hM₁ hvf => ?_
    obtain ⟨u, hu, hvf⟩ := hvf
    have happ : Reduces (.app .function (f.skeleton σ dims.skeletons) (a.skeleton σ dims.skeletons))
        (.app .function u (a.skeleton σ dims.skeletons)) := .app _ hu (.refl _)
    split
    · -- The argument is put off, and stands for itself wherever the body has it.
      cases hvf with
      | lam hc =>
        have hsuspend := finds_suspend (x := ⟨m, false, a, env, dims⟩)
          (.evaluate (henv.mono hM₁) hdims ht.2)
        refine hsuspend.bind fun e M₂ hM₂ he => ?_
        exact (finds_body hcall (hc.mono hM₂) he m).mono fun _ _ hv => hv.before happ
    · refine (value hM₁ ht.2).bind fun va M₂ hM₂ hva => ?_
      obtain ⟨w, hw, hva⟩ := hva
      refine (finds_apply hcall (hvf.mono hM₂) hva m).mono fun _ _ hv => ?_
      exact hv.before (happ.trans (.app _ (.refl _) hw))
  | path a l r =>
    simp only [Term.isPure, Bool.and_eq_true] at ht
    exact finds_pathType hcall henv hdims m .path ht.1.1 ht.1.2 ht.2
  | pathLam x b =>
    have hb : b.isPure = true := ht
    exact finds_pure (Value.Denotes.pathLam (.body henv hdims hb)).computes
  | pathApp p r =>
    simp only [Term.isPure, Bool.and_eq_true] at ht
    refine (value (.refl M) ht.1).bind fun vp M₁ _ hvp => ?_
    obtain ⟨u, hu, hvp⟩ := hvp
    refine (finds_resolve hdims ht.2).bind fun point M₂ hM₂ hpoint => ?_
    obtain ⟨level, rfl, hr⟩ := hpoint
    refine (finds_pathApply hcall (hvp.mono hM₂) level m).mono fun _ _ hv => ?_
    rw [Term.skeleton, hr]
    exact hv.before (.app _ hu (.refl _))
  | smoothPath order a l r =>
    simp only [Term.isPure, Bool.and_eq_true] at ht
    exact finds_pathType hcall henv hdims m .smoothPath ht.1.1 ht.1.2 ht.2
  | comp | coe | hcomp | missing => cases ht

end Step

/-- A demand that stands for a skeleton is met with something that the skeleton reduces to. -/
theorem finds_answer (m : MeterId) {d : Demand} {u : Skeleton} (hd : d.Denotes M u) :
    Finds M (fun M' v => v.Computes M' u) (answer call m d) := by
  cases hd with
  | @evaluate nests t env dims σ henv hdims ht =>
    have charged {M' : Meaning} (hM : M.Le M') :
        Finds M' (fun M' v => v.Computes M' (t.skeleton σ dims.skeletons))
          (chargedStep call m t env dims) :=
      (finds_charge m).bind fun _ _ hM' _ =>
        finds_step hcall (henv.mono (hM.trans hM')) hdims m ht
    cases nests with
    | true => exact ((finds_checkDepth m t).bind fun _ _ hM _ => charged hM).nest m
    | false => exact charged (.refl M)
  | instantiate hc he =>
    cases hc with
    | body henv hdims ht =>
      rw [Term.skeleton_inst]
      exact hcall.finds m (.evaluate (Env.Denotes.cons henv he) hdims ht)
  | @instantiateAt c b level hc =>
    cases hc with
    | @body env dims t σ henv hdims ht =>
      have hgeneric : IntervalEnv.IsGeneric (.var level :: dims) :=
        List.forall_mem_cons.2 ⟨⟨level, rfl⟩, hdims⟩
      rw [Term.skeleton_instAt]
      exact hcall.finds m (.evaluate henv hgeneric ht)

end Rules

/-- Every step of evaluation keeps every meaning. An argument that is looked at keeps what it has
computed: if it has a meaning, that is a reduct, and else nothing is said of it. -/
theorem FindingCall.lawful {call : Call} (hcall : FindingCall call) :
    Session.Lawful Session.KeepsMeaning call where
  record _ _ := .of_cells rfl
  charge _ _ := .of_cells rfl
  probe _ _ := .of_cells rfl
  nest {m s s'} h := by
    have deeper : s.KeepsMeaning (s.modifyMeter m fun a => { a with depth := a.depth + 1 }) :=
      .of_cells rfl
    exact Session.Chain.trans (Session.Chain.trans deeper h) (.of_cells rfl)
  suspend x _ M hs := ⟨M, hs.suspend_any x⟩
  settle {id x s s' v} hc hrun h M hs := by
    cases hid : M id with
    | none =>
      obtain ⟨M', hfollows⟩ := h M hs
      have hlt : id < s.cells.size := (Array.getElem?_eq_some_iff.1 hc).1
      have hkept := hfollows.means.settle id v fun u hu => by
        rw [hfollows.agree id hlt, hid] at hu
        cases hu
      exact ⟨M', hfollows.trans hkept⟩
    | some u =>
      obtain ⟨M', hkept, -⟩ := hcall.settle hs hid hc hrun
      exact ⟨M', hkept⟩

/-- That every meaning is kept is a law of runs. -/
theorem FindingCall.law {call : Call} (hcall : FindingCall call) :
    Law call (Keeps Session.KeepsMeaning) :=
  keeps_law hcall.lawful hcall.keeps

/-- Evaluation finds something that the skeleton of what is demanded reduces to, and keeps what
arguments mean whatever is demanded. -/
theorem run_finds : ∀ frames, FindingCall (run frames)
  | 0 => ⟨fun _ _ _ _ _ => finds_throw _, fun _ _ => keeps_throw _⟩
  | frames + 1 =>
    have ih := run_finds frames
    ⟨fun m _ _ _ hd => finds_answer ih m hd, law_answer ih.law⟩

end Eval

end SmoothCubical
