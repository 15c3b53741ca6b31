import SmoothCubical.Proofs.Weakening.Typing

/-!
# Display names

Names are shown and never looked at. Two terms that differ in display names only, in contexts that
do, are evaluated, normalized and judged alike, at the same expense (`names_irrelevant`).

A context holds values, and what it holds may stand in arguments that the session keeps. So contexts
are compared each in its session (`Context.Renaming`). Such contexts arise where declarations that
differ in names only are added one after the other (`Context.Renaming.addAll`).
-/

set_option autoImplicit false

namespace SmoothCubical

open Correspondence

/-! ## Contexts that differ in names -/

/-- Two contexts, each in its session, that differ in display names only: of variables, and in the
terms that values, types and put-off arguments hold. -/
structure Context.Renaming (ctx : Context) (s : Session) (ctx' : Context) (s' : Session) :
    Prop where
  contexts : names.Contexts (· = ·) ctx ctx'
  sessions : names.Sessions s s'

/-- Equality of declarations up to display names. -/
def Declaration.same : Declaration → Declaration → Bool
  | .hypothesis _ ty, .hypothesis _ ty' => ty.same ty'
  | .definition _ ty value, .definition _ ty' value' => ty.same ty' && value.same value'
  | .dimension, .dimension => true
  | _, _ => false

/-- Up to names, a level stands for itself only. -/
theorem names_level (l l' : Int) : names.level l l' ↔ l = l' :=
  same_level l l'

/-- Up to names, every level stands for one other only. -/
theorem names_biUnique : Relator.BiUnique names.level :=
  same_biUnique

namespace Correspondence

/-- A term and another that differs in names only are evaluated in step. -/
theorem Contexts.evaluate_names {ctx ctx' : Context} (h : names.Contexts (· = ·) ctx ctx')
    {t t' : Term} (ht : t.same t' = true) (frames : Nat) (settings : Settings) :
    names.InStep names.Values (Kernel.evaluate frames settings t ctx.env ctx.dims)
      (Kernel.evaluate frames settings t' ctx'.env ctx'.dims) := by
  rw [← h.dims]
  exact evaluate_inStep h.env (.refl ctx.dims)
    (Term.matches_of_same (fun _ => rfl) (fun _ => rfl) ht) frames settings

/-- Declarations that differ in names only are added in step. -/
theorem Contexts.add_names {ctx ctx' : Context} (h : names.Contexts (· = ·) ctx ctx') :
    ∀ {x x' : Declaration}, x.same x' = true → ∀ (frames : Nat) (settings : Settings),
      names.InStep (names.Contexts (· = ·)) (x.add frames settings ctx)
        (x'.add frames settings ctx')
  | .hypothesis x ty, .hypothesis y ty', hx, frames, settings => by
    refine (h.evaluate_names hx frames settings).bind fun a a' ha => .pure ?_
    exact under_eq ▸ h.extend x y ha
  | .definition x ty value, .definition y ty' value', hx, frames, settings => by
    obtain ⟨hty, hvalue⟩ := Bool.and_eq_true_iff.1 hx
    refine (h.evaluate_names hty frames settings).bind fun a a' ha => ?_
    refine (h.evaluate_names hvalue frames settings).bind fun v v' hv => .pure ?_
    exact under_eq ▸ h.define x y ha hv
  | .dimension, .dimension, _, _, _ => .pure h.extendDim

/-- Contexts that correspond up to display names are extended in step by lists of entries that are
the same up to display names. -/
theorem Contexts.addAll_names {ctx ctx' : Context} (h : names.Contexts (· = ·) ctx ctx')
    {xs xs' : List Declaration} (hxs : List.Forall₂ (fun x x' => x.same x' = true) xs xs')
    (frames : Nat) (settings : Settings) :
    names.InStep (names.Contexts (· = ·)) (Declaration.addAll frames settings xs ctx)
      (Declaration.addAll frames settings xs' ctx') := by
  induction hxs generalizing ctx ctx' with
  | nil => exact .pure h
  | cons hx _ ih => exact (h.add_names hx frames settings).bind fun _ _ hadded => ih hadded

end Correspondence

/-- Contexts without variables, in sessions that hold nothing. -/
theorem Context.Renaming.empty (sharing : Sharing) :
    Context.Renaming .empty { sharing } .empty { sharing } where
  contexts := .empty names_level
  sessions := .refl (fun _ _ => trivial) (by simp)

/-- If one list of declarations can be added, so can one that differs in names only, and the
contexts differ in names only. -/
theorem Context.Renaming.addAll {ctx ctx' ctx₁ : Context} {s s' s₁ : Session}
    (h : Context.Renaming ctx s ctx' s') {xs xs' : List Declaration}
    (hxs : List.Forall₂ (fun x x' => x.same x' = true) xs xs') {frames : Nat}
    {settings : Settings} (hrun : Declaration.addAll frames settings xs ctx s = .ok ctx₁ s₁) :
    ∃ (ctx₁' : Context) (s₁' : Session),
      Declaration.addAll frames settings xs' ctx' s' = .ok ctx₁' s₁' ∧
        Context.Renaming ctx₁ s₁ ctx₁' s₁' := by
  have hstep := h.contexts.addAll_names hxs frames settings s s' h.sessions
  rw [hrun] at hstep
  generalize Declaration.addAll frames settings xs' ctx' s' = y at hstep
  cases hstep with
  | @ok _ ctx₁' _ s₁' hctx hs => exact ⟨ctx₁', s₁', rfl, hctx, hs⟩

/-! ## Names do not matter -/

/-- Outcomes that correspond are the same verdict. -/
theorem Correspondence.Outcomes.sameVerdict {C : Correspondence} {α : Type} {R : α → α → Prop}
    {S : α → Session → α → Session → Prop} {x y : EStateM.Result Failure Session α}
    (h : C.Outcomes R x y) (hS : ∀ a a' s s', R a a' → C.Sessions s s' → S a s a' s') :
    SameVerdict S x y := by
  cases h with
  | ok hab hs => exact ⟨hS _ _ _ _ hab hs, hs.meters⟩
  | error he hs => exact ⟨he.kind_eq, hs.meters⟩

/-- Two ways to find a term end with terms that are the same up to names, or with failures of one
kind. What was spent is the same in any case. -/
def SameButNames (x y : EStateM.Result Failure Session Term) : Prop :=
  SameVerdict (fun n _ n' _ => n.same n' = true) x y

/-- Two values, each in its session, that read back to the same term up to names, or fail to in the
same way, under whatever settings and however many variables. -/
def ReadSameButNames (v : Value) (s : Session) (v' : Value) (s' : Session) : Prop :=
  ∀ (frames : Nat) (settings : Settings) (depth dimDepth : Int),
    SameButNames (Kernel.quote frames settings depth dimDepth v s)
      (Kernel.quote frames settings depth dimDepth v' s')

/-- Values that correspond up to names read back to terms that are the same up to names. -/
theorem Correspondence.Values.readSameButNames {v v' : Value} (hv : names.Values v v')
    {s s' : Session} (hs : names.Sessions s s') : ReadSameButNames v s v' s' := by
  intro frames settings depth dimDepth
  have hread : names.InStep (names.ReadMatch depth depth)
      (Kernel.quote frames settings depth dimDepth v)
      (Kernel.quote frames settings depth dimDepth v') := by
    refine (openMeter_inStep settings).bind fun m _ hm => ?_
    subst hm
    exact quote_inStep m frames (.refl names_level depth) dimDepth hv
  refine (hread s s' hs).sameVerdict fun n n' _ _ hn _ => ?_
  exact hn.same (fun _ _ hij => hij.eq names_level) fun _ _ hij => hij

/-- Display names are irrelevant. For two terms that differ in names only, in contexts that do: both
are evaluated to values that read back to the same term up to names, both normalize to the same term
up to names, both have types that read back to the same term up to names, and both are checked, or
refused, against types that differ in names only. Where the one fails, the other fails, too, with a
failure of the same kind, and both take as many steps.

The two runs start from sessions that match, as the contexts do. If both are made in one session,
one after the other, the second may end otherwise: the closures that the first leaves in kept
arguments remember its evaluator. -/
theorem names_irrelevant {ctx ctx' : Context} {s s' : Session}
    (hctx : Context.Renaming ctx s ctx' s') {t t' : Term} (ht : t.same t' = true) (frames : Nat)
    (settings : Settings) :
    SameVerdict ReadSameButNames (Kernel.evaluate frames settings t ctx.env ctx.dims s)
        (Kernel.evaluate frames settings t' ctx'.env ctx'.dims s') ∧
      SameButNames (Kernel.normalize frames settings ctx t s)
        (Kernel.normalize frames settings ctx' t' s') ∧
      SameVerdict ReadSameButNames (Kernel.infer frames settings ctx t s)
        (Kernel.infer frames settings ctx' t' s') ∧
      (∀ ty ty' : Value, names.Values ty ty' →
        SameVerdict (fun _ _ _ _ => True) (Kernel.check frames settings ctx t ty s)
          (Kernel.check frames settings ctx' t' ty' s')) ∧
      (∀ e e' : Term, e.same e' = true →
        SameVerdict (fun _ _ _ _ => True) (Kernel.checkTerm frames settings ctx t e s)
          (Kernel.checkTerm frames settings ctx' t' e' s')) := by
  obtain ⟨hcontexts, hs⟩ := hctx
  have hmatch {t t' : Term} (h : t.same t' = true) :
      Term.Matches names (· = ·) (· = ·) t t' :=
    Term.matches_of_same (fun _ => rfl) (fun _ => rfl) h
  have hdepth : ctx.depth = ctx'.depth := hcontexts.depth.level
  refine ⟨?evaluate, ?normalize, ?infer, ?check, ?checkTerm⟩
  case evaluate =>
    have hrun := hcontexts.evaluate_names ht frames settings s s' hs
    exact hrun.sameVerdict fun v v' s₁ s₂ hv hs => hv.readSameButNames hs
  case normalize =>
    have hdims : names.Dims (· = ·) ctx.dims ctx'.dims := hcontexts.dims ▸ .refl ctx.dims
    have hrun := normalize_inStep hcontexts.env hdims hcontexts.depth hcontexts.dimDepth (hmatch ht)
      frames settings s s' hs
    rw [← hdepth] at hrun
    refine hrun.sameVerdict fun n n' _ _ hn _ => ?_
    exact hn.same (fun _ _ hij => hij.eq names_level) fun _ _ hij => hij
  case infer =>
    have hrun := infer_agrees names_biUnique hcontexts (hmatch ht) frames settings s s' hs
    exact hrun.sameVerdict fun ty ty' s₁ s₂ hty hs => hty.readSameButNames hs
  case check =>
    intro ty ty' hty
    have hrun := check_agrees names_biUnique hcontexts (hmatch ht) hty frames settings s s' hs
    exact hrun.sameVerdict fun _ _ _ _ _ _ => trivial
  case checkTerm =>
    intro e e' he
    have hrun := checkTerm_agrees names_biUnique hcontexts (hmatch ht) (hmatch he) frames settings
      s s' hs
    exact hrun.sameVerdict fun _ _ _ _ _ _ => trivial

/-- The declarations of `predicateOnFunctions` under other names. -/
def predicateRenamed : List Declaration :=
  [.hypothesis "X" (.univ 0), .hypothesis "Y" (.univ 0),
    .hypothesis "q" (.path (.univ 0) (.var 1) (.var 0)), .hypothesis "Z" (.univ 0),
    .hypothesis "g" (.pi "x" (.var 3) (.var 1)),
    .hypothesis "Q" (.pi "k" (.pi "y" (.var 3) (.var 2)) (.univ 0)),
    .hypothesis "e" (.pi "k" (.pi "y" (.var 4) (.var 3)) (.app (.var 1) (.var 0)))]

/-- The element `elementAtMoved` under other names. -/
def elementRenamed : Term :=
  .app (.var 0) (.coe .zero .one (.pi "y" (.pathApp (.var 4) (.var 0)) (.var 4)) (.var 2))

/-- The element at the moved function has, under other names, the same normal form and the same type
up to names. -/
theorem names_irrelevant_elementRenamed :
    ∃ (ctx ctx' : Context) (s s' s₁ s₁' s₂ s₂' : Session) (n n' : Term) (ty ty' : Value),
      Context.Renaming ctx s ctx' s' ∧ elementAtMoved.same elementRenamed = true ∧
      Kernel.normalize 100 .default ctx elementAtMoved s = .ok n s₁ ∧
      Kernel.normalize 100 .default ctx' elementRenamed s' = .ok n' s₁' ∧
      n.same n' = true ∧ s₁.meters = s₁'.meters ∧
      Kernel.infer 100 .default ctx elementAtMoved s = .ok ty s₂ ∧
      Kernel.infer 100 .default ctx' elementRenamed s' = .ok ty' s₂' ∧
      ReadSameButNames ty s₂ ty' s₂' := by
  have hanswer : answer? (do
      let ctx ← Declaration.addAll 100 .default predicateOnFunctions .empty
      let s ← get
      let _ ← Kernel.normalize 100 .default ctx elementAtMoved
      set s
      let _ ← Kernel.infer 100 .default ctx elementAtMoved) = some () := by
    decide +kernel
  obtain ⟨_, hrun⟩ := answer?_eq_some hanswer
  obtain ⟨ctx, s, hadd, hrest⟩ := Run.bind_eq_ok.1 hrun
  obtain ⟨_, _, hget, hrest⟩ := Run.bind_eq_ok.1 hrest
  cases hget
  obtain ⟨n, s₁, hn, hrest⟩ := Run.bind_eq_ok.1 hrest
  obtain ⟨_, _, hset, hrest⟩ := Run.bind_eq_ok.1 hrest
  cases hset
  obtain ⟨ty, s₂, hty, _⟩ := Run.bind_eq_ok.1 hrest
  have hnames : List.Forall₂ (fun x x' => x.same x' = true) predicateOnFunctions
      predicateRenamed := by
    simp [predicateOnFunctions, functionOverPath, predicateRenamed, Declaration.same, Term.same]
  obtain ⟨ctx', s', _, hctx⟩ := (Context.Renaming.empty .byNeed).addAll hnames hadd
  have hsame : elementAtMoved.same elementRenamed = true := rfl
  obtain ⟨_, hnormalize, hinfer, _⟩ := names_irrelevant hctx hsame 100 .default
  unfold SameButNames at hnormalize
  rw [hn] at hnormalize
  rw [hty] at hinfer
  obtain ⟨n', s₁', hn', hnn, hmeters⟩ := hnormalize.answer
  obtain ⟨ty', s₂', hty', htypes, _⟩ := hinfer.answer
  exact ⟨ctx, ctx', s, s', s₁, s₁', s₂, s₂', n, n', ty, ty', hctx, hsame, hn, hn', hnn, hmeters,
    hty, hty', htypes⟩

end SmoothCubical
