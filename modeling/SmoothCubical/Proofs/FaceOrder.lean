import SmoothCubical.Proofs.Cofibration.Canonical
import SmoothCubical.Proofs.Lockstep.Names
import SmoothCubical.Proofs.Lockstep.Typing
import SmoothCubical.Proofs.Relaxation.Conservative

/-!
# The order of faces

Whether a composition is accepted does not depend on the order of its partial elements, nor on how
their formulas are bracketed, if the context belongs to the evaluator that judges
(`face_order_irrelevant`). In another order the same partial elements are judged and compared, but
in sessions with another history, and two that overlap may be compared the other way round. So from
a derivation that has answered we keep only what its parts have answered, each in some session
(`Likeness.Reached`), and find that the parts of the other derivation answer as well, whichever
session it comes to (`Likeness.Delivers`).

In a context of several evaluators the order shows (`face_order_shows`).
-/

set_option autoImplicit false

namespace SmoothCubical

/-! ## Faces in another order -/

namespace Term

/-- Partial elements in another order, with their formulas rearranged. -/
inductive BranchesRearranged : List (Face × Term) → List (Face × Term) → Prop
  | nil : BranchesRearranged [] []
  | cons {φ ψ : Face} (u : Term) {fs gs : List (Face × Term)} : φ.Rearranged ψ →
      BranchesRearranged fs gs → BranchesRearranged ((φ, u) :: fs) ((ψ, u) :: gs)
  | swap (g h : Face × Term) (fs : List (Face × Term)) :
      BranchesRearranged (g :: h :: fs) (h :: g :: fs)
  | trans {fs gs hs : List (Face × Term)} : BranchesRearranged fs gs → BranchesRearranged gs hs →
      BranchesRearranged fs hs

/-- Compositions with the same partial elements, in another order and with formulas rearranged. -/
inductive FacesRearranged : Term → Term → Prop
  | comp (source target : Dim) (family base : Term) {fs gs : List (Face × Term)} :
      BranchesRearranged fs gs →
      FacesRearranged (.comp source target family fs base) (.comp source target family gs base)
  | hcomp (ty base : Term) {fs gs : List (Face × Term)} : BranchesRearranged fs gs →
      FacesRearranged (.hcomp ty fs base) (.hcomp ty gs base)

namespace BranchesRearranged

variable {fs gs : List (Face × Term)}

/-- To rearrange can be undone. -/
theorem symm (h : BranchesRearranged fs gs) : BranchesRearranged gs fs := by
  induction h with
  | nil => exact .nil
  | cons u hφ _ ih => exact .cons u hφ.symm ih
  | swap g h fs => exact .swap h g fs
  | trans _ _ ih ih' => exact ih'.trans ih

/-- Each of the rearranged partial elements was there before, under a formula that was rearranged.
-/
theorem exists_mem (h : BranchesRearranged fs gs) {ψ : Face} {u : Term} (hmem : (ψ, u) ∈ gs) :
    ∃ φ, (φ, u) ∈ fs ∧ φ.Rearranged ψ := by
  induction h generalizing ψ with
  | nil => cases hmem
  | cons v hφ _ ih =>
    rcases List.mem_cons.1 hmem with heq | hmem
    · cases heq
      exact ⟨_, List.mem_cons_self, hφ⟩
    · obtain ⟨χ, hχ, hψ⟩ := ih hmem
      exact ⟨χ, List.mem_cons_of_mem _ hχ, hψ⟩
  | swap g h fs =>
    refine ⟨ψ, ?_, .refl ψ⟩
    simp only [List.mem_cons] at hmem ⊢
    exact or_left_comm.1 hmem
  | trans _ _ ih ih' =>
    obtain ⟨χ, hχ, hψ⟩ := ih' hmem
    obtain ⟨φ, hφ, hχ⟩ := ih hχ
    exact ⟨φ, hφ, hχ.trans hψ⟩

/-- What holds of every two partial elements, either way round and however their formulas are
written, does not depend on the order. -/
theorem pairwise (h : BranchesRearranged fs gs) {R : Face × Term → Face × Term → Prop}
    (hsymm : ∀ {g h}, R g h → R h g)
    (hR : ∀ {φ φ' ψ ψ' : Face} {u v : Term}, φ.Rearranged φ' → ψ.Rearranged ψ' →
      R (φ, u) (ψ, v) → R (φ', u) (ψ', v)) (hfs : fs.Pairwise R) : gs.Pairwise R := by
  induction h with
  | nil => exact hfs
  | cons u hφ hrest ih =>
    obtain ⟨hhead, htail⟩ := List.pairwise_cons.1 hfs
    refine List.pairwise_cons.2 ⟨?_, ih htail⟩
    rintro ⟨ψ, v⟩ hmem
    obtain ⟨χ, hχ, hψ⟩ := hrest.exists_mem hmem
    exact hR hφ hψ (hhead _ hχ)
  | swap g h fs =>
    simp only [List.pairwise_cons, List.mem_cons, forall_eq_or_imp] at hfs ⊢
    exact ⟨⟨hsymm hfs.1.1, hfs.2.1⟩, hfs.1.2, hfs.2.2⟩
  | trans _ _ ih ih' => exact ih' (ih hfs)

end BranchesRearranged

/-- To rearrange the faces of a composition can be undone. -/
theorem FacesRearranged.symm {t t' : Term} (h : t.FacesRearranged t') : t'.FacesRearranged t := by
  cases h with
  | comp source target family base hfs => exact .comp source target family base hfs.symm
  | hcomp ty base hfs => exact .hcomp ty base hfs.symm

end Term

/-! ## Answers of parts -/

namespace Likeness

variable {L : Likeness} {α β γ δ : Type} {P : β → Prop} {Q : δ → Prop} {R : α → β → Prop}
  {s s' : Session}

/-- The run has given the answer in some session in which it can be compared. -/
def Reached (L : Likeness) (x : Run α) (a : α) : Prop :=
  ∃ s t, s.Ready L.meter L.origin L.left (x.after s) ∧ x s = .ok a t

/-- From the session, the run gives an answer as described, unless it is cut off. It is asked that
it can be compared. -/
def Delivers (L : Likeness) (P : β → Prop) (y : Run β) (s' : Session) : Prop :=
  s'.Ready L.meter L.origin' L.right (y.after s') →
    (∃ b t', y s' = .ok b t' ∧ P b) ∨ ∃ e t', y s' = .error e t' ∧ e.IsCut

/-- A run whose parts have answered. -/
theorem Reached.bind {x : Run α} {f : α → Run γ} [hxm : Run.Advancing L.meter x]
    [hfm : ∀ a, Run.Advancing L.meter (f a)] {c : γ} (h : L.Reached (x >>= f) c) :
    ∃ a, L.Reached x a ∧ L.Reached (f a) c := by
  obtain ⟨s, r, hs, hrun⟩ := h
  obtain ⟨a, t, hx, hf⟩ := Run.bind_eq_ok.1 hrun
  have hend := precedes_bind x hfm s
  have hmid := hs.advance (hxm.keeps s) hend
  rw [Run.after_ok hx, Run.after_bind_ok hx] at hmid
  exact ⟨a, ⟨s, t, hs.shorten hend, hx⟩, t, r, hmid, hf⟩

/-- A run that answers at once has given that answer only. -/
theorem Reached.pure_eq {a b : α} (h : L.Reached (pure a : Run α) b) : a = b := by
  obtain ⟨s, t, _, hrun⟩ := h
  cases hrun
  rfl

/-- A loop that has ended has ended for each member of its list. -/
theorem Reached.forM {f : α → Run Unit} [∀ a, Run.Advancing L.meter (f a)] {xs : List α}
    (h : L.Reached (xs.forM f) ()) : ∀ x ∈ xs, L.Reached (f x) () := by
  induction xs with
  | nil => nofun
  | cons x rest ih =>
    obtain ⟨_, hx, hrest⟩ := Reached.bind (show L.Reached (f x >>= fun _ => rest.forM f) () from h)
    exact List.forall_mem_cons.2 ⟨hx, ih hrest⟩

/-- To answer at once as described delivers such an answer. -/
theorem Delivers.pure {b : β} (h : P b) : L.Delivers P (pure b : Run β) s' :=
  fun _ => .inl ⟨b, s', rfl, h⟩

/-- Runs that deliver, one after the other, deliver as a whole. -/
theorem Delivers.bind {y : Run β} {g : β → Run δ} [hym : Run.Advancing L.meter y]
    [hgm : ∀ b, Run.Advancing L.meter (g b)] (hy : L.Delivers P y s')
    (hg : ∀ b t', P b → L.Delivers Q (g b) t') : L.Delivers Q (y >>= g) s' := by
  intro hs'
  have hend' := precedes_bind y hgm s'
  rcases hy (hs'.shorten hend') with ⟨b, t', hrun, hb⟩ | ⟨e, t', hrun, he⟩
  · have hmid' := hs'.advance (hym.keeps s') hend'
    rw [Run.after_ok hrun, Run.after_bind_ok hrun] at hmid'
    rw [Run.bind_ok hrun]
    exact hg b t' hb hmid'
  · exact .inr ⟨e, t', Run.bind_error hrun, he⟩

/-- A loop delivers if it does so for each member of its list. -/
theorem Delivers.forM {g : β → Run Unit} [∀ b, Run.Advancing L.meter (g b)] {ys : List β}
    (h : ∀ y ∈ ys, ∀ t', L.Delivers (fun _ => True) (g y) t') :
    L.Delivers (fun _ => True) (ys.forM g) s' := by
  induction ys generalizing s' with
  | nil => exact .pure trivial
  | cons y rest ih =>
    obtain ⟨hy, hrest⟩ := List.forall_mem_cons.1 h
    exact (hy s').bind fun _ _ _ => ih hrest

/-- What one run has answered somewhere, a run that follows it answers everywhere. -/
theorem Reached.delivers {x : Run α} {y : Run β} {a : α} (h : L.Reached x a)
    (hxy : ∀ s, L.Follows False R x s y s') : L.Delivers (R a) y s' := by
  obtain ⟨s, t, hs, hrun⟩ := h
  intro hs'
  have hout := hxy s hs hs' False.elim a t hrun
  generalize y s' = w at hout
  cases hout with
  | ok hab _ => exact .inl ⟨_, _, rfl, hab⟩
  | cut' he _ => exact .inr ⟨_, _, rfl, he⟩

/-- A run follows another if it answers wherever its parts show that the other has. -/
theorem Follows.of_reached {x : Run α} {y : Run β}
    (h : ∀ a, L.Reached x a → L.Delivers (R a) y s') : L.Follows False R x s y s' := by
  intro hs hs' _ a t hrun
  rcases h a ⟨s, t, hs, hrun⟩ hs' with ⟨b, t', hy, hab⟩ | ⟨e, t', hy, he⟩
  · rw [hy]
    exact .ok hab False.elim
  · rw [hy]
    exact .cut' he False.elim

end Likeness

/-! ## Partial elements in a context -/

namespace Typing

variable {ctx : Context}

/-- The partial element that a face gives in a context, nowhere defined if its formula has no
cofibration. -/
def partialElement (ctx : Context) (g : Face × Term) : PartialElement :=
  ⟨g.1, g.2, (g.1.cofibration ctx.dims).toOption.getD .bottom⟩

/-- The cofibration of a partial element is one as it is stored. -/
theorem isCanonical_partialElement (g : Face × Term) : (partialElement ctx g).cof.IsCanonical := by
  unfold partialElement
  cases h : g.1.cofibration ctx.dims with
  | ok c => exact Face.isCanonical_cofibration h
  | error e => exact Cofibration.isCanonical_bottom

/-- To rearrange a formula leaves its cofibration as it is. -/
theorem partialElement_rearranged {φ ψ : Face} (h : φ.Rearranged ψ) (u : Term) :
    (partialElement ctx (ψ, u)).cof = (partialElement ctx (φ, u)).cof := by
  unfold partialElement
  cases hψ : ψ.cofibration ctx.dims with
  | ok c => rw [(h.cofibration_eq_ok ctx.dims c).2 hψ]
  | error e =>
    cases hφ : φ.cofibration ctx.dims with
    | ok c =>
      rw [(h.cofibration_eq_ok ctx.dims c).1 hφ] at hψ
      cases hψ
    | error e' => rfl

/-- If a system could be taken apart, then into the partial elements of its faces, and each formula
has a cofibration. -/
theorem partialElements_eq_ok {fs : List (Face × Term)} {ps : List PartialElement}
    {s t : Session} (h : partialElements ctx fs s = .ok ps t) :
    ps = fs.map (partialElement ctx) ∧ ∀ g ∈ fs, ∃ c, g.1.cofibration ctx.dims = .ok c := by
  induction fs generalizing ps s t with
  | nil =>
    cases h
    exact ⟨rfl, nofun⟩
  | cons g rest ih =>
    unfold partialElements at h
    obtain ⟨c, r, hc, h⟩ := Run.bind_eq_ok.1 h
    obtain ⟨qs, r', hrest, h⟩ := Run.bind_eq_ok.1 h
    obtain ⟨rfl, hall⟩ := ih hrest
    have hcof : g.1.cofibration ctx.dims = .ok c := by
      generalize g.1.cofibration ctx.dims = x at hc
      cases x with
      | ok c' =>
        cases hc
        rfl
      | error e => cases hc
    cases h
    refine ⟨?_, List.forall_mem_cons.2 ⟨⟨c, hcof⟩, hall⟩⟩
    simp only [List.map_cons, partialElement, hcof]
    rfl

/-- A system whose formulas have cofibrations is taken apart at no cost. -/
theorem partialElements_eq_pure {fs : List (Face × Term)}
    (h : ∀ g ∈ fs, ∃ c, g.1.cofibration ctx.dims = .ok c) :
    partialElements ctx fs = pure (fs.map (partialElement ctx)) := by
  induction fs with
  | nil => rfl
  | cons g rest ih =>
    obtain ⟨⟨c, hc⟩, hrest⟩ := List.forall_mem_cons.1 h
    unfold partialElements
    rw [ih hrest, hc]
    simp only [List.map_cons, partialElement, hc]
    rfl

/-- If a formula passed its check, the variables that it mentions are bound. -/
theorem checkFormula_eq_ok {φ : Face} {s t : Session} (h : checkFormula ctx φ s = .ok () t) :
    ∀ i ∈ φ.indices, ctx.bindsDim i = true := by
  unfold checkFormula at h
  cases hfind : φ.indices.find? fun i => !ctx.bindsDim i with
  | some i =>
    rw [hfind] at h
    cases h
  | none =>
    intro i hi
    simpa using List.find?_eq_none.1 hfind i hi

/-- A formula whose variables are bound passes its check at no cost. -/
theorem checkFormula_eq_pure {φ : Face} (h : ∀ i ∈ φ.indices, ctx.bindsDim i = true) :
    checkFormula ctx φ = pure () := by
  have hnone : φ.indices.find? (fun i => !ctx.bindsDim i) = none :=
    List.find?_eq_none.2 fun i hi => by simp [h i hi]
  unfold checkFormula
  rw [hnone]

end Typing

/-! ## Agreement in another order -/

namespace Likeness

open Typing

variable {L : Likeness} {f f' : Nat} {σ τ : Settings} {ctx ctx' : Context} {s s' : Session}
  {fs gs : List (Face × Term)}

/-- The body has been read back under the clause. -/
def ReadsAs (L : Likeness) (f : Nat) (ctx : Context) (u : Term) (c : Clause) (n : Term) : Prop :=
  ∃ v, L.Reached (Eval.evaluate f L.meter u ctx.env
      (ctx.freshDim :: IntervalEnv.substitute c ctx.dims)) v ∧
    L.Reached (Readback.quote f L.meter ctx.depth (ctx.dimDepth + 1) v) n

/-- The bodies of two partial elements have been read back to the same where both are given. -/
def Agree (L : Likeness) (f : Nat) (ctx : Context) (g h : Face × Term) : Prop :=
  ∀ c ∈ ((partialElement ctx g).cof.meet (partialElement ctx h).cof).clauses,
    ∃ n n', L.ReadsAs f ctx g.2 c n ∧ L.ReadsAs f ctx h.2 c n' ∧ n.same n' = true

/-- If two partial elements agree, they do so in the other order. -/
theorem Agree.symm {g h : Face × Term} (hagree : L.Agree f ctx g h) : L.Agree f ctx h g := by
  intro c hc
  rw [(isCanonical_partialElement h).meet_comm (isCanonical_partialElement g)] at hc
  obtain ⟨n, n', hn, hn', hsame⟩ := hagree c hc
  exact ⟨n', n, hn', hn, Term.same_symm hsame⟩

/-- If two partial elements agree, they do so with their formulas rearranged. -/
theorem Agree.rearranged {φ φ' ψ ψ' : Face} {u v : Term} (hφ : φ.Rearranged φ')
    (hψ : ψ.Rearranged ψ') (hagree : L.Agree f ctx (φ, u) (ψ, v)) :
    L.Agree f ctx (φ', u) (ψ', v) := by
  unfold Agree
  rw [partialElement_rearranged hφ, partialElement_rearranged hψ]
  exact hagree

/-- The body has been found to agree with the base at the source under the clause, for some way in
which its formula is written. -/
def MeetsBase (L : Likeness) (f : Nat) (σ : Settings) (ctx : Context) (source : Dim) (base u : Term)
    (c : Clause) : Prop :=
  ∃ φ cof, L.Reached (checkBaseOn (L.derivation f σ) ctx source base ⟨φ, u, cof⟩ c) ()

/-- The partial elements have been found to agree with one another and with the base. -/
structure Agreement (L : Likeness) (f : Nat) (σ : Settings) (ctx : Context) (source : Dim)
    (base : Term) (fs : List (Face × Term)) : Prop where
  formulas : ∀ g ∈ fs, ∃ c, g.1.cofibration ctx.dims = .ok c
  overlaps : fs.Pairwise (L.Agree f ctx)
  atSource : ∀ g ∈ fs, ∀ c ∈ (partialElement ctx g).cof.clauses,
    L.MeetsBase f σ ctx source base g.2 c

/-- If partial elements agree with one another and with the base, they do so rearranged. -/
theorem Agreement.rearranged {source : Dim} {base : Term} (h : L.Agreement f σ ctx source base fs)
    (hfs : Term.BranchesRearranged fs gs) : L.Agreement f σ ctx source base gs where
  formulas := by
    rintro ⟨ψ, u⟩ hmem
    obtain ⟨φ, hφ, hψ⟩ := hfs.exists_mem hmem
    obtain ⟨c, hc⟩ := h.formulas _ hφ
    exact ⟨c, (hψ.cofibration_eq_ok ctx.dims c).1 hc⟩
  overlaps := hfs.pairwise .symm .rearranged h.overlaps
  atSource := by
    rintro ⟨ψ, u⟩ hmem c hc
    obtain ⟨φ, hφ, hψ⟩ := hfs.exists_mem hmem
    rw [partialElement_rearranged hψ] at hc
    exact h.atSource _ hφ c hc

/-! ## Comparisons that have answered -/

/-- If the overlap of two partial elements passed on a clause, their bodies were read back to the
same there. -/
theorem Reached.checkOverlapOn {p q : PartialElement} {c : Clause}
    (h : L.Reached (checkOverlapOn (L.derivation f σ) ctx p q c) ()) :
    ∃ n n', L.ReadsAs f ctx p.body c n ∧ L.ReadsAs f ctx q.body c n' ∧ n.same n' = true := by
  unfold Typing.checkOverlapOn at h
  obtain ⟨u, hu, h⟩ := h.bind
  obtain ⟨v, hv, h⟩ := h.bind
  obtain ⟨b, hb, h⟩ := h.bind
  obtain ⟨n, hn, hb⟩ := Reached.bind hb
  obtain ⟨n', hn', hb⟩ := Reached.bind hb
  refine ⟨n, n', ⟨u, hu, hn⟩, ⟨v, hv, hn'⟩, ?_⟩
  rw [hb.pure_eq]
  cases b with
  | true => rfl
  | false =>
    obtain ⟨_, _, _, hrun⟩ := h
    cases hrun

/-- If the overlaps of a system passed, its partial elements agree in pairs. -/
theorem Reached.checkOverlaps (h : L.Reached
    (checkOverlaps (L.derivation f σ) ctx (fs.map (partialElement ctx))) ()) :
    fs.Pairwise (L.Agree f ctx) := by
  induction fs with
  | nil => exact .nil
  | cons g rest ih =>
    rw [List.map_cons] at h
    unfold Typing.checkOverlaps at h
    obtain ⟨_, hhead, hrest⟩ := h.bind
    refine .cons (fun k hk c hc => ?_) (ih hrest)
    have hpair := hhead.forM (partialElement ctx k) (List.mem_map_of_mem hk)
    unfold Typing.checkOverlap at hpair
    exact (hpair.forM c hc).checkOverlapOn

/-- If a system passed the check of agreement, its partial elements agree with one another and with
the base. -/
theorem Reached.checkAgreement {source : Dim} {base : Term} (hon : σ.checkFaceAgreement = true)
    (h : L.Reached (checkAgreement (L.derivation f σ) ctx source fs base) ()) :
    L.Agreement f σ ctx source base fs := by
  simp only [Typing.checkAgreement, hon, if_true] at h
  obtain ⟨ps, ⟨s, t, _, hparts⟩, h⟩ := h.bind
  obtain ⟨rfl, hformulas⟩ := partialElements_eq_ok hparts
  obtain ⟨_, hoverlaps, hbase⟩ := h.bind
  refine ⟨hformulas, hoverlaps.checkOverlaps, fun g hg c hc => ?_⟩
  have hpart := hbase.forM (partialElement ctx g) (List.mem_map_of_mem hg)
  unfold Typing.checkBase at hpart
  exact ⟨_, _, hpart.forM c hc⟩

/-- If a system was judged, the variables of its formulas are bound and its bodies were judged. -/
theorem Reached.judgeFaces {along : Value}
    (h : L.Reached (judgeFaces (L.derivation f σ) fs ctx along) ()) :
    ∀ g ∈ fs, (∀ i ∈ g.1.indices, ctx.bindsDim i = true) ∧
      ∃ ty, L.Reached (judge (L.derivation f σ) g.2 ctx.extendDim (some along)) ty := by
  induction fs with
  | nil => nofun
  | cons g rest ih =>
    unfold Typing.judgeFaces at h
    obtain ⟨_, ⟨s, t, _, hformula⟩, h⟩ := h.bind
    obtain ⟨ty, hty, hrest⟩ := h.bind
    exact List.forall_mem_cons.2 ⟨⟨checkFormula_eq_ok hformula, ty, hty⟩, ih hrest⟩

/-! ## Comparisons that answer -/

section Rules

variable [L.Faithful] (hL : L.Relaxing False f f' σ τ) (hctx : L.Contexts ctx ctx')
include hL hctx

/-- A body that has been read back under a clause is evaluated to what reads back to the same. -/
theorem ReadsAs.delivers {u n : Term} {c : Clause} (h : L.ReadsAs f ctx u c n) {γ : Type}
    {Q : γ → Prop} {next : Value → Run γ} [∀ v, Run.Advancing L.meter (next v)]
    (hnext : ∀ v t',
      (∀ t₁', L.Delivers (· = n)
        (Readback.quote f' L.meter ctx.depth (ctx.dimDepth + 1) v) t₁') →
      L.Delivers Q (next v) t') :
    L.Delivers Q (Eval.evaluate f' L.meter u ctx'.env
      (ctx.freshDim :: IntervalEnv.substitute c ctx.dims) >>= next) s' := by
  obtain ⟨v, hv, hn⟩ := h
  have hdims : ∀ r ∈ ctx.freshDim :: ctx.dims.substitute c, r.On (0 ≤ ·) :=
    List.forall_mem_cons.2 ⟨Int.natCast_nonneg _, IntervalEnv.substitute_on c hctx.points⟩
  have hnonneg : 0 ≤ ctx.dimDepth + 1 := Int.natCast_nonneg (ctx.dims.length + 1)
  apply (hv.delivers fun s => follows_evaluate hL hctx.env hdims u).bind
  intro v' t' hvv'
  refine hnext v' t' fun t₁' => ?_
  have hread : L.Delivers (n = ·)
      (Readback.quote f' L.meter ctx.depth (ctx.dimDepth + 1) v') t₁' :=
    hn.delivers fun s => Follows.of_alike fun limit =>
      quote_readers hL.noProbes hL.frames limit _ _ v v' s t₁' hnonneg hvv'
  exact fun hs' => (hread hs').imp_left fun ⟨b, r, hrun, heq⟩ => ⟨b, r, hrun, heq.symm⟩

/-- Bodies that were read back to the same pass on that clause, unless a guard cuts the check off.
-/
theorem delivers_checkOverlapOn {p q : PartialElement} {c : Clause} {n n' : Term}
    (hn : L.ReadsAs f ctx p.body c n) (hn' : L.ReadsAs f ctx q.body c n')
    (hsame : n.same n' = true) :
    L.Delivers (fun _ => True) (checkOverlapOn (L.derivation f' τ) ctx' p q c) s' := by
  unfold Typing.checkOverlapOn
  rw [hctx.dims, hctx.freshDim_eq, hctx.depth_eq, hctx.dimDepth_eq]
  apply hn.delivers hL hctx
  intro u t' hu
  apply hn'.delivers hL hctx
  intro v t₁' hv
  have hconv : ∀ t₂', L.Delivers (· = true)
      (Readback.convertible f' L.meter ctx.depth (ctx.dimDepth + 1) u v) t₂' := by
    intro t₂'
    apply (hu t₂').bind
    rintro _ t₃' rfl
    apply (hv t₃').bind
    rintro _ t₄' rfl
    exact .pure hsame
  apply (hconv t₁').bind
  rintro _ t₂' rfl
  exact .pure trivial

/-- Partial elements that agree in pairs pass the check of their overlaps, unless a guard cuts it
off. -/
theorem delivers_checkOverlaps (h : gs.Pairwise (L.Agree f ctx)) :
    L.Delivers (fun _ => True)
      (checkOverlaps (L.derivation f' τ) ctx' (gs.map (partialElement ctx))) s' := by
  induction gs generalizing s' with
  | nil => exact .pure trivial
  | cons g rest ih =>
    obtain ⟨hhead, hrest⟩ := List.pairwise_cons.1 h
    rw [List.map_cons]
    unfold Typing.checkOverlaps
    refine Delivers.bind (.forM fun q hq t' => ?_) fun _ t' _ => ih hrest
    obtain ⟨k, hk, rfl⟩ := List.mem_map.1 hq
    refine Delivers.forM fun c hc t₁' => ?_
    obtain ⟨n, n', hn, hn', hsame⟩ := hhead k hk c hc
    exact delivers_checkOverlapOn hL hctx hn hn' hsame

/-- Partial elements that agree pass the check of agreement, unless a guard cuts it off. -/
theorem delivers_checkAgreement {source : Dim} {base : Term}
    (h : L.Agreement f σ ctx source base gs) :
    L.Delivers (fun _ => True) (checkAgreement (L.derivation f' τ) ctx' source gs base) s' := by
  unfold Typing.checkAgreement
  split
  · rw [hctx.partialElements_eq, partialElements_eq_pure h.formulas]
    refine Delivers.bind (P := (· = gs.map (partialElement ctx))) (.pure rfl) ?_
    rintro _ t' rfl
    apply (delivers_checkOverlaps hL hctx h.overlaps).bind
    intro _ t₁' _
    refine Delivers.forM fun p hp t₂' => ?_
    obtain ⟨g, hg, rfl⟩ := List.mem_map.1 hp
    refine Delivers.forM fun c hc t₃' => ?_
    obtain ⟨φ, cof, hbase⟩ := h.atSource g hg c hc
    have hbody : (partialElement ctx g).body = (PartialElement.mk φ g.2 cof).body := rfl
    exact hbase.delivers fun s => follows_checkBaseOn hL hctx source base hbody c
  · exact .pure trivial

/-- A system is judged again if its variables are bound and its bodies were judged, unless a guard
cuts that off. -/
theorem delivers_judgeFaces {along along' : Value} (halong : L.Values along along')
    (h : ∀ g ∈ gs, (∀ i ∈ g.1.indices, ctx.bindsDim i = true) ∧
      ∃ ty, L.Reached (judge (L.derivation f σ) g.2 ctx.extendDim (some along)) ty) :
    L.Delivers (fun _ => True) (judgeFaces (L.derivation f' τ) gs ctx' along') s' := by
  induction gs generalizing s' with
  | nil => exact .pure trivial
  | cons g rest ih =>
    obtain ⟨⟨hformula, ty, hty⟩, hrest⟩ := List.forall_mem_cons.1 h
    unfold Typing.judgeFaces
    rw [hctx.checkFormula_eq, checkFormula_eq_pure hformula]
    apply (Delivers.pure (P := fun _ => True) trivial).bind
    intro _ t' _
    apply (hty.delivers fun s => (judge_follows hL g.2).checks hctx.extendDim halong).bind
    intro _ t₁' _
    exact ih hrest

/-! ## Judgments -/

variable (hfs : Term.BranchesRearranged fs gs)
include hfs

/-- A system that was judged is judged rearranged. -/
theorem judgeFaces_rearranged {along along' : Value} (halong : L.Values along along') :
    L.Follows False (fun _ _ => True) (judgeFaces (L.derivation f σ) fs ctx along) s
      (judgeFaces (L.derivation f' τ) gs ctx' along') s' := by
  refine .of_reached fun _ h => delivers_judgeFaces hL hctx halong ?_
  rintro ⟨ψ, u⟩ hmem
  obtain ⟨φ, hφ, hψ⟩ := hfs.exists_mem hmem
  obtain ⟨hbound, hty⟩ := h.judgeFaces _ hφ
  exact ⟨fun i hi => hbound i ((hψ.mem_indices i).2 hi), hty⟩

/-- A system that passed the check of agreement does so rearranged. -/
theorem checkAgreement_rearranged (source : Dim) (base : Term) :
    L.Follows False (fun _ _ => True) (checkAgreement (L.derivation f σ) ctx source fs base) s
      (checkAgreement (L.derivation f' τ) ctx' source gs base) s' := by
  refine .of_reached fun _ h => ?_
  by_cases hoff : τ.checkFaceAgreement = true
  · have hagree := h.checkAgreement (hL.rules.checkFaceAgreement hoff)
    exact delivers_checkAgreement hL hctx (hagree.rearranged hfs)
  · unfold Typing.checkAgreement
    rw [if_neg hoff]
    exact .pure trivial

end Rules

/-- A judgment on a composition is followed by the one on it with the faces rearranged. -/
theorem judge_rearranged [L.Faithful] (hL : L.Relaxing False f f' σ τ) (hctx : L.Contexts ctx ctx')
    {t t' : Term} (ht : t.FacesRearranged t') {goal goal' : Option Value}
    (hgoal : Option.Rel L.Values goal goal') :
    L.Follows False L.Values (judge (L.derivation f σ) t ctx goal) s
      (judge (L.derivation f' τ) t' ctx' goal') s' := by
  cases ht with
  | comp source target a b hfs =>
    unfold judge
    apply follows_kanLine hL.noProbes (judge_follows hL a) hctx
    intro line line' r r' t t' hline hr hr'
    apply (follows_lineAt hL hline hr).bind
    intro start t₁ start' t₁' hstart
    apply ((judge_follows hL b).checks hctx hstart).bind
    intro _ t₂ _ t₂' _
    rw [hctx.freshDim_eq]
    apply (follows_lineAt hL hline (r := ctx.freshDim) (Int.natCast_nonneg _)).bind
    intro along t₃ along' t₃' halong
    apply (judgeFaces_rearranged hL hctx hfs halong).bind
    intro _ t₄ _ t₄' _
    apply (checkAgreement_rearranged hL hctx hfs source b).bind
    intro _ t₅ _ t₅' _
    apply (follows_lineAt hL hline hr').bind
    intro ty t₆ ty' t₆' hty
    exact follows_conclude hL hctx hgoal hty
  | hcomp a b hfs =>
    unfold judge
    apply ((judge_follows hL a).infers hctx).bind
    intro ty t₁ ty' t₁' hty
    apply (follows_universeLevel hty).bind
    rintro i t₂ _ t₂' rfl
    apply (follows_eval hL hctx a).bind
    intro v t₃ v' t₃' hv
    apply ((judge_follows hL b).checks hctx hv).bind
    intro _ t₄ _ t₄' _
    apply (judgeFaces_rearranged hL hctx hfs hv).bind
    intro _ t₅ _ t₅' _
    apply (checkAgreement_rearranged hL hctx hfs .zero b).bind
    intro _ t₆ _ t₆' _
    exact follows_conclude hL hctx hgoal hv

end Likeness

/-! ## The order does not matter -/

/-- The runs both answer, as related, or both fail, unless a guard has cut one of them off. -/
inductive EndTogether {α : Type} (R : α → Session → α → Session → Prop) :
    EStateM.Result Failure Session α → EStateM.Result Failure Session α → Prop
  | ok {a b : α} {s t : Session} : R a s b t → EndTogether R (.ok a s) (.ok b t)
  | error {e e' : Failure} {s t : Session} : EndTogether R (.error e s) (.error e' t)
  | cutOff {guard : Guard} {s : Session} (y : EStateM.Result Failure Session α) :
      EndTogether R (.error (.nonTermination guard) s) y
  | cutOff' (x : EStateM.Result Failure Session α) {guard : Guard} {t : Session} :
      EndTogether R x (.error (.nonTermination guard) t)

/-- Runs of which each answers where the other does end together. -/
theorem EndTogether.of_unlessCutOff {sure sure' : Prop} {α : Type}
    {R : α → Session → α → Session → Prop} {P P' : α → Session → α → Session → Prop}
    {x y : EStateM.Result Failure Session α}
    (hxy : ∀ a s, x = .ok a s → UnlessCutOff sure (fun b t => P a s b t) y)
    (hyx : ∀ b t, y = .ok b t → UnlessCutOff sure' (fun a s => P' b t a s) x)
    (hR : ∀ a s b t, P a s b t → P' b t a s → R a s b t) : EndTogether R x y := by
  cases x with
  | ok a s =>
    have hy := hxy a s rfl
    cases hy with
    | cutOff _ => exact .cutOff' _
    | @ok b t hab =>
      have hx := hyx b t rfl
      cases hx with
      | ok hba => exact .ok (hR a s b t hab hba)
  | error e s =>
    cases y with
    | error e' t => exact .error
    | ok b t =>
      have hx := hyx b t rfl
      cases hx with
      | cutOff _ => exact .cutOff _

/-- In a context that belongs to the evaluator, the order of the partial elements of a composition
does not matter, nor how their formulas are bracketed: from any two sessions that know the context,
the two compositions are both accepted, with types that read back the same, or both refused, unless
a guard cuts a run off. -/
theorem face_order_irrelevant {m : MeterId} {s₀ s s' : Session} {ctx : Context}
    (hctx : ctx.FullyOwned m s₀) (hs : s.Hosts m) (hs' : s'.Hosts m) (hlead : s₀.Leads s)
    (hlead' : s₀.Leads s') {t t' : Term} (ht : t.FacesRearranged t') (settings : Settings)
    (frames frames' k k' : Nat) :
    EndTogether
      (fun ty r ty' r' => EndTogether (fun n _ n' _ => n' = n)
        (Readback.quote k m ctx.depth ctx.dimDepth ty r)
        (Readback.quote k' m ctx.depth ctx.dimDepth ty' r'))
      (Typing.infer ⟨frames, m, settings⟩ ctx t s)
      (Typing.infer ⟨frames', m, settings⟩ ctx t' s') := by
  refine .of_unlessCutOff
    (fun _ _ => infer_followed_owned hctx hs hs' hlead hlead' False.elim ?_)
    (fun _ _ => infer_followed_owned hctx hs' hs hlead' hlead False.elim ?_) ?_
  · rintro L _ rfl hL hctxs
    exact L.judge_rearranged ⟨hL, False.elim, .refl settings⟩ hctxs ht .none
  · rintro L _ rfl hL hctxs
    exact L.judge_rearranged ⟨hL, False.elim, .refl settings⟩ hctxs ht.symm .none
  · intro ty r ty' r' hread hread'
    refine .of_unlessCutOff (hread k k') (hread' k' k) ?_
    rintro n q n' q' rfl _
    rfl

/-- A path `P`, a type `A`, an element `a` of `A` moved along `P`, and two interval variables. -/
def elementOfMoved : List Declaration :=
  [movingPath, .hypothesis "A" (.univ 0),
    .hypothesis "a" (.coe .zero .one (.pathApp (.var 1) (.var 0)) (.var 0)), .dimension, .dimension]

/-- The element `a` composed in the type `A` moved along `P`, with `a` on some faces. -/
def composedOn (fs : List Face) : Term :=
  .comp .zero .one (.coe .zero .one (.pathApp (.var 2) (.var 0)) (.var 1))
    (fs.map fun φ => (φ, .var 0)) (.var 0)

/-- Two faces that overlap. -/
def overlapping : List Face :=
  [.and (.eq 0 .zero) (.eq 1 .one), .or (.eq 1 .one) (.eq 0 .one)]

/-- The same faces in the other order, with their formulas the other way round. -/
def overlappingTurned : List Face :=
  [.or (.eq 0 .one) (.eq 1 .one), .and (.eq 1 .one) (.eq 0 .zero)]

/-- The type of `a` composed on two overlapping faces is inferred in either order, with the values
of arguments kept or without, and reads back the same. -/
theorem face_order_irrelevant_overlappingFaces :
    ∃ (ctx : Context) (s r r' q q' : Session) (ty ty' : Value) (n : Term),
      declareOn 200 .default elementOfMoved {} = .ok ctx s ∧
      Typing.infer ⟨200, 0, .default⟩ ctx (composedOn overlapping) s = .ok ty r ∧
      Typing.infer ⟨200, 0, .default⟩ ctx (composedOn overlappingTurned) s.unshared = .ok ty' r' ∧
      Readback.quote 200 0 ctx.depth ctx.dimDepth ty r = .ok n q ∧
      Readback.quote 200 0 ctx.depth ctx.dimDepth ty' r' = .ok n q' := by
  have hboth : answer? (do
      let ctx ← declareOn 200 .default elementOfMoved
      let s ← get
      let ty ← Typing.infer ⟨200, 0, .default⟩ ctx (composedOn overlapping)
      let _ ← Readback.quote 200 0 ctx.depth ctx.dimDepth ty
      set s.unshared
      let ty' ← Typing.infer ⟨200, 0, .default⟩ ctx (composedOn overlappingTurned)
      let _ ← Readback.quote 200 0 ctx.depth ctx.dimDepth ty') = some () := by
    decide +kernel
  obtain ⟨_, hboth⟩ := answer?_eq_some hboth
  obtain ⟨ctx, s, hctx, hboth⟩ := Run.bind_eq_ok.1 hboth
  obtain ⟨_, _, hget, hboth⟩ := Run.bind_eq_ok.1 hboth
  cases hget
  obtain ⟨ty, r, hty, hboth⟩ := Run.bind_eq_ok.1 hboth
  obtain ⟨n, q, hn, hboth⟩ := Run.bind_eq_ok.1 hboth
  obtain ⟨_, _, hset, hboth⟩ := Run.bind_eq_ok.1 hboth
  cases hset
  obtain ⟨ty', r', hty', hboth⟩ := Run.bind_eq_ok.1 hboth
  obtain ⟨n', q', hn', _⟩ := Run.bind_eq_ok.1 hboth
  obtain ⟨hserves, hfully⟩ := fullyOwned_of_declareOn hctx
  have hfaces : (composedOn overlapping).FacesRearranged (composedOn overlappingTurned) :=
    .comp _ _ _ _ (.trans (.cons _ (.swapAnd _ _) (.cons _ (.swapOr _ _) .nil)) (.swap _ _ _))
  have htogether := face_order_irrelevant hfully (.serves hserves) (.unshared hserves)
    hserves.sound.refl s.leads_unshared hfaces .default 200 200 200 200
  refine ⟨ctx, s, r, r', q, q', ty, ty', n, hctx, hty, hty', hn, ?_⟩
  rw [hty, hty'] at htogether
  cases htogether with
  | ok hread =>
    rw [hn, hn'] at hread
    cases hread with
    | ok heq =>
      subst heq
      exact hn'

/-! ## An order that shows -/

/-- A path `P`, the moved constant `f`, a type `A` and functions `h` and `g`. The codomain of `h` is
`Type5` moved along what `f` is at a path of types that are moved along `P`, that of `g` is `Type5`
itself. -/
def probedAndPlain : List Declaration :=
  probedCodomain.dropLast ++ [.hypothesis "g" (.pi "_" (.univ 0) (.univ 5))]

/-- The partial element that is `g` at `A` moved along `P` twice, nowhere defined. -/
def plainFace : Face × Term :=
  let moved (t : Term) : Term := .coe .zero .one (.pathApp (.var 4) (.var 0)) t
  (.bottom, .app (.var 0) (moved (moved (.var 2))))

/-- The partial element that is `h` at `A`, nowhere defined. -/
def probedFace : Face × Term :=
  (.bottom, .app (.var 1) (.var 2))

/-- What the composition of `Type4` with such partial elements is refused with, if it is, where each
entry of the context is evaluated by an evaluator of its own. -/
def refusal? (fs : List (Face × Term)) : Option (Option FailureKind) :=
  answer? do
    let ctx ← Declaration.addAll 200 .default probedAndPlain .empty
    failureKind? (Kernel.infer 200 .default ctx (.comp .zero .one (.univ 5) fs (.univ 4)))

/-- In a context that was made by several evaluators the order shows. The argument of `g` draws two
probes. If it is judged first, the probe at which the codomain of `h` is looked at has the number of
the one that `f` draws there, and the codomain looks like `Type5`; if it is judged second, it does
not. -/
theorem face_order_shows :
    refusal? [plainFace, probedFace] = some none ∧
    refusal? [probedFace, plainFace] = some (some .typeMismatch) := by
  refine ⟨?_, ?_⟩ <;> decide +kernel

end SmoothCubical
