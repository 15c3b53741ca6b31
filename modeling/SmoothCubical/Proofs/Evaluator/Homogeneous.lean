import SmoothCubical.Proofs.Evaluator.Sharing
import SmoothCubical.Proofs.Weakening

/-!
# Homogeneous composition

A homogeneous composition is a composition to `1` in the constant family: if the one has a normal
form, the other has the same, or is cut off (`hcomp_is_constant_comp`). The family is the type moved
under the direction, so every free interval variable of it has one index more (`Term.raise`).

The homogeneous composition evaluates the type once and keeps the value. The composition evaluates
the family anew at each point it looks at. Each time it finds what the other has kept, since the
direction does not occur in the family. This needs a context that belongs to the evaluator. If a
closure of the context draws its probes on the meter of another, then a probe that is drawn while
the family is evaluated may be one that is in play (`hcomp_apart_from_comp`).
-/

set_option autoImplicit false

namespace SmoothCubical

/-! ## Terms under one more direction -/

/-- The converse of a relation under a binder is the converse of the relation, under the binder. -/
theorem Under.swap {R : Int → Int → Prop} {i j : Int} :
    Under R i j → Under (fun i j => R j i) j i
  | .nearest => .nearest
  | .outer hi hj r => .outer hj hi r
  | .negative hi hj r => .negative hj hi r

/-- Under a binder the indices are raised from one higher on. -/
theorem under_raised {cutoff i j : Int} (hc : 0 ≤ cutoff) (h : i = shiftedIndex (cutoff + 1) j) :
    Under (fun i j => i = shiftedIndex cutoff j) i j :=
  ((under_shiftedIndex_iff hc).2 h).swap

/-- Raise an interval variable at or above `cutoff` by one. -/
def Dim.raise (cutoff : Int) : Dim → Dim
  | .var i => .var (shiftedIndex cutoff i)
  | d => d

/-- Raise the interval variables at or above `cutoff` by one. -/
def Face.raise (cutoff : Int) : Face → Face
  | .eq i e => .eq (shiftedIndex cutoff i) e
  | .and φ ψ => .and (φ.raise cutoff) (ψ.raise cutoff)
  | .or φ ψ => .or (φ.raise cutoff) (ψ.raise cutoff)
  | φ => φ

namespace Term

mutual

/-- Raise the free interval variables at or above `cutoff` by one. -/
def raise : Int → Term → Term
  | _, .univ level => .univ level
  | _, .var i => .var i
  | c, .pi x a b => .pi x (a.raise c) (b.raise c)
  | c, .lam x b => .lam x (b.raise c)
  | c, .app f a => .app (f.raise c) (a.raise c)
  | c, .path a l r => .path (a.raise c) (l.raise c) (r.raise c)
  | c, .pathLam x b => .pathLam x (b.raise (c + 1))
  | c, .pathApp p d => .pathApp (p.raise c) (d.raise c)
  | c, .smoothPath order a l r => .smoothPath order (a.raise c) (l.raise c) (r.raise c)
  | c, .comp s t a fs b =>
    .comp (s.raise c) (t.raise c) (a.raise (c + 1)) (raiseBranches c fs) (b.raise c)
  | c, .coe s t a b => .coe (s.raise c) (t.raise c) (a.raise (c + 1)) (b.raise c)
  | c, .hcomp a fs b => .hcomp (a.raise c) (raiseBranches c fs) (b.raise c)
  | _, .missing => .missing

/-- Raise the interval variables of formulas, and of bodies under the direction. -/
def raiseBranches : Int → List (Face × Term) → List (Face × Term)
  | _, [] => []
  | c, (φ, u) :: rest => (φ.raise c, u.raise (c + 1)) :: raiseBranches c rest

end

end Term

/-- A dimension that was raised matches the dimension by raised indices. -/
theorem Dim.raise_matches (cutoff : Int) :
    ∀ d : Dim, (d.raise cutoff).Matches (fun i j => i = shiftedIndex cutoff j) d
  | .zero => .zero
  | .one => .one
  | .var _ => .var rfl
  | .missing => .missing

/-- A face formula that was raised matches the formula by raised indices. -/
theorem Face.raise_matches (cutoff : Int) :
    ∀ φ : Face, (φ.raise cutoff).Matches (fun i j => i = shiftedIndex cutoff j) φ
  | .top => .top
  | .bottom => .bottom
  | .eq _ _ => .equation rfl
  | .and φ ψ => .and (φ.raise_matches cutoff) (ψ.raise_matches cutoff)
  | .or φ ψ => .or (φ.raise_matches cutoff) (ψ.raise_matches cutoff)
  | .missing => .missing

namespace Term

mutual

/-- A raised term matches the term. -/
theorem raise_matches {V : Int → Int → Prop} (hV : ∀ i, V i i) {c : Int} (hc : 0 ≤ c) :
    ∀ t : Term, Term.Matches .same V (fun i j => i = shiftedIndex c j) (t.raise c) t
  | .univ _ => .univ
  | .var i => .var (hV i)
  | .pi _ a b => .pi rfl (a.raise_matches hV hc) (b.raise_matches (Under.refl hV) hc)
  | .lam _ b => .lam rfl (b.raise_matches (Under.refl hV) hc)
  | .app f a => .app (f.raise_matches hV hc) (a.raise_matches hV hc)
  | .path a l r => .path (a.raise_matches hV hc) (l.raise_matches hV hc) (r.raise_matches hV hc)
  | .pathLam _ b => .pathLam rfl (b.raise_matches_under hV hc)
  | .pathApp p d => .pathApp (p.raise_matches hV hc) (d.raise_matches c)
  | .smoothPath _ a l r =>
    .smoothPath (a.raise_matches hV hc) (l.raise_matches hV hc) (r.raise_matches hV hc)
  | .comp s t a fs b =>
    .comp (s.raise_matches c) (t.raise_matches c) (a.raise_matches_under hV hc)
      (raiseBranches_match hV hc fs) (b.raise_matches hV hc)
  | .coe s t a b =>
    .coe (s.raise_matches c) (t.raise_matches c) (a.raise_matches_under hV hc)
      (b.raise_matches hV hc)
  | .hcomp a fs b =>
    .hcomp (a.raise_matches hV hc) (raiseBranches_match hV hc fs) (b.raise_matches hV hc)
  | .missing => .missing

/-- Under a binder, a term that was raised matches the term by raised indices. -/
theorem raise_matches_under {V : Int → Int → Prop} (hV : ∀ i, V i i) {c : Int} (hc : 0 ≤ c)
    (t : Term) :
    Term.Matches .same V (Under fun i j => i = shiftedIndex c j) (t.raise (c + 1)) t :=
  (t.raise_matches hV (by omega)).mono (fun _ _ h => h) fun _ _ => under_raised hc

/-- A system that was raised matches the system by raised indices. -/
theorem raiseBranches_match {V : Int → Int → Prop} (hV : ∀ i, V i i) {c : Int} (hc : 0 ≤ c) :
    ∀ fs : List (Face × Term),
    Term.BranchesMatch .same V (fun i j => i = shiftedIndex c j) (raiseBranches c fs) fs
  | [] => .nil
  | (φ, u) :: rest =>
    .cons (φ.raise_matches c) (u.raise_matches_under hV hc) (raiseBranches_match hV hc rest)

end

end Term

/-- No index is raised to the cutoff. -/
theorem shiftedIndex_ne (c i : Int) : shiftedIndex c i ≠ c := by
  unfold shiftedIndex
  split <;> omega

/-- A dimension that was raised does not mention the cutoff. -/
theorem Dim.not_mentions_raise (c : Int) (d : Dim) : (d.raise c).mentions c = false := by
  cases d <;> simp [raise, mentions, shiftedIndex_ne]

/-- A face formula that was raised does not mention the cutoff. -/
theorem Face.not_mentions_raise (c : Int) (φ : Face) : (φ.raise c).mentions c = false := by
  induction φ with
  | eq i e => simp [raise, mentions, shiftedIndex_ne]
  | and φ ψ ihφ ihψ => simp [raise, mentions, ihφ, ihψ]
  | or φ ψ ihφ ihψ => simp [raise, mentions, ihφ, ihψ]
  | _ => rfl

namespace Term

mutual

/-- From the cutoff on, a raised term has one variable less. -/
theorem not_mentions_raise {c : Int} : ∀ {t : Term}, t.isWhole = true →
    (t.raise c).mentions c = .ok false
  | .univ _, _ => rfl
  | .var _, _ => rfl
  | .pi _ a b, h => by
    obtain ⟨ha, hb⟩ := Bool.and_eq_true_iff.1 h
    exact search_eq_false.2 ⟨not_mentions_raise ha, not_mentions_raise hb⟩
  | .lam _ b, h => not_mentions_raise (t := b) h
  | .app f a, h => by
    obtain ⟨hf, ha⟩ := Bool.and_eq_true_iff.1 h
    exact search_eq_false.2 ⟨not_mentions_raise hf, not_mentions_raise ha⟩
  | .path a l r, h => by
    obtain ⟨hal, hr⟩ := Bool.and_eq_true_iff.1 h
    obtain ⟨ha, hl⟩ := Bool.and_eq_true_iff.1 hal
    exact search_eq_false.2 ⟨not_mentions_raise ha,
      search_eq_false.2 ⟨not_mentions_raise hl, not_mentions_raise hr⟩⟩
  | .pathLam _ b, h => not_mentions_raise (t := b) h
  | .pathApp p d, h => ite_eq_false.2 ⟨d.not_mentions_raise c, not_mentions_raise (t := p) h⟩
  | .smoothPath _ a l r, h => by
    obtain ⟨hal, hr⟩ := Bool.and_eq_true_iff.1 h
    obtain ⟨ha, hl⟩ := Bool.and_eq_true_iff.1 hal
    exact search_eq_false.2 ⟨not_mentions_raise ha,
      search_eq_false.2 ⟨not_mentions_raise hl, not_mentions_raise hr⟩⟩
  | .comp s t a fs b, h => by
    obtain ⟨hafs, hb⟩ := Bool.and_eq_true_iff.1 h
    obtain ⟨ha, hfs⟩ := Bool.and_eq_true_iff.1 hafs
    refine ite_eq_false.2 ⟨?_, search_eq_false.2 ⟨not_mentions_raise ha,
      search_eq_false.2 ⟨not_mentions_raise hb, not_mentions_raiseBranches hfs⟩⟩⟩
    rw [t.not_mentions_raise, s.not_mentions_raise, Bool.or_false]
  | .coe s t a b, h => by
    obtain ⟨ha, hb⟩ := Bool.and_eq_true_iff.1 h
    refine ite_eq_false.2 ⟨?_, search_eq_false.2 ⟨not_mentions_raise ha, not_mentions_raise hb⟩⟩
    rw [s.not_mentions_raise, t.not_mentions_raise, Bool.or_false]
  | .hcomp a fs b, h => by
    obtain ⟨hafs, hb⟩ := Bool.and_eq_true_iff.1 h
    obtain ⟨ha, hfs⟩ := Bool.and_eq_true_iff.1 hafs
    exact search_eq_false.2 ⟨not_mentions_raise ha,
      search_eq_false.2 ⟨not_mentions_raise hb, not_mentions_raiseBranches hfs⟩⟩

/-- A whole system that was raised does not mention the cutoff. -/
theorem not_mentions_raiseBranches {c : Int} : ∀ {fs : List (Face × Term)},
    wholeBranches fs = true → mentionsBranches c (raiseBranches c fs) = .ok false
  | [], _ => rfl
  | (φ, u) :: rest, h => by
    obtain ⟨hu, hrest⟩ := Bool.and_eq_true_iff.1 h
    exact ite_eq_false.2 ⟨φ.not_mentions_raise c, search_eq_false.2
      ⟨not_mentions_raise hu, not_mentions_raiseBranches hrest⟩⟩

end

end Term

/-! ## A family that is evaluated anew -/

namespace Likeness

open Eval
open Correspondence (find_neg point_neg point_cons_succ)

variable {L : Likeness} {m : MeterId} {limit f f' : Nat} {s s' : Session}

/-- The likeness for runs that may fail for different reasons. -/
def loosened (L : Likeness) : Likeness :=
  { L with loose := True, negative := fun hL => (hL trivial).elim }

instance : (between m s s').loosened.Faithful where
  finds h := h.elim

/-- A raised index finds behind one more point what the index finds without it. An index that is
unbound is named differently. -/
theorem DimsBy.raise (hL : L.loose) {dims dims' : IntervalEnv} (h : L.Dims dims dims')
    (r : Interval) : L.DimsBy (fun i j => i = shiftedIndex 0 j) (r :: dims) dims' := by
  rintro _ j rfl
  obtain ⟨hfind, hpoint⟩ := h j j rfl
  unfold shiftedIndex
  split
  · rename_i hj
    rw [point_cons_succ r dims hj]
    refine ⟨?_, hpoint⟩
    unfold IntervalEnv.find at hfind ⊢
    rw [Index.get?_cons_succ r dims hj]
    cases hd : Index.get? dims j <;> cases hd' : Index.get? dims' j <;> rw [hd, hd'] at hfind <;>
      cases hfind
    · exact .error fun hnot => (hnot hL).elim
    · rename_i hr
      exact .ok hr
  · rename_i hj
    have hneg : j < 0 := by omega
    rw [find_neg _ hneg, find_neg _ hneg, point_neg _ hneg, point_neg _ hneg]
    exact ⟨.error fun _ => rfl, .error fun _ => rfl⟩

/-- The likeness for runs of which the first evaluates the term `a` at each point of a family, and
the second keeps a value that it has once found for `a'`. -/
def withSteady (L : Likeness) (env env' : Env) (dims dims' : IntervalEnv) (a a' : Term) :
    Likeness :=
  { L with
    steady := fun c v => L.steady c v ∨ c = .body env dims a ∧ ∃ (f : Nat) (b e : Session),
      run f L.meter (.evaluate true a' env' dims') b = .ok v e ∧
        b.Ready L.meter L.origin' L.right e }

/-- A likeness is within the one that holds a further family to be constant. -/
theorem le_withSteady {env env' : Env} {dims dims' : IntervalEnv} {a a' : Term} :
    L.Le (L.withSteady env env' dims dims' a a') :=
  ⟨rfl, id, id, List.Subset.refl _, id, .inl, id⟩

/-- If the terms match and the direction is of no account, the first run finds each time what the
second has found. -/
theorem faithful_withSteady [hL : L.Faithful] {env env' : Env} (henv : L.Environments env env')
    {D : Int → Int → Prop} {dims dims' : IntervalEnv}
    (hdims : ∀ r, L.DimsBy D (r :: dims) dims') {a a' : Term} (ha : Terms D a a') :
    (L.withSteady env env' dims dims' a a').Faithful where
  finds := by
    rintro c v (hc | ⟨rfl, f', b, e, hrun, hb⟩) f s r hs
    · rcases hL.finds hc f s r hs with ⟨w, t, hfound, hw⟩ | hcut
      · exact .inl ⟨w, t, hfound, hw.mono le_withSteady⟩
      · exact .inr hcut
    cases f with
    | zero => exact .inr ⟨_, s, rfl, .nonTermination .frames⟩
    | succ f =>
      have hb' : b.Ready L.meter L.origin' L.right
          ((run f' L.meter (.evaluate true a' env' dims')).after b) := by
        rwa [Run.after_ok hrun]
      have hdemands : L.Demands (.evaluate true a env (r :: dims))
          (.evaluate true a' env' dims') := .evaluate henv (hdims r) ha
      have hout := run_alike _ f f' L _ _ s b hdemands trivial trivial hs hb' (Nat.le_refl _)
        False.elim
      rw [hrun] at hout
      change (∃ w t, run f L.meter (.evaluate true a env (r :: dims)) s = .ok w t ∧ _) ∨
        ∃ e t, run f L.meter (.evaluate true a env (r :: dims)) s = .error e t ∧ e.IsCut
      generalize run f L.meter (.evaluate true a env (r :: dims)) s = u at hout ⊢
      cases hout with
      | ok hw _ => exact .inl ⟨_, _, rfl, hw.mono le_withSteady⟩
      | cut he => exact .inr ⟨_, _, rfl, he⟩

/-- The second run may do something before that the first does not. -/
theorem Alike.after_second {α β γ : Type} {P : α → β → Prop} {x : Run α} {w : Run γ}
    {k : γ → Run β} [hw : Run.Advancing L.meter w] [hk : ∀ c, Run.Advancing L.meter (k c)] {c : γ}
    {t' : Session} (hc : w s' = .ok c t')
    (h : s'.Ready L.meter L.origin' L.right t' → L.Alike False limit P x s (k c) t') :
    L.Alike False limit P x s (w >>= k) s' := by
  intro hs hs' hlimit hahead
  have hend := precedes_bind w hk s'
  have hfirst := hs'.shorten hend
  have hmid := hs'.advance (hw.keeps s') hend
  rw [Run.after_ok hc] at hfirst hmid
  rw [Run.after_bind_ok hc] at hmid
  rw [Run.bind_ok hc]
  exact h hfirst hs hmid hlimit False.elim

/-- Values are found alike if the steps to them are taken alike, where the second is known to end
with one. -/
theorem alike_evaluate {t t' : Term} {env env' : Env} {dims dims' : IntervalEnv}
    (h : ∀ (r r' : Session) (v : Value) (e : Session),
      step (run f') L.meter t' env' dims' r' = .ok v e →
      L.Alike False limit L.Values (step (run f) L.meter t env dims) r
        (step (run f') L.meter t' env' dims') r')
    {v : Value} {e : Session}
    (hrun : run (f' + 1) L.meter (.evaluate true t' env' dims') s' = .ok v e) :
    L.Alike False limit L.Values (run (f + 1) L.meter (.evaluate true t env dims)) s
      (run (f' + 1) L.meter (.evaluate true t' env' dims')) s' := by
  have hinside : ∃ e', (Run.checkDepth L.meter t' >>= fun _ =>
      chargedStep (run f') L.meter t' env' dims') (deeper L.meter s') = .ok v e' := by
    change Run.nest L.meter _ s' = _ at hrun
    rw [nest_eq] at hrun
    split at hrun
    · rename_i w e' hw
      cases hrun
      exact ⟨e', hw⟩
    · cases hrun
  obtain ⟨e', hinside⟩ := hinside
  apply Alike.nest
  apply (Alike.checkDepth t t').bind
  intro _ r₁ _ r₁' _ hdepth _
  apply Alike.charge.bind
  intro _ r₂ _ r₂' _ hcharge _
  rw [Run.bind_ok hdepth] at hinside
  change (Run.charge L.meter >>= fun _ => step (run f') L.meter t' env' dims') r₁' = _ at hinside
  rw [Run.bind_ok hcharge] at hinside
  exact h r₂ r₂' v e' hinside

/-- The composition in the constant family finds its family at no cost. -/
theorem step_constantComp {a : Term} (ha : a.isWhole = true) (call : Call) (m : MeterId)
    (fs : List (Face × Term)) (b : Term) (env : Env) (dims : IntervalEnv) :
    step call m (.comp .zero .one (a.raise 0) fs b) env dims = (do
      let start ← call m (.evaluate true b env dims)
      let tubes ← closeTubes env dims fs
      call m (.comp .zero .one (.varying (.body env dims (a.raise 0)) true) tubes start)) := by
  change (closeFamily (a.raise 0) env dims >>= _) = _
  unfold closeFamily
  rw [Term.not_mentions_raise ha]
  rfl

/-- Wherever the first run evaluates a raised term, it finds what the second has found for the
term. -/
theorem faithful_raise [L.Faithful] (hL : L.loose) {env env' : Env}
    (henv : L.Environments env env') {dims dims' : IntervalEnv} (hdims : L.Dims dims dims')
    (a : Term) : (L.withSteady env env' dims dims' (a.raise 0) a).Faithful :=
  faithful_withSteady henv (DimsBy.raise hL hdims)
    (a.raise_matches (fun _ => rfl) (Int.le_refl 0))

/-- A step of the composition in the constant family is alike to one of the homogeneous
composition. -/
theorem alike_step_hcomp [L.Faithful] (hL : L.loose) {env env' : Env}
    (henv : L.Environments env env') {dims dims' : IntervalEnv} (hdims : L.Dims dims dims')
    {a : Term} (ha : a.isWhole = true) (fs : List (Face × Term)) (b : Term) {v : Value}
    {e : Session} (hrun : step (run f') L.meter (.hcomp a fs b) env' dims' s' = .ok v e) :
    (L.withSteady env env' dims dims' (a.raise 0) a).Alike False limit
      (L.withSteady env env' dims dims' (a.raise 0) a).Values
      (step (run f) L.meter (.comp .zero .one (a.raise 0) fs b) env dims) s
      (step (run f') L.meter (.hcomp a fs b) env' dims') s' := by
  let K := L.withSteady env env' dims dims' (a.raise 0) a
  have hle : L.Le K := le_withSteady
  have : K.Faithful := faithful_raise hL henv hdims a
  have henv' := henv.mono hle
  have hdims' : K.Dims dims dims' := hdims.mono hle
  obtain ⟨ty, t, hty, _⟩ := Run.bind_eq_ok.1 hrun
  rw [step_constantComp ha]
  apply Alike.after_second hty
  intro hready
  have hfamily : K.Lines (.varying (.body env dims (a.raise 0)) true) (.constant ty) :=
    .steady (.inr ⟨rfl, f', s', t, hty, hready⟩)
  apply Alike.bind (run_alike limit f f' K _ _ s t (.evaluate henv' hdims' (.refl b)) trivial
    trivial)
  intro w t₁ w' t₁' _ _ hw
  have hfs : Term.BranchesMatch .same (fun i j => i = j) (fun i j => i = j) fs fs :=
    Term.branchesMatch_refl (fun _ => rfl) (fun _ => rfl) (fun _ => rfl) fs
  apply (alike_closeTubes henv' hdims' hfs).bind
  intro tubes t₂ tubes' t₂' _ _ htubes
  exact run_alike limit f f' K _ _ t₂ t₂' (.comp .zero .one hfamily htubes hw) trivial trivial

/-- Where the homogeneous composition has a normal form, the composition in the constant family is
alike to it. -/
theorem alike_normalizeOn_hcomp [L.Faithful] (hL : L.loose) (hexact : L.Exact) {env env' : Env}
    (henv : L.Environments env env') {dims dims' : IntervalEnv} (hdims : L.Dims dims dims')
    {a : Term} (ha : a.isWhole = true) (fs : List (Face × Term)) (b : Term) {d e : Nat} {n : Term}
    {r : Session}
    (hrun : normalizeOn f' L.meter (.hcomp a fs b) env' dims' d e s' = .ok n r) :
    (L.withSteady env env' dims dims' (a.raise 0) a).Alike False limit (· = ·)
      (normalizeOn f L.meter (.comp .zero .one (a.raise 0) fs b) env dims d e) s
      (normalizeOn f' L.meter (.hcomp a fs b) env' dims' d e) s' := by
  let K := L.withSteady env env' dims dims' (a.raise 0) a
  have : K.Faithful := faithful_raise hL henv hdims a
  obtain ⟨v, t, hv, -⟩ := Run.bind_eq_ok.1 hrun
  cases f' with
  | zero => cases hv
  | succ f' =>
    cases f with
    | zero =>
      intro _ _ _ _
      exact .cut (.nonTermination .frames)
    | succ f =>
      have hvalue : K.Alike False limit K.Values
          (run (f + 1) K.meter (.evaluate true (.comp .zero .one (a.raise 0) fs b) env dims)) s
          (run (f' + 1) K.meter (.evaluate true (.hcomp a fs b) env' dims')) s' :=
        alike_evaluate (fun _ _ _ _ hstep => alike_step_hcomp hL henv hdims ha fs b hstep) hv
      apply hvalue.bind
      intro w t₁ w' t₁' _ _ hw
      exact quote_alike (L := K) hexact limit _ _ d e w w' t₁ t₁' (Int.natCast_nonneg e) hw

end Likeness

/-! ## The two compositions -/

open Likeness in
/-- Homogeneous composition is composition to `1` in the constant family. In a context that belongs
to the evaluator, and from any two sessions that know the context: if the one has a normal form, the
other has it, too, unless a guard cuts it off. -/
theorem hcomp_is_constant_comp {m : MeterId} {s₀ s s' : Session} {ctx : Context}
    (hctx : ctx.Owned m s₀) (hs : s.Serves m) (hs' : s'.Serves m) (hlead : s₀.Leads s)
    (hlead' : s₀.Leads s') {a : Term} (ha : a.isWhole = true) (fs : List (Face × Term)) (b : Term)
    {frames depth dimDepth : Nat} {n : Term} {r : Session}
    (hrun : normalizeOn frames m (.hcomp a fs b) ctx.env ctx.dims depth dimDepth s = .ok n r)
    (frames' : Nat) :
    (∃ r', normalizeOn frames' m (.comp .zero .one (a.raise 0) fs b) ctx.env ctx.dims depth
        dimDepth s' = .ok n r') ∨
      ∃ guard r', normalizeOn frames' m (.comp .zero .one (a.raise 0) fs b) ctx.env ctx.dims depth
        dimDepth s' = .error (.nonTermination guard) r' := by
  let x := normalizeOn frames' m (.comp .zero .one (a.raise 0) fs b) ctx.env ctx.dims depth dimDepth
  let y := normalizeOn frames m (.hcomp a fs b) ctx.env ctx.dims depth dimDepth
  have hsafe : Run.Safe True (fun _ _ => True) x s' :=
    safe_normalizeOn (S := .owned m) trivial rfl hs'.sound
      (fun e he => (hctx.entries e he).mono (hlead'.le _)) hctx.points _ _ _
  have hend : s'.Precedes m (x.after s') := (Run.Advancing.keeps s').toPrecedes
  have hend' : s.Precedes m (y.after s) := (Run.Advancing.keeps s).toPrecedes
  let L := (between m (x.after s') (y.after s)).loosened
  have hholds : L.Holds ((Scope.owned m).during s₀) :=
    ⟨id, fun _ hl => hl, fun hx => hend.origin (hlead'.origin hx),
      fun hx => hend'.origin (hlead.origin hx)⟩
  have henv : L.Environments ctx.env ctx.env := .refl fun e he => (hctx.entries e he).alike hholds
  have hdims : L.Dims ctx.dims ctx.dims := .refl (fun _ hl => hl) hctx.points
  let K := L.withSteady ctx.env ctx.env ctx.dims ctx.dims (a.raise 0) a
  have halike : K.Alike False ((x.after s').meter m).steps (· = ·) x s' y s :=
    alike_normalizeOn_hcomp (L := L) trivial rfl henv hdims ha fs b hrun
  have hexact : K.Exact := rfl
  have hout : Outcome m True False (· = ·) (x s') (y s) :=
    halike (hs'.ready (left_nonneg hexact) _) (hs.ready (right_nonneg hexact) _) (Nat.le_refl _)
      False.elim
  change (∃ r', x s' = .ok n r') ∨ ∃ guard r', x s' = .error (.nonTermination guard) r'
  rw [show y s = .ok n r from hrun] at hout
  generalize hx : x s' = u at hout
  cases hout with
  | ok heq _ =>
    subst heq
    exact .inl ⟨_, rfl⟩
  | cut he =>
    cases he with
    | nonTermination guard => exact .inr ⟨guard, _, rfl⟩
    | unknownThunk id => exact (hsafe.error hx).2.elim

/-- A type that is moved from `0` along the family of `f` at paths of types that start in the
direction of the family. It takes two probes to find the value that is moved. -/
def movedAlongProbed (target : Dim) : Term :=
  let moved (t : Term) : Term := .coe .zero .one (.pathApp (.var 1) (.var 0)) t
  .coe .zero target
    (.app (.var 0) (.pathLam "k" (.coe (.var 1) (.var 0) (.pathApp (.var 1) (.var 0)) (.univ 0))))
    (moved (moved (.univ 0)))

/-- With `f` made by the same evaluator, the two compositions in a type that is moved up to an
interval variable have one normal form. -/
theorem hcomp_is_constant_comp_movedAlongProbed :
    let a := movedAlongProbed (.var 0)
    let fs := [(Face.eq 0 .zero, Term.univ 0)]
    ∃ (ctx : Context) (s r r' : Session) (n : Term),
      declareOn 100 .default [movingPath, movedConstant, .dimension] {} = .ok ctx s ∧
      normalizeOn 100 0 (.hcomp a fs (.univ 0)) ctx.env ctx.dims 2 1 s = .ok n r ∧
      normalizeOn 100 0 (.comp .zero .one (a.raise 0) fs (.univ 0)) ctx.env ctx.dims 2 1 s =
        .ok n r' := by
  intro a fs
  have hends : answer? (do
      let ctx ← declareOn 100 .default [movingPath, movedConstant, .dimension]
      let _ ← normalizeOn 100 0 (.hcomp a fs (.univ 0)) ctx.env ctx.dims 2 1) = some () := by
    decide +kernel
  have hends' : answer? (do
      let ctx ← declareOn 100 .default [movingPath, movedConstant, .dimension]
      let _ ← normalizeOn 100 0 (.comp .zero .one (a.raise 0) fs (.univ 0)) ctx.env ctx.dims 2 1) =
        some () := by
    decide +kernel
  obtain ⟨_, hends⟩ := answer?_eq_some hends
  obtain ⟨_, hends'⟩ := answer?_eq_some hends'
  obtain ⟨ctx, s, hctx, hrest⟩ := Run.bind_eq_ok.1 hends
  obtain ⟨n, r, hn, _⟩ := Run.bind_eq_ok.1 hrest
  rw [Run.bind_ok hctx] at hends'
  obtain ⟨n', r', hn', _⟩ := Run.bind_eq_ok.1 hends'
  obtain ⟨hserves, howned⟩ := owned_of_declareOn hctx
  have hlead := hserves.sound.refl
  rcases hcomp_is_constant_comp howned hserves hserves hlead hlead (a := a) (by decide) fs (.univ 0)
    hn 100 with ⟨r', hcomp⟩ | ⟨guard, r', hcut⟩
  · exact ⟨ctx, s, r, r', n, hctx, hn, hcomp⟩
  · rw [hn'] at hcut
    cases hcut

/-- In a context of several evaluators the two compositions may end with different terms, although
neither the type nor the family mentions an interval variable. -/
theorem hcomp_apart_from_comp :
    let a := movedAlongProbed .one
    a.raise 0 = a ∧
    endApart (endOf .byNeed [movingPath, movedConstant] (.hcomp a [] (.univ 0)))
      (endOf .byNeed [movingPath, movedConstant] (.comp .zero .one (a.raise 0) [] (.univ 0))) =
        true ∧
    (endOf .byNeed [movingPath, movedConstant] (.hcomp a [] (.univ 0))).toBool = true := by
  refine ⟨rfl, ?_, ?_⟩ <;> decide +kernel

end SmoothCubical
