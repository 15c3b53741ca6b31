import SmoothCubical.Proofs.Stability.NormalForm
import SmoothCubical.Proofs.Weakening.OwnLevels

/-!
# Weakening

One more hypothesis does not change what a term normalizes to: the normal form of the shifted term
is the shifted normal form, the failures are of the same kind, and both runs spend the same
(`normalize_shift`).

The two runs go in step. Where the smaller context ends, every level that is bound later, while
terms are evaluated or values read back, is one higher in the larger context; levels below stand
for themselves (`Correspondence.weaken`). The entries of a context hold no other levels than those
below its end, and refer to no argument that does (`Context.Declared.holdsOwn`).
-/

set_option autoImplicit false

namespace SmoothCubical

/-! ## A term and its shift -/

/-- The index that `shift` puts in the place of another. -/
def shiftedIndex (cutoff i : Int) : Int :=
  if i ≥ cutoff then i + 1 else i

/-- Under a binder the cutoff is one higher. -/
theorem under_shiftedIndex_iff {cutoff i j : Int} (hc : 0 ≤ cutoff) :
    Under (fun i j => j = shiftedIndex cutoff i) i j ↔ j = shiftedIndex (cutoff + 1) i := by
  unfold shiftedIndex
  constructor
  · intro h
    cases h with
    | nearest => rw [if_neg (by omega)]
    | outer hi hj h => split at h <;> split <;> omega
    | negative hi hj h => split at h <;> split <;> omega
  · intro h
    rcases Int.lt_trichotomy i 0 with hneg | rfl | hpos
    · rw [if_neg (by omega)] at h
      subst h
      exact .negative hneg hneg (by rw [if_neg (by omega)])
    · rw [if_neg (by omega)] at h
      subst h
      exact .nearest
    · have hout : Under (fun i j => j = if i ≥ cutoff then i + 1 else i) (i - 1 + 1)
          (j - 1 + 1) := by
        split at h
        · exact .outer (by omega) (by omega) (by rw [if_pos (by omega)]; omega)
        · exact .outer (by omega) (by omega) (by rw [if_neg (by omega)]; omega)
      simpa using hout

namespace Term

variable {C : Correspondence}

mutual

/-- A term matches its shift. -/
theorem matches_shift (hN : ∀ x, C.name x x) {D : Int → Int → Prop} (hD : ∀ i, D i i)
    {cutoff : Int} (hc : 0 ≤ cutoff) : ∀ t : Term,
    Term.Matches C (fun i j => j = shiftedIndex cutoff i) D t (t.shift 1 cutoff)
  | .univ _ => .univ
  | .var _ => .var rfl
  | .pi x a b => .pi (hN x) (a.matches_shift hN hD hc) (b.matches_shift_under hN hD hc)
  | .lam x b => .lam (hN x) (b.matches_shift_under hN hD hc)
  | .app f a => .app (f.matches_shift hN hD hc) (a.matches_shift hN hD hc)
  | .path a l r =>
    .path (a.matches_shift hN hD hc) (l.matches_shift hN hD hc) (r.matches_shift hN hD hc)
  | .pathLam x b => .pathLam (hN x) (b.matches_shift hN (Under.refl hD) hc)
  | .pathApp p d => .pathApp (p.matches_shift hN hD hc) (d.matches_refl hD)
  | .smoothPath _ a l r =>
    .smoothPath (a.matches_shift hN hD hc) (l.matches_shift hN hD hc) (r.matches_shift hN hD hc)
  | .comp s t a fs b =>
    .comp (s.matches_refl hD) (t.matches_refl hD) (a.matches_shift hN (Under.refl hD) hc)
      (branchesMatch_shift hN hD hc fs) (b.matches_shift hN hD hc)
  | .coe s t a b =>
    .coe (s.matches_refl hD) (t.matches_refl hD) (a.matches_shift hN (Under.refl hD) hc)
      (b.matches_shift hN hD hc)
  | .hcomp a fs b =>
    .hcomp (a.matches_shift hN hD hc) (branchesMatch_shift hN hD hc fs) (b.matches_shift hN hD hc)
  | .missing => .missing

/-- Under a binder, a term matches itself shifted beyond the cutoff. -/
theorem matches_shift_under (hN : ∀ x, C.name x x) {D : Int → Int → Prop} (hD : ∀ i, D i i)
    {cutoff : Int} (hc : 0 ≤ cutoff) (t : Term) :
    Term.Matches C (Under fun i j => j = shiftedIndex cutoff i) D t (t.shift 1 (cutoff + 1)) :=
  (t.matches_shift hN hD (by omega)).mono (fun _ _ => (under_shiftedIndex_iff hc).2)
    fun _ _ hij => hij

/-- A system matches itself shifted. -/
theorem branchesMatch_shift (hN : ∀ x, C.name x x) {D : Int → Int → Prop} (hD : ∀ i, D i i)
    {cutoff : Int} (hc : 0 ≤ cutoff) : ∀ fs : List (Face × Term),
    Term.BranchesMatch C (fun i j => j = shiftedIndex cutoff i) D fs (shiftBranches 1 cutoff fs)
  | [] => .nil
  | (φ, u) :: rest =>
    .cons (φ.matches_refl hD) (u.matches_shift hN (Under.refl hD) hc)
      (branchesMatch_shift hN hD hc rest)

end

/-- What shifts every index shifts under a binder, too. -/
theorem under_shifts {V : Int → Int → Prop} {cutoff : Int} (hc : 0 ≤ cutoff)
    (hV : ∀ i j, V i j → j = shiftedIndex cutoff i) {i j : Int} (hij : Under V i j) :
    j = shiftedIndex (cutoff + 1) i :=
  (under_shiftedIndex_iff hc).1 (hij.mono hV)

mutual

/-- A term matches nothing but its shift if every index is related to nothing but its own. -/
theorem Matches.eq_shift (hN : ∀ x y, C.name x y → x = y) {V D : Int → Int → Prop} {cutoff : Int}
    (hc : 0 ≤ cutoff) (hV : ∀ i j, V i j → j = shiftedIndex cutoff i)
    (hD : ∀ i j, D i j → i = j) {t t' : Term} :
    Term.Matches C V D t t' → t' = t.shift 1 cutoff
  | .univ => rfl
  | .var r => congrArg Term.var (hV _ _ r)
  | .pi n a b => by
    rw [← hN _ _ n, a.eq_shift hN hc hV hD,
      b.eq_shift hN (by omega) (fun _ _ => under_shifts hc hV) hD, shift]
  | .lam n b => by
    rw [← hN _ _ n, b.eq_shift hN (by omega) (fun _ _ => under_shifts hc hV) hD, shift]
  | .app f a => by rw [f.eq_shift hN hc hV hD, a.eq_shift hN hc hV hD, shift]
  | .path a l r => by
    rw [a.eq_shift hN hc hV hD, l.eq_shift hN hc hV hD, r.eq_shift hN hc hV hD, shift]
  | .pathLam n b => by
    rw [← hN _ _ n, b.eq_shift hN hc hV fun _ _ => Under.eq hD, shift]
  | .pathApp p d => by rw [p.eq_shift hN hc hV hD, ← d.eq hD, shift]
  | .smoothPath a l r => by
    rw [a.eq_shift hN hc hV hD, l.eq_shift hN hc hV hD, r.eq_shift hN hc hV hD, shift]
  | .comp s t a fs b => by
    rw [← s.eq hD, ← t.eq hD, a.eq_shift hN hc hV fun _ _ => Under.eq hD,
      fs.eq_shift hN hc hV hD, b.eq_shift hN hc hV hD, shift]
  | .coe s t a b => by
    rw [← s.eq hD, ← t.eq hD, a.eq_shift hN hc hV fun _ _ => Under.eq hD,
      b.eq_shift hN hc hV hD, shift]
  | .hcomp a fs b => by
    rw [a.eq_shift hN hc hV hD, fs.eq_shift hN hc hV hD, b.eq_shift hN hc hV hD, shift]
  | .missing => rfl

/-- A system that matches by shifted indices, under the same names, is the system shifted. -/
theorem BranchesMatch.eq_shift (hN : ∀ x y, C.name x y → x = y) {V D : Int → Int → Prop}
    {cutoff : Int} (hc : 0 ≤ cutoff) (hV : ∀ i j, V i j → j = shiftedIndex cutoff i)
    (hD : ∀ i j, D i j → i = j) {fs fs' : List (Face × Term)} :
    Term.BranchesMatch C V D fs fs' → fs' = shiftBranches 1 cutoff fs
  | .nil => rfl
  | .cons φ u rest => by
    rw [← φ.eq hD, u.eq_shift hN hc hV fun _ _ => Under.eq hD, rest.eq_shift hN hc hV hD,
      shiftBranches]

end

mutual

/-- Nothing is missing in a term that is normal in shape. -/
theorem isWhole_of_isNormal : ∀ {t : Term} {depth count : Nat},
    t.isNormal depth count = true → t.isWhole = true
  | .univ _, _, _, _ => rfl
  | .var _, _, _, _ => rfl
  | .pi _ _ _, _, _, h => by
    simp only [isNormal, Bool.and_eq_true] at h
    simp [isWhole, isWhole_of_isNormal h.1, isWhole_of_isNormal h.2]
  | .lam _ b, _, _, h => by
    simp only [isNormal] at h
    exact isWhole_of_isNormal (t := b) h
  | .app _ _, _, _, h => by
    simp only [isNormal, Bool.and_eq_true] at h
    simp [isWhole, isWhole_of_isNormal h.1.2, isWhole_of_isNormal h.2]
  | .path _ _ _, _, _, h => by
    simp only [isNormal, Bool.and_eq_true] at h
    simp [isWhole, isWhole_of_isNormal h.1.1, isWhole_of_isNormal h.1.2, isWhole_of_isNormal h.2]
  | .pathLam _ b, _, _, h => by
    simp only [isNormal] at h
    exact isWhole_of_isNormal (t := b) h
  | .pathApp _ _, _, _, h => by
    simp only [isNormal, Bool.and_eq_true] at h
    simp [isWhole, isWhole_of_isNormal h.1.2]
  | .smoothPath _ _ _ _, _, _, h => by
    simp only [isNormal, Bool.and_eq_true] at h
    simp [isWhole, isWhole_of_isNormal h.1.1, isWhole_of_isNormal h.1.2, isWhole_of_isNormal h.2]
  | .comp _ _ _ _ _, _, _, h => by
    simp only [isNormal, Bool.and_eq_true] at h
    simp [isWhole, isWhole_of_isNormal h.1.1.2, wholeBranches_of_normalBranches h.1.2,
      isWhole_of_isNormal h.2]
  | .coe _ _ _ _, _, _, h => by
    simp only [isNormal, Bool.and_eq_true] at h
    simp [isWhole, isWhole_of_isNormal h.1.2, isWhole_of_isNormal h.2]

/-- A system that is normal in shape is whole. -/
theorem wholeBranches_of_normalBranches : ∀ {fs : List (Face × Term)} {depth count : Nat},
    normalBranches depth count fs = true → wholeBranches fs = true
  | [], _, _, _ => rfl
  | (_, _) :: _, _, _, h => by
    simp only [normalBranches, Bool.and_eq_true] at h
    simp [wholeBranches, isWhole_of_isNormal h.1, wholeBranches_of_normalBranches h.2]

end

end Term

/-! ## What two runs differ in -/

namespace Correspondence

/-- Levels from `depth` on are one higher in the second run; the others are the same. The runs look
only at the arguments in `known`. -/
def weaken (depth : Int) (known : Nat → Prop) : Correspondence where
  level l l' := l' = shiftedIndex depth l
  name x y := x = y
  unbound _ _ := True
  argument := known
  name_path := rfl
  unbound_refl _ := trivial
  unbound_succ _ := trivial

variable {d : Int} {known : Nat → Prop}

/-- What holds only levels below `depth` is the same in both runs. -/
theorem weaken_extends_below (d : Int) (known : Nat → Prop) :
    (weaken d known).Extends (below d known) where
  level hl := by
    obtain ⟨rfl, hlt⟩ := hl
    exact (if_neg (by omega)).symm
  name hx := hx
  unbound _ := trivial
  argument hid := hid

/-- In a scope with one variable more, the shifted index finds what the index finds. -/
theorem get?_shiftedIndex {α : Type} (a : α) (scope : List α) (i : Int) :
    Index.get? (a :: scope) (shiftedIndex 0 i) = Index.get? scope i := by
  unfold shiftedIndex
  split
  · exact Index.get?_cons_succ a scope (by omega)
  · rw [Index.get?_neg _ (by omega), Index.get?_neg _ (by omega)]

/-- A scope is bound as it is with one variable more, which no index stands for. -/
theorem Bound.skip {α : Type} (a : α) (scope : List α) :
    (weaken d known).Bound (fun i j => j = shiftedIndex 0 i) scope (a :: scope) := by
  rintro i _ rfl
  rw [get?_shiftedIndex]
  exact ⟨rfl, fun _ => trivial⟩

/-- An environment corresponds to itself with one entry more, which no index stands for. -/
theorem Environments.skip {env : Env} (h : (weaken d known).Environments (· = ·) env env)
    {e : Entry} :
    (weaken d known).Environments (fun i j => j = shiftedIndex 0 i) env (e :: env) := by
  refine ⟨fun i j a a' hij ha ha' => ?_, .skip e env⟩
  subst hij
  rw [get?_shiftedIndex, ha] at ha'
  cases ha'
  exact h.entries i i a a rfl ha ha

/-- Values of the second run are read back under one variable more. -/
theorem weaken_reads (hd : 0 ≤ d) : (weaken d known).Reads d (d + 1) where
  fresh n := by
    change d + 1 + n = shiftedIndex d (d + n)
    rw [shiftedIndex, if_pos (by omega)]
    omega
  nonneg_iff {l l'} hl := by
    change l' = shiftedIndex d l at hl
    unfold shiftedIndex at hl
    split at hl <;> omega
  lt_iff {l l'} hl n := by
    change l' = shiftedIndex d l at hl
    unfold shiftedIndex at hl
    split at hl <;> omega
  unbound _ _ := trivial

/-- Read back, the index of a variable of the second run is the shifted one. -/
theorem weaken_indices {i j : Int} (h : (weaken d known).Indices d (d + 1) i j) :
    j = shiftedIndex 0 i := by
  obtain ⟨hi, hj, hl⟩ := h
  change Index.flip (d + 1) j = shiftedIndex d (Index.flip d i) at hl
  unfold shiftedIndex Index.flip at hl
  rw [if_neg (by omega)] at hl
  rw [shiftedIndex, if_pos hi]
  omega

end Correspondence

/-! ## Normalizing a shifted term -/

/-- Two ways to normalize end alike but for one variable that the second has more: with a term and
its shift, or with failures of one kind. What was spent is the same in any case. -/
def EndShifted (x y : EStateM.Result Failure Session Term) : Prop :=
  match x, y with
  | .ok n s, .ok n' s' => n.shift? 1 0 = .ok n' ∧ s.meters = s'.meters
  | .error e s, .error e' s' => e.kind = e'.kind ∧ s.meters = s'.meters
  | _, _ => False

/-- However a context was declared, it was put together by the operations of contexts. -/
theorem Context.Declared.assembled {admits : Context → Declaration → Prop}
    {between : Context → Session → Session → Prop} {ctx : Context} {s : Session}
    (h : ctx.Declared admits between s) : ctx.Assembled := by
  induction h with
  | empty => exact .empty
  | meanwhile _ _ ih => exact ih
  | entry x _ _ _ hadd ih =>
    cases Declaration.added hadd with
    | hypothesis _ => exact .extend _ _ ih
    | definition _ _ => exact .define _ _ _ ih
    | dimension => exact .extendDim ih

/-- Of a term that can be shifted, `shift` is the shift. -/
theorem Term.shift_of_shift? {t t' : Term} {amount cutoff : Int}
    (h : t.shift? amount cutoff = .ok t') : t.shift amount cutoff = t' := by
  unfold Term.shift? at h
  split at h
  · exact Except.ok.inj h
  · contradiction

open Correspondence in
/-- A term that is whole and one that matches it are a term and its shift. -/
theorem Correspondence.Outcomes.endShifted {d : Int} {known : Nat → Prop}
    {x y : EStateM.Result Failure Session Term}
    (h : (weaken d known).Outcomes ((weaken d known).ReadMatch d (d + 1)) x y)
    (hwhole : ∀ n s, x = .ok n s → n.isWhole = true) : EndShifted x y := by
  cases h with
  | error he hs => exact ⟨he.kind_eq, hs.meters⟩
  | ok hmatch hs =>
    have hshift := hmatch.eq_shift (fun _ _ hx => hx) (by omega) (fun _ _ => weaken_indices)
      fun _ _ hij => hij
    refine ⟨?_, hs.meters⟩
    rw [Term.shift?, if_pos (hwhole _ _ rfl), hshift]

open Correspondence in
/-- Weakening. A term, shifted over one more hypothesis of any type, normalizes to the shifted
normal form, or fails as the term does, and takes as many steps. The context may have been declared
in a session in which anything was asked before.

Both runs start from one session. Of two calls that are made one after the other the second may end
otherwise: the closures that the first leaves in kept arguments remember its evaluator. -/
theorem normalize_shift {ctx : Context} {s : Session}
    (hctx : ctx.Declared (fun _ _ => True) Context.Requests s) (x : String) (a : Value)
    {t t' : Term} (ht : t.shift? 1 0 = .ok t') (frames : Nat) (settings : Settings) :
    EndShifted (Kernel.normalize frames settings ctx t s)
      (Kernel.normalize frames settings (ctx.extend x a) t' s) := by
  have hown := hctx.holdsOwn
  have hlarger := weaken_extends_below ctx.depth (ctx.Reaches s)
  obtain rfl := Term.shift_of_shift? ht
  have henv : (weaken ctx.depth (ctx.Reaches s)).Environments (fun i j => j = shiftedIndex 0 i)
      ctx.env (ctx.extend x a).env := .skip (hown.env.extend hlarger)
  have hterm : Term.Matches (weaken ctx.depth (ctx.Reaches s)) (fun i j => j = shiftedIndex 0 i)
      (· = ·) t (t.shift 1 0) := t.matches_shift (fun _ => rfl) (fun _ => rfl) (by omega)
  have hrun := normalize_inStep henv (.refl ctx.dims) (weaken_reads (Int.natCast_nonneg _)) rfl
    hterm frames settings s s (hown.session.extend hlarger id)
  exact hrun.endShifted fun n s₁ hn =>
    Term.isWhole_of_isNormal (normalize_isNormal hctx.assembled hn)

/-- A type `A` and a path `p` from it to itself. -/
def typeWithLoop : List Declaration :=
  [.hypothesis "A" (.univ 0), .hypothesis "p" (.path (.univ 0) (.var 0) (.var 0))]

/-- The constant function `K` with value `A`. -/
def constantFunction : Declaration :=
  .definition "K" (.pi "_" (.var 1) (.univ 0)) (.app (.lam "y" (.lam "_" (.var 1))) (.var 1))

/-- The type of equations in `K z` between `z` moved along `p` and `z`, as a function of `z`. -/
def movedEquation : Term :=
  .lam "z" (.path (.app (.var 1) (.var 0))
    (.coe .zero .one (.pathApp (.var 2) (.var 0)) (.var 0)) (.var 0))

/-- The normal form of `movedEquation`. -/
def movedEquationNormal : Term :=
  .lam "z" (.path (.var 3) (.coe .zero .one (.pathApp (.var 2) (.var 0)) (.var 0)) (.var 0))

/-- The moved equation normalizes under one hypothesis more to its shifted normal form. The value of
`K` comes from the evaluator of `p`, and its argument was put off then and is looked at here. The
equation was normalized before, and left arguments behind that were put off under `z`. -/
theorem normalize_shift_movedEquation :
    ∃ (ctx : Context) (s : Session) (n n' : Term) (s₁ s₂ : Session),
      ctx.Declared (fun _ _ => True) Context.Requests s ∧
      Kernel.normalize 40 .default ctx movedEquation s = .ok n s₁ ∧
      n.same movedEquationNormal = true ∧
      Kernel.normalize 40 .default (ctx.extend "w" (.univ 3)) (movedEquation.shift 1 0) s =
        .ok n' s₂ ∧
      n.shift? 1 0 = .ok n' ∧ s₁.meters = s₂.meters := by
  have hanswer : answer? (do
      let loop ← Declaration.addAll 40 .default typeWithLoop .empty
      let s₀ ← get
      let ctx ← constantFunction.addOn 40 1 loop
      (Request.normalize movedEquation).run 40 .default ctx
      let n ← Kernel.normalize 40 .default ctx movedEquation
      return (n.same movedEquationNormal, decide (1 < s₀.meters.size))) = some (true, true) := by
    decide +kernel
  obtain ⟨s', hrun⟩ := answer?_eq_some hanswer
  obtain ⟨loop, s₀, hloop, hrest⟩ := Run.bind_eq_ok.1 hrun
  obtain ⟨_, _, hget, hrest⟩ := Run.bind_eq_ok.1 hrest
  cases hget
  obtain ⟨ctx, s₁, hadd, hrest⟩ := Run.bind_eq_ok.1 hrest
  obtain ⟨_, s, hrequest, hrest⟩ := Run.bind_eq_ok.1 hrest
  obtain ⟨n, s₂, hn, hsame⟩ := Run.bind_eq_ok.1 hrest
  obtain ⟨hsame, hopen⟩ := Prod.mk.inj (EStateM.Result.ok.inj hsame).1
  have hloop : loop.Declared (fun _ _ => True) Context.Requests s₀ :=
    (Context.Declared.empty .byNeed).addAll (fun _ _ _ => trivial) hloop
  have hctx : ctx.Declared (fun _ _ => True) Context.Requests s :=
    (hloop.addOn trivial (of_decide_eq_true hopen) hadd).meanwhile
      ⟨40, .default, .normalize movedEquation, (Run.after_ok hrequest).symm⟩
  have hmoved : movedEquation.shift? 1 0 = .ok (movedEquation.shift 1 0) := rfl
  have hshift := normalize_shift hctx "w" (.univ 3) hmoved 40 .default
  unfold EndShifted at hshift
  rw [hn] at hshift
  cases hn' : Kernel.normalize 40 .default (ctx.extend "w" (.univ 3))
      (movedEquation.shift 1 0) s with
  | ok n' s₃ =>
    rw [hn'] at hshift
    exact ⟨ctx, s, n, n', s₂, s₃, hctx, hn, hsame, hn', hshift.1, hshift.2⟩
  | error e s₃ =>
    rw [hn'] at hshift
    exact hshift.elim

end SmoothCubical
