import SmoothCubical.Proofs.Lockstep.Terms
import SmoothCubical.Proofs.Scope.Values
import SmoothCubical.Proofs.Stability.Settled

/-!
# Values that are alike

Two runs of the same computation may draw different probes, and an argument that one of them finds
computed the other may have to compute. A `Likeness` says which probes stand for each other and
what was put off under the numbers of arguments, in the one run and in the other. Values are alike
if they are made of the same terms, names and levels, hold points that stand for each other, and
close over arguments for which computations were put off that are alike in turn.

The terms of closures need not be the same if the points are under other indices in the one than in
the other, as they are once a term is moved under a binder that it does not use. And where the first
run evaluates a constant family anew at each point, the second may hold the value of the family
instead.

As long as no probes are in play the points are equal, and so are the faces of compositions.
While the shape of a family is looked at, a face counts only if it is the whole cube: faces that
are not can be left out. Alike values have the same text but for the numbers of probes.
-/

set_option autoImplicit false

namespace SmoothCubical

/-- What two runs on one meter may differ in. -/
structure Likeness where
  meter : MeterId
  /-- What is put off in the first run under the number of an argument. -/
  origin : Nat → Option Suspension
  /-- What is put off in the second run under the number of an argument. -/
  origin' : Nat → Option Suspension
  /-- The probes that stand for each other. -/
  probes : List (Int × Int)
  injective : ∀ p ∈ probes, ∀ q ∈ probes, p.1 = q.1 ↔ p.2 = q.2
  /-- The levels of interval variables that stand for themselves. -/
  fixed : Int → Prop := fun l => 0 ≤ l
  fixed_nonneg : ∀ l, fixed l → 0 ≤ l := by exact fun _ hl => hl
  fixed_of_nonneg : probes = [] → ∀ l, 0 ≤ l → fixed l := by exact fun _ _ hl => hl
  apart : ∀ p ∈ probes, ¬ fixed p.1 ∧ ¬ fixed p.2
  /-- The families that the first run evaluates at each point, with the type that the second holds
  in their place. -/
  steady : IntervalClosure → Value → Prop := fun _ _ => False
  /-- Where one run fails so does the other, but perhaps for another reason. -/
  loose : Prop := False
  /-- Unless the reason of a failure is left open, what stands for a probe is a probe. -/
  negative : ¬ loose → ∀ p ∈ probes, p.1 < 0 ∧ p.2 < 0

namespace Likeness

/-! ## Points -/

/-- No probes are in play. -/
def Exact (L : Likeness) : Prop :=
  L.probes = []

/-- Levels of interval variables that stand for each other. -/
def Level (L : Likeness) (l l' : Int) : Prop :=
  L.fixed l ∧ l = l' ∨ (l, l') ∈ L.probes

/-- Points that stand for each other. -/
inductive Points (L : Likeness) : Interval → Interval → Prop
  | zero : Points L .zero .zero
  | one : Points L .one .one
  | var {l l' : Int} : L.Level l l' → Points L (.var l) (.var l')

/-- Points that are at the same ends, and one point if no probes are in play. -/
def EndPoints (L : Likeness) (r r' : Interval) : Prop :=
  (∀ k, (Cofibration.eq r k).isTrue = (Cofibration.eq r' k).isTrue) ∧ (L.Exact → r = r')

/-- Answers that are so related, or faults. -/
inductive Answers (L : Likeness) {α β : Type} (R : α → β → Prop) :
    Except Fault α → Except Fault β → Prop
  | ok {a : α} {b : β} : R a b → Answers L R (.ok a) (.ok b)
  | error {f f' : Fault} : (¬ L.loose → f = f') → Answers L R (.error f) (.error f')

/-- Interval environments in which related indices have points that stand for each other. -/
def DimsBy (L : Likeness) (D : Int → Int → Prop) (dims dims' : IntervalEnv) : Prop :=
  ∀ i j, D i j → L.Answers L.Points (dims.find i) (dims'.find j) ∧
    L.Answers L.EndPoints (Face.point dims i) (Face.point dims' j)

/-- Interval environments that stand for each other point by point. -/
abbrev Dims (L : Likeness) : IntervalEnv → IntervalEnv → Prop :=
  L.DimsBy fun i j => i = j

/-- Terms that differ only in the indices of interval variables. -/
abbrev Terms (D : Int → Int → Prop) : Term → Term → Prop :=
  Term.Matches .same (fun i j => i = j) D

/-- Every term is like itself. -/
theorem Terms.refl (t : Term) : Terms (fun i j => i = j) t t :=
  t.matches_same (fun _ => rfl) fun _ => rfl

variable {L L' : Likeness}

/-- Two levels are the same if and only if those that stand for them are. -/
theorem Level.eq_iff {l l' k k' : Int} (h : L.Level l l') (hk : L.Level k k') :
    l = k ↔ l' = k' := by
  rcases h with ⟨hl, rfl⟩ | h <;> rcases hk with ⟨hk, rfl⟩ | hk
  · rfl
  · have hapart := L.apart _ hk
    exact ⟨fun heq => (hapart.1 (heq ▸ hl)).elim, fun heq => (hapart.2 (heq ▸ hl)).elim⟩
  · have hapart := L.apart _ h
    exact ⟨fun heq => (hapart.1 (heq ▸ hk)).elim, fun heq => (hapart.2 (heq ▸ hk)).elim⟩
  · exact L.injective _ h _ hk

/-- A level stands for itself, or a probe for a probe. -/
theorem Level.sign {l l' : Int} (h : L.Level l l') (hL : ¬ L.loose) :
    l = l' ∨ l < 0 ∧ l' < 0 := by
  rcases h with h | h
  · exact .inl h.2
  · exact .inr (L.negative hL _ h)

/-- Two points are the same if and only if those that stand for them are. -/
theorem Points.eq_iff {r r' t t' : Interval} (h : L.Points r r') (ht : L.Points t t') :
    r = t ↔ r' = t' := by
  cases h <;> cases ht <;> simp
  case var.var h _ _ ht => exact h.eq_iff ht

/-- Where no probes are in play, points stand for themselves only. -/
theorem Points.eq {r r' : Interval} (h : L.Points r r') (hL : L.Exact) : r = r' := by
  cases h with
  | zero => rfl
  | one => rfl
  | var h =>
    rcases h with ⟨_, rfl⟩ | h
    · rfl
    · rw [hL] at h
      cases h

/-- A point that stands for another is at the same ends. -/
theorem Points.isTrue_eq {r r' : Interval} (h : L.Points r r') (endpoint : Int) :
    (Cofibration.eq r endpoint).isTrue = (Cofibration.eq r' endpoint).isTrue := by
  cases h <;> rfl

/-- Points that stand for each other are at the same ends. -/
theorem Points.ends {r r' : Interval} (h : L.Points r r') : L.EndPoints r r' :=
  ⟨h.isTrue_eq, h.eq⟩

/-- A point is at the same ends as itself. -/
theorem EndPoints.refl (r : Interval) : L.EndPoints r r :=
  ⟨fun _ => rfl, fun _ => rfl⟩

/-- An answer is like itself if what it may hold is. -/
theorem Answers.refl {α : Type} {R : α → α → Prop} (hR : ∀ a, R a a) (x : Except Fault α) :
    L.Answers R x x := by
  cases x with
  | ok a => exact .ok (hR a)
  | error f => exact .error fun _ => rfl

/-- Under a binder an index finds what it found outside. -/
theorem find_succ {dims dims' : IntervalEnv} {i j : Int} (hi : 0 ≤ i) (hj : 0 ≤ j)
    (r r' : Interval) (h : L.Answers L.Points (dims.find i) (dims'.find j)) :
    L.Answers L.Points (IntervalEnv.find (r :: dims) (i + 1))
      (IntervalEnv.find (r' :: dims') (j + 1)) := by
  unfold IntervalEnv.find at h ⊢
  rw [Index.get?_cons_succ r dims hi, Index.get?_cons_succ r' dims' hj]
  cases hd : Index.get? dims i <;> cases hd' : Index.get? dims' j <;> rw [hd, hd'] at h <;>
    cases h
  case none.none.error hf =>
    refine .error fun hL => ?_
    cases hf hL
    rfl
  case some.some.ok hr => exact .ok hr

open Correspondence (find_neg point_neg point_cons_zero point_cons_succ)

/-- Environments that stand for each other still do with one more pair of points. -/
theorem DimsBy.cons {D : Int → Int → Prop} {dims dims' : IntervalEnv} (h : L.DimsBy D dims dims')
    {r r' : Interval} (hr : L.Points r r') :
    L.DimsBy (Under D) (r :: dims) (r' :: dims') := by
  intro i j hij
  cases hij with
  | nearest =>
    rw [point_cons_zero, point_cons_zero]
    exact ⟨.ok hr, .ok hr.ends⟩
  | outer hi hj hd =>
    rw [point_cons_succ r dims hi, point_cons_succ r' dims' hj]
    exact ⟨find_succ hi hj r r' (h _ _ hd).1, (h _ _ hd).2⟩
  | negative hi hj hd =>
    have hf := (h _ _ hd).1
    rw [find_neg dims hi, find_neg dims' hj] at hf
    rw [find_neg _ hi, find_neg _ hj, point_neg _ hi, point_neg _ hj]
    cases hf with
    | error hf => exact ⟨.error hf, .error hf⟩

/-- Where no probes are in play, an interval variable in scope stands for itself. -/
theorem points_nonneg (hL : L.Exact) {l : Int} (hl : 0 ≤ l) : L.Points (.var l) (.var l) :=
  .var (.inl ⟨L.fixed_of_nonneg hL l hl, rfl⟩)

/-- A point on levels that stand for themselves stands for itself. -/
theorem points_refl {point : Int → Prop} (hpoint : ∀ l, point l → L.fixed l) {r : Interval}
    (hr : r.On point) : L.Points r r := by
  cases r with
  | zero => exact .zero
  | one => exact .one
  | var l => exact .var (.inl ⟨hpoint l hr, rfl⟩)

/-! ## Values -/

mutual

/-- Values that are alike. -/
inductive Values (L : Likeness) : Value → Value → Prop
  | univ {level : Int} : Values L (.univ level) (.univ level)
  | pi {x : String} {a a' : Value} {b b' : Closure} :
      Values L a a' → Closures L b b' → Values L (.pi x a b) (.pi x a' b')
  | lam {x : String} {b b' : Closure} : Closures L b b' → Values L (.lam x b) (.lam x b')
  | path {a a' l l' r r' : Value} :
      Values L a a' → Values L l l' → Values L r r' → Values L (.path a l r) (.path a' l' r')
  | smoothPath {order : Int} {a a' l l' r r' : Value} :
      Values L a a' → Values L l l' → Values L r r' →
        Values L (.smoothPath order a l r) (.smoothPath order a' l' r')
  | pathLam {x : String} {b b' : IntervalClosure} :
      IntervalClosures L b b' → Values L (.pathLam x b) (.pathLam x b')
  | untyped {n n' : Neutral} : Neutrals L n n' → Values L (.stuck n none) (.stuck n' none)
  | typed {n n' : Neutral} {a a' : Value} :
      Neutrals L n n' → Values L a a' → Values L (.stuck n (some a)) (.stuck n' (some a'))

/-- Stuck computations that are alike. -/
inductive Neutrals (L : Likeness) : Neutral → Neutral → Prop
  | var {level : Int} : Neutrals L (.var level) (.var level)
  | app {n n' : Neutral} {v v' : Value} :
      Neutrals L n n' → Values L v v' → Neutrals L (.app n v) (.app n' v')
  | pathApp {n n' : Neutral} {r r' : Interval} :
      Neutrals L n n' → L.Points r r' → Neutrals L (.pathApp n r) (.pathApp n' r')
  | comp {s s' t t' : Interval} {a a' : Line} {faces faces' : List Tube} {v v' : Value} :
      L.Points s s' → L.Points t t' → Lines L a a' → Tubes L faces faces' → Values L v v' →
        Neutrals L (.comp s t a faces v) (.comp s' t' a' faces' v')
  | coe {s s' t t' : Interval} {a a' : Line} {v v' : Value} :
      L.Points s s' → L.Points t t' → Lines L a a' → Values L v v' →
        Neutrals L (.coe s t a v) (.coe s' t' a' v')

/-- Bodies of abstractions that are alike. -/
inductive Closures (L : Likeness) : Closure → Closure → Prop
  | body {env env' : Env} {dims dims' : IntervalEnv} {D : Int → Int → Prop} {t t' : Term} :
      Environments L env env' → L.DimsBy D dims dims' → Terms D t t' →
        Closures L (.body env dims t) (.body env' dims' t')
  | comp {s s' t t' : Interval} {a a' : Line} {faces faces' : List Tube} {v v' : Value} :
      L.Points s s' → L.Points t t' → Lines L a a' → Tubes L faces faces' → Values L v v' →
        Closures L (.comp L.meter s t a faces v) (.comp L.meter s' t' a' faces' v')
  | coe {s s' t t' : Interval} {a a' : Line} {v v' : Value} :
      L.Points s s' → L.Points t t' → Lines L a a' → Values L v v' →
        Closures L (.coe L.meter s t a v) (.coe L.meter s' t' a' v')

/-- Bodies of interval abstractions that are alike. -/
inductive IntervalClosures (L : Likeness) : IntervalClosure → IntervalClosure → Prop
  | body {env env' : Env} {dims dims' : IntervalEnv} {D : Int → Int → Prop} {t t' : Term} :
      Environments L env env' → L.DimsBy D dims dims' → Terms (Under D) t t' →
        IntervalClosures L (.body env dims t) (.body env' dims' t')
  | choice {u u' v v' w w' : Value} :
      Values L u u' → Values L v v' → Values L w w' →
        IntervalClosures L (.choice u v w) (.choice u' v' w')
  | domain {a a' : Line} :
      Lines L a a' → IntervalClosures L (.domain L.meter a) (.domain L.meter a')
  | codomain {a a' : Line} {y y' : Carried} :
      Lines L a a' → Carrieds L y y' →
        IntervalClosures L (.codomain L.meter a y) (.codomain L.meter a' y')
  | element {a a' : Line} :
      Lines L a a' → IntervalClosures L (.element L.meter a) (.element L.meter a')
  | left {a a' : Line} :
      Lines L a a' → IntervalClosures L (.left L.meter a) (.left L.meter a')
  | right {a a' : Line} :
      Lines L a a' → IntervalClosures L (.right L.meter a) (.right L.meter a')
  | app {u u' : IntervalClosure} {y y' : Carried} :
      IntervalClosures L u u' → Carrieds L y y' →
        IntervalClosures L (.app L.meter u y) (.app L.meter u' y')
  | pathApp {u u' : IntervalClosure} {r r' : Interval} :
      IntervalClosures L u u' → L.Points r r' →
        IntervalClosures L (.pathApp L.meter u r) (.pathApp L.meter u' r')
  | comp {s s' t t' : Interval} {a a' : Line} {faces faces' : List Tube} {v v' : Value} :
      L.Points s s' → L.Points t t' → Lines L a a' → Tubes L faces faces' → Values L v v' →
        IntervalClosures L (.comp L.meter s t a faces v) (.comp L.meter s' t' a' faces' v')

/-- Moved arguments that are alike. -/
inductive Carrieds (L : Likeness) : Carried → Carried → Prop
  | mk {d d' : Line} {r r' : Interval} {v v' : Value} :
      Lines L d d' → L.Points r r' → Values L v v' → Carrieds L (.mk d r v) (.mk d' r' v')

/-- Families that are alike. -/
inductive Lines (L : Likeness) : Line → Line → Prop
  | varying {c c' : IntervalClosure} {flag : Bool} :
      IntervalClosures L c c' → Lines L (.varying c flag) (.varying c' flag)
  | constant {a a' : Value} : Values L a a' → Lines L (.constant a) (.constant a')
  | steady {c : IntervalClosure} {a : Value} :
      L.steady c a → Lines L (.varying c true) (.constant a)

/-- Entries that are alike. Arguments are if the computations are that were put off, whether or not
they were run since. -/
inductive Entries (L : Likeness) : Entry → Entry → Prop
  | value {v v' : Value} : Values L v v' → Entries L (.value v) (.value v')
  | thunk {id id' : Nat} {nests : Bool} {D : Int → Int → Prop} {t t' : Term} {env env' : Env}
      {dims dims' : IntervalEnv} :
      L.origin id = some ⟨L.meter, nests, t, env, dims⟩ →
        L.origin' id' = some ⟨L.meter, nests, t', env', dims'⟩ →
        Environments L env env' → L.DimsBy D dims dims' → Terms D t t' →
        Entries L (.thunk id) (.thunk id')

/-- Environments that are alike entry by entry. -/
inductive Environments (L : Likeness) : Env → Env → Prop
  | nil : Environments L [] []
  | cons {e e' : Entry} {env env' : Env} :
      Entries L e e' → Environments L env env' → Environments L (e :: env) (e' :: env')

/-- Partial elements that are alike. Where probes are in play, those that are not given everywhere
may be left out on either side. -/
inductive Tubes (L : Likeness) : List Tube → List Tube → Prop
  | nil : Tubes L [] []
  | cons {φ φ' : Cofibration} {u u' : IntervalClosure} {fs fs' : List Tube} :
      φ.isTrue = φ'.isTrue → (L.Exact → φ = φ') → IntervalClosures L u u' → Tubes L fs fs' →
        Tubes L ((φ, u) :: fs) ((φ', u') :: fs')
  | skip {φ : Cofibration} {u : IntervalClosure} {fs fs' : List Tube} :
      ¬ L.Exact → φ.isTrue = false → Tubes L fs fs' → Tubes L ((φ, u) :: fs) fs'
  | skip' {φ : Cofibration} {u : IntervalClosure} {fs fs' : List Tube} :
      ¬ L.Exact → φ.isTrue = false → Tubes L fs fs' → Tubes L fs ((φ, u) :: fs')

end

/-- Demands that are alike. -/
inductive Demands (L : Likeness) : Demand → Demand → Prop
  | evaluate {nests : Bool} {D : Int → Int → Prop} {t t' : Term} {env env' : Env}
      {dims dims' : IntervalEnv} :
      L.Environments env env' → L.DimsBy D dims dims' → Terms D t t' →
        Demands L (.evaluate nests t env dims) (.evaluate nests t' env' dims')
  | instantiate {c c' : Closure} {e e' : Entry} :
      L.Closures c c' → L.Entries e e' → Demands L (.instantiate c e) (.instantiate c' e')
  | instantiateAt {c c' : IntervalClosure} {r r' : Interval} :
      L.IntervalClosures c c' → L.Points r r' →
        Demands L (.instantiateAt c r) (.instantiateAt c' r')
  | comp {s s' t t' : Interval} {a a' : Line} {faces faces' : List Tube} {v v' : Value} :
      L.Points s s' → L.Points t t' → L.Lines a a' → L.Tubes faces faces' → L.Values v v' →
        Demands L (.comp s t a faces v) (.comp s' t' a' faces' v')
  | coe {s s' t t' : Interval} {a a' : Line} {v v' : Value} :
      L.Points s s' → L.Points t t' → L.Lines a a' → L.Values v v' →
        Demands L (.coe s t a v) (.coe s' t' a' v')

/-! ## Larger likenesses -/

/-- Whatever is alike by the first likeness is so by the second. -/
structure Le (L L' : Likeness) : Prop where
  meter : L.meter = L'.meter
  origin : ∀ {id x}, L.origin id = some x → L'.origin id = some x
  origin' : ∀ {id x}, L.origin' id = some x → L'.origin' id = some x
  probes : L.probes ⊆ L'.probes
  fixed : ∀ {l}, L.fixed l → L'.fixed l
  steady : ∀ {c a}, L.steady c a → L'.steady c a
  loose : L.loose → L'.loose

/-- If no probes are in play by the larger likeness, none are by the smaller. -/
theorem Le.exact (hle : L.Le L') (h : L'.Exact) : L.Exact := by
  have hsub := hle.probes
  rw [Exact] at h
  rw [h] at hsub
  exact List.subset_nil.1 hsub

/-- The likeness with one more pair of probes in play. -/
def insert (L : Likeness) (p p' : Int) (hp : p < 0) (hp' : p' < 0)
    (hfresh : ∀ q ∈ L.probes, q.1 ≠ p ∧ q.2 ≠ p') : Likeness :=
  { L with
    probes := (p, p') :: L.probes
    fixed_of_nonneg := nofun
    apart := by
      refine List.forall_mem_cons.2 ⟨⟨fun hfixed => ?_, fun hfixed => ?_⟩, L.apart⟩
      · exact Int.not_lt.2 (L.fixed_nonneg p hfixed) hp
      · exact Int.not_lt.2 (L.fixed_nonneg p' hfixed) hp'
    negative := fun hL => List.forall_mem_cons.2 ⟨⟨hp, hp'⟩, L.negative hL⟩
    injective := by
      intro q hq r hr
      rcases List.mem_cons.1 hq with rfl | hq <;> rcases List.mem_cons.1 hr with rfl | hr
      · simp
      · exact ⟨fun h => ((hfresh r hr).1 h.symm).elim, fun h => ((hfresh r hr).2 h.symm).elim⟩
      · exact ⟨fun h => ((hfresh q hq).1 h).elim, fun h => ((hfresh q hq).2 h).elim⟩
      · exact L.injective q hq r hr }

/-- A likeness is within the one that has another pair of probes. -/
theorem le_insert {p p' : Int} (hp : p < 0) (hp' : p' < 0)
    (hfresh : ∀ q ∈ L.probes, q.1 ≠ p ∧ q.2 ≠ p') : L.Le (L.insert p p' hp hp' hfresh) :=
  ⟨rfl, id, id, List.subset_cons_self _ _, id, id, id⟩

/-- Levels that stand for each other still do by a larger likeness. -/
theorem Level.mono (hle : L.Le L') {l l' : Int} (h : L.Level l l') : L'.Level l l' :=
  h.imp (fun hl => ⟨hle.fixed hl.1, hl.2⟩) fun hp => hle.probes hp

/-- Points that stand for each other still do by a larger likeness. -/
theorem Points.mono (hle : L.Le L') {r r' : Interval} (h : L.Points r r') : L'.Points r r' := by
  cases h with
  | zero => exact .zero
  | one => exact .one
  | var hl => exact .var (hl.mono hle)

/-- Answers that are alike still are by a larger likeness. -/
theorem Answers.mono (hle : L.Le L') {α β : Type} {R R' : α → β → Prop} {x : Except Fault α}
    {y : Except Fault β} (h : L.Answers R x y) (hR : ∀ a b, R a b → R' a b) :
    L'.Answers R' x y := by
  cases h with
  | ok hab => exact .ok (hR _ _ hab)
  | error hf => exact .error fun hL => hf (mt hle.loose hL)

/-- Interval environments that are alike still are by a larger likeness. -/
theorem DimsBy.mono (hle : L.Le L') {D : Int → Int → Prop} {dims dims' : IntervalEnv}
    (h : L.DimsBy D dims dims') : L'.DimsBy D dims dims' := by
  intro i j hij
  obtain ⟨hfind, hpoint⟩ := h i j hij
  refine ⟨hfind.mono hle fun _ _ hr => hr.mono hle, hpoint.mono hle fun _ _ hr => ⟨hr.1, ?_⟩⟩
  exact fun hL => hr.2 (hle.exact hL)

mutual

/-- Values that are alike still are by a larger likeness. -/
theorem Values.mono (hle : L.Le L') {v v' : Value} : L.Values v v' → L'.Values v v'
  | .univ => .univ
  | .pi a b => .pi (a.mono hle) (b.mono hle)
  | .lam b => .lam (b.mono hle)
  | .path a l r => .path (a.mono hle) (l.mono hle) (r.mono hle)
  | .smoothPath a l r => .smoothPath (a.mono hle) (l.mono hle) (r.mono hle)
  | .pathLam b => .pathLam (b.mono hle)
  | .untyped n => .untyped (n.mono hle)
  | .typed n a => .typed (n.mono hle) (a.mono hle)

/-- Stuck computations that are alike still are by a larger likeness. -/
theorem Neutrals.mono (hle : L.Le L') {n n' : Neutral} : L.Neutrals n n' → L'.Neutrals n n'
  | .var => .var
  | .app n v => .app (n.mono hle) (v.mono hle)
  | .pathApp n r => .pathApp (n.mono hle) (r.mono hle)
  | .comp s t a fs v =>
    .comp (s.mono hle) (t.mono hle) (a.mono hle) (fs.mono hle) (v.mono hle)
  | .coe s t a v => .coe (s.mono hle) (t.mono hle) (a.mono hle) (v.mono hle)

/-- Bodies of abstractions that are alike still are by a larger likeness. -/
theorem Closures.mono (hle : L.Le L') {c c' : Closure} : L.Closures c c' → L'.Closures c c'
  | .body env dims t => .body (env.mono hle) (dims.mono hle) t
  | .comp s t a fs v => by
    rw [hle.meter]
    exact .comp (s.mono hle) (t.mono hle) (a.mono hle) (fs.mono hle) (v.mono hle)
  | .coe s t a v => by
    rw [hle.meter]
    exact .coe (s.mono hle) (t.mono hle) (a.mono hle) (v.mono hle)

/-- Bodies of interval abstractions that are alike still are by a larger likeness. -/
theorem IntervalClosures.mono (hle : L.Le L') {c c' : IntervalClosure} :
    L.IntervalClosures c c' → L'.IntervalClosures c c'
  | .body env dims t => .body (env.mono hle) (dims.mono hle) t
  | .choice u v w => .choice (u.mono hle) (v.mono hle) (w.mono hle)
  | .domain a => hle.meter ▸ .domain (a.mono hle)
  | .codomain a y => hle.meter ▸ .codomain (a.mono hle) (y.mono hle)
  | .element a => hle.meter ▸ .element (a.mono hle)
  | .left a => hle.meter ▸ .left (a.mono hle)
  | .right a => hle.meter ▸ .right (a.mono hle)
  | .app u y => hle.meter ▸ .app (u.mono hle) (y.mono hle)
  | .pathApp u r => hle.meter ▸ .pathApp (u.mono hle) (r.mono hle)
  | .comp s t a fs v => by
    rw [hle.meter]
    exact .comp (s.mono hle) (t.mono hle) (a.mono hle) (fs.mono hle) (v.mono hle)

/-- Moved arguments that are alike still are by a larger likeness. -/
theorem Carrieds.mono (hle : L.Le L') {y y' : Carried} : L.Carrieds y y' → L'.Carrieds y y'
  | .mk d r v => .mk (d.mono hle) (r.mono hle) (v.mono hle)

/-- Families that are alike still are by a larger likeness. -/
theorem Lines.mono (hle : L.Le L') {a a' : Line} : L.Lines a a' → L'.Lines a a'
  | .varying c => .varying (c.mono hle)
  | .constant a => .constant (a.mono hle)
  | .steady h => .steady (hle.steady h)

/-- Entries that are alike still are by a larger likeness. -/
theorem Entries.mono (hle : L.Le L') {e e' : Entry} : L.Entries e e' → L'.Entries e e'
  | .value v => .value (v.mono hle)
  | .thunk hid hid' env dims t =>
    .thunk (hle.meter ▸ hle.origin hid) (hle.meter ▸ hle.origin' hid') (env.mono hle)
      (dims.mono hle) t

/-- Environments that are alike still are by a larger likeness. -/
theorem Environments.mono (hle : L.Le L') {env env' : Env} :
    L.Environments env env' → L'.Environments env env'
  | .nil => .nil
  | .cons e env => .cons (e.mono hle) (env.mono hle)

/-- Partial elements that are alike still are by a larger likeness. -/
theorem Tubes.mono (hle : L.Le L') {fs fs' : List Tube} : L.Tubes fs fs' → L'.Tubes fs fs'
  | .nil => .nil
  | .cons htrue heq u fs =>
    .cons htrue (fun h => heq (hle.exact h)) (u.mono hle) (fs.mono hle)
  | .skip hL hφ fs => .skip (fun h => hL (hle.exact h)) hφ (fs.mono hle)
  | .skip' hL hφ fs => .skip' (fun h => hL (hle.exact h)) hφ (fs.mono hle)

end

/-! ## What is alike to itself -/

/-- What is in the scope is held by both runs. -/
structure Holds (L : Likeness) (S : Scope) : Prop where
  meter : ∀ {m}, S.meter m → m = L.meter
  point : ∀ l, S.point l → L.fixed l
  origin : ∀ {id x}, S.origin id = some x → L.origin id = some x
  origin' : ∀ {id x}, S.origin id = some x → L.origin' id = some x

/-- An interval environment on levels that stand for themselves is like itself. -/
theorem Dims.refl {point : Int → Prop} (hpoint : ∀ l, point l → L.fixed l) {dims : IntervalEnv}
    (hdims : ∀ r ∈ dims, r.On point) : L.Dims dims dims := by
  rintro i _ rfl
  refine ⟨?_, .refl .refl _⟩
  unfold IntervalEnv.find
  cases hn : Index.get? dims i with
  | none => exact .error fun _ => rfl
  | some r =>
    unfold Index.get? at hn
    split at hn
    · cases hn
    · exact .ok (points_refl hpoint (hdims r (List.mem_of_getElem? hn)))

/-- An environment is like itself if its entries are. -/
theorem Environments.refl {env : Env} (h : ∀ e ∈ env, L.Entries e e) : L.Environments env env := by
  induction env with
  | nil => exact .nil
  | cons e env ih =>
    apply Environments.cons
    · exact h e List.mem_cons_self
    · exact ih fun e' he' => h e' (List.mem_cons_of_mem e he')

/-- Partial elements are like themselves if their bodies are. -/
theorem Tubes.refl {fs : List Tube} (h : ∀ face ∈ fs, L.IntervalClosures face.2 face.2) :
    L.Tubes fs fs := by
  induction fs with
  | nil => exact .nil
  | cons face fs ih =>
    apply Tubes.cons rfl fun _ => rfl
    · exact h face List.mem_cons_self
    · exact ih fun face' hface' => h face' (List.mem_cons_of_mem face hface')

end Likeness

section Reflexivity

variable {L : Likeness} {S : Scope}

mutual

/-- A value in a scope that both runs hold is like itself. -/
theorem Value.In.alike (h : L.Holds S) {v : Value} : v.In S → L.Values v v
  | .univ => .univ
  | .pi a b => .pi (a.alike h) (b.alike h)
  | .lam b => .lam (b.alike h)
  | .path a l r => .path (a.alike h) (l.alike h) (r.alike h)
  | .smoothPath a l r => .smoothPath (a.alike h) (l.alike h) (r.alike h)
  | .pathLam b => .pathLam (b.alike h)
  | .untyped n => .untyped (n.alike h)
  | .typed n a => .typed (n.alike h) (a.alike h)

/-- A stuck computation in a scope that both runs hold is like itself. -/
theorem Neutral.In.alike (h : L.Holds S) {n : Neutral} : n.In S → L.Neutrals n n
  | .var _ => .var
  | .app n v => .app (n.alike h) (v.alike h)
  | .pathApp n r => .pathApp (n.alike h) (Likeness.points_refl h.point r)
  | .comp s t a _ us v =>
    .comp (Likeness.points_refl h.point s) (Likeness.points_refl h.point t) (a.alike h)
      (.refl fun face hface => (us face hface).alike h) (v.alike h)
  | .coe s t a v =>
    .coe (Likeness.points_refl h.point s) (Likeness.points_refl h.point t) (a.alike h) (v.alike h)

/-- The body of an abstraction in a scope that both runs hold is like itself. -/
theorem Closure.In.alike (h : L.Holds S) {c : Closure} : c.In S → L.Closures c c
  | .body (t := t) es rs _ =>
    .body (.refl fun e he => (es e he).alike h) (Likeness.Dims.refl h.point rs)
      (.refl t)
  | .comp hm s t a _ us v => by
    rw [h.meter hm]
    exact .comp (Likeness.points_refl h.point s) (Likeness.points_refl h.point t) (a.alike h)
      (.refl fun face hface => (us face hface).alike h) (v.alike h)
  | .coe hm s t a v => by
    rw [h.meter hm]
    exact .coe (Likeness.points_refl h.point s) (Likeness.points_refl h.point t) (a.alike h)
      (v.alike h)

/-- The body of an interval abstraction in a scope that both runs hold is like itself. -/
theorem IntervalClosure.In.alike (h : L.Holds S) {c : IntervalClosure} :
    c.In S → L.IntervalClosures c c
  | .body (t := t) es rs _ =>
    .body (.refl fun e he => (es e he).alike h) (Likeness.Dims.refl h.point rs)
      (t.matches_same (fun _ => rfl) (Under.refl fun _ => rfl))
  | .choice u v w => .choice (u.alike h) (v.alike h) (w.alike h)
  | .domain hm a => h.meter hm ▸ .domain (a.alike h)
  | .codomain hm a y => h.meter hm ▸ .codomain (a.alike h) (y.alike h)
  | .element hm a => h.meter hm ▸ .element (a.alike h)
  | .left hm a => h.meter hm ▸ .left (a.alike h)
  | .right hm a => h.meter hm ▸ .right (a.alike h)
  | .app hm u y => h.meter hm ▸ .app (u.alike h) (y.alike h)
  | .pathApp hm u r => h.meter hm ▸ .pathApp (u.alike h) (Likeness.points_refl h.point r)
  | .comp hm s t a _ us v => by
    rw [h.meter hm]
    exact .comp (Likeness.points_refl h.point s) (Likeness.points_refl h.point t) (a.alike h)
      (.refl fun face hface => (us face hface).alike h) (v.alike h)

/-- A moved argument in a scope that both runs hold is like itself. -/
theorem Carried.In.alike (h : L.Holds S) {y : Carried} : y.In S → L.Carrieds y y
  | .mk d r v => .mk (d.alike h) (Likeness.points_refl h.point r) (v.alike h)

/-- A family in a scope that both runs hold is like itself. -/
theorem Line.In.alike (h : L.Holds S) {a : Line} : a.In S → L.Lines a a
  | .varying c => .varying (c.alike h)
  | .constant a => .constant (a.alike h)

/-- An entry in a scope that both runs hold is like itself: under its number, both have put off the
same. -/
theorem Entry.In.alike (h : L.Holds S) {e : Entry} : e.In S → L.Entries e e
  | .value v => .value (v.alike h)
  | @Entry.In.thunk _ _ x hid hm es rs _ => by
    have hx : x = ⟨L.meter, x.nests, x.term, x.env, x.dims⟩ := by rw [← h.meter hm]
    rw [hx] at hid
    exact .thunk (h.origin hid) (h.origin' hid) (.refl fun e he => (es e he).alike h)
      (Likeness.Dims.refl h.point rs) (.refl x.term)

end

end Reflexivity

/-! ## Failures that are alike -/

/-- The point with the number of a probe left out. -/
def Interval.masked : Interval → Interval
  | .var level => if level < 0 then .var (-1) else .var level
  | r => r

mutual

/-- The value with the numbers of probes left out, as far as it is shown. -/
def Value.masked : Value → Value
  | .univ level => .univ level
  | .pi name domain codomain => .pi name domain.masked codomain
  | .lam name body => .lam name body
  | .path ty left right => .path ty.masked left.masked right.masked
  | .smoothPath order ty left right => .smoothPath order ty.masked left.masked right.masked
  | .pathLam name body => .pathLam name body
  | .stuck neutral ty => .stuck neutral.masked ty

/-- The stuck computation with the numbers of probes left out, as far as it is shown. -/
def Neutral.masked : Neutral → Neutral
  | .var level => .var level
  | .app function argument => .app function.masked argument.masked
  | .pathApp path point => .pathApp path.masked point.masked
  | .comp source target family faces base =>
    .comp source.masked target.masked family faces base.masked
  | .coe source target family base => .coe source.masked target.masked family base.masked

end

/-- The failure with the numbers of probes left out. -/
def Failure.masked : Failure → Failure
  | .notFunctionType ty => .notFunctionType ty.masked
  | .notPathType ty => .notPathType ty.masked
  | .notFunction value => .notFunction value.masked
  | .notPath value point => .notPath value.masked point.masked
  | e => e

/-- Failures of one class, with the same message but for the numbers of probes. -/
def Failure.Alike (e e' : Failure) : Prop :=
  e.kind = e'.kind ∧ e.masked.message = e'.masked.message

/-- A failure is like itself. -/
theorem Failure.Alike.refl (e : Failure) : e.Alike e :=
  ⟨rfl, rfl⟩

namespace Likeness

variable {L : Likeness}

/-- Points that stand for each other are the same without the numbers of probes. -/
theorem Points.masked_eq (hL : ¬ L.loose) {r r' : Interval} (h : L.Points r r') :
    r.masked = r'.masked := by
  cases h with
  | zero => rfl
  | one => rfl
  | var h =>
    rcases h.sign hL with rfl | ⟨hl, hl'⟩
    · rfl
    · simp only [Interval.masked, hl, hl', if_true]

mutual

/-- Alike values have the same text but for the numbers of probes. -/
theorem Values.text_masked (hL : ¬ L.loose) {v v' : Value} :
    L.Values v v' → v.masked.text = v'.masked.text
  | .univ => rfl
  | @Values.pi _ x _ _ _ _ a _ => by
    change s!"(({x} : {_}) → ...)" = s!"(({x} : {_}) → ...)"
    rw [a.text_masked hL]
  | .lam _ => rfl
  | .path a l r => by
    change s!"Path {_} {_} {_}" = s!"Path {_} {_} {_}"
    rw [a.text_masked hL, l.text_masked hL, r.text_masked hL]
  | @Values.smoothPath _ order _ _ _ _ _ _ a l r => by
    change s!"SmoothPath^{order} {_} {_} {_}" = s!"SmoothPath^{order} {_} {_} {_}"
    rw [a.text_masked hL, l.text_masked hL, r.text_masked hL]
  | .pathLam _ => rfl
  | .untyped n => n.text_masked hL
  | .typed n _ => n.text_masked hL

/-- Alike stuck computations have the same text but for the numbers of probes. -/
theorem Neutrals.text_masked (hL : ¬ L.loose) {n n' : Neutral} :
    L.Neutrals n n' → n.masked.text = n'.masked.text
  | .var => rfl
  | .app n v => by
    change s!"({_} {_})" = s!"({_} {_})"
    rw [n.text_masked hL, v.text_masked hL]
  | .pathApp n r => by
    change s!"({_} @ {_})" = s!"({_} @ {_})"
    rw [n.text_masked hL, r.masked_eq hL]
  | .comp s t _ _ v => by
    change s!"<comp {_}→{_} {_}>" = s!"<comp {_}→{_} {_}>"
    rw [s.masked_eq hL, t.masked_eq hL, v.text_masked hL]
  | .coe s t _ v => by
    change s!"<coe {_}→{_} {_}>" = s!"<coe {_}→{_} {_}>"
    rw [s.masked_eq hL, t.masked_eq hL, v.text_masked hL]

end

/-- To miss a function type at alike values is to fail alike. -/
theorem Values.notFunctionType {v v' : Value} (h : L.Values v v') (hL : ¬ L.loose) :
    (Failure.notFunctionType v).Alike (.notFunctionType v') := by
  refine ⟨rfl, ?_⟩
  unfold Failure.masked Failure.message
  dsimp only
  rw [h.text_masked hL]

/-- To miss a path type at alike values is to fail alike. -/
theorem Values.notPathType {v v' : Value} (h : L.Values v v') (hL : ¬ L.loose) :
    (Failure.notPathType v).Alike (.notPathType v') := by
  refine ⟨rfl, ?_⟩
  unfold Failure.masked Failure.message
  dsimp only
  rw [h.text_masked hL]

/-- To miss a function at alike values is to fail alike. -/
theorem Values.notFunction {v v' : Value} (h : L.Values v v') (hL : ¬ L.loose) :
    (Failure.notFunction v).Alike (.notFunction v') := by
  refine ⟨rfl, ?_⟩
  unfold Failure.masked Failure.message
  dsimp only
  rw [h.text_masked hL]

/-- To miss a path at alike values and points that stand for each other is to fail alike. -/
theorem Values.notPath {v v' : Value} (h : L.Values v v') {r r' : Interval} (hr : L.Points r r')
    (hL : ¬ L.loose) : (Failure.notPath v r).Alike (.notPath v' r') := by
  refine ⟨rfl, ?_⟩
  unfold Failure.masked Failure.message
  dsimp only
  rw [h.text_masked hL, hr.masked_eq hL]

/-! ## Partial elements -/

/-- What is given nowhere is not given everywhere. -/
theorem isTrue_of_isFalse {φ : Cofibration} (h : φ.isFalse = true) : φ.isTrue = false := by
  unfold Cofibration.isFalse at h
  unfold Cofibration.isTrue
  rw [List.isEmpty_iff.1 h]
  rfl

/-- The first partial element that is given everywhere is on both sides, or on neither. -/
theorem Tubes.firstTrue? {fs fs' : List Tube} : L.Tubes fs fs' →
    Option.Rel L.IntervalClosures (Eval.firstTrue? fs) (Eval.firstTrue? fs')
  | .nil => .none
  | @Tubes.cons _ φ φ' _ _ _ _ htrue _ hu hfs => by
    have ih := hfs.firstTrue?
    unfold Eval.firstTrue?
    rw [htrue]
    cases φ'.isTrue with
    | true => exact .some hu
    | false => exact ih
  | .skip _ hφ hfs => by
    have ih := hfs.firstTrue?
    simpa [Eval.firstTrue?, hφ] using ih
  | .skip' _ hφ hfs => by
    have ih := hfs.firstTrue?
    simpa [Eval.firstTrue?, hφ] using ih

/-- A partial element that is given nowhere is left out of the possible ones. -/
theorem possible_cons_of_isFalse {φ : Cofibration} (h : φ.isFalse = true) (u : IntervalClosure)
    (fs : List Tube) : Eval.possible ((φ, u) :: fs) = Eval.possible fs := by
  simp [Eval.possible, h]

/-- A partial element that is given somewhere is kept among the possible ones. -/
theorem possible_cons {φ : Cofibration} (h : φ.isFalse = false) (u : IntervalClosure)
    (fs : List Tube) : Eval.possible ((φ, u) :: fs) = (φ, u) :: Eval.possible fs := by
  simp [Eval.possible, h]

/-- Partial elements that are given nowhere count for nothing. -/
theorem Tubes.possible {fs fs' : List Tube} :
    L.Tubes fs fs' → L.Tubes (Eval.possible fs) (Eval.possible fs')
  | .nil => .nil
  | @Tubes.cons _ φ φ' u u' fs fs' htrue heq hu hfs => by
    have ih := hfs.possible
    by_cases hL : L.Exact
    · obtain rfl := heq hL
      cases hφ : φ.isFalse with
      | true => rwa [possible_cons_of_isFalse hφ, possible_cons_of_isFalse hφ]
      | false =>
        rw [possible_cons hφ, possible_cons hφ]
        exact .cons htrue heq hu ih
    · cases hφ : φ.isFalse <;> cases hφ' : φ'.isFalse
      · rw [possible_cons hφ, possible_cons hφ']
        exact .cons htrue heq hu ih
      · rw [possible_cons hφ, possible_cons_of_isFalse hφ']
        exact .skip hL (htrue.trans (isTrue_of_isFalse hφ')) ih
      · rw [possible_cons_of_isFalse hφ, possible_cons hφ']
        exact .skip' hL (htrue.symm.trans (isTrue_of_isFalse hφ)) ih
      · rwa [possible_cons_of_isFalse hφ, possible_cons_of_isFalse hφ']
  | @Tubes.skip _ φ u fs fs' hL htrue hfs => by
    have ih := hfs.possible
    cases hφ : φ.isFalse with
    | true => rwa [possible_cons_of_isFalse hφ]
    | false =>
      rw [possible_cons hφ]
      exact .skip hL htrue ih
  | @Tubes.skip' _ φ u fs fs' hL htrue hfs => by
    have ih := hfs.possible
    cases hφ : φ.isFalse with
    | true => rwa [possible_cons_of_isFalse hφ]
    | false =>
      rw [possible_cons hφ]
      exact .skip' hL htrue ih

/-- Partial elements that are alike still are after their bodies were changed alike. -/
theorem Tubes.map {g g' : IntervalClosure → IntervalClosure}
    (hg : ∀ u u', L.IntervalClosures u u' → L.IntervalClosures (g u) (g' u'))
    {fs fs' : List Tube} : L.Tubes fs fs' →
    L.Tubes (fs.map fun face => (face.1, g face.2)) (fs'.map fun face => (face.1, g' face.2))
  | .nil => .nil
  | .cons htrue heq hu hfs => .cons htrue heq (hg _ _ hu) (hfs.map hg)
  | .skip hL hφ hfs => .skip hL hφ (hfs.map hg)
  | .skip' hL hφ hfs => .skip' hL hφ (hfs.map hg)

/-- Partial elements that are alike can be put one after the other. -/
theorem Tubes.append {gs gs' : List Tube} (hgs : L.Tubes gs gs') {fs fs' : List Tube} :
    L.Tubes fs fs' → L.Tubes (fs ++ gs) (fs' ++ gs')
  | .nil => hgs
  | .cons htrue heq hu hfs => .cons htrue heq hu (Tubes.append hgs hfs)
  | .skip hL hφ hfs => .skip hL hφ (Tubes.append hgs hfs)
  | .skip' hL hφ hfs => .skip' hL hφ (Tubes.append hgs hfs)

/-! ## Questions about syntax -/

/-- Lists whose members are related place by place are so at every index. -/
theorem get?_rel {α β : Type} {R : α → β → Prop} {xs : List α} {ys : List β}
    (h : ∀ n : Nat, Option.Rel R xs[n]? ys[n]?) (i : Int) :
    Option.Rel R (Index.get? xs i) (Index.get? ys i) := by
  unfold Index.get?
  split
  · exact .none
  · exact h i.toNat

/-- Environments that are alike are so place by place. -/
theorem Environments.get? {env env' : Env} : L.Environments env env' →
    ∀ n : Nat, Option.Rel L.Entries env[n]? env'[n]?
  | .nil, _ => .none
  | .cons he _, 0 => .some he
  | .cons _ henv, n + 1 => henv.get? n

/-- A variable finds alike entries in environments that are alike, or is unbound in both. -/
theorem Environments.findEntry {env env' : Env} (h : L.Environments env env') (i : Int) :
    L.Answers L.Entries (Eval.findEntry env i) (Eval.findEntry env' i) := by
  have hget := get?_rel h.get? i
  unfold Eval.findEntry
  generalize Index.get? env i = x at hget ⊢
  generalize Index.get? env' i = y at hget ⊢
  cases hget with
  | none => exact .error fun _ => rfl
  | some he => exact .ok he

/-- Answers that are alike still are after functions that take related results to related ones. -/
theorem Answers.map {α β γ δ : Type} {P : α → β → Prop} {R : γ → δ → Prop} {x : Except Fault α}
    {y : Except Fault β} (h : L.Answers P x y) {f : α → γ} {g : β → δ}
    (hfg : ∀ a b, P a b → R (f a) (g b)) : L.Answers R (x.map f) (y.map g) := by
  cases h with
  | ok hab => exact .ok (hfg _ _ hab)
  | error hf => exact .error hf

/-- Answers that are alike can be gone on from by functions that answer alike. -/
theorem Answers.bind {α β γ δ : Type} {P : α → β → Prop} {R : γ → δ → Prop} {x : Except Fault α}
    {y : Except Fault β} (h : L.Answers P x y) {f : α → Except Fault γ} {g : β → Except Fault δ}
    (hfg : ∀ a b, P a b → L.Answers R (f a) (g b)) : L.Answers R (x >>= f) (y >>= g) := by
  cases h with
  | ok hab => exact hfg _ _ hab
  | error hf => exact .error hf

/-- Formulas that stand for the whole cube both or neither, and for one face if no probes are in
play. -/
def Formulas (L : Likeness) (φ φ' : Cofibration) : Prop :=
  φ.isTrue = φ'.isTrue ∧ (L.Exact → φ = φ')

/-- Dimensions that match are resolved to points that stand for each other. -/
theorem DimsBy.resolve {D : Int → Int → Prop} {dims dims' : IntervalEnv}
    (h : L.DimsBy D dims dims') {d d' : Dim} :
    d.Matches D d' → L.Answers L.Points (dims.resolve d) (dims'.resolve d')
  | .zero => .ok .zero
  | .one => .ok .one
  | .var hij => (h _ _ hij).1
  | .missing => .error fun _ => rfl

/-- Face formulas that match stand for cofibrations of which both or neither is the whole cube, and
which are equal where no probes are in play. -/
theorem DimsBy.cofibration {D : Int → Int → Prop} {dims dims' : IntervalEnv}
    (h : L.DimsBy D dims dims') {φ φ' : Face} :
    φ.Matches D φ' → L.Answers L.Formulas (φ.cofibration dims) (φ'.cofibration dims')
  | .top => .ok ⟨rfl, fun _ => rfl⟩
  | .bottom => .ok ⟨rfl, fun _ => rfl⟩
  | .equation hij => (h _ _ hij).2.map fun _ _ hr => ⟨hr.1 _, fun hL => by rw [hr.2 hL]⟩
  | .and a b => (h.cofibration a).bind fun _ _ hφ => (h.cofibration b).bind fun _ _ hψ => by
    refine .ok ⟨?_, fun hL => by rw [hφ.2 hL, hψ.2 hL]⟩
    rw [Cofibration.isTrue_meet, Cofibration.isTrue_meet, hφ.1, hψ.1]
  | .or a b => (h.cofibration a).bind fun _ _ hφ => (h.cofibration b).bind fun _ _ hψ => by
    refine .ok ⟨?_, fun hL => by rw [hφ.2 hL, hψ.2 hL]⟩
    rw [Cofibration.isTrue_join, Cofibration.isTrue_join, hφ.1, hψ.1]
  | .missing => .error fun _ => rfl

end Likeness

end SmoothCubical
