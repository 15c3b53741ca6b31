import SmoothCubical.Readback
import SmoothCubical.Proofs.Beta.Evaluation

/-!
# Reading back reduces

A value that stands for a skeleton is read back as a pure term whose skeleton is a reduct
(`Readback.quote_finds`). The body of an abstraction is read at a fresh variable. In the skeleton
the body is instantiated at the name of that variable, and to bind the name again gives the body
back, since the name occurs nowhere else (`Skeleton.Reduces.bind`).
-/

set_option autoImplicit false

namespace SmoothCubical

open Skeleton

/-! ## Fresh names -/

namespace Name

/-- The renaming that binds a name by a new binder. -/
def bind (z x : Name) : Name :=
  if x = z then .bound 0 else x.raise

/-- The names of the term variables of a context, the latest first. -/
def levels : Nat → List Name := Index.countdown .level

/-- The names of the interval variables of a context, the latest first. -/
def points : Nat → List Name := Index.countdown .point

/-- To bind a name that is not there is to go under the binder. -/
theorem map_bind {z : Name} {ns : List Name} (h : z ∉ ns) : ns.map (bind z) = ns.map raise := by
  refine List.map_congr_left fun x hx => if_neg fun heq => ?_
  exact h (heq ▸ hx)

section Countdown

variable {make : Int → Name} (hmake : Function.Injective make)
include hmake

/-- The next name is not among those counted. -/
theorem next_notMem (n : Nat) : make n ∉ Index.countdown make n := by
  intro h
  obtain ⟨l, hl, heq⟩ := Index.mem_countdown h
  have := hmake heq
  omega

/-- No name comes twice. -/
theorem nodup_countdown : ∀ n, (Index.countdown make n).Nodup
  | 0 => List.nodup_nil
  | n + 1 => List.nodup_cons.2 ⟨next_notMem hmake n, nodup_countdown n⟩

/-- To bind the latest name is to go under its binder. -/
theorem map_bind_countdown (n : Nat) :
    (Index.countdown make (n + 1)).map (bind (make n)) =
      .bound 0 :: (Index.countdown make n).map raise := by
  rw [Index.countdown, List.map_cons, map_bind (next_notMem hmake n), bind, if_pos rfl]

end Countdown

end Name

open Name

/-- To bind the name at which a body was instantiated gives the body back, if the name was fresh.
-/
theorem Skeleton.bind_inst {d e : Int} {b : Skeleton} (hb : b.Below d e) {z : Name}
    (hz : ¬ (var z).Below d e) : (b.inst (.var z)).rename (bind z) = b := by
  rw [inst, rename_subst]
  refine hb.subst_eq_self fun x hx => ?_
  obtain rfl | ⟨y, rfl⟩ := x.eq_zero_or_raise
  · rw [nearest, Skeleton.rename, Name.bind, if_pos rfl]
  · have hy : y ≠ z := fun heq => hz (heq ▸ Below.var_raise.1 hx)
    rw [nearest_raise, Skeleton.rename, Name.bind, if_neg hy]

/-- What a body reduces to at a fresh name is what it reduces to, with the name bound. -/
theorem Skeleton.Reduces.bind {d e : Int} {b t : Skeleton} (hb : b.Below d e) {z : Name}
    (hz : ¬ (var z).Below d e) (h : Reduces (b.inst (.var z)) t) :
    Reduces b (t.rename (Name.bind z)) := by
  have hbind := h.rename (Name.bind z)
  rwa [bind_inst hb hz] at hbind

/-- To rename in a skeleton is to rename what its variables stand for. -/
theorem Term.rename_skeleton (t : Term) (ns ds : List Name) (ρ : Name → Name) :
    (t.skeleton (named ns) (named ds)).rename ρ =
      t.skeleton (named (ns.map ρ)) (named (ds.map ρ)) := by
  rw [rename_eq_subst, t.subst_skeleton]
  simp only [named, List.map_map]
  rfl

/-- The variable of a level stands for the name of that level. -/
theorem Skeleton.find_countdown {make : Int → Name} {n : Nat} {level : Int}
    (h : Index.inScope n level = true) :
    find (named (Index.countdown make n)) (Index.flip n level) = .var (make level) := by
  refine find_of_get? ?_
  rw [named, Index.get?_map, Index.get?_countdown (by rwa [Index.inScope_flip]), Index.flip_flip]
  rfl

/-! ## Reducts of a skeleton -/

/-- The term is pure, and its skeleton is a reduct of the one given, under so many term and interval
variables. -/
structure Term.IsReduct (d e : Nat) (u : Skeleton) (n : Term) : Prop where
  pure : n.isPure = true
  reduces : Reduces u (n.skeleton (named (levels d)) (named (points e)))

namespace Term.IsReduct

variable {d e : Nat} {u u' : Skeleton} {n : Term}

/-- A reduct of a reduct is a reduct. -/
theorem before (h : n.IsReduct d e u') (hu : Reduces u u') : n.IsReduct d e u :=
  ⟨h.pure, hu.trans h.reduces⟩

/-- What a body is read as at the next term variable is a reduct of the body of a function. -/
theorem body {b : Skeleton} (hb : b.Below d e)
    (h : n.IsReduct (d + 1) e (b.inst (.var (.level d)))) :
    Reduces b (n.skeleton (under (named (levels d))) (raised (named (points e)))) := by
  have hbind := h.reduces.bind hb (z := .level d) (Int.lt_irrefl d)
  have hpoints : Name.level d ∉ points e := fun hmem => by
    obtain ⟨l, -, heq⟩ := Index.mem_countdown hmem
    cases heq
  rwa [n.rename_skeleton, levels, map_bind_countdown (fun _ _ => Name.level.inj),
    map_bind hpoints, ← under_named, ← raised_named] at hbind

/-- What a body is read as at the next interval variable is a reduct of the body of a path. -/
theorem bodyAt {b : Skeleton} (hb : b.Below d e)
    (h : n.IsReduct d (e + 1) (b.inst (.var (.point e)))) :
    Reduces b (n.skeleton (raised (named (levels d))) (under (named (points e)))) := by
  have hbind := h.reduces.bind hb (z := .point e) (Int.lt_irrefl e)
  have hlevels : Name.point e ∉ levels d := fun hmem => by
    obtain ⟨l, -, heq⟩ := Index.mem_countdown hmem
    cases heq
  rwa [n.rename_skeleton, points, map_bind_countdown (fun _ _ => Name.point.inj),
    map_bind hlevels, ← under_named, ← raised_named] at hbind

end Term.IsReduct

/-! ## Reading back -/

namespace Readback

open Run

/-- A value that stands for a skeleton is read back as a reduct. -/
def FindingReader (read : Reader) : Prop :=
  ∀ {d e : Nat} {M : Meaning} {v : Value} {u : Skeleton}, v.Denotes M u → u.Below d e →
    Finds M (fun _ n => n.IsReduct d e u) (read d e v)

/-- A level in scope is found at the index that it is read back as. -/
theorem finds_index {M : Meaning} {d : Nat} {level : Int} :
    Finds M (fun _ i => find (named (levels d)) i = .var (.level level))
      (ofFault (indexOfLevel d level)) := by
  refine finds_ofFault fun i hi => ?_
  unfold indexOfLevel at hi
  split at hi
  · next hscope =>
    cases hi
    exact find_countdown hscope
  · cases hi

/-- An interval variable in scope is what it is read back as. -/
theorem finds_dim {M : Meaning} {e : Nat} {level : Int} :
    Finds M (fun _ r => r.isVar = true ∧ r.skeleton (named (points e)) = .var (.point level))
      (ofFault (dim e (.var level))) := by
  refine finds_ofFault fun r hr => ?_
  simp only [dim] at hr
  split at hr
  · next hscope =>
    cases hr
    exact ⟨rfl, find_countdown hscope⟩
  · cases hr

section Rules

variable {read : Reader} (hread : FindingReader read) {d e : Nat} {M : Meaning}
include hread

/-- A stuck computation is read back as a reduct of what it stands for. -/
theorem finds_neutral (call : Call) (m : MeterId) {n : Neutral} {u : Skeleton}
    (hn : n.Denotes M u) (hu : u.Below d e) :
    Finds M (fun _ t => t.IsReduct d e u) (neutral call read m d e n) := by
  cases hn with
  | var =>
    refine finds_index.bind fun i M' _ hi => finds_pure ⟨rfl, ?_⟩
    rw [Term.skeleton, hi]
    exact .refl _
  | app hn hv =>
    refine (hread (.stuck hn) hu.1).bind fun f M₁ hM₁ hf => ?_
    refine (hread (hv.mono hM₁) hu.2).bind fun a M₂ _ ha => ?_
    exact finds_pure ⟨by rw [Term.isPure, hf.pure, ha.pure]; rfl, .app _ hf.reduces ha.reduces⟩
  | pathApp hn =>
    refine (hread (.stuck hn) hu.1).bind fun p M₁ _ hp => ?_
    refine finds_dim.bind fun r M₂ _ hr => ?_
    refine finds_pure ⟨by rw [Term.isPure, hp.pure, hr.1]; rfl, ?_⟩
    rw [Term.skeleton, hr.2]
    exact .app _ hp.reduces (.refl _)

/-- The three parts of a type of paths are read back as reducts, one after the other. -/
theorem finds_pathType {former : Former} {make : Term → Term → Term → Term}
    (hmake : ∀ {a l r : Term}, a.isPure = true → l.isPure = true → r.isPure = true →
      (make a l r).isPure = true ∧ ∀ σ δ, (make a l r).skeleton σ δ =
        .type former (a.skeleton σ δ) (l.skeleton σ δ) (r.skeleton σ δ))
    {a l r : Value} {u v w : Skeleton} (ha : a.Denotes M u) (hl : l.Denotes M v)
    (hr : r.Denotes M w) (hbelow : (type former u v w).Below d e) :
    Finds M (fun _ t => t.IsReduct d e (.type former u v w))
      (do return make (← read d e a) (← read d e l) (← read d e r)) := by
  refine (hread ha hbelow.1).bind fun ta M₁ hM₁ hta => ?_
  refine (hread (hl.mono hM₁) hbelow.2.1).bind fun tl M₂ hM₂ htl => ?_
  refine (hread (hr.mono (hM₁.trans hM₂)) hbelow.2.2).bind fun tr M₃ _ htr => ?_
  obtain ⟨hpure, hskeleton⟩ := hmake hta.pure htl.pure htr.pure
  refine finds_pure ⟨hpure, ?_⟩
  rw [hskeleton]
  exact .type former hta.reduces htl.reduces htr.reduces

/-- The body of a function is read back as a reduct, from what it computes at the next term
variable. -/
theorem finds_body {b : Skeleton} (hb : (lam .function b).Below d e) {v : Value}
    (hv : v.Computes M (b.inst (.var (.level d)))) :
    Finds M (fun _ t => t.isPure = true ∧ Reduces (.lam .function b)
        (.lam .function (t.skeleton (under (named (levels d))) (raised (named (points e))))))
      (read (d + 1) e v) := by
  obtain ⟨u, hu, hv⟩ := hv
  have hfresh : (var (.level d)).Below (d + 1 : Nat) e := Int.lt_succ d
  have hbelow : u.Below (d + 1 : Nat) e :=
    (Below.inst (b := b) (hb.mono (by omega) (by omega)) hfresh).reduces hu
  exact (hread hv hbelow).mono fun _ t ht => ⟨ht.pure, .lam _ ((ht.before hu).body hb)⟩

/-- The body of a path is read back as a reduct, from what it computes at the next interval
variable. -/
theorem finds_bodyAt {b : Skeleton} (hb : (lam .path b).Below d e) {v : Value}
    (hv : v.Computes M (b.inst (.var (.point e)))) :
    Finds M (fun _ t => t.isPure = true ∧ Reduces (.lam .path b)
        (.lam .path (t.skeleton (raised (named (levels d))) (under (named (points e))))))
      (read d (e + 1) v) := by
  obtain ⟨u, hu, hv⟩ := hv
  have hfresh : (var (.point e)).Below d (e + 1 : Nat) := Int.lt_succ e
  have hbelow : u.Below d (e + 1 : Nat) :=
    (Below.inst (b := b) (hb.mono (by omega) (by omega)) hfresh).reduces hu
  exact (hread hv hbelow).mono fun _ t ht => ⟨ht.pure, .lam _ ((ht.before hu).bodyAt hb)⟩

variable {call : Call} (hcall : Eval.FindingCall call) (m : MeterId)
include hcall

/-- One layer of a value is read back as a reduct of what it stands for. -/
theorem finds_value {v : Value} {u : Skeleton} (hv : v.Denotes M u) (hu : u.Below d e) :
    Finds M (fun _ t => t.IsReduct d e u) (value call read m d e v) := by
  cases hv with
  | univ => exact finds_pure ⟨rfl, .refl _⟩
  | @pi _ a _ _ _ ha hc =>
    cases hc with
    | body henv hdims ht =>
      have hfresh : Entry.Denotes M (.value (.generic d (some a))) (.var (.level d)) :=
        .value (.stuck .var)
      have hb := hcall.finds m (.instantiate (.body henv hdims ht) hfresh)
      refine hb.bind fun vb M₁ hM₁ hvb => ?_
      refine (hread (ha.mono hM₁) hu.1).bind fun ta M₂ hM₂ hta => ?_
      refine (finds_body hread hu.2.1 (hvb.mono hM₂)).bind fun tb M₃ _ htb => ?_
      refine finds_pure ⟨by rw [Term.isPure, hta.pure, htb.1]; rfl, ?_⟩
      exact .type .pi hta.reduces htb.2 (.refl _)
  | lam hc =>
    cases hc with
    | body henv hdims ht =>
      have hfresh : Entry.Denotes M (.value (.generic d none)) (.var (.level d)) :=
        .value (.stuck .var)
      refine (hcall.finds m (.instantiate (.body henv hdims ht) hfresh)).bind fun vb M₁ _ hvb => ?_
      refine (finds_body hread hu hvb).bind fun tb M₂ _ htb => ?_
      exact finds_pure ⟨htb.1, htb.2⟩
  | path ha hl hr =>
    refine finds_pathType hread (fun ha hl hr => ⟨?_, fun _ _ => rfl⟩) ha hl hr hu
    rw [Term.isPure, ha, hl, hr]
    rfl
  | smoothPath ha hl hr =>
    refine finds_pathType hread (fun ha hl hr => ⟨?_, fun _ _ => rfl⟩) ha hl hr hu
    rw [Term.isPure, ha, hl, hr]
    rfl
  | pathLam hc =>
    cases hc with
    | body henv hdims ht =>
      refine (hcall.finds m (.instantiateAt (.body henv hdims ht))).bind fun vb M₁ _ hvb => ?_
      refine (finds_bodyAt hread hu hvb).bind fun tb M₂ _ htb => ?_
      exact finds_pure ⟨htb.1, htb.2⟩
  | stuck hn => exact finds_neutral hread call m hn hu

end Rules

/-- A value that stands for a skeleton is read back as a reduct. -/
theorem quote_finds (m : MeterId) : ∀ frames, FindingReader (quote frames m)
  | 0 => fun _ _ => finds_throw _
  | frames + 1 => fun hv hu => finds_value (quote_finds m frames) (Eval.run_finds frames) m hv hu

end Readback

end SmoothCubical
