import Mathlib.Data.List.Nodup
import SmoothCubical.Proofs.Beta.Confluence
import SmoothCubical.Proofs.Lockstep.Names
import SmoothCubical.Proofs.Stability.Settled

/-!
# The skeletons of terms

A term is pure if it has no Kan operation and takes paths at interval variables only. It has a
skeleton, given skeletons for the variables in scope (`Term.skeleton`). To put arguments for bound
variables in the skeleton is to put them in scope.

Where variables stand for variables, a normal term has a normal skeleton
(`Term.isNormal_skeleton`), and a pure normal term can be read off its skeleton: pure normal terms
with one skeleton are the same up to display names (`Term.same_of_skeleton`).
-/

set_option autoImplicit false

namespace SmoothCubical

/-! ## Environments of skeletons -/

namespace Skeleton

/-- What a variable stands for; one that is out of scope stands for nothing. -/
def find (σ : List Skeleton) (i : Int) : Skeleton :=
  (Index.get? σ i).getD (.const none)

/-- Skeletons, as they stand under one more binder. -/
def raised (σ : List Skeleton) : List Skeleton :=
  σ.map (rename .raise)

/-- Skeletons for the variables under a binder, if those outside are given. -/
def under (σ : List Skeleton) : List Skeleton :=
  .var (.bound 0) :: raised σ

/-- What is found is what was found before, if nothing is made of nothing. -/
theorem find_map {f : Skeleton → Skeleton} (hf : f (.const none) = .const none)
    (σ : List Skeleton) (i : Int) : find (σ.map f) i = f (find σ i) := by
  unfold find
  rw [Index.get?_map]
  cases Index.get? σ i with
  | none => exact hf.symm
  | some t => rfl

/-- A variable that is found stands for what was found. -/
theorem find_of_get? {σ : List Skeleton} {i : Int} {t : Skeleton} (h : Index.get? σ i = some t) :
    find σ i = t := by
  rw [find, h, Option.getD_some]

/-- To substitute under a binder is to substitute and then go under it. -/
theorem map_subst_raised (σ : List Skeleton) (θ : Name → Skeleton) :
    (raised σ).map (subst (lift θ)) = raised (σ.map (subst θ)) := by
  simp only [raised, List.map_map]
  refine List.map_congr_left fun t _ => ?_
  have hraise : lift θ ∘ Name.raise = fun x => (θ x).rename .raise := funext (lift_raise θ)
  simp only [Function.comp_apply, subst_rename, rename_subst, hraise]

/-- To substitute for the variables under a binder leaves the one that it binds. -/
theorem map_subst_under (σ : List Skeleton) (θ : Name → Skeleton) :
    (under σ).map (subst (lift θ)) = under (σ.map (subst θ)) := by
  rw [under, List.map_cons, map_subst_raised]
  rfl

/-- What comes from outside a binder is left alone when its variable gets an argument. -/
theorem map_inst_raised (σ : List Skeleton) (u : Skeleton) :
    (raised σ).map (subst (nearest u)) = σ := by
  simp only [raised, List.map_map]
  exact List.map_id'' (fun t => raise_inst t u) σ

/-- The variable of the binder gets the argument. -/
theorem map_inst_under (σ : List Skeleton) (u : Skeleton) :
    (under σ).map (subst (nearest u)) = u :: σ := by
  rw [under, List.map_cons, map_inst_raised]
  rfl

/-- Variables that stand for variables. -/
def named (ns : List Name) : List Skeleton :=
  ns.map .var

/-- What stands for variables does so under a binder. -/
theorem raised_named (ns : List Name) : raised (named ns) = named (ns.map .raise) := by
  simp only [raised, named, List.map_map]
  rfl

/-- Under a binder, its variable stands for itself. -/
theorem under_named (ns : List Name) :
    under (named ns) = named (.bound 0 :: ns.map .raise) := by
  rw [under, raised_named]
  rfl

/-- A variable in scope stands for its name. -/
theorem find_named {ns : List Name} {i : Int} (h : Index.inScope ns.length i = true) :
    ∃ x, Index.get? ns i = some x ∧ find (named ns) i = .var x := by
  obtain ⟨x, hx⟩ := Index.get?_of_inScope h
  refine ⟨x, hx, find_of_get? ?_⟩
  rw [named, Index.get?_map, hx]
  rfl

/-- Different variables stand for different variables under a binder. -/
theorem nodup_under {ns : List Name} (h : ns.Nodup) :
    (Name.bound 0 :: ns.map Name.raise).Nodup := by
  refine List.nodup_cons.2 ⟨fun hmem => ?_, List.Nodup.map Name.raise_injective h⟩
  obtain ⟨x, -, hx⟩ := List.mem_map.1 hmem
  exact x.raise_ne_bound_zero hx

section Below

variable {d e : Int} {σ : List Skeleton}

/-- What is found has the bounds of all that could be. -/
theorem below_find (h : ∀ t ∈ σ, t.Below d e) (i : Int) : (find σ i).Below d e := by
  unfold find
  cases hi : Index.get? σ i with
  | none => trivial
  | some t => exact h t (Index.mem_of_get? hi)

/-- Bounds are kept under a binder. -/
theorem below_raised (h : ∀ t ∈ σ, t.Below d e) : ∀ t ∈ raised σ, t.Below d e := by
  intro t ht
  obtain ⟨u, hu, rfl⟩ := List.mem_map.1 ht
  exact (h u hu).raise

/-- The variable of a binder is within all bounds. -/
theorem below_under (h : ∀ t ∈ σ, t.Below d e) : ∀ t ∈ under σ, t.Below d e :=
  List.forall_mem_cons.2 ⟨trivial, below_raised h⟩

end Below

end Skeleton

/-! ## Pure terms -/

open Skeleton

/-- What an interval variable stands for. The ends stand for nothing. -/
def Dim.skeleton (δ : List Skeleton) : Dim → Skeleton
  | .var index => find δ index
  | _ => .const none

/-- What is substituted for interval variables is what dimensions stand for. -/
theorem Dim.subst_skeleton (δ : List Skeleton) (θ : Name → Skeleton) (r : Dim) :
    (r.skeleton δ).subst θ = r.skeleton (δ.map (subst θ)) := by
  cases r with
  | var i => exact (find_map rfl δ i).symm
  | zero | one | missing => rfl

/-- What a dimension stands for has the bounds of what interval variables stand for. -/
theorem Dim.below_skeleton {d e : Int} {δ : List Skeleton} (h : ∀ u ∈ δ, u.Below d e) (r : Dim) :
    (r.skeleton δ).Below d e := by
  cases r with
  | var i => exact below_find h i
  | zero | one | missing => trivial

/-- What a dimension stands for is normal, if variables stand for variables. -/
theorem Dim.isNormal_skeleton {r : Dim} {ds : List Name} (h : r.inScope ds.length = true) :
    (r.skeleton (named ds)).isNormal = true := by
  cases r with
  | var i =>
    obtain ⟨x, -, hx⟩ := find_named h
    rw [skeleton, hx]
    rfl
  | zero | one | missing => rfl

namespace Term

/-- Whether the term has no Kan operation and takes paths at interval variables only. -/
def isPure : Term → Bool
  | .univ _ => true
  | .var _ => true
  | .pi _ domain codomain => domain.isPure && codomain.isPure
  | .lam _ body => body.isPure
  | .app function argument => function.isPure && argument.isPure
  | .path ty left right => ty.isPure && left.isPure && right.isPure
  | .pathLam _ body => body.isPure
  | .pathApp p dim => p.isPure && dim.isVar
  | .smoothPath _ ty left right => ty.isPure && left.isPure && right.isPure
  | _ => false

/-- The skeleton of a pure term, given skeletons for the term variables and for the interval
variables in scope. Anything else stands for nothing. -/
def skeleton : Term → List Skeleton → List Skeleton → Skeleton
  | .univ level, _, _ => .const (some level)
  | .var index, σ, _ => find σ index
  | .pi _ domain codomain, σ, δ =>
    .type .pi (domain.skeleton σ δ) (.lam .function (codomain.skeleton (under σ) (raised δ)))
      (.const none)
  | .lam _ body, σ, δ => .lam .function (body.skeleton (under σ) (raised δ))
  | .app function argument, σ, δ =>
    .app .function (function.skeleton σ δ) (argument.skeleton σ δ)
  | .path ty left right, σ, δ =>
    .type .path (ty.skeleton σ δ) (left.skeleton σ δ) (right.skeleton σ δ)
  | .pathLam _ body, σ, δ => .lam .path (body.skeleton (raised σ) (under δ))
  | .pathApp p dim, σ, δ => .app .path (p.skeleton σ δ) (dim.skeleton δ)
  | .smoothPath order ty left right, σ, δ =>
    .type (.smoothPath order) (ty.skeleton σ δ) (left.skeleton σ δ) (right.skeleton σ δ)
  | _, _, _ => .const none

/-- To substitute in a skeleton is to substitute in what its variables stand for. -/
theorem subst_skeleton : ∀ (t : Term) (σ δ : List Skeleton) (θ : Name → Skeleton),
    (t.skeleton σ δ).subst θ = t.skeleton (σ.map (subst θ)) (δ.map (subst θ))
  | .univ _, _, _, _ => rfl
  | .var i, σ, _, _ => (find_map rfl σ i).symm
  | .pi _ a b, σ, δ, θ => by
    simp only [subst, skeleton, subst_skeleton a, subst_skeleton b, map_subst_under,
      map_subst_raised]
  | .lam _ b, σ, δ, θ => by
    simp only [subst, skeleton, subst_skeleton b, map_subst_under, map_subst_raised]
  | .app f a, σ, δ, θ => by simp only [subst, skeleton, subst_skeleton f, subst_skeleton a]
  | .path a l r, σ, δ, θ => by
    simp only [subst, skeleton, subst_skeleton a, subst_skeleton l, subst_skeleton r]
  | .pathLam _ b, σ, δ, θ => by
    simp only [subst, skeleton, subst_skeleton b, map_subst_under, map_subst_raised]
  | .pathApp p r, σ, δ, θ => by
    simp only [subst, skeleton, subst_skeleton p, Dim.subst_skeleton]
  | .smoothPath _ a l r, σ, δ, θ => by
    simp only [subst, skeleton, subst_skeleton a, subst_skeleton l, subst_skeleton r]
  | .comp .., _, _, _ => rfl
  | .coe .., _, _, _ => rfl
  | .hcomp .., _, _, _ => rfl
  | .missing, _, _, _ => rfl

/-- The body of a function at an argument is the body with the argument in scope. -/
theorem skeleton_inst (t : Term) (σ δ : List Skeleton) (u : Skeleton) :
    (t.skeleton (under σ) (raised δ)).inst u = t.skeleton (u :: σ) δ := by
  rw [inst, subst_skeleton, map_inst_under, map_inst_raised]

/-- The body of a path at a point is the body with the point in scope. -/
theorem skeleton_instAt (t : Term) (σ δ : List Skeleton) (u : Skeleton) :
    (t.skeleton (raised σ) (under δ)).inst u = t.skeleton σ (u :: δ) := by
  rw [inst, subst_skeleton, map_inst_under, map_inst_raised]

/-- Terms that match at equal variables have one skeleton, whatever their display names. -/
theorem Matches.skeleton_eq {C : Correspondence} {V D : Int → Int → Prop} {t t' : Term}
    (h : Term.Matches C V D t t') (hV : ∀ i j, V i j → i = j) (hD : ∀ i j, D i j → i = j)
    (σ δ : List Skeleton) : t.skeleton σ δ = t'.skeleton σ δ := by
  have hdim {d d' : Dim} (hd : d.Matches D d') : d.skeleton δ = d'.skeleton δ := by
    cases hd with
    | var hij => rw [hD _ _ hij]
    | zero | one | missing => rfl
  cases h with
  | univ | comp | coe | hcomp | missing => rfl
  | var hij => rw [hV _ _ hij]
  | pi _ ha hb =>
    simp only [skeleton, ha.skeleton_eq hV hD, hb.skeleton_eq (fun _ _ => Under.eq hV) hD]
  | lam _ hb => simp only [skeleton, hb.skeleton_eq (fun _ _ => Under.eq hV) hD]
  | app hf ha => simp only [skeleton, hf.skeleton_eq hV hD, ha.skeleton_eq hV hD]
  | path ha hl hr =>
    simp only [skeleton, ha.skeleton_eq hV hD, hl.skeleton_eq hV hD, hr.skeleton_eq hV hD]
  | pathLam _ hb => simp only [skeleton, hb.skeleton_eq hV fun _ _ => Under.eq hD]
  | pathApp hp hd => simp only [skeleton, hp.skeleton_eq hV hD, hdim hd]
  | smoothPath ha hl hr =>
    simp only [skeleton, ha.skeleton_eq hV hD, hl.skeleton_eq hV hD, hr.skeleton_eq hV hD]

/-- Terms that are the same up to display names have one skeleton. -/
theorem skeleton_of_same {t t' : Term} (h : t.same t' = true) (σ δ : List Skeleton) :
    t.skeleton σ δ = t'.skeleton σ δ :=
  (matches_of_same (V := (· = ·)) (D := (· = ·)) (fun _ => rfl) (fun _ => rfl) h).skeleton_eq
    (fun _ _ => id) (fun _ _ => id) σ δ

/-- The names in a skeleton are those that the variables stand for. -/
theorem below_skeleton {d e : Int} : ∀ (t : Term) {σ δ : List Skeleton},
    (∀ u ∈ σ, u.Below d e) → (∀ u ∈ δ, u.Below d e) → (t.skeleton σ δ).Below d e
  | .univ _, _, _, _, _ => trivial
  | .var i, _, _, hσ, _ => below_find hσ i
  | .pi _ a b, _, _, hσ, hδ =>
    ⟨below_skeleton a hσ hδ, below_skeleton b (below_under hσ) (below_raised hδ), trivial⟩
  | .lam _ b, _, _, hσ, hδ => below_skeleton b (below_under hσ) (below_raised hδ)
  | .app f a, _, _, hσ, hδ => ⟨below_skeleton f hσ hδ, below_skeleton a hσ hδ⟩
  | .path a l r, _, _, hσ, hδ =>
    ⟨below_skeleton a hσ hδ, below_skeleton l hσ hδ, below_skeleton r hσ hδ⟩
  | .pathLam _ b, _, _, hσ, hδ => below_skeleton b (below_raised hσ) (below_under hδ)
  | .pathApp p r, _, _, hσ, hδ => ⟨below_skeleton p hσ hδ, r.below_skeleton hδ⟩
  | .smoothPath _ a l r, _, _, hσ, hδ =>
    ⟨below_skeleton a hσ hδ, below_skeleton l hσ hδ, below_skeleton r hσ hδ⟩
  | .comp .., _, _, _, _ => trivial
  | .coe .., _, _, _, _ => trivial
  | .hcomp .., _, _, _, _ => trivial
  | .missing, _, _, _, _ => trivial

/-! ## Normal terms -/

/-- What eliminates something, or is a variable in scope, is no abstraction, if variables stand for
variables. -/
theorem isLam_skeleton {t : Term} {d e : Nat} (helim : t.isElimination = true)
    (hnormal : t.isNormal d e = true) {ns : List Name} (hns : ns.length = d) (δ : List Skeleton) :
    (t.skeleton (named ns) δ).isLam = false := by
  cases t with
  | var i =>
    obtain ⟨x, -, hx⟩ := find_named (hns ▸ hnormal)
    rw [skeleton, hx]
    rfl
  | app | pathApp | comp | coe => rfl
  | univ | pi | lam | path | pathLam | smoothPath | hcomp | missing => cases helim

/-- A normal term has a normal skeleton, if variables stand for variables. -/
theorem isNormal_skeleton : ∀ {t : Term} {ns ds : List Name},
    t.isNormal ns.length ds.length = true →
      (t.skeleton (named ns) (named ds)).isNormal = true
  | .univ _, _, _, _ => rfl
  | .var i, ns, ds, h => by
    obtain ⟨x, -, hx⟩ := find_named h
    rw [skeleton, hx]
    rfl
  | .pi _ a b, ns, ds, h => by
    simp only [isNormal, Bool.and_eq_true] at h
    simp only [skeleton, Skeleton.isNormal, under_named, raised_named, Bool.and_eq_true]
    exact ⟨⟨isNormal_skeleton h.1, isNormal_skeleton (by simpa using h.2)⟩, trivial⟩
  | .lam _ b, ns, ds, h => by
    simp only [isNormal] at h
    simp only [skeleton, Skeleton.isNormal, under_named, raised_named]
    exact isNormal_skeleton (by simpa using h)
  | .app f a, ns, ds, h => by
    simp only [isNormal, Bool.and_eq_true] at h
    simp only [skeleton, Skeleton.isNormal, isLam_skeleton h.1.1 h.1.2 rfl, Bool.not_false,
      Bool.true_and, Bool.and_eq_true]
    exact ⟨isNormal_skeleton h.1.2, isNormal_skeleton h.2⟩
  | .path a l r, ns, ds, h => by
    simp only [isNormal, Bool.and_eq_true] at h
    simp only [skeleton, Skeleton.isNormal, Bool.and_eq_true]
    exact ⟨⟨isNormal_skeleton h.1.1, isNormal_skeleton h.1.2⟩, isNormal_skeleton h.2⟩
  | .pathLam _ b, ns, ds, h => by
    simp only [isNormal] at h
    simp only [skeleton, Skeleton.isNormal, under_named, raised_named]
    exact isNormal_skeleton (by simpa using h)
  | .pathApp p r, ns, ds, h => by
    simp only [isNormal, Bool.and_eq_true] at h
    simp only [skeleton, Skeleton.isNormal, isLam_skeleton h.1.1 h.1.2 rfl, Bool.not_false,
      Bool.true_and, Bool.and_eq_true]
    exact ⟨isNormal_skeleton h.1.2, r.isNormal_skeleton h.2⟩
  | .smoothPath _ a l r, ns, ds, h => by
    simp only [isNormal, Bool.and_eq_true] at h
    simp only [skeleton, Skeleton.isNormal, Bool.and_eq_true]
    exact ⟨⟨isNormal_skeleton h.1.1, isNormal_skeleton h.1.2⟩, isNormal_skeleton h.2⟩
  | .comp .., _, _, _ => rfl
  | .coe .., _, _, _ => rfl
  | .hcomp .., _, _, _ => rfl
  | .missing, _, _, _ => rfl

/-- What a skeleton is read as, if the variables in scope have the names given. -/
inductive Reads : List Name → List Name → Skeleton → Term → Prop
  | univ {ns ds : List Name} {level : Int} : Reads ns ds (.const (some level)) (.univ level)
  | var {ns ds : List Name} {x : Name} {i : Int} :
      Index.get? ns i = some x → Reads ns ds (.var x) (.var i)
  | pi {ns ds : List Name} {x : String} {u v : Skeleton} {a b : Term} :
      Reads ns ds u a → Reads (.bound 0 :: ns.map .raise) (ds.map .raise) v b →
        Reads ns ds (.type .pi u (.lam .function v) (.const none)) (.pi x a b)
  | lam {ns ds : List Name} {x : String} {u : Skeleton} {b : Term} :
      Reads (.bound 0 :: ns.map .raise) (ds.map .raise) u b →
        Reads ns ds (.lam .function u) (.lam x b)
  | app {ns ds : List Name} {u v : Skeleton} {f a : Term} :
      Reads ns ds u f → Reads ns ds v a → Reads ns ds (.app .function u v) (.app f a)
  | path {ns ds : List Name} {u v w : Skeleton} {a l r : Term} :
      Reads ns ds u a → Reads ns ds v l → Reads ns ds w r →
        Reads ns ds (.type .path u v w) (.path a l r)
  | pathLam {ns ds : List Name} {x : String} {u : Skeleton} {b : Term} :
      Reads (ns.map .raise) (.bound 0 :: ds.map .raise) u b →
        Reads ns ds (.lam .path u) (.pathLam x b)
  | pathApp {ns ds : List Name} {x : Name} {u : Skeleton} {p : Term} {i : Int} :
      Reads ns ds u p → Index.get? ds i = some x →
        Reads ns ds (.app .path u (.var x)) (.pathApp p (.var i))
  | smoothPath {ns ds : List Name} {order : Int} {u v w : Skeleton} {a l r : Term} :
      Reads ns ds u a → Reads ns ds v l → Reads ns ds w r →
        Reads ns ds (.type (.smoothPath order) u v w) (.smoothPath order a l r)

/-- A pure normal term is what its skeleton is read as. -/
theorem reads_skeleton : ∀ {t : Term} {ns ds : List Name}, t.isPure = true →
    t.isNormal ns.length ds.length = true →
      Reads ns ds (t.skeleton (named ns) (named ds)) t
  | .univ _, _, _, _, _ => .univ
  | .var i, ns, ds, _, hn => by
    obtain ⟨x, hi, hx⟩ := find_named hn
    rw [skeleton, hx]
    exact .var hi
  | .pi _ a b, ns, ds, hp, hn => by
    simp only [isPure, isNormal, Bool.and_eq_true] at hp hn
    simp only [skeleton, under_named, raised_named]
    exact .pi (reads_skeleton hp.1 hn.1) (reads_skeleton hp.2 (by simpa using hn.2))
  | .lam _ b, ns, ds, hp, hn => by
    simp only [isPure, isNormal] at hp hn
    simp only [skeleton, under_named, raised_named]
    exact .lam (reads_skeleton hp (by simpa using hn))
  | .app f a, ns, ds, hp, hn => by
    simp only [isPure, isNormal, Bool.and_eq_true] at hp hn
    exact .app (reads_skeleton hp.1 hn.1.2) (reads_skeleton hp.2 hn.2)
  | .path a l r, ns, ds, hp, hn => by
    simp only [isPure, isNormal, Bool.and_eq_true] at hp hn
    exact .path (reads_skeleton hp.1.1 hn.1.1) (reads_skeleton hp.1.2 hn.1.2)
      (reads_skeleton hp.2 hn.2)
  | .pathLam _ b, ns, ds, hp, hn => by
    simp only [isPure, isNormal] at hp hn
    simp only [skeleton, under_named, raised_named]
    exact .pathLam (reads_skeleton hp (by simpa using hn))
  | .pathApp p r, ns, ds, hp, hn => by
    simp only [isPure, isNormal, Bool.and_eq_true] at hp hn
    cases r with
    | var i =>
      obtain ⟨x, hi, hx⟩ := find_named hn.2
      rw [skeleton, Dim.skeleton, hx]
      exact .pathApp (reads_skeleton hp.1 hn.1.2) hi
    | zero | one | missing => cases hp.2
  | .smoothPath _ a l r, ns, ds, hp, hn => by
    simp only [isPure, isNormal, Bool.and_eq_true] at hp hn
    exact .smoothPath (reads_skeleton hp.1.1 hn.1.1) (reads_skeleton hp.1.2 hn.1.2)
      (reads_skeleton hp.2 hn.2)

/-- A skeleton is read as one term only, up to display names, if different variables have different
names. -/
theorem Reads.same {ns ds : List Name} {u : Skeleton} {t t' : Term} (h : Reads ns ds u t)
    (h' : Reads ns ds u t') (hns : ns.Nodup) (hds : ds.Nodup) : t.same t' = true := by
  have hraise {ns : List Name} (h : ns.Nodup) : (ns.map Name.raise).Nodup :=
    List.Nodup.map Name.raise_injective h
  induction h generalizing t' with
  | univ =>
    cases h'
    simp only [Term.same, beq_self_eq_true]
  | var hi =>
    cases h' with
    | var hj => simp only [Term.same, Index.get?_inj hns hi hj, beq_self_eq_true]
  | pi _ _ iha ihb =>
    cases h' with
    | pi ha hb =>
      simp only [Term.same, iha ha hns hds, ihb hb (nodup_under hns) (hraise hds), Bool.and_self]
  | lam _ ih =>
    cases h' with
    | lam hb => exact ih hb (nodup_under hns) (hraise hds)
  | app _ _ ihf iha =>
    cases h' with
    | app hf ha => simp only [Term.same, ihf hf hns hds, iha ha hns hds, Bool.and_self]
  | path _ _ _ iha ihl ihr =>
    cases h' with
    | path ha hl hr =>
      simp only [Term.same, iha ha hns hds, ihl hl hns hds, ihr hr hns hds, Bool.and_self]
  | pathLam _ ih =>
    cases h' with
    | pathLam hb => exact ih hb (hraise hns) (nodup_under hds)
  | pathApp _ hi ih =>
    cases h' with
    | pathApp hp hj =>
      simp only [Term.same, ih hp hns hds, Index.get?_inj hds hi hj, beq_self_eq_true,
        Bool.and_self]
  | smoothPath _ _ _ iha ihl ihr =>
    cases h' with
    | smoothPath ha hl hr =>
      simp only [Term.same, iha ha hns hds, ihl hl hns hds, ihr hr hns hds, beq_self_eq_true,
        Bool.and_self]

/-- Pure normal terms with one skeleton are the same up to display names, if different variables
have different names. -/
theorem same_of_skeleton {t t' : Term} {ns ds : List Name} (hns : ns.Nodup) (hds : ds.Nodup)
    (ht : t.isPure = true) (ht' : t'.isPure = true)
    (hn : t.isNormal ns.length ds.length = true) (hn' : t'.isNormal ns.length ds.length = true)
    (h : t.skeleton (named ns) (named ds) = t'.skeleton (named ns) (named ds)) :
    t.same t' = true := by
  have hreads := reads_skeleton ht hn
  rw [h] at hreads
  exact hreads.same (reads_skeleton ht' hn') hns hds

end Term

end SmoothCubical
