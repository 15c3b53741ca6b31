import Mathlib.Logic.Relation

/-!
# Skeletons

A skeleton is what is left of a term without Kan operations once display names are dropped. Points
of the interval are skeletons too, so functions and paths compute by one rule: an abstraction that
is applied gives its body at the argument. A mark keeps the two apart.

Reduction of skeletons is confluent (`Skeleton.Reduces.join`). The proof is by parallel reduction
and complete developments: whatever a skeleton reduces to in one parallel step reduces in one more
to its complete development (`Skeleton.Step.develop`). So a skeleton has at most one normal form
(`Skeleton.Reduces.unique`).
-/

set_option autoImplicit false

namespace SmoothCubical

/-- What a variable of a skeleton is: one that is bound in it, counted from the nearest binder, or
a term variable or an interval variable of a context, by its level. -/
inductive Name
  | bound (index : Nat)
  | level (level : Int)
  | point (level : Int)
deriving DecidableEq

namespace Name

/-- The name under one more binder. -/
def raise : Name → Name
  | .bound i => .bound (i + 1)
  | .level l => .level l
  | .point l => .point l

/-- A renaming under one more binder. -/
def lift (ρ : Name → Name) : Name → Name
  | .bound 0 => .bound 0
  | .bound (i + 1) => (ρ (.bound i)).raise
  | .level l => (ρ (.level l)).raise
  | .point l => (ρ (.point l)).raise

/-- Under a binder a name is the one that is bound there or comes from outside. -/
theorem eq_zero_or_raise (x : Name) : x = .bound 0 ∨ ∃ y : Name, x = y.raise := by
  obtain (_ | i) | l | l := x
  · exact .inl rfl
  · exact .inr ⟨.bound i, rfl⟩
  · exact .inr ⟨.level l, rfl⟩
  · exact .inr ⟨.point l, rfl⟩

/-- A lifted renaming does to raised names what the renaming does to names. -/
@[simp] theorem lift_raise (ρ : Name → Name) (x : Name) : lift ρ x.raise = (ρ x).raise := by
  cases x <;> rfl

/-- To lift two renamings is to lift their composite. -/
theorem lift_comp (ρ ρ' : Name → Name) : lift ρ' ∘ lift ρ = lift (ρ' ∘ ρ) := by
  funext x
  obtain rfl | ⟨y, rfl⟩ := x.eq_zero_or_raise
  · rfl
  · simp only [Function.comp_apply, lift_raise]

/-- Different names stay different under a binder. -/
theorem raise_injective : Function.Injective raise := by
  intro x y h
  cases x <;> cases y <;> simp_all [raise]

/-- No name that comes from outside a binder is the one it binds. -/
theorem raise_ne_bound_zero (x : Name) : x.raise ≠ .bound 0 := by
  cases x <;> simp [raise]

end Name

/-- Whether something is a function or a path. -/
inductive Mark
  | function
  | path
deriving DecidableEq

/-- The formers of types that have parts. -/
inductive Former
  | pi
  | path
  | smoothPath (order : Int)
deriving DecidableEq

/-- A term without Kan operations and without display names. -/
inductive Skeleton
  | var (name : Name)
  /-- A universe, or nothing. -/
  | const (value : Option Int)
  | lam (mark : Mark) (body : Skeleton)
  | app (mark : Mark) (function argument : Skeleton)
  | type (former : Former) (first second third : Skeleton)
deriving DecidableEq

namespace Skeleton

/-! ## Renaming and substitution -/

/-- Rename the free variables. -/
def rename : (Name → Name) → Skeleton → Skeleton
  | ρ, .var x => .var (ρ x)
  | _, .const u => .const u
  | ρ, .lam k b => .lam k (b.rename (Name.lift ρ))
  | ρ, .app k f a => .app k (f.rename ρ) (a.rename ρ)
  | ρ, .type h a b c => .type h (a.rename ρ) (b.rename ρ) (c.rename ρ)

/-- A substitution under one more binder. -/
def lift (θ : Name → Skeleton) : Name → Skeleton
  | .bound 0 => .var (.bound 0)
  | .bound (i + 1) => (θ (.bound i)).rename .raise
  | .level l => (θ (.level l)).rename .raise
  | .point l => (θ (.point l)).rename .raise

/-- Put skeletons for the free variables. -/
def subst : (Name → Skeleton) → Skeleton → Skeleton
  | θ, .var x => θ x
  | _, .const u => .const u
  | θ, .lam k b => .lam k (b.subst (lift θ))
  | θ, .app k f a => .app k (f.subst θ) (a.subst θ)
  | θ, .type h a b c => .type h (a.subst θ) (b.subst θ) (c.subst θ)

/-- The substitution that puts a skeleton for the nearest bound variable. -/
def nearest (u : Skeleton) : Name → Skeleton
  | .bound 0 => u
  | .bound (i + 1) => .var (.bound i)
  | .level l => .var (.level l)
  | .point l => .var (.point l)

/-- The body of an abstraction at an argument. -/
def inst (b u : Skeleton) : Skeleton :=
  b.subst (nearest u)

/-- A lifted substitution does to raised names what the substitution does to names. -/
@[simp] theorem lift_raise (θ : Name → Skeleton) (x : Name) :
    lift θ x.raise = (θ x).rename .raise := by
  cases x <;> rfl

/-- The substitution for the nearest variable leaves raised names alone. -/
@[simp] theorem nearest_raise (u : Skeleton) (x : Name) : nearest u x.raise = .var x := by
  cases x <;> rfl

/-- Two substitutions under a binder agree if they do so outside. -/
theorem lift_ext {θ θ' : Name → Skeleton} (hzero : θ (.bound 0) = θ' (.bound 0))
    (hraise : ∀ x : Name, θ x.raise = θ' x.raise) : θ = θ' := by
  funext x
  obtain rfl | ⟨y, rfl⟩ := x.eq_zero_or_raise
  · exact hzero
  · exact hraise y

/-- To rename twice is to rename by the composite. -/
theorem rename_rename (t : Skeleton) (ρ ρ' : Name → Name) :
    (t.rename ρ).rename ρ' = t.rename (ρ' ∘ ρ) := by
  induction t generalizing ρ ρ' with
  | var x => rfl
  | const u => rfl
  | lam k b ih => simp only [rename, ih, Name.lift_comp]
  | app k f a ihf iha => simp only [rename, ihf, iha]
  | type h a b c iha ihb ihc => simp only [rename, iha, ihb, ihc]

/-- To rename and then substitute is one substitution. -/
theorem subst_rename (t : Skeleton) (ρ : Name → Name) (θ : Name → Skeleton) :
    (t.rename ρ).subst θ = t.subst (θ ∘ ρ) := by
  induction t generalizing ρ θ with
  | var x => rfl
  | const u => rfl
  | lam k b ih =>
    have hlift : lift θ ∘ Name.lift ρ = lift (θ ∘ ρ) :=
      lift_ext rfl fun x => by simp only [Function.comp_apply, Name.lift_raise, lift_raise]
    simp only [rename, subst, ih, hlift]
  | app k f a ihf iha => simp only [rename, subst, ihf, iha]
  | type h a b c iha ihb ihc => simp only [rename, subst, iha, ihb, ihc]

/-- To substitute and then rename is one substitution. -/
theorem rename_subst (t : Skeleton) (θ : Name → Skeleton) (ρ : Name → Name) :
    (t.subst θ).rename ρ = t.subst fun x => (θ x).rename ρ := by
  induction t generalizing θ ρ with
  | var x => rfl
  | const u => rfl
  | lam k b ih =>
    have hlift : (fun x => (lift θ x).rename (Name.lift ρ)) = lift fun x => (θ x).rename ρ := by
      refine lift_ext rfl fun x => ?_
      have hraise : Name.lift ρ ∘ Name.raise = Name.raise ∘ ρ := funext (Name.lift_raise ρ)
      simp only [lift_raise, rename_rename, hraise]
    simp only [rename, subst, ih, hlift]
  | app k f a ihf iha => simp only [rename, subst, ihf, iha]
  | type h a b c iha ihb ihc => simp only [rename, subst, iha, ihb, ihc]

/-- To substitute twice is one substitution. -/
theorem subst_subst (t : Skeleton) (θ θ' : Name → Skeleton) :
    (t.subst θ).subst θ' = t.subst fun x => (θ x).subst θ' := by
  induction t generalizing θ θ' with
  | var x => rfl
  | const u => rfl
  | lam k b ih =>
    have hlift : (fun x => (lift θ x).subst (lift θ')) = lift fun x => (θ x).subst θ' := by
      refine lift_ext rfl fun x => ?_
      have hraise : lift θ' ∘ Name.raise = fun x => (θ' x).rename .raise :=
        funext (lift_raise θ')
      simp only [lift_raise, subst_rename, rename_subst, hraise]
    simp only [subst, ih, hlift]
  | app k f a ihf iha => simp only [subst, ihf, iha]
  | type h a b c iha ihb ihc => simp only [subst, iha, ihb, ihc]

/-- To put each variable for itself changes nothing. -/
@[simp] theorem subst_var (t : Skeleton) : t.subst .var = t := by
  induction t with
  | var x => rfl
  | const u => rfl
  | lam k b ih =>
    have hlift : lift .var = .var := lift_ext rfl fun x => by simp only [lift_raise, rename]
    simp only [subst, hlift, ih]
  | app k f a ihf iha => simp only [subst, ihf, iha]
  | type h a b c iha ihb ihc => simp only [subst, iha, ihb, ihc]

/-- To rename is to substitute variables. -/
theorem rename_eq_subst (t : Skeleton) (ρ : Name → Name) :
    t.rename ρ = t.subst fun x => .var (ρ x) := by
  rw [← subst_var (t.rename ρ), subst_rename]
  rfl

/-- A skeleton from outside a binder has nothing to put for the variable that it binds. -/
@[simp] theorem raise_inst (t u : Skeleton) : (t.rename .raise).inst u = t := by
  have hraise : nearest u ∘ Name.raise = .var := funext (nearest_raise u)
  rw [inst, subst_rename, hraise, subst_var]

/-- Substitution commutes with putting an argument for the nearest variable. -/
theorem inst_subst (b u : Skeleton) (θ : Name → Skeleton) :
    (b.inst u).subst θ = (b.subst (lift θ)).inst (u.subst θ) := by
  simp only [inst, subst_subst]
  congr 1
  refine lift_ext rfl fun x => ?_
  simp only [nearest_raise, lift_raise, subst]
  exact (raise_inst (θ x) (u.subst θ)).symm

/-! ## Parallel reduction -/

/-- One parallel step: some of the abstractions that are applied compute, all at once. -/
inductive Step : Skeleton → Skeleton → Prop
  | var (x : Name) : Step (.var x) (.var x)
  | const (u : Option Int) : Step (.const u) (.const u)
  | lam {k : Mark} {b b' : Skeleton} : Step b b' → Step (.lam k b) (.lam k b')
  | app {k : Mark} {f f' a a' : Skeleton} :
      Step f f' → Step a a' → Step (.app k f a) (.app k f' a')
  | type {h : Former} {a a' b b' c c' : Skeleton} :
      Step a a' → Step b b' → Step c c' → Step (.type h a b c) (.type h a' b' c')
  | beta {k : Mark} {b b' a a' : Skeleton} :
      Step b b' → Step a a' → Step (.app k (.lam k b) a) (b'.inst a')

namespace Step

/-- Nothing at all may compute. -/
theorem refl : ∀ t : Skeleton, Step t t
  | .var x => .var x
  | .const u => .const u
  | .lam _ b => .lam (refl b)
  | .app _ f a => .app (refl f) (refl a)
  | .type _ a b c => .type (refl a) (refl b) (refl c)

/-- Steps are kept by renaming. -/
theorem rename {t t' : Skeleton} (h : Step t t') (ρ : Name → Name) :
    Step (t.rename ρ) (t'.rename ρ) := by
  induction h generalizing ρ with
  | var x => exact .var _
  | const u => exact .const u
  | lam _ ih => exact .lam (ih _)
  | app _ _ ihf iha => exact .app (ihf ρ) (iha ρ)
  | type _ _ _ iha ihb ihc => exact .type (iha ρ) (ihb ρ) (ihc ρ)
  | @beta k b b' a a' _ _ ihb iha =>
    have heq : (b'.inst a').rename ρ = (b'.rename (Name.lift ρ)).inst (a'.rename ρ) := by
      have hlift : lift (fun x => .var (ρ x)) = fun x => .var (Name.lift ρ x) :=
        lift_ext rfl fun x => by simp only [lift_raise, Skeleton.rename, Name.lift_raise]
      rw [rename_eq_subst, inst_subst, hlift, ← rename_eq_subst, ← rename_eq_subst]
    rw [heq]
    exact .beta (ihb _) (iha ρ)

/-- Steps of what is substituted remain steps under a binder. -/
theorem lift {θ θ' : Name → Skeleton} (h : ∀ x, Step (θ x) (θ' x)) (x : Name) :
    Step (Skeleton.lift θ x) (Skeleton.lift θ' x) := by
  obtain rfl | ⟨y, rfl⟩ := x.eq_zero_or_raise
  · exact .var _
  · rw [lift_raise, lift_raise]
    exact (h y).rename _

/-- Steps are kept by substitution, of a skeleton and of what is put into it. -/
theorem subst {t t' : Skeleton} (h : Step t t') {θ θ' : Name → Skeleton}
    (hθ : ∀ x, Step (θ x) (θ' x)) : Step (t.subst θ) (t'.subst θ') := by
  induction h generalizing θ θ' with
  | var x => exact hθ x
  | const u => exact .const u
  | lam _ ih => exact .lam (ih (lift hθ))
  | app _ _ ihf iha => exact .app (ihf hθ) (iha hθ)
  | type _ _ _ iha ihb ihc => exact .type (iha hθ) (ihb hθ) (ihc hθ)
  | beta _ _ ihb iha =>
    rw [inst_subst]
    exact .beta (ihb (lift hθ)) (iha hθ)

/-- Steps are kept by putting an argument for the nearest variable. -/
theorem inst {b b' u u' : Skeleton} (hb : Step b b') (hu : Step u u') :
    Step (b.inst u) (b'.inst u') := by
  refine hb.subst fun x => ?_
  obtain rfl | ⟨y, rfl⟩ := x.eq_zero_or_raise
  · exact hu
  · rw [nearest_raise, nearest_raise]
    exact .var y

end Step

/-- The complete development: every abstraction that is applied computes, all at once. -/
def develop : Skeleton → Skeleton
  | .var x => .var x
  | .const u => .const u
  | .lam k b => .lam k b.develop
  | .app k (.lam k' b) a =>
    if k = k' then b.develop.inst a.develop else .app k (.lam k' b.develop) a.develop
  | .app k f a => .app k f.develop a.develop
  | .type h a b c => .type h a.develop b.develop c.develop

/-- Whatever a skeleton reduces to in one step reduces in one more to the complete development. -/
theorem Step.develop {t t' : Skeleton} (h : Step t t') : Step t' t.develop := by
  induction h with
  | var x => exact .var x
  | const u => exact .const u
  | lam _ ih => exact .lam ih
  | type _ _ _ iha ihb ihc => exact .type iha ihb ihc
  | beta _ _ ihb iha =>
    rw [Skeleton.develop, if_pos rfl]
    exact ihb.inst iha
  | @app k f f' a a' hf _ ihf iha =>
    -- Only an abstraction of the mark of the application computes in the development.
    cases hf with
    | @lam k' b b' hb =>
      cases ihf with
      | lam ihb =>
        rw [Skeleton.develop]
        split
        · next hk =>
          subst hk
          exact .beta ihb iha
        · exact .app (.lam ihb) iha
    | var x => exact .app ihf iha
    | const u => exact .app ihf iha
    | app _ _ => exact .app ihf iha
    | type _ _ _ => exact .app ihf iha
    | beta _ _ => exact .app ihf iha

/-! ## Reduction -/

/-- Some steps, one after the other. -/
def Reduces : Skeleton → Skeleton → Prop :=
  Relation.ReflTransGen Step

namespace Reduces

variable {t t' t'' : Skeleton}

/-- No step at all. -/
theorem refl (t : Skeleton) : Reduces t t :=
  Relation.ReflTransGen.refl

/-- Steps after steps. -/
theorem trans (h : Reduces t t') (h' : Reduces t' t'') : Reduces t t'' :=
  Relation.ReflTransGen.trans h h'

/-- A step in a place that keeps steps is a step, and so are many. -/
theorem congr {f : Skeleton → Skeleton} (hf : ∀ {t t'}, Step t t' → Step (f t) (f t'))
    (h : Reduces t t') : Reduces (f t) (f t') :=
  Relation.ReflTransGen.lift f (fun _ _ => hf) t t' h

/-- Steps are kept by renaming. -/
theorem rename (h : Reduces t t') (ρ : Name → Name) : Reduces (t.rename ρ) (t'.rename ρ) :=
  h.congr fun hstep => hstep.rename ρ

/-- The body of an abstraction reduces. -/
theorem lam (k : Mark) (h : Reduces t t') : Reduces (.lam k t) (.lam k t') :=
  h.congr .lam

/-- Both parts of an application reduce. -/
theorem app (k : Mark) {f f' a a' : Skeleton} (hf : Reduces f f') (ha : Reduces a a') :
    Reduces (.app k f a) (.app k f' a') :=
  (hf.congr fun hstep => .app hstep (.refl a)).trans (ha.congr (.app (.refl f')))

/-- All parts of a type reduce. -/
theorem type (h : Former) {a a' b b' c c' : Skeleton} (ha : Reduces a a') (hb : Reduces b b')
    (hc : Reduces c c') : Reduces (.type h a b c) (.type h a' b' c') := by
  have hfirst : Reduces (.type h a b c) (.type h a' b c) :=
    ha.congr fun hstep => .type hstep (.refl b) (.refl c)
  have hsecond : Reduces (.type h a' b c) (.type h a' b' c) :=
    hb.congr (f := fun x => .type h a' x c) fun hstep => .type (.refl a') hstep (.refl c)
  have hthird : Reduces (.type h a' b' c) (.type h a' b' c') :=
    hc.congr (.type (.refl a') (.refl b'))
  exact (hfirst.trans hsecond).trans hthird

/-- An abstraction that is applied gives its body at the argument. -/
theorem beta (k : Mark) (b u : Skeleton) : Reduces (.app k (.lam k b) u) (b.inst u) :=
  .single (.beta (.refl b) (.refl u))

/-- Reduction is confluent: what a skeleton reduces to in two ways comes together again. -/
theorem join {u v : Skeleton} (hu : Reduces t u) (hv : Reduces t v) :
    ∃ w, Reduces u w ∧ Reduces v w := by
  refine Relation.church_rosser (fun a b c hb hc => ?_) hu hv
  exact ⟨a.develop, .single hb.develop, .single hc.develop⟩

end Reduces

/-! ## Normal skeletons -/

/-- Whether the skeleton is an abstraction. -/
def isLam : Skeleton → Bool
  | .lam _ _ => true
  | _ => false

/-- Whether no abstraction is applied in the skeleton. -/
def isNormal : Skeleton → Bool
  | .var _ => true
  | .const _ => true
  | .lam _ b => b.isNormal
  | .app _ f a => !f.isLam && f.isNormal && a.isNormal
  | .type _ a b c => a.isNormal && b.isNormal && c.isNormal

/-- A normal skeleton steps to itself only. -/
theorem Step.eq_of_isNormal {t t' : Skeleton} (h : Step t t') (ht : t.isNormal = true) :
    t' = t := by
  induction h with
  | var x => rfl
  | const u => rfl
  | lam _ ih => rw [ih ht]
  | app _ _ ihf iha =>
    simp only [isNormal, Bool.and_eq_true] at ht
    rw [ihf ht.1.2, iha ht.2]
  | type _ _ _ iha ihb ihc =>
    simp only [isNormal, Bool.and_eq_true] at ht
    rw [iha ht.1.1, ihb ht.1.2, ihc ht.2]
  | beta _ _ _ _ => simp [isNormal, isLam] at ht

/-- A normal skeleton reduces to itself only. -/
theorem Reduces.eq_of_isNormal {t t' : Skeleton} (h : Reduces t t') (ht : t.isNormal = true) :
    t' = t := by
  induction h with
  | refl => rfl
  | tail _ hstep ih =>
    subst ih
    exact hstep.eq_of_isNormal ht

/-- What reduces to a normal skeleton still does so after some steps. -/
theorem Reduces.after {t u n : Skeleton} (hu : Reduces t u) (hn : Reduces t n)
    (hnormal : n.isNormal = true) : Reduces u n := by
  obtain ⟨w, huw, hnw⟩ := hu.join hn
  rwa [hnw.eq_of_isNormal hnormal] at huw

/-- A skeleton reduces to at most one normal skeleton. -/
theorem Reduces.unique {t n n' : Skeleton} (hn : Reduces t n) (hn' : Reduces t n')
    (hnormal : n.isNormal = true) (hnormal' : n'.isNormal = true) : n = n' :=
  ((hn.after hn' hnormal').eq_of_isNormal hnormal).symm

/-! ## The names of a skeleton -/

/-- Every level in the skeleton is below `d`, and every level of an interval variable below `e`. -/
def Below (d e : Int) : Skeleton → Prop
  | .var (.bound _) => True
  | .var (.level l) => l < d
  | .var (.point l) => l < e
  | .const _ => True
  | .lam _ b => b.Below d e
  | .app _ f a => f.Below d e ∧ a.Below d e
  | .type _ a b c => a.Below d e ∧ b.Below d e ∧ c.Below d e

namespace Below

variable {d d' e e' : Int}

/-- The bounds may be raised. -/
theorem mono (hd : d ≤ d') (he : e ≤ e') : ∀ {t : Skeleton}, t.Below d e → t.Below d' e'
  | .var (.bound _), _ => trivial
  | .var (.level _), h => Int.lt_of_lt_of_le h hd
  | .var (.point _), h => Int.lt_of_lt_of_le h he
  | .const _, _ => trivial
  | .lam _ b, h => mono hd he (t := b) h
  | .app _ _ _, h => ⟨h.1.mono hd he, h.2.mono hd he⟩
  | .type _ _ _ _, h => ⟨h.1.mono hd he, h.2.1.mono hd he, h.2.2.mono hd he⟩

/-- A name has the same level under a binder. -/
theorem var_raise {x : Name} : (var x.raise).Below d e ↔ (var x).Below d e := by
  cases x <;> rfl

/-- The bounds are kept by a renaming that keeps them for names. -/
theorem rename {ρ : Name → Name} (hρ : ∀ x, (var x).Below d e → (var (ρ x)).Below d e)
    {t : Skeleton} (h : t.Below d e) : (t.rename ρ).Below d e := by
  induction t generalizing ρ with
  | var x => exact hρ x h
  | const u => trivial
  | lam k b ih =>
    refine ih (fun x hx => ?_) h
    obtain rfl | ⟨y, rfl⟩ := x.eq_zero_or_raise
    · trivial
    · rw [Name.lift_raise]
      exact var_raise.2 (hρ y (var_raise.1 hx))
  | app k f a ihf iha => exact ⟨ihf hρ h.1, iha hρ h.2⟩
  | type k a b c iha ihb ihc => exact ⟨iha hρ h.1, ihb hρ h.2.1, ihc hρ h.2.2⟩

/-- The bounds are kept under a binder. -/
theorem raise {t : Skeleton} (h : t.Below d e) : (t.rename .raise).Below d e :=
  h.rename fun _ => var_raise.2

/-- The bounds are kept by a substitution of skeletons that have them. -/
theorem subst {θ : Name → Skeleton} (hθ : ∀ x, (var x).Below d e → (θ x).Below d e)
    {t : Skeleton} (h : t.Below d e) : (t.subst θ).Below d e := by
  induction t generalizing θ with
  | var x => exact hθ x h
  | const u => trivial
  | lam k b ih =>
    refine ih (fun x hx => ?_) h
    obtain rfl | ⟨y, rfl⟩ := x.eq_zero_or_raise
    · trivial
    · rw [lift_raise]
      exact (hθ y (var_raise.1 hx)).raise
  | app k f a ihf iha => exact ⟨ihf hθ h.1, iha hθ h.2⟩
  | type k a b c iha ihb ihc => exact ⟨iha hθ h.1, ihb hθ h.2.1, ihc hθ h.2.2⟩

/-- The bounds are kept by putting an argument for the nearest variable. -/
theorem inst {b u : Skeleton} (hb : b.Below d e) (hu : u.Below d e) : (b.inst u).Below d e := by
  refine hb.subst fun x hx => ?_
  obtain rfl | ⟨y, rfl⟩ := x.eq_zero_or_raise
  · exact hu
  · rw [nearest_raise]
    exact var_raise.1 hx

/-- A step brings in no new names. -/
theorem step {t t' : Skeleton} (h : t.Below d e) (hstep : Step t t') : t'.Below d e := by
  induction hstep with
  | var x => exact h
  | const u => trivial
  | lam _ ih => exact ih h
  | app _ _ ihf iha => exact ⟨ihf h.1, iha h.2⟩
  | type _ _ _ iha ihb ihc => exact ⟨iha h.1, ihb h.2.1, ihc h.2.2⟩
  | beta _ _ ihb iha => exact (ihb h.1).inst (iha h.2)

/-- Reduction brings in no new names. -/
theorem reduces {t t' : Skeleton} (h : t.Below d e) (hred : Reduces t t') : t'.Below d e := by
  induction hred with
  | refl => exact h
  | tail _ hstep ih => exact ih.step hstep

/-- A substitution that leaves bound names and those below the bounds alone changes nothing. -/
theorem subst_eq_self {θ : Name → Skeleton} (hθ : ∀ x, (var x).Below d e → θ x = .var x)
    {t : Skeleton} (h : t.Below d e) : t.subst θ = t := by
  induction t generalizing θ with
  | var x => exact hθ x h
  | const u => rfl
  | lam k b ih =>
    refine congrArg (Skeleton.lam k) (ih (fun x hx => ?_) h)
    obtain rfl | ⟨y, rfl⟩ := x.eq_zero_or_raise
    · rfl
    · rw [lift_raise, hθ y (var_raise.1 hx), Skeleton.rename]
  | app k f a ihf iha => rw [Skeleton.subst, ihf hθ h.1, iha hθ h.2]
  | type k a b c iha ihb ihc => rw [Skeleton.subst, iha hθ h.1, ihb hθ h.2.1, ihc hθ h.2.2]

end Below

end Skeleton

end SmoothCubical
