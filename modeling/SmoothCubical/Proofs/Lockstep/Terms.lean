import SmoothCubical.Syntax.Scope
import SmoothCubical.Cofibration
import SmoothCubical.Proofs.Index

/-!
# Terms in correspondence

Two runs of the kernel often do the same thing at the same time although the terms they start
from, or the environments these stand in, are not the same. A `Correspondence` says in what the
two may differ. This file relates their syntax: two terms match if one becomes the other when its
variables are exchanged for those that they stand for. Which variables stand for which is given by
one relation on term indices and one on interval indices, and both move under binders.

An index that is related to nothing may not occur. So terms that match and do not mention an
interval variable still match under the relation that leaves this variable out
(`Term.Matches.of_not_mentions`), and this is how the search for an interval variable meets
evaluation.
-/

set_option autoImplicit false

namespace SmoothCubical

/-- What may differ between two runs that go in step. -/
structure Correspondence where
  /-- The levels of term variables that stand for each other. -/
  level : Int → Int → Prop
  /-- The display names that stand for each other. -/
  name : String → String → Prop
  /-- The indices that may be reported as unbound for each other. -/
  unbound : Int → Int → Prop
  /-- The numbers of the arguments that may be looked at. -/
  argument : Nat → Prop
  /-- The name that compositions of paths invent stands for itself. -/
  name_path : name "k" "k"
  unbound_refl : ∀ i : Int, unbound i i
  unbound_succ : ∀ {i j : Int}, unbound i j → unbound (i + 1) (j + 1)

/-- Two runs that differ in no name, no level and no index. -/
def Correspondence.same : Correspondence where
  level i j := i = j
  name x y := x = y
  unbound i j := i = j
  argument _ := True
  name_path := rfl
  unbound_refl _ := rfl
  unbound_succ h := by rw [h]

/-! ## Indices under binders -/

/-- The relation on indices under one more binder. Negative indices name nothing, at any depth,
and stay as they are. -/
inductive Under (R : Int → Int → Prop) : Int → Int → Prop
  | nearest : Under R 0 0
  | outer {i j : Int} : 0 ≤ i → 0 ≤ j → R i j → Under R (i + 1) (j + 1)
  | negative {i j : Int} : i < 0 → j < 0 → R i j → Under R i j

namespace Under

variable {R S : Int → Int → Prop}

/-- What is related under a binder stays so if more indices are related outside. -/
theorem mono (h : ∀ i j, R i j → S i j) {i j : Int} : Under R i j → Under S i j
  | .nearest => .nearest
  | .outer hi hj r => .outer hi hj (h _ _ r)
  | .negative hi hj r => .negative hi hj (h _ _ r)

/-- If all that is related but for `k` stays related, then under a binder all but `k + 1` does. -/
theorem mono_of_ne {k : Int} (hk : 0 ≤ k) (h : ∀ i j, R i j → i ≠ k → S i j) {i j : Int} :
    Under R i j → i ≠ k + 1 → Under S i j
  | .nearest, _ => .nearest
  | .outer hi hj r, hne => .outer hi hj (h _ _ r (by omega))
  | .negative hi hj r, _ => .negative hi hj (h _ _ r (by omega))

/-- If every index stands for itself, every index does so under a binder, too. -/
theorem refl (h : ∀ i, R i i) (i : Int) : Under R i i := by
  rcases Int.lt_trichotomy i 0 with hneg | rfl | hpos
  · exact .negative hneg hneg (h i)
  · exact .nearest
  · simpa using Under.outer (i := i - 1) (by omega) (by omega) (h (i - 1))

/-- If indices stand for themselves only, they do so under a binder, too. -/
theorem eq (h : ∀ i j, R i j → i = j) {i j : Int} : Under R i j → i = j
  | .nearest => rfl
  | .outer _ _ r => by rw [h _ _ r]
  | .negative _ _ r => h _ _ r

/-- The nearest binder stands for itself only. -/
theorem eq_zero_iff {i j : Int} : Under R i j → (i = 0 ↔ j = 0)
  | .nearest => Iff.rfl
  | .outer hi hj _ => by omega
  | .negative hi hj _ => by omega

/-- A variable that stands for one other only does so under a binder, too. -/
theorem eq_succ_iff {k l : Int} (hk : 0 ≤ k) (hl : 0 ≤ l) (h : ∀ i j, R i j → (i = k ↔ j = l))
    {i j : Int} : Under R i j → (i = k + 1 ↔ j = l + 1)
  | .nearest => by omega
  | .outer _ _ r => by have := h _ _ r; omega
  | .negative hi hj _ => by omega

end Under

/-- Under a binder, too, every variable stands for itself. -/
theorem under_eq : Under (fun i j : Int => i = j) = fun i j => i = j := by
  funext i j
  exact propext ⟨Under.eq fun _ _ h => h, fun h => h ▸ Under.refl (fun _ => rfl) i⟩

/-! ## Matching syntax -/

/-- Dimensions that match. -/
inductive Dim.Matches (D : Int → Int → Prop) : Dim → Dim → Prop
  | zero : Matches D .zero .zero
  | one : Matches D .one .one
  | var {i j : Int} : D i j → Matches D (.var i) (.var j)
  | missing : Matches D .missing .missing

/-- Face formulas that match. -/
inductive Face.Matches (D : Int → Int → Prop) : Face → Face → Prop
  | top : Matches D .top .top
  | bottom : Matches D .bottom .bottom
  | equation {i j : Int} {e : Endpoint} : D i j → Matches D (.eq i e) (.eq j e)
  | and {φ ψ φ' ψ' : Face} :
      Matches D φ φ' → Matches D ψ ψ' → Matches D (.and φ ψ) (.and φ' ψ')
  | or {φ ψ φ' ψ' : Face} :
      Matches D φ φ' → Matches D ψ ψ' → Matches D (.or φ ψ) (.or φ' ψ')
  | missing : Matches D .missing .missing

mutual

/-- Terms that match, under relations on term indices and on interval indices. -/
inductive Term.Matches (C : Correspondence) :
    (V D : Int → Int → Prop) → Term → Term → Prop
  | univ {V D : Int → Int → Prop} {level : Int} :
      Term.Matches C V D (.univ level) (.univ level)
  | var {V D : Int → Int → Prop} {i j : Int} :
      V i j → Term.Matches C V D (.var i) (.var j)
  | pi {V D : Int → Int → Prop} {x y : String} {a a' b b' : Term} :
      C.name x y → Term.Matches C V D a a' → Term.Matches C (Under V) D b b' →
        Term.Matches C V D (.pi x a b) (.pi y a' b')
  | lam {V D : Int → Int → Prop} {x y : String} {b b' : Term} :
      C.name x y → Term.Matches C (Under V) D b b' →
        Term.Matches C V D (.lam x b) (.lam y b')
  | app {V D : Int → Int → Prop} {f f' a a' : Term} :
      Term.Matches C V D f f' → Term.Matches C V D a a' →
        Term.Matches C V D (.app f a) (.app f' a')
  | path {V D : Int → Int → Prop} {a a' l l' r r' : Term} :
      Term.Matches C V D a a' → Term.Matches C V D l l' → Term.Matches C V D r r' →
        Term.Matches C V D (.path a l r) (.path a' l' r')
  | pathLam {V D : Int → Int → Prop} {x y : String} {b b' : Term} :
      C.name x y → Term.Matches C V (Under D) b b' →
        Term.Matches C V D (.pathLam x b) (.pathLam y b')
  | pathApp {V D : Int → Int → Prop} {p p' : Term} {d d' : Dim} :
      Term.Matches C V D p p' → d.Matches D d' →
        Term.Matches C V D (.pathApp p d) (.pathApp p' d')
  | smoothPath {V D : Int → Int → Prop} {order : Int} {a a' l l' r r' : Term} :
      Term.Matches C V D a a' → Term.Matches C V D l l' → Term.Matches C V D r r' →
        Term.Matches C V D (.smoothPath order a l r) (.smoothPath order a' l' r')
  | comp {V D : Int → Int → Prop} {s s' t t' : Dim} {a a' b b' : Term}
      {faces faces' : List (Face × Term)} :
      s.Matches D s' → t.Matches D t' → Term.Matches C V (Under D) a a' →
        Term.BranchesMatch C V D faces faces' → Term.Matches C V D b b' →
        Term.Matches C V D (.comp s t a faces b) (.comp s' t' a' faces' b')
  | coe {V D : Int → Int → Prop} {s s' t t' : Dim} {a a' b b' : Term} :
      s.Matches D s' → t.Matches D t' → Term.Matches C V (Under D) a a' →
        Term.Matches C V D b b' →
        Term.Matches C V D (.coe s t a b) (.coe s' t' a' b')
  | hcomp {V D : Int → Int → Prop} {a a' b b' : Term} {faces faces' : List (Face × Term)} :
      Term.Matches C V D a a' → Term.BranchesMatch C V D faces faces' →
        Term.Matches C V D b b' →
        Term.Matches C V D (.hcomp a faces b) (.hcomp a' faces' b')
  | missing {V D : Int → Int → Prop} : Term.Matches C V D .missing .missing

/-- Partial elements that match one by one: formulas around the direction, bodies under it. -/
inductive Term.BranchesMatch (C : Correspondence) :
    (V D : Int → Int → Prop) → List (Face × Term) → List (Face × Term) → Prop
  | nil {V D : Int → Int → Prop} : Term.BranchesMatch C V D [] []
  | cons {V D : Int → Int → Prop} {φ φ' : Face} {u u' : Term} {rest rest' : List (Face × Term)} :
      φ.Matches D φ' → Term.Matches C V (Under D) u u' →
        Term.BranchesMatch C V D rest rest' →
        Term.BranchesMatch C V D ((φ, u) :: rest) ((φ', u') :: rest')

end

/-! ## More relations, more matches -/

/-- Dimensions that match still do so if more indices are related. -/
theorem Dim.Matches.mono {D E : Int → Int → Prop} (h : ∀ i j, D i j → E i j) {d d' : Dim} :
    d.Matches D d' → d.Matches E d'
  | .zero => .zero
  | .one => .one
  | .var r => .var (h _ _ r)
  | .missing => .missing

/-- Face formulas that match still do so if more indices are related. -/
theorem Face.Matches.mono {D E : Int → Int → Prop} (h : ∀ i j, D i j → E i j) {φ φ' : Face} :
    φ.Matches D φ' → φ.Matches E φ'
  | .top => .top
  | .bottom => .bottom
  | .equation r => .equation (h _ _ r)
  | .and a b => .and (a.mono h) (b.mono h)
  | .or a b => .or (a.mono h) (b.mono h)
  | .missing => .missing

namespace Term

variable {C : Correspondence}

mutual

/-- Terms that match still match when more indices are related. -/
theorem Matches.mono {V D V' D' : Int → Int → Prop} (hV : ∀ i j, V i j → V' i j)
    (hD : ∀ i j, D i j → D' i j) {t t' : Term} :
    Term.Matches C V D t t' → Term.Matches C V' D' t t'
  | .univ => .univ
  | .var r => .var (hV _ _ r)
  | .pi n a b => .pi n (a.mono hV hD) (b.mono (fun _ _ => Under.mono hV) hD)
  | .lam n b => .lam n (b.mono (fun _ _ => Under.mono hV) hD)
  | .app f a => .app (f.mono hV hD) (a.mono hV hD)
  | .path a l r => .path (a.mono hV hD) (l.mono hV hD) (r.mono hV hD)
  | .pathLam n b => .pathLam n (b.mono hV fun _ _ => Under.mono hD)
  | .pathApp p d => .pathApp (p.mono hV hD) (d.mono hD)
  | .smoothPath a l r => .smoothPath (a.mono hV hD) (l.mono hV hD) (r.mono hV hD)
  | .comp s t a fs b =>
    .comp (s.mono hD) (t.mono hD) (a.mono hV fun _ _ => Under.mono hD) (fs.mono hV hD)
      (b.mono hV hD)
  | .coe s t a b =>
    .coe (s.mono hD) (t.mono hD) (a.mono hV fun _ _ => Under.mono hD) (b.mono hV hD)
  | .hcomp a fs b => .hcomp (a.mono hV hD) (fs.mono hV hD) (b.mono hV hD)
  | .missing => .missing

/-- Partial elements that match still match when more indices are related. -/
theorem BranchesMatch.mono {V D V' D' : Int → Int → Prop} (hV : ∀ i j, V i j → V' i j)
    (hD : ∀ i j, D i j → D' i j) {fs fs' : List (Face × Term)} :
    Term.BranchesMatch C V D fs fs' → Term.BranchesMatch C V' D' fs fs'
  | .nil => .nil
  | .cons φ u rest =>
    .cons (φ.mono hD) (u.mono hV fun _ _ => Under.mono hD) (rest.mono hV hD)

end

end Term

/-! ## Matches are equal where nothing differs -/

/-- Dimensions that match are equal if indices stand for themselves only. -/
theorem Dim.Matches.eq {D : Int → Int → Prop} (h : ∀ i j, D i j → i = j) {d d' : Dim} :
    d.Matches D d' → d = d'
  | .zero => rfl
  | .one => rfl
  | .var r => by rw [h _ _ r]
  | .missing => rfl

/-- Face formulas that match are equal if indices stand for themselves only. -/
theorem Face.Matches.eq {D : Int → Int → Prop} (h : ∀ i j, D i j → i = j) {φ φ' : Face} :
    φ.Matches D φ' → φ = φ'
  | .top => rfl
  | .bottom => rfl
  | .equation r => by rw [h _ _ r]
  | .and a b => by rw [a.eq h, b.eq h]
  | .or a b => by rw [a.eq h, b.eq h]
  | .missing => rfl

namespace Term

variable {C : Correspondence}

mutual

/-- Terms that match are equal if names and indices stand for themselves only. -/
theorem Matches.eq (hN : ∀ x y, C.name x y → x = y) {V D : Int → Int → Prop}
    (hV : ∀ i j, V i j → i = j) (hD : ∀ i j, D i j → i = j) {t t' : Term} :
    Term.Matches C V D t t' → t = t'
  | .univ => rfl
  | .var r => by rw [hV _ _ r]
  | .pi n a b => by rw [hN _ _ n, a.eq hN hV hD, b.eq hN (fun _ _ => Under.eq hV) hD]
  | .lam n b => by rw [hN _ _ n, b.eq hN (fun _ _ => Under.eq hV) hD]
  | .app f a => by rw [f.eq hN hV hD, a.eq hN hV hD]
  | .path a l r => by rw [a.eq hN hV hD, l.eq hN hV hD, r.eq hN hV hD]
  | .pathLam n b => by rw [hN _ _ n, b.eq hN hV fun _ _ => Under.eq hD]
  | .pathApp p d => by rw [p.eq hN hV hD, d.eq hD]
  | .smoothPath a l r => by rw [a.eq hN hV hD, l.eq hN hV hD, r.eq hN hV hD]
  | .comp s t a fs b => by
    rw [s.eq hD, t.eq hD, a.eq hN hV fun _ _ => Under.eq hD, fs.eq hN hV hD, b.eq hN hV hD]
  | .coe s t a b => by
    rw [s.eq hD, t.eq hD, a.eq hN hV fun _ _ => Under.eq hD, b.eq hN hV hD]
  | .hcomp a fs b => by rw [a.eq hN hV hD, fs.eq hN hV hD, b.eq hN hV hD]
  | .missing => rfl

/-- Partial elements that match are equal if names and indices stand for themselves only. -/
theorem BranchesMatch.eq (hN : ∀ x y, C.name x y → x = y) {V D : Int → Int → Prop}
    (hV : ∀ i j, V i j → i = j) (hD : ∀ i j, D i j → i = j) {fs fs' : List (Face × Term)} :
    Term.BranchesMatch C V D fs fs' → fs = fs'
  | .nil => rfl
  | .cons φ u rest => by
    rw [φ.eq hD, u.eq hN hV fun _ _ => Under.eq hD, rest.eq hN hV hD]

end

end Term

/-! ## Matches mention the same interval variables -/

/-- Of two dimensions that match, both mention a variable or neither does, if it stands for one
other only. -/
theorem Dim.Matches.mentions_eq {D : Int → Int → Prop} {k l : Int}
    (h : ∀ i j, D i j → (i = k ↔ j = l)) {d d' : Dim} :
    d.Matches D d' → d.mentions k = d'.mentions l
  | .zero => rfl
  | .one => rfl
  | .var r => by rw [Bool.eq_iff_iff]; simp [Dim.mentions, h _ _ r]
  | .missing => rfl

/-- Of two face formulas that match, both mention a variable or neither does, if it stands for one
other only. -/
theorem Face.Matches.mentions_eq {D : Int → Int → Prop} {k l : Int}
    (h : ∀ i j, D i j → (i = k ↔ j = l)) {φ φ' : Face} :
    φ.Matches D φ' → φ.mentions k = φ'.mentions l
  | .top => rfl
  | .bottom => rfl
  | .equation r => by rw [Bool.eq_iff_iff]; simp [Face.mentions, h _ _ r]
  | .and a b => by simp only [Face.mentions, a.mentions_eq h, b.mentions_eq h]
  | .or a b => by simp only [Face.mentions, a.mentions_eq h, b.mentions_eq h]
  | .missing => rfl

namespace Term

variable {C : Correspondence}

mutual

/-- If two interval variables stand for each other only, one of two matching terms mentions the
first exactly when the other mentions the second. -/
theorem Matches.mentions_eq {V D : Int → Int → Prop} {k l : Int} (hk : 0 ≤ k) (hl : 0 ≤ l)
    (h : ∀ i j, D i j → (i = k ↔ j = l)) {t t' : Term} :
    Term.Matches C V D t t' → t.mentions k = t'.mentions l
  | .univ => rfl
  | .var _ => rfl
  | .pi _ a b => by simp only [mentions, a.mentions_eq hk hl h, b.mentions_eq hk hl h]
  | .lam _ b => by simp only [mentions, b.mentions_eq hk hl h]
  | .app f a => by simp only [mentions, f.mentions_eq hk hl h, a.mentions_eq hk hl h]
  | .path a b c => by
    simp only [mentions, a.mentions_eq hk hl h, b.mentions_eq hk hl h, c.mentions_eq hk hl h]
  | .pathLam _ b => by
    simp only [mentions,
      b.mentions_eq (by omega) (by omega) fun _ _ => Under.eq_succ_iff hk hl h]
  | .pathApp p d => by simp only [mentions, p.mentions_eq hk hl h, d.mentions_eq h]
  | .smoothPath a b c => by
    simp only [mentions, a.mentions_eq hk hl h, b.mentions_eq hk hl h, c.mentions_eq hk hl h]
  | .comp s t a fs b => by
    simp only [mentions, s.mentions_eq h, t.mentions_eq h, fs.mentions_eq hk hl h,
      b.mentions_eq hk hl h,
      a.mentions_eq (by omega) (by omega) fun _ _ => Under.eq_succ_iff hk hl h]
  | .coe s t a b => by
    simp only [mentions, s.mentions_eq h, t.mentions_eq h, b.mentions_eq hk hl h,
      a.mentions_eq (by omega) (by omega) fun _ _ => Under.eq_succ_iff hk hl h]
  | .hcomp a fs b => by
    simp only [mentions, a.mentions_eq hk hl h, fs.mentions_eq hk hl h, b.mentions_eq hk hl h]
  | .missing => rfl

/-- The same for partial elements. -/
theorem BranchesMatch.mentions_eq {V D : Int → Int → Prop} {k l : Int} (hk : 0 ≤ k) (hl : 0 ≤ l)
    (h : ∀ i j, D i j → (i = k ↔ j = l)) {fs fs' : List (Face × Term)} :
    Term.BranchesMatch C V D fs fs' → mentionsBranches k fs = mentionsBranches l fs'
  | .nil => rfl
  | .cons φ u rest => by
    simp only [mentionsBranches, φ.mentions_eq h, rest.mentions_eq hk hl h,
      u.mentions_eq (by omega) (by omega) fun _ _ => Under.eq_succ_iff hk hl h]

end

end Term

/-! ## What is not mentioned need not be related -/

namespace Term

/-- The search ends without success if both of its parts do. -/
theorem search_eq_false {x y : Except Fault Bool} :
    (x >>= fun found => if found = true then pure true else y) = .ok false ↔
      x = .ok false ∧ y = .ok false := by
  rcases x with _ | _ | _ <;> simp [bind, Except.bind, pure, Except.pure]

/-- A search that stops at the first hit has found nothing only if there is no hit in either part.
-/
theorem ite_eq_false {b : Bool} {y : Except Fault Bool} :
    (if b = true then pure true else y) = .ok false ↔ b = false ∧ y = .ok false := by
  cases b <;> simp [pure, Except.pure]

end Term

/-- Dimensions that match and do not mention a variable match without it. -/
theorem Dim.Matches.of_not_mentions {D E : Int → Int → Prop} {k : Int}
    (hE : ∀ i j, D i j → i ≠ k → E i j) {d d' : Dim} :
    d.Matches D d' → d.mentions k = false → d.Matches E d'
  | .zero, _ => .zero
  | .one, _ => .one
  | .var r, h => .var (hE _ _ r (by simpa [Dim.mentions] using h))
  | .missing, _ => .missing

/-- Face formulas that match and do not mention a variable match without it. -/
theorem Face.Matches.of_not_mentions {D E : Int → Int → Prop} {k : Int}
    (hE : ∀ i j, D i j → i ≠ k → E i j) {φ φ' : Face} :
    φ.Matches D φ' → φ.mentions k = false → φ.Matches E φ'
  | .top, _ => .top
  | .bottom, _ => .bottom
  | .equation r, h => .equation (hE _ _ r (by simpa [Face.mentions] using h))
  | .and a b, h => by
    obtain ⟨ha, hb⟩ := Bool.or_eq_false_iff.1 h
    exact .and (a.of_not_mentions hE ha) (b.of_not_mentions hE hb)
  | .or a b, h => by
    obtain ⟨ha, hb⟩ := Bool.or_eq_false_iff.1 h
    exact .or (a.of_not_mentions hE ha) (b.of_not_mentions hE hb)
  | .missing, _ => .missing

namespace Term

variable {C : Correspondence}

mutual

/-- If the first of two matching terms does not mention an interval variable, that variable need
not be related to any. -/
theorem Matches.of_not_mentions {V D E : Int → Int → Prop} {k : Int} (hk : 0 ≤ k)
    (hE : ∀ i j, D i j → i ≠ k → E i j) {t t' : Term} :
    Term.Matches C V D t t' → t.mentions k = .ok false → Term.Matches C V E t t'
  | .univ, _ => .univ
  | .var r, _ => .var r
  | .pi n a b, h => by
    obtain ⟨ha, hb⟩ := search_eq_false.1 h
    exact .pi n (a.of_not_mentions hk hE ha) (b.of_not_mentions hk hE hb)
  | .lam n b, h => .lam n (b.of_not_mentions hk hE h)
  | .app f a, h => by
    obtain ⟨hf, ha⟩ := search_eq_false.1 h
    exact .app (f.of_not_mentions hk hE hf) (a.of_not_mentions hk hE ha)
  | .path a l r, h => by
    obtain ⟨ha, hends⟩ := search_eq_false.1 h
    obtain ⟨hl, hr⟩ := search_eq_false.1 hends
    exact .path (a.of_not_mentions hk hE ha) (l.of_not_mentions hk hE hl)
      (r.of_not_mentions hk hE hr)
  | .pathLam n b, h =>
    .pathLam n (b.of_not_mentions (by omega) (fun _ _ => Under.mono_of_ne hk hE) h)
  | .pathApp p d, h => by
    obtain ⟨hd, hp⟩ := ite_eq_false.1 h
    exact .pathApp (p.of_not_mentions hk hE hp) (d.of_not_mentions hE hd)
  | .smoothPath a l r, h => by
    obtain ⟨ha, hends⟩ := search_eq_false.1 h
    obtain ⟨hl, hr⟩ := search_eq_false.1 hends
    exact .smoothPath (a.of_not_mentions hk hE ha) (l.of_not_mentions hk hE hl)
      (r.of_not_mentions hk hE hr)
  | .comp s t a fs b, h => by
    obtain ⟨hst, hparts⟩ := ite_eq_false.1 h
    obtain ⟨ht, hs⟩ := Bool.or_eq_false_iff.1 hst
    obtain ⟨ha, hrest⟩ := search_eq_false.1 hparts
    obtain ⟨hb, hfs⟩ := search_eq_false.1 hrest
    exact .comp (s.of_not_mentions hE hs) (t.of_not_mentions hE ht)
      (a.of_not_mentions (by omega) (fun _ _ => Under.mono_of_ne hk hE) ha)
      (fs.of_not_mentions hk hE hfs) (b.of_not_mentions hk hE hb)
  | .coe s t a b, h => by
    obtain ⟨hst, hparts⟩ := ite_eq_false.1 h
    obtain ⟨hs, ht⟩ := Bool.or_eq_false_iff.1 hst
    obtain ⟨ha, hb⟩ := search_eq_false.1 hparts
    exact .coe (s.of_not_mentions hE hs) (t.of_not_mentions hE ht)
      (a.of_not_mentions (by omega) (fun _ _ => Under.mono_of_ne hk hE) ha)
      (b.of_not_mentions hk hE hb)
  | .hcomp a fs b, h => by
    obtain ⟨ha, hrest⟩ := search_eq_false.1 h
    obtain ⟨hb, hfs⟩ := search_eq_false.1 hrest
    exact .hcomp (a.of_not_mentions hk hE ha) (fs.of_not_mentions hk hE hfs)
      (b.of_not_mentions hk hE hb)
  | .missing, _ => .missing

/-- The same for partial elements. -/
theorem BranchesMatch.of_not_mentions {V D E : Int → Int → Prop} {k : Int} (hk : 0 ≤ k)
    (hE : ∀ i j, D i j → i ≠ k → E i j) {fs fs' : List (Face × Term)} :
    Term.BranchesMatch C V D fs fs' → mentionsBranches k fs = .ok false →
      Term.BranchesMatch C V E fs fs'
  | .nil, _ => .nil
  | .cons φ u rest, h => by
    obtain ⟨hφ, hparts⟩ := ite_eq_false.1 h
    obtain ⟨hu, hrest⟩ := search_eq_false.1 hparts
    exact .cons (φ.of_not_mentions hE hφ)
      (u.of_not_mentions (by omega) (fun _ _ => Under.mono_of_ne hk hE) hu)
      (rest.of_not_mentions hk hE hrest)

end

end Term

/-! ## A term matches itself where all stands for itself -/

/-- Every dimension matches itself if every index stands for itself. -/
theorem Dim.matches_refl {D : Int → Int → Prop} (hD : ∀ i, D i i) : ∀ d : Dim, d.Matches D d
  | .zero => .zero
  | .one => .one
  | .var i => .var (hD i)
  | .missing => .missing

/-- Every face formula matches itself if every index stands for itself. -/
theorem Face.matches_refl {D : Int → Int → Prop} (hD : ∀ i, D i i) : ∀ φ : Face, φ.Matches D φ
  | .top => .top
  | .bottom => .bottom
  | .eq i _ => .equation (hD i)
  | .and φ ψ => .and (φ.matches_refl hD) (ψ.matches_refl hD)
  | .or φ ψ => .or (φ.matches_refl hD) (ψ.matches_refl hD)
  | .missing => .missing

namespace Term

variable {C : Correspondence}

mutual

/-- Every term matches itself if every index and every name stands for itself. -/
theorem matches_refl (hN : ∀ x, C.name x x) {V D : Int → Int → Prop} (hV : ∀ i, V i i)
    (hD : ∀ i, D i i) : ∀ t : Term, Term.Matches C V D t t
  | .univ _ => .univ
  | .var i => .var (hV i)
  | .pi x a b => .pi (hN x) (a.matches_refl hN hV hD) (b.matches_refl hN (Under.refl hV) hD)
  | .lam x b => .lam (hN x) (b.matches_refl hN (Under.refl hV) hD)
  | .app f a => .app (f.matches_refl hN hV hD) (a.matches_refl hN hV hD)
  | .path a l r =>
    .path (a.matches_refl hN hV hD) (l.matches_refl hN hV hD) (r.matches_refl hN hV hD)
  | .pathLam x b => .pathLam (hN x) (b.matches_refl hN hV (Under.refl hD))
  | .pathApp p d => .pathApp (p.matches_refl hN hV hD) (d.matches_refl hD)
  | .smoothPath _ a l r =>
    .smoothPath (a.matches_refl hN hV hD) (l.matches_refl hN hV hD) (r.matches_refl hN hV hD)
  | .comp s t a fs b =>
    .comp (s.matches_refl hD) (t.matches_refl hD) (a.matches_refl hN hV (Under.refl hD))
      (branchesMatch_refl hN hV hD fs) (b.matches_refl hN hV hD)
  | .coe s t a b =>
    .coe (s.matches_refl hD) (t.matches_refl hD) (a.matches_refl hN hV (Under.refl hD))
      (b.matches_refl hN hV hD)
  | .hcomp a fs b =>
    .hcomp (a.matches_refl hN hV hD) (branchesMatch_refl hN hV hD fs) (b.matches_refl hN hV hD)
  | .missing => .missing

/-- Every system of partial elements matches itself if every index and every name stands for itself.
-/
theorem branchesMatch_refl (hN : ∀ x, C.name x x) {V D : Int → Int → Prop} (hV : ∀ i, V i i)
    (hD : ∀ i, D i i) : ∀ fs : List (Face × Term), Term.BranchesMatch C V D fs fs
  | [] => .nil
  | (φ, u) :: rest =>
    .cons (φ.matches_refl hD) (u.matches_refl hN hV (Under.refl hD))
      (branchesMatch_refl hN hV hD rest)

end

/-- Nothing differs between a term and itself. -/
theorem matches_same {V D : Int → Int → Prop} (hV : ∀ i, V i i) (hD : ∀ i, D i i) (t : Term) :
    Term.Matches Correspondence.same V D t t :=
  t.matches_refl (fun _ => rfl) hV hD

end Term

/-! ## Scopes -/

namespace Correspondence

variable (C : Correspondence)

/-- Faults that correspond. -/
inductive Faults : Fault → Fault → Prop
  | unboundVariable {i j : Int} : C.unbound i j → Faults (.unboundVariable i) (.unboundVariable j)
  | unboundDimension {i j : Int} :
      C.unbound i j → Faults (.unboundDimension i) (.unboundDimension j)
  | missingTerm : Faults .missingTerm .missingTerm
  | missingDim : Faults .missingDim .missingDim
  | missingFace : Faults .missingFace .missingFace
  | endpointRange {e : Int} : Faults (.endpointRange e) (.endpointRange e)

/-- Answers that correspond, where a piece of syntax may be at fault. -/
inductive Answers {α β : Type} (R : α → β → Prop) : Except Fault α → Except Fault β → Prop
  | ok {a : α} {b : β} : R a b → Answers R (.ok a) (.ok b)
  | error {f g : Fault} : C.Faults f g → Answers R (.error f) (.error g)

variable {C} in
/-- Every fault corresponds to itself. -/
theorem Faults.refl : ∀ f : Fault, C.Faults f f
  | .unboundVariable i => .unboundVariable (C.unbound_refl i)
  | .unboundDimension i => .unboundDimension (C.unbound_refl i)
  | .missingTerm => .missingTerm
  | .missingDim => .missingDim
  | .missingFace => .missingFace
  | .endpointRange _ => .endpointRange

variable {C} in
/-- An answer corresponds to itself if what it may hold is related to itself. -/
theorem Answers.refl {α : Type} {R : α → α → Prop} (hR : ∀ a, R a a) :
    ∀ x : Except Fault α, C.Answers R x x
  | .ok a => .ok (hR a)
  | .error f => .error (.refl f)

/-- Related indices are bound by both of two scopes or by neither. -/
def Bound {α β : Type} (V : Int → Int → Prop) (scope : List α) (scope' : List β) : Prop :=
  ∀ i j, V i j → (Index.get? scope i).isSome = (Index.get? scope' j).isSome ∧
    (Index.get? scope i = none → C.unbound i j)

/-- Interval environments that correspond: related indices have the same value, in dimensions as
well as in face formulas. -/
def Dims (D : Int → Int → Prop) (dims dims' : IntervalEnv) : Prop :=
  ∀ i j, D i j → C.Answers (· = ·) (IntervalEnv.find dims i) (IntervalEnv.find dims' j) ∧
    C.Answers (· = ·) (Face.point dims i) (Face.point dims' j)

variable {C}

/-- An interval environment corresponds to itself. -/
theorem Dims.refl (dims : IntervalEnv) : C.Dims (· = ·) dims dims := by
  rintro i _ rfl
  exact ⟨.refl (fun _ => rfl) _, .refl (fun _ => rfl) _⟩

/-- Two scopes in which the same indices are bound can be extended by one entry each. -/
theorem Bound.cons {α β : Type} {V : Int → Int → Prop} {scope : List α} {scope' : List β}
    (h : C.Bound V scope scope') (a : α) (b : β) :
    C.Bound (Under V) (a :: scope) (b :: scope') := by
  intro i j hij
  cases hij with
  | nearest => simp
  | outer hi hj r =>
    rw [Index.get?_cons_succ a scope hi, Index.get?_cons_succ b scope' hj]
    exact ⟨(h _ _ r).1, fun hn => C.unbound_succ ((h _ _ r).2 hn)⟩
  | negative hi hj r =>
    rw [Index.get?_neg _ hi, Index.get?_neg _ hj]
    exact ⟨rfl, fun _ => (h _ _ r).2 (Index.get?_neg _ hi)⟩

/-- Answers that correspond still do so after functions that take related results to related ones.
-/
theorem Answers.map {α β γ δ : Type} {R : α → β → Prop} {S : γ → δ → Prop}
    {x : Except Fault α} {y : Except Fault β} (h : C.Answers R x y) {f : α → γ} {g : β → δ}
    (hfg : ∀ a b, R a b → S (f a) (g b)) : C.Answers S (x.map f) (y.map g) := by
  cases h with
  | ok r => exact .ok (hfg _ _ r)
  | error e => exact .error e

/-- Answers that correspond can be gone on from by functions that answer alike. -/
theorem Answers.bind {α β γ δ : Type} {R : α → β → Prop} {S : γ → δ → Prop}
    {x : Except Fault α} {y : Except Fault β} (h : C.Answers R x y) {f : α → Except Fault γ}
    {g : β → Except Fault δ} (hfg : ∀ a b, R a b → C.Answers S (f a) (g b)) :
    C.Answers S (x >>= f) (y >>= g) := by
  cases h with
  | ok r => exact hfg _ _ r
  | error e => exact .error e

/-- An index under a binder finds what it found before, and is reported one higher. -/
theorem find_cons_succ {dims dims' : IntervalEnv} {i j : Int} (hi : 0 ≤ i) (hj : 0 ≤ j)
    (r r' : Interval)
    (h : C.Answers (· = ·) (IntervalEnv.find dims i) (IntervalEnv.find dims' j)) :
    C.Answers (· = ·) (IntervalEnv.find (r :: dims) (i + 1))
      (IntervalEnv.find (r' :: dims') (j + 1)) := by
  unfold IntervalEnv.find at h ⊢
  rw [Index.get?_cons_succ r dims hi, Index.get?_cons_succ r' dims' hj]
  cases hd : Index.get? dims i <;> cases hd' : Index.get? dims' j <;> rw [hd, hd'] at h <;>
    cases h
  case none.none.error hf =>
    cases hf with
    | unboundDimension hu => exact .error (.unboundDimension (C.unbound_succ hu))
  case some.some.ok hr => exact .ok hr

/-- A formula under a binder is evaluated at what it was evaluated at before. -/
theorem point_cons_succ (r : Interval) (dims : IntervalEnv) {i : Int} (hi : 0 ≤ i) :
    Face.point (r :: dims) (i + 1) = Face.point dims i := by
  unfold Face.point
  by_cases hlt : i < dims.length
  · have hbound : Index.get? dims i = some (dims.get ⟨i.toNat, by omega⟩) := by
      simp [Index.get?, show ¬ i < 0 by omega, show i.toNat < dims.length by omega]
    have hlt' : i + 1 < ((r :: dims).length : Int) := by simp only [List.length_cons]; omega
    simp only [hlt, hlt', if_true, IntervalEnv.find, Index.get?_cons_succ r dims hi, hbound]
  · have hlt' : ¬ i + 1 < ((r :: dims).length : Int) := by simp only [List.length_cons]; omega
    rw [if_neg hlt, if_neg hlt']
    simp only [Index.flip, List.length_cons]
    congr 2
    omega

/-- The nearest interval variable of an extended environment is the point it was extended by. -/
theorem point_cons_zero (r : Interval) (dims : IntervalEnv) :
    Face.point (r :: dims) 0 = .ok r := by
  have hlt : (0 : Int) < ((r :: dims).length : Int) := by simp only [List.length_cons]; omega
  simp only [Face.point, if_pos hlt, IntervalEnv.find, Index.get?_cons_zero]

/-- No interval variable has a negative index. -/
theorem find_neg (dims : IntervalEnv) {i : Int} (hi : i < 0) :
    IntervalEnv.find dims i = .error (.unboundDimension i) := by
  simp [IntervalEnv.find, Index.get?_neg dims hi]

/-- No negative index can be used in a face formula. -/
theorem point_neg (dims : IntervalEnv) {i : Int} (hi : i < 0) :
    Face.point dims i = .error (.unboundDimension i) := by
  simp [Face.point, find_neg dims hi, show i < (dims.length : Int) by omega]

/-- Interval environments still correspond when what is related in both is kept and one point is
put in front of each; the points have to be equal only if the nearest index is related. -/
theorem Dims.cons_of {D E : Int → Int → Prop} {dims dims' : IntervalEnv} {r r' : Interval}
    (h : C.Dims D dims dims') (hE : ∀ i j, E i j → Under D i j) (hr : E 0 0 → r = r') :
    C.Dims E (r :: dims) (r' :: dims') := by
  intro i j hij
  cases hE i j hij with
  | nearest =>
    have hr := hr hij
    rw [point_cons_zero, point_cons_zero]
    exact ⟨.ok hr, .ok hr⟩
  | outer hi hj hd =>
    rw [point_cons_succ r dims hi, point_cons_succ r' dims' hj]
    exact ⟨find_cons_succ hi hj r r' (h _ _ hd).1, (h _ _ hd).2⟩
  | negative hi hj hd =>
    have hf := (h _ _ hd).1
    rw [find_neg dims hi, find_neg dims' hj] at hf
    rw [find_neg _ hi, find_neg _ hj, point_neg _ hi, point_neg _ hj]
    exact ⟨hf, hf⟩

/-- Interval environments that correspond still do so under a binder, at one point. -/
theorem Dims.cons {D : Int → Int → Prop} {dims dims' : IntervalEnv} (h : C.Dims D dims dims')
    (r : Interval) : C.Dims (Under D) (r :: dims) (r :: dims') :=
  h.cons_of (fun _ _ hij => hij) fun _ => rfl

/-- Matching dimensions have the same value. -/
theorem Dims.resolve {D : Int → Int → Prop} {dims dims' : IntervalEnv}
    (h : C.Dims D dims dims') {d d' : Dim} :
    d.Matches D d' →
      C.Answers (· = ·) (IntervalEnv.resolve dims d) (IntervalEnv.resolve dims' d')
  | .zero => .ok rfl
  | .one => .ok rfl
  | .var r => (h _ _ r).1
  | .missing => .error .missingDim

/-- Matching face formulas have the same cofibration. -/
theorem Dims.cofibration {D : Int → Int → Prop} {dims dims' : IntervalEnv}
    (h : C.Dims D dims dims') {φ φ' : Face} :
    φ.Matches D φ' → C.Answers (· = ·) (φ.cofibration dims) (φ'.cofibration dims')
  | .top => .ok rfl
  | .bottom => .ok rfl
  | .equation r => (h _ _ r).2.map fun _ _ hr => by rw [hr]
  | .and a b => (h.cofibration a).bind fun _ _ hφ => (h.cofibration b).bind fun _ _ hψ => by
    rw [hφ, hψ]
    exact .ok rfl
  | .or a b => (h.cofibration a).bind fun _ _ hφ => (h.cofibration b).bind fun _ _ hψ => by
    rw [hφ, hψ]
    exact .ok rfl
  | .missing => .error .missingFace

end Correspondence

end SmoothCubical
