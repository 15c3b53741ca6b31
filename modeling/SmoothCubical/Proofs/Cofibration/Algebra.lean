import Mathlib.Data.Finset.Dedup
import Mathlib.Data.Prod.Lex
import SmoothCubical.Proofs.Cofibration.Semantics

/-!
# The algebra of cofibrations

What can be built of the whole cube, the empty face and equations by meet and join, and what
formulas evaluate to, is canonical. So it is stored in one way only (`cofibration_stored_uniquely`):
clauses set each level once and stand in dictionary order, and the set of clauses determines the
cofibration. Meet and join therefore obey the laws of intersection and union as equations of what is
stored, and conjunction and disjunction of formulas do so after evaluation (`faces_form_algebra`).

One law is missing. The clauses of a meet are not compared with one another, so the meet of a
cofibration with itself can have more clauses than the cofibration.
-/

set_option autoImplicit false

namespace SmoothCubical

open OrderedSet (Increasing compareLists)

/-! ## Dictionary order -/

/-- A constraint as a pair, the level first. Pairs are compared by their first components, and by
the second where these are equal. -/
def Constraint.pair (k : Constraint) : ℤ ×ₗ ℤ :=
  toLex (k.level, k.endpoint)

/-- A clause as the list of its pairs. Such lists are compared in dictionary order. -/
def Clause.pairs (c : Clause) : List (ℤ ×ₗ ℤ) :=
  c.map Constraint.pair

/-- Constraints are ordered as pairs of their level and their end. -/
theorem Constraint.cmp_eq_lt_iff {k k' : Constraint} : cmp k k' = .lt ↔ k.pair < k'.pair := by
  rw [pair, pair, Prod.Lex.toLex_lt_toLex, cmp]
  rcases lt_trichotomy k.level k'.level with hlt | heq | hgt
  · simp [compare_lt_iff_lt.2 hlt, hlt]
  · simp [heq, compare_lt_iff_lt]
  · simp [compare_gt_iff_gt.2 hgt, hgt.not_gt, hgt.ne']

/-- Clauses are stored in the dictionary order of their constraints. -/
theorem Clause.compareLists_eq_lt_iff {c d : Clause} :
    compareLists Constraint.cmp c d = .lt ↔ c.pairs < d.pairs := by
  unfold pairs
  induction c generalizing d with
  | nil => cases d <;> simp [compareLists]
  | cons k c ih =>
    cases d with
    | nil => simp [compareLists]
    | cons k' d =>
      rw [List.map_cons, List.map_cons, List.cons_lt_cons_iff, compareLists]
      cases hcmp : Constraint.cmp k k' with
      | lt => simp [Constraint.cmp_eq_lt_iff.1 hcmp]
      | eq =>
        obtain rfl : k = k' := Std.LawfulEqCmp.eq_of_compare hcmp
        simp [ih]
      | gt =>
        have hlt := Constraint.cmp_eq_lt_iff.1 (Std.OrientedCmp.lt_of_gt hcmp)
        simp [hlt.not_gt, hlt.ne']

/-- A clause that is increasing and consistent has each level once. -/
theorem Clause.nodup_levels {c : Clause} (hincreasing : Increasing Constraint.cmp c)
    (hconsistent : c.isConsistent = true) : (c.map Constraint.level).Nodup := by
  rw [isConsistent_iff hincreasing.nodup] at hconsistent
  exact hincreasing.nodup.map_on fun k hk k' hk' => hconsistent k hk k' hk'

/-! ## What can be built -/

namespace Cofibration

/-- What is built of the whole cube, the empty face and equations by meet and join, and what
formulas evaluate to. -/
inductive Built : Cofibration → Prop
  | top : Built .top
  | bottom : Built .bottom
  | eq (r : Interval) (endpoint : Int) : Built (.eq r endpoint)
  | meet {φ ψ : Cofibration} : Built φ → Built ψ → Built (φ.meet ψ)
  | join {φ ψ : Cofibration} : Built φ → Built ψ → Built (φ.join ψ)
  | formula {face : Face} {dims : IntervalEnv} {φ : Cofibration} :
      face.cofibration dims = .ok φ → Built φ

/-- What is built by the operations is as it is stored. -/
theorem Built.isCanonical {φ : Cofibration} (h : φ.Built) : φ.IsCanonical := by
  induction h with
  | top => exact isCanonical_top
  | bottom => exact isCanonical_bottom
  | eq r endpoint => exact isCanonical_eq r endpoint
  | meet _ _ _ hψ => exact hψ.meet _
  | join _ _ hφ hψ => exact hφ.join hψ
  | formula h => exact Face.isCanonical_cofibration h

/-- The clauses, as sets of constraints. -/
def clauseSets (φ : Cofibration) : Finset (Finset Constraint) :=
  (φ.clauses.map List.toFinset).toFinset

/-- Stored cofibrations with the same sets of clauses have the same clauses. -/
theorem IsCanonical.mem_of_clauseSets_eq {φ ψ : Cofibration} (hφ : φ.IsCanonical)
    (hψ : ψ.IsCanonical) (h : φ.clauseSets = ψ.clauseSets) {c : Clause} (hc : c ∈ φ.clauses) :
    c ∈ ψ.clauses := by
  have hset : c.toFinset ∈ φ.clauseSets := by
    simpa [clauseSets] using ⟨c, hc, rfl⟩
  rw [h] at hset
  obtain ⟨d, hd, hdc⟩ : ∃ d ∈ ψ.clauses, d.toFinset = c.toFinset := by
    simpa [clauseSets] using hset
  have heq : d = c := by
    refine (hψ.clause d hd).1.ext (hφ.clause c hc).1 fun k => ?_
    rw [← List.mem_toFinset, hdc, List.mem_toFinset]
  exact heq ▸ hd

end Cofibration

/-- A cofibration is stored in one way only. Its clauses set each level once, list their constraints
in increasing order, and stand in the dictionary order of these lists. The empty clause stands alone
if it stands there. So the set of clauses, as sets of constraints, determines what is stored. -/
theorem cofibration_stored_uniquely {φ ψ : Cofibration} (hφ : φ.Built) (hψ : ψ.Built) :
    (∀ c ∈ φ.clauses, (c.map Constraint.level).Nodup ∧ c.pairs.Pairwise (· < ·)) ∧
      φ.clauses.Pairwise (fun c d => c.pairs < d.pairs) ∧
      ([] ∈ φ.clauses → φ.clauses = [[]]) ∧
      (φ.clauseSets = ψ.clauseSets → φ = ψ) := by
  have hφ := hφ.isCanonical
  have hψ := hψ.isCanonical
  refine ⟨fun c hc => ⟨?_, ?_⟩, ?_, fun hnil => ?_, fun hsets => ?_⟩
  · exact Clause.nodup_levels (hφ.clause c hc).1 (hφ.clause c hc).2
  · exact List.pairwise_map.2 ((hφ.clause c hc).1.imp Constraint.cmp_eq_lt_iff.1)
  · exact hφ.increasing.imp Clause.compareLists_eq_lt_iff.1
  · rw [hφ.absorbing hnil]
    rfl
  · refine hφ.ext hψ fun c => ⟨fun hc => ?_, fun hc => ?_⟩
    · exact hφ.mem_of_clauseSets_eq hψ hsets hc
    · exact hψ.mem_of_clauseSets_eq hφ hsets.symm hc

/-- A join of an equation with a meet, with its parts in either order, and an endpoint that is no
end of the interval. -/
theorem cofibration_stored_uniquely_swapped :
    let near : Cofibration := .eq (.var 1) 0
    let far : Cofibration := .eq (.var 0) 7
    let up : Cofibration := .eq (.var 1) 1
    (near.join (far.meet up)).Built ∧ ((up.meet far).join near).Built ∧
      (near.join (far.meet up)).clauses = [[⟨0, 7⟩, ⟨1, 1⟩], [⟨1, 0⟩]] ∧
      (near.join (far.meet up)).clauses.Pairwise (fun c d => c.pairs < d.pairs) ∧
      (near.join (far.meet up)).clauseSets = ((up.meet far).join near).clauseSets ∧
      near.join (far.meet up) = (up.meet far).join near := by
  intro near far up
  have hleft : (near.join (far.meet up)).Built := .join (.eq _ _) (.meet (.eq _ _) (.eq _ _))
  have hright : ((up.meet far).join near).Built := .join (.meet (.eq _ _) (.eq _ _)) (.eq _ _)
  have hsets : (near.join (far.meet up)).clauseSets = ((up.meet far).join near).clauseSets := by
    decide
  obtain ⟨_, hordered, _, hunique⟩ := cofibration_stored_uniquely hleft hright
  exact ⟨hleft, hright, by decide, hordered, hsets, hunique hsets⟩

/-! ## Laws -/

/-- The laws of intersection and union for what satisfies `P`, up to `same`. -/
structure FaceAlgebra {α : Type} (P : α → Prop) (same : α → α → Prop) (meet join : α → α → α)
    (top bottom : α) : Prop where
  meet_comm {a b : α} : P a → P b → same (meet a b) (meet b a)
  meet_assoc {a b c : α} : P a → P b → P c → same (meet (meet a b) c) (meet a (meet b c))
  meet_top {a : α} : P a → same (meet a top) a
  meet_bottom {a : α} : P a → same (meet a bottom) bottom
  join_comm {a b : α} : P a → P b → same (join a b) (join b a)
  join_assoc {a b c : α} : P a → P b → P c → same (join (join a b) c) (join a (join b c))
  join_self {a : α} : P a → same (join a a) a
  join_bottom {a : α} : P a → same (join a bottom) a
  join_top {a : α} : P a → same (join a top) top

/-- Meet and join obey the laws as operations on what is stored. -/
theorem Cofibration.faceAlgebra :
    FaceAlgebra Cofibration.Built (· = ·) Cofibration.meet Cofibration.join .top .bottom where
  meet_comm hφ hψ := hφ.isCanonical.meet_comm hψ.isCanonical
  meet_assoc hφ hψ hχ := hφ.isCanonical.meet_assoc hψ.isCanonical hχ.isCanonical
  meet_top hφ := hφ.isCanonical.meet_top
  meet_bottom _ := meet_bottom _
  join_comm hφ hψ := hφ.isCanonical.join_comm hψ.isCanonical
  join_assoc hφ hψ hχ := hφ.isCanonical.join_assoc hψ.isCanonical hχ.isCanonical
  join_self hφ := hφ.isCanonical.join_self
  join_bottom hφ := hφ.isCanonical.join_bottom
  join_top _ := join_top _

/-- Laws of values are laws of what has such values. Here `R b a` says that `b` has the value `a`,
and two things are the same if they have a value in common. -/
theorem FaceAlgebra.pullback {α β : Type} {P : α → Prop} {meet join : α → α → α} {top bottom : α}
    (h : FaceAlgebra P (· = ·) meet join top bottom) {Q : β → Prop} {R : β → α → Prop}
    {meet' join' : β → β → β} {top' bottom' : β} (hQ : ∀ {b}, Q b → ∃ a, P a ∧ R b a)
    (hmeet : ∀ {b b' a a'}, R b a → R b' a' → R (meet' b b') (meet a a'))
    (hjoin : ∀ {b b' a a'}, R b a → R b' a' → R (join' b b') (join a a'))
    (htop : R top' top) (hbottom : R bottom' bottom) :
    FaceAlgebra Q (fun b b' => ∃ a, R b a ∧ R b' a) meet' join' top' bottom' where
  meet_comm hb hb' := by
    obtain ⟨a, ha, hba⟩ := hQ hb
    obtain ⟨a', ha', hba'⟩ := hQ hb'
    exact ⟨_, hmeet hba hba', h.meet_comm ha ha' ▸ hmeet hba' hba⟩
  meet_assoc hb hb' hb'' := by
    obtain ⟨a, ha, hba⟩ := hQ hb
    obtain ⟨a', ha', hba'⟩ := hQ hb'
    obtain ⟨a'', ha'', hba''⟩ := hQ hb''
    refine ⟨_, hmeet (hmeet hba hba') hba'', ?_⟩
    rw [h.meet_assoc ha ha' ha'']
    exact hmeet hba (hmeet hba' hba'')
  meet_top hb := by
    obtain ⟨a, ha, hba⟩ := hQ hb
    exact ⟨a, h.meet_top ha ▸ hmeet hba htop, hba⟩
  meet_bottom hb := by
    obtain ⟨a, ha, hba⟩ := hQ hb
    exact ⟨bottom, h.meet_bottom ha ▸ hmeet hba hbottom, hbottom⟩
  join_comm hb hb' := by
    obtain ⟨a, ha, hba⟩ := hQ hb
    obtain ⟨a', ha', hba'⟩ := hQ hb'
    exact ⟨_, hjoin hba hba', h.join_comm ha ha' ▸ hjoin hba' hba⟩
  join_assoc hb hb' hb'' := by
    obtain ⟨a, ha, hba⟩ := hQ hb
    obtain ⟨a', ha', hba'⟩ := hQ hb'
    obtain ⟨a'', ha'', hba''⟩ := hQ hb''
    refine ⟨_, hjoin (hjoin hba hba') hba'', ?_⟩
    rw [h.join_assoc ha ha' ha'']
    exact hjoin hba (hjoin hba' hba'')
  join_self hb := by
    obtain ⟨a, ha, hba⟩ := hQ hb
    exact ⟨a, h.join_self ha ▸ hjoin hba hba, hba⟩
  join_bottom hb := by
    obtain ⟨a, ha, hba⟩ := hQ hb
    exact ⟨a, h.join_bottom ha ▸ hjoin hba hbottom, hba⟩
  join_top hb := by
    obtain ⟨a, ha, hba⟩ := hQ hb
    exact ⟨top, h.join_top ha ▸ hjoin hba htop, htop⟩

/-- Both formulas have a cofibration, and the same one is stored. -/
def Face.SameCofibration (dims : IntervalEnv) (a b : Face) : Prop :=
  ∃ φ, a.cofibration dims = .ok φ ∧ b.cofibration dims = .ok φ

/-- Cofibrations with meet and join obey the laws of intersection and union as equations of what is
stored, and so do formulas with conjunction and disjunction in any interval environment: both sides
of a law have a cofibration, and the same one is stored. -/
theorem faces_form_algebra :
    FaceAlgebra Cofibration.Built (· = ·) Cofibration.meet Cofibration.join .top .bottom ∧
      ∀ dims : IntervalEnv, FaceAlgebra (fun face => face.isProper = true)
        (Face.SameCofibration dims) Face.and Face.or .top .bottom := by
  refine ⟨Cofibration.faceAlgebra, fun dims => ?_⟩
  refine Cofibration.faceAlgebra.pullback
    (R := fun (face : Face) φ => face.cofibration dims = .ok φ)
    (fun hface => ?_) (fun ha hb => ?_) (fun ha hb => ?_) rfl rfl
  · obtain ⟨φ, hφ⟩ := Face.exists_cofibration hface dims
    exact ⟨φ, .formula hφ, hφ⟩
  · exact Face.cofibration_and_eq_ok.2 ⟨_, _, ha, hb, rfl⟩
  · exact Face.cofibration_or_eq_ok.2 ⟨_, _, ha, hb, rfl⟩

/-- The meet of two equations is a third clause beside them, so meet is not idempotent. -/
example :
    let φ := (Cofibration.eq (.var 0) 0).join (.eq (.var 1) 0)
    (φ.meet φ).clauses = [[⟨0, 0⟩], [⟨0, 0⟩, ⟨1, 0⟩], [⟨1, 0⟩]] := by
  decide

end SmoothCubical
