import SmoothCubical.Proofs.Scope.Terms

/-!
# How cofibrations are stored

A cofibration is canonical if its clauses are consistent, increasing and in increasing order, and
the empty clause stands only alone. Evaluation makes no other (`Face.isCanonical_cofibration`).
Canonical cofibrations with the same clauses are equal as stored, so that meet and join are
commutative and associative as operations on what is stored, with the whole cube and the empty face
as units, and a face formula that is rearranged by the first two laws keeps its cofibration
(`Face.Rearranged.cofibration_eq_ok`).
-/

set_option autoImplicit false

namespace SmoothCubical

open OrderedSet (Increasing compareLists)

/-! ## The order of constraints -/

namespace Constraint

/-- Constraints are compared by their levels first and by their ends second. -/
theorem cmp_eq : cmp = compareLex (compareOn level) (compareOn endpoint) := by
  funext a b
  unfold cmp compareLex compareOn
  cases compare a.level b.level <;> rfl

instance : Std.TransCmp cmp := by
  rw [cmp_eq]
  infer_instance

instance : Std.LawfulEqCmp cmp where
  compare_self {a} := by simp [cmp]
  eq_of_compare {a b} h := by
    unfold cmp at h
    split at h
    · rename_i hlevel
      obtain ⟨l, e⟩ := a
      obtain ⟨l', e'⟩ := b
      obtain rfl : l = l' := Std.LawfulEqCmp.eq_of_compare hlevel
      obtain rfl : e = e' := Std.LawfulEqCmp.eq_of_compare h
      rfl
    · contradiction

end Constraint

/-! ## Clauses -/

namespace Clause

variable {c d e : Clause}

/-- A clause without duplicates is consistent if it sets no level to two ends. -/
theorem isConsistent_iff (h : c.Nodup) :
    c.isConsistent = true ↔ ∀ k ∈ c, ∀ k' ∈ c, k.level = k'.level → k = k' := by
  induction c with
  | nil => simp [isConsistent]
  | cons k c ih =>
    obtain ⟨hk, hc⟩ := List.nodup_cons.1 h
    simp only [isConsistent, Bool.and_eq_true, List.all_eq_true, bne_iff_ne, ih hc]
    constructor
    · rintro ⟨hfirst, hrest⟩ a ha b hb hab
      rcases List.mem_cons.1 ha with rfl | ha'
      · rcases List.mem_cons.1 hb with rfl | hb'
        · rfl
        · exact (hfirst b hb' hab.symm).elim
      · rcases List.mem_cons.1 hb with rfl | hb'
        · exact (hfirst a ha' hab).elim
        · exact hrest a ha' b hb' hab
    · intro hall
      refine ⟨fun a ha hlevel => ?_, fun a ha b hb => ?_⟩
      · have hak := hall a (List.mem_cons_of_mem k ha) k List.mem_cons_self hlevel
        exact hk (hak ▸ ha)
      · exact hall a (List.mem_cons_of_mem k ha) b (List.mem_cons_of_mem k hb)

/-- A meet of clauses has the constraints of both. -/
@[simp] theorem mem_meet {k : Constraint} : k ∈ c.meet d ↔ k ∈ c ∨ k ∈ d :=
  OrderedSet.mem_union

/-- A meet of clauses is sorted if the second is. -/
theorem increasing_meet (c : Clause) (hd : Increasing Constraint.cmp d) :
    Increasing Constraint.cmp (c.meet d) :=
  hd.union c

/-- A meet of clauses is empty if and only if both are. -/
theorem meet_eq_nil : c.meet d = [] ↔ c = [] ∧ d = [] :=
  OrderedSet.union_eq_nil_iff _

/-- What a consistent clause is made of is consistent. -/
theorem isConsistent_of_meet (hc : Increasing Constraint.cmp c) (hd : Increasing Constraint.cmp d)
    (h : (c.meet d).isConsistent = true) : c.isConsistent = true ∧ d.isConsistent = true := by
  rw [isConsistent_iff (increasing_meet c hd).nodup] at h
  rw [isConsistent_iff hc.nodup, isConsistent_iff hd.nodup]
  refine ⟨fun k hk k' hk' => ?_, fun k hk k' hk' => ?_⟩
  · exact h k (mem_meet.2 (.inl hk)) k' (mem_meet.2 (.inl hk'))
  · exact h k (mem_meet.2 (.inr hk)) k' (mem_meet.2 (.inr hk'))

/-- The meet of sorted clauses does not depend on their order. -/
theorem meet_comm (hc : Increasing Constraint.cmp c) (hd : Increasing Constraint.cmp d) :
    c.meet d = d.meet c := by
  refine (increasing_meet c hd).ext (increasing_meet d hc) fun k => ?_
  simp [or_comm]

/-- The meet of clauses is associative, up to the sorting that all but the last goes through. -/
theorem meet_assoc (c d : Clause) (he : Increasing Constraint.cmp e) :
    (c.meet d).meet e = c.meet (d.meet e) := by
  refine (increasing_meet _ he).ext (increasing_meet c (increasing_meet d he)) fun k => ?_
  simp [or_assoc]

end Clause

/-! ## Canonical cofibrations -/

namespace Cofibration

variable {φ ψ χ : Cofibration} {cs : List Clause}

/-- The clauses are sets that can be met, in increasing order, and the empty one stands alone. -/
structure IsCanonical (φ : Cofibration) : Prop where
  increasing : Increasing (compareLists Constraint.cmp) φ.clauses
  clause : ∀ c ∈ φ.clauses, Increasing Constraint.cmp c ∧ c.isConsistent = true
  absorbing : [] ∈ φ.clauses → φ = top

/-- Which clauses are left of a list: the consistent ones, or the empty one alone. -/
theorem mem_clauses_ofClauses {c : Clause} :
    c ∈ (ofClauses cs).clauses ↔ c ∈ cs ∧ c.isConsistent = true ∧ ([] ∈ cs → c = []) := by
  have hnil : (cs.filter Clause.isConsistent).contains [] = true ↔ [] ∈ cs := by
    simp [Clause.isConsistent]
  unfold ofClauses
  dsimp only
  split
  · rename_i h
    have hmem := hnil.1 h
    simp only [top, List.mem_singleton, hmem, forall_const]
    constructor
    · rintro rfl
      exact ⟨hmem, rfl, rfl⟩
    · exact fun h => h.2.2
  · rename_i h
    have hmem : [] ∉ cs := fun hmem => h (hnil.2 hmem)
    simp [hmem]

/-- Clauses of which one is empty make up the whole cube. -/
theorem ofClauses_of_nil_mem (h : [] ∈ cs) : ofClauses cs = top := by
  unfold ofClauses
  dsimp only
  rw [if_pos]
  simpa [Clause.isConsistent] using h

/-- The whole cube is as it is stored. -/
theorem isCanonical_top : top.IsCanonical where
  increasing := List.pairwise_singleton _ _
  clause c hc := by
    obtain rfl : c = [] := by simpa [top] using hc
    exact ⟨List.Pairwise.nil, rfl⟩
  absorbing _ := rfl

/-- The empty cofibration is as it is stored. -/
theorem isCanonical_bottom : bottom.IsCanonical :=
  ⟨List.Pairwise.nil, nofun, nofun⟩

/-- The cofibration at which a point is at an end is as it is stored. -/
theorem isCanonical_eq (r : Interval) (endpoint : Int) : (eq r endpoint).IsCanonical := by
  cases r with
  | var level =>
    refine ⟨List.pairwise_singleton _ _, fun c hc => ?_, fun h => ?_⟩
    · obtain rfl : c = [⟨level, endpoint⟩] := by simpa [eq] using hc
      exact ⟨List.pairwise_singleton _ _, rfl⟩
    · simp [eq] at h
  | zero | one =>
    unfold eq
    dsimp only
    split
    · exact isCanonical_top
    · exact isCanonical_bottom

/-- What is made up of sorted clauses is as it is stored. -/
theorem isCanonical_ofClauses (h : ∀ c ∈ cs, Increasing Constraint.cmp c) :
    (ofClauses cs).IsCanonical where
  increasing := by
    unfold ofClauses
    dsimp only
    split
    · exact isCanonical_top.increasing
    · exact OrderedSet.increasing_ofList _
  clause c hc := by
    obtain ⟨hmem, hconsistent, _⟩ := mem_clauses_ofClauses.1 hc
    exact ⟨h c hmem, hconsistent⟩
  absorbing hnil := ofClauses_of_nil_mem (mem_clauses_ofClauses.1 hnil).1

/-- A meet with what is as it is stored is as it is stored. -/
theorem IsCanonical.meet (hψ : ψ.IsCanonical) (φ : Cofibration) : (φ.meet ψ).IsCanonical := by
  apply isCanonical_ofClauses
  intro c hc
  simp only [List.mem_flatMap, List.mem_map] at hc
  obtain ⟨a, _, b, hb, rfl⟩ := hc
  exact Clause.increasing_meet a (hψ.clause b hb).1

/-- A join of what is as it is stored is as it is stored. -/
theorem IsCanonical.join (hφ : φ.IsCanonical) (hψ : ψ.IsCanonical) : (φ.join ψ).IsCanonical := by
  apply isCanonical_ofClauses
  intro c hc
  rcases List.mem_append.1 hc with hc | hc
  · exact (hφ.clause c hc).1
  · exact (hψ.clause c hc).1

/-- A canonical cofibration is determined by the set of its clauses. -/
theorem IsCanonical.ext (hφ : φ.IsCanonical) (hψ : ψ.IsCanonical)
    (h : ∀ c, c ∈ φ.clauses ↔ c ∈ ψ.clauses) : φ = ψ :=
  congrArg Cofibration.mk (hφ.increasing.ext hψ.increasing h)

/-- Beside the empty clause stands no other. -/
theorem IsCanonical.eq_nil (hφ : φ.IsCanonical) (hnil : [] ∈ φ.clauses) {c : Clause}
    (hc : c ∈ φ.clauses) : c = [] := by
  obtain rfl := hφ.absorbing hnil
  exact List.mem_singleton.1 hc

/-! ## Meet and join as stored -/

/-- The clauses of a meet are the consistent ones among the meets of clauses: the empty clause is
one of these only where it stood alone on both sides. -/
theorem IsCanonical.mem_clauses_meet (hφ : φ.IsCanonical) (hψ : ψ.IsCanonical) {c : Clause} :
    c ∈ (φ.meet ψ).clauses ↔
      c.isConsistent = true ∧ ∃ a ∈ φ.clauses, ∃ b ∈ ψ.clauses, a.meet b = c := by
  simp only [Cofibration.meet, mem_clauses_ofClauses, List.mem_flatMap, List.mem_map]
  constructor
  · rintro ⟨hc, hconsistent, _⟩
    exact ⟨hconsistent, hc⟩
  · rintro ⟨hconsistent, hc⟩
    refine ⟨hc, hconsistent, ?_⟩
    rintro ⟨a, ha, b, hb, hnil⟩
    obtain ⟨rfl, rfl⟩ := Clause.meet_eq_nil.1 hnil
    obtain rfl := hφ.absorbing ha
    obtain rfl := hψ.absorbing hb
    obtain ⟨a, ha, b, hb, rfl⟩ := hc
    exact Clause.meet_eq_nil.2 ⟨List.mem_singleton.1 ha, List.mem_singleton.1 hb⟩

/-- A join has the clauses of both, unless one is the whole cube. -/
theorem IsCanonical.mem_clauses_join (hφ : φ.IsCanonical) (hψ : ψ.IsCanonical) {c : Clause} :
    c ∈ (φ.join ψ).clauses ↔
      (c ∈ φ.clauses ∨ c ∈ ψ.clauses) ∧ ([] ∈ φ.clauses ∨ [] ∈ ψ.clauses → c = []) := by
  simp only [Cofibration.join, mem_clauses_ofClauses, List.mem_append]
  constructor
  · rintro ⟨hc, _, hnil⟩
    exact ⟨hc, hnil⟩
  · rintro ⟨hc, hnil⟩
    refine ⟨hc, ?_, hnil⟩
    rcases hc with hc | hc
    · exact (hφ.clause c hc).2
    · exact (hψ.clause c hc).2

/-- The meet of stored cofibrations does not depend on their order. -/
theorem IsCanonical.meet_comm (hφ : φ.IsCanonical) (hψ : ψ.IsCanonical) :
    φ.meet ψ = ψ.meet φ := by
  refine (hψ.meet φ).ext (hφ.meet ψ) fun c => ?_
  rw [hφ.mem_clauses_meet hψ, hψ.mem_clauses_meet hφ]
  refine and_congr_right fun _ => ⟨?_, ?_⟩
  · rintro ⟨a, ha, b, hb, rfl⟩
    exact ⟨b, hb, a, ha, Clause.meet_comm (hψ.clause b hb).1 (hφ.clause a ha).1⟩
  · rintro ⟨b, hb, a, ha, rfl⟩
    exact ⟨a, ha, b, hb, Clause.meet_comm (hφ.clause a ha).1 (hψ.clause b hb).1⟩

/-- A contradiction is dropped in either bracketing, early or late. -/
theorem IsCanonical.meet_assoc (hφ : φ.IsCanonical) (hψ : ψ.IsCanonical) (hχ : χ.IsCanonical) :
    (φ.meet ψ).meet χ = φ.meet (ψ.meet χ) := by
  refine (hχ.meet _).ext ((hχ.meet ψ).meet φ) fun c => ?_
  rw [(hψ.meet φ).mem_clauses_meet hχ, hφ.mem_clauses_meet (hχ.meet ψ)]
  refine and_congr_right fun hc => ⟨?_, ?_⟩
  · rintro ⟨ab, hab, d, hd, rfl⟩
    obtain ⟨_, a, ha, b, hb, rfl⟩ := (hφ.mem_clauses_meet hψ).1 hab
    have hb' := (hψ.clause b hb).1
    have hd' := (hχ.clause d hd).1
    have hassoc := Clause.meet_assoc a b hd'
    rw [hassoc] at hc ⊢
    have hbd := (Clause.isConsistent_of_meet (hφ.clause a ha).1
      (Clause.increasing_meet b hd') hc).2
    exact ⟨a, ha, b.meet d, (hψ.mem_clauses_meet hχ).2 ⟨hbd, b, hb, d, hd, rfl⟩, rfl⟩
  · rintro ⟨a, ha, bd, hbd, rfl⟩
    obtain ⟨_, b, hb, d, hd, rfl⟩ := (hψ.mem_clauses_meet hχ).1 hbd
    have hb' := (hψ.clause b hb).1
    have hd' := (hχ.clause d hd).1
    have hassoc := Clause.meet_assoc a b hd'
    rw [← hassoc] at hc ⊢
    have hab := (Clause.isConsistent_of_meet (Clause.increasing_meet a hb') hd' hc).1
    exact ⟨a.meet b, (hφ.mem_clauses_meet hψ).2 ⟨hab, a, ha, b, hb, rfl⟩, d, hd, rfl⟩

/-- The join of stored cofibrations does not depend on their order. -/
theorem IsCanonical.join_comm (hφ : φ.IsCanonical) (hψ : ψ.IsCanonical) :
    φ.join ψ = ψ.join φ := by
  refine (hφ.join hψ).ext (hψ.join hφ) fun c => ?_
  rw [hφ.mem_clauses_join hψ, hψ.mem_clauses_join hφ]
  simp only [or_comm]

/-- The join of stored cofibrations is associative. -/
theorem IsCanonical.join_assoc (hφ : φ.IsCanonical) (hψ : ψ.IsCanonical) (hχ : χ.IsCanonical) :
    (φ.join ψ).join χ = φ.join (ψ.join χ) := by
  refine ((hφ.join hψ).join hχ).ext (hφ.join (hψ.join hχ)) fun c => ?_
  rw [(hφ.join hψ).mem_clauses_join hχ, hφ.mem_clauses_join (hψ.join hχ)]
  simp only [hφ.mem_clauses_join hψ, hψ.mem_clauses_join hχ]
  grind

/-- The whole cube is neutral for the meet. -/
theorem IsCanonical.meet_top (hφ : φ.IsCanonical) : φ.meet top = φ := by
  refine (isCanonical_top.meet φ).ext hφ fun c => ?_
  rw [hφ.mem_clauses_meet isCanonical_top]
  have hnil (a : Clause) (ha : a ∈ φ.clauses) : a.meet [] = a :=
    (Clause.increasing_meet a .nil).ext (hφ.clause a ha).1 (by simp)
  constructor
  · rintro ⟨_, a, ha, b, hb, rfl⟩
    obtain rfl : b = [] := List.mem_singleton.1 hb
    rwa [hnil a ha]
  · intro hc
    exact ⟨(hφ.clause c hc).2, c, hc, [], List.mem_singleton.2 rfl, hnil c hc⟩

/-- The empty cofibration absorbs the meet. -/
theorem meet_bottom (φ : Cofibration) : φ.meet bottom = bottom := by
  have hnone : (φ.clauses.flatMap fun c => bottom.clauses.map fun d => c.meet d) = [] := by
    simp [bottom]
  rw [meet, hnone]
  rfl

/-- The whole cube absorbs the join. -/
theorem join_top (φ : Cofibration) : φ.join top = top :=
  ofClauses_of_nil_mem (List.mem_append_right _ (List.mem_singleton.2 rfl))

/-- The empty cofibration is neutral for the join. -/
theorem IsCanonical.join_bottom (hφ : φ.IsCanonical) : φ.join bottom = φ := by
  refine (hφ.join isCanonical_bottom).ext hφ fun c => ?_
  rw [hφ.mem_clauses_join isCanonical_bottom]
  simp only [bottom, List.not_mem_nil, or_false, and_iff_left_iff_imp]
  exact fun hc hnil => hφ.eq_nil hnil hc

/-- The join of a stored cofibration with itself is itself. -/
theorem IsCanonical.join_self (hφ : φ.IsCanonical) : φ.join φ = φ := by
  refine (hφ.join hφ).ext hφ fun c => ?_
  rw [hφ.mem_clauses_join hφ]
  simp only [or_self, and_iff_left_iff_imp]
  exact fun hc hnil => hφ.eq_nil hnil hc

end Cofibration

/-! ## Face formulas -/

namespace Face

/-- Evaluation makes canonical cofibrations only. -/
theorem isCanonical_cofibration {dims : IntervalEnv} {face : Face} {φ : Cofibration}
    (h : face.cofibration dims = .ok φ) : φ.IsCanonical := by
  induction face generalizing φ with
  | top =>
    cases h
    exact Cofibration.isCanonical_top
  | bottom =>
    cases h
    exact Cofibration.isCanonical_bottom
  | eq i e =>
    unfold cofibration at h
    cases hr : point dims i with
    | error f => simp [hr, Except.map] at h
    | ok r =>
      rw [hr] at h
      cases h
      exact Cofibration.isCanonical_eq r e.toInt
  | and left right hleft hright =>
    obtain ⟨x, y, hx, hy, rfl⟩ := cofibration_and_eq_ok.1 h
    exact (hright hy).meet x
  | or left right hleft hright =>
    obtain ⟨x, y, hx, hy, rfl⟩ := cofibration_or_eq_ok.1 h
    exact (hleft hx).join (hright hy)
  | missing => cases h

/-- Formulas that differ by commutativity and associativity of conjunction and disjunction. -/
inductive Rearranged : Face → Face → Prop
  | refl (φ : Face) : Rearranged φ φ
  | symm {φ ψ : Face} : Rearranged φ ψ → Rearranged ψ φ
  | trans {φ ψ χ : Face} : Rearranged φ ψ → Rearranged ψ χ → Rearranged φ χ
  | and {φ φ' ψ ψ' : Face} :
      Rearranged φ φ' → Rearranged ψ ψ' → Rearranged (.and φ ψ) (.and φ' ψ')
  | or {φ φ' ψ ψ' : Face} : Rearranged φ φ' → Rearranged ψ ψ' → Rearranged (.or φ ψ) (.or φ' ψ')
  | swapAnd (φ ψ : Face) : Rearranged (.and φ ψ) (.and ψ φ)
  | regroupAnd (φ ψ χ : Face) : Rearranged (.and (.and φ ψ) χ) (.and φ (.and ψ χ))
  | swapOr (φ ψ : Face) : Rearranged (.or φ ψ) (.or ψ φ)
  | regroupOr (φ ψ χ : Face) : Rearranged (.or (.or φ ψ) χ) (.or φ (.or ψ χ))

namespace Rearranged

variable {φ ψ : Face}

/-- Rearranging a formula changes neither whether it has a cofibration nor which one is stored. -/
theorem cofibration_eq_ok (h : Rearranged φ ψ) (dims : IntervalEnv) (c : Cofibration) :
    φ.cofibration dims = .ok c ↔ ψ.cofibration dims = .ok c := by
  induction h generalizing c with
  | refl => rfl
  | symm _ ih => exact (ih c).symm
  | trans _ _ ih ih' => exact (ih c).trans (ih' c)
  | and _ _ ih ih' => simp only [cofibration_and_eq_ok, ih, ih']
  | or _ _ ih ih' => simp only [cofibration_or_eq_ok, ih, ih']
  | swapAnd =>
    simp only [cofibration_and_eq_ok]
    constructor <;> rintro ⟨x, y, hx, hy, rfl⟩
    · exact ⟨y, x, hy, hx, (isCanonical_cofibration hy).meet_comm (isCanonical_cofibration hx)⟩
    · exact ⟨y, x, hy, hx, (isCanonical_cofibration hy).meet_comm (isCanonical_cofibration hx)⟩
  | swapOr =>
    simp only [cofibration_or_eq_ok]
    constructor <;> rintro ⟨x, y, hx, hy, rfl⟩
    · exact ⟨y, x, hy, hx, (isCanonical_cofibration hy).join_comm (isCanonical_cofibration hx)⟩
    · exact ⟨y, x, hy, hx, (isCanonical_cofibration hy).join_comm (isCanonical_cofibration hx)⟩
  | regroupAnd =>
    simp only [cofibration_and_eq_ok]
    constructor
    · rintro ⟨_, z, ⟨x, y, hx, hy, rfl⟩, hz, rfl⟩
      refine ⟨x, _, hx, ⟨y, z, hy, hz, rfl⟩, ?_⟩
      exact ((isCanonical_cofibration hx).meet_assoc (isCanonical_cofibration hy)
        (isCanonical_cofibration hz)).symm
    · rintro ⟨x, _, hx, ⟨y, z, hy, hz, rfl⟩, rfl⟩
      refine ⟨_, z, ⟨x, y, hx, hy, rfl⟩, hz, ?_⟩
      exact (isCanonical_cofibration hx).meet_assoc (isCanonical_cofibration hy)
        (isCanonical_cofibration hz)
  | regroupOr =>
    simp only [cofibration_or_eq_ok]
    constructor
    · rintro ⟨_, z, ⟨x, y, hx, hy, rfl⟩, hz, rfl⟩
      refine ⟨x, _, hx, ⟨y, z, hy, hz, rfl⟩, ?_⟩
      exact ((isCanonical_cofibration hx).join_assoc (isCanonical_cofibration hy)
        (isCanonical_cofibration hz)).symm
    · rintro ⟨x, _, hx, ⟨y, z, hy, hz, rfl⟩, rfl⟩
      refine ⟨_, z, ⟨x, y, hx, hy, rfl⟩, hz, ?_⟩
      exact (isCanonical_cofibration hx).join_assoc (isCanonical_cofibration hy)
        (isCanonical_cofibration hz)

/-- Rearranging a formula keeps the interval variables that it mentions. -/
theorem mem_indices (h : Rearranged φ ψ) (i : Int) : i ∈ φ.indices ↔ i ∈ ψ.indices := by
  induction h with
  | refl => rfl
  | symm _ ih => exact ih.symm
  | trans _ _ ih ih' => exact ih.trans ih'
  | and _ _ ih ih' | or _ _ ih ih' => simp only [indices, OrderedSet.mem_union, ih, ih']
  | swapAnd | swapOr => simp only [indices, OrderedSet.mem_union, or_comm]
  | regroupAnd | regroupOr => simp only [indices, OrderedSet.mem_union, or_assoc]

end Rearranged

end Face

end SmoothCubical
