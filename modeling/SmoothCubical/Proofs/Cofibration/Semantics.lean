import SmoothCubical.Proofs.Cofibration.Canonical

/-!
# What face formulas mean

A corner sets every interval level to an end. A cofibration holds at a corner if one of its clauses
does, and a face formula is true there in the sense of propositional logic, with the ends that the
interval environment gives to its variables. Evaluation keeps the meaning
(`cofibration_denotes_formula`): clauses that it drops hold at no corner, and clauses that the empty
one absorbs add none.
-/

set_option autoImplicit false

namespace SmoothCubical

open OrderedSet (Increasing)

/-- An end of the interval for every level. -/
abbrev Corner := Int → Endpoint

/-! ## Meanings -/

/-- Whether no part of the formula is missing. -/
def Face.isWhole : Face → Bool
  | .and left right => left.isWhole && right.isWhole
  | .or left right => left.isWhole && right.isWhole
  | .missing => false
  | _ => true

/-- Whether the level is at that end of the interval. -/
def Constraint.holdsAt (ρ : Corner) (k : Constraint) : Bool :=
  (ρ k.level).toInt == k.endpoint

/-- Whether all constraints are met at the corner. -/
def Clause.holdsAt (ρ : Corner) (c : Clause) : Bool :=
  c.all (·.holdsAt ρ)

/-- Whether some clause is met at the corner. -/
def Cofibration.holdsAt (ρ : Corner) (φ : Cofibration) : Bool :=
  φ.clauses.any (·.holdsAt ρ)

/-- The end that a point is at, at a corner. -/
def Interval.endAt (ρ : Corner) : Interval → Endpoint
  | .zero => .zero
  | .one => .one
  | .var level => ρ level

/-- The end that an interval variable is at. One beyond the environment is free, and stands for a
level below those in scope. -/
def IntervalEnv.endAt (ρ : Corner) (dims : IntervalEnv) (index : Int) : Endpoint :=
  match Index.get? dims index with
  | some r => r.endAt ρ
  | none => ρ (Index.flip dims.length index)

/-- Whether the formula is true at a corner. -/
def Face.isTrueAt (ρ : Corner) (dims : IntervalEnv) : Face → Bool
  | .top => true
  | .eq index endpoint => dims.endAt ρ index == endpoint
  | .and left right => left.isTrueAt ρ dims && right.isTrueAt ρ dims
  | .or left right => left.isTrueAt ρ dims || right.isTrueAt ρ dims
  | _ => false

/-- Every point is on some levels. -/
theorem Interval.on_true (r : Interval) : r.On fun _ => True := by
  cases r <;> trivial

/-! ## Clauses that hold -/

variable {ρ : Corner}

/-- Ends are told apart by their numbers. -/
theorem Endpoint.toInt_inj {e e' : Endpoint} : e.toInt = e'.toInt ↔ e = e' := by
  cases e <;> cases e' <;> decide

namespace Clause

variable {c d : Clause}

/-- A clause holds at an assignment of ends if and only if each of its constraints does. -/
theorem holdsAt_iff : c.holdsAt ρ = true ↔ ∀ k ∈ c, (ρ k.level).toInt = k.endpoint := by
  simp [holdsAt, Constraint.holdsAt]

/-- A meet of clauses holds if and only if both do. -/
theorem holdsAt_meet : (c.meet d).holdsAt ρ = (c.holdsAt ρ && d.holdsAt ρ) := by
  rw [Bool.eq_iff_iff, Bool.and_eq_true]
  simp only [holdsAt_iff, mem_meet, or_imp, forall_and]

/-- A contradiction holds at no corner. -/
theorem isConsistent_of_holdsAt (hc : Increasing Constraint.cmp c) (h : c.holdsAt ρ = true) :
    c.isConsistent = true := by
  rw [isConsistent_iff hc.nodup]
  rintro ⟨l, e⟩ hk ⟨_, e'⟩ hk' rfl
  obtain rfl : (ρ l).toInt = e := holdsAt_iff.1 h _ hk
  obtain rfl : (ρ l).toInt = e' := holdsAt_iff.1 h _ hk'
  rfl

/-- The corner at which the levels of a clause are where it sets them. -/
def corner (c : Clause) : Corner :=
  fun level => if (⟨level, 1⟩ : Constraint) ∈ c then .one else .zero

/-- A consistent clause holds at its corner. -/
theorem holdsAt_corner (hc : Increasing Constraint.cmp c) (hconsistent : c.isConsistent = true)
    (hends : c.On fun _ => True) : c.holdsAt c.corner = true := by
  rw [isConsistent_iff hc.nodup] at hconsistent
  rw [holdsAt_iff]
  rintro ⟨l, e⟩ hk
  unfold corner
  rcases (hends _ hk).2 with rfl | rfl
  · -- a level cannot be set to `0` and to `1`
    rw [if_neg]
    · rfl
    · intro hone
      have heq := hconsistent _ hk _ hone rfl
      simp at heq
  · rw [if_pos hk]
    rfl

end Clause

/-! ## Cofibrations that hold -/

namespace Cofibration

variable {φ ψ : Cofibration}

/-- A cofibration holds at an assignment of ends if and only if one of its clauses does. -/
theorem holdsAt_iff : φ.holdsAt ρ = true ↔ ∃ c ∈ φ.clauses, c.holdsAt ρ = true := by
  simp [holdsAt]

/-- The whole cube holds everywhere. -/
theorem holdsAt_top : top.holdsAt ρ = true :=
  rfl

/-- A cofibration that counts as the whole cube holds everywhere. -/
theorem holdsAt_of_isTrue (h : φ.isTrue = true) : φ.holdsAt ρ = true :=
  holdsAt_iff.2 ⟨[], by simpa [isTrue] using h, rfl⟩

/-- Simplifying a list of clauses keeps where one of them holds. -/
theorem holdsAt_ofClauses {cs : List Clause} (hcs : ∀ c ∈ cs, Increasing Constraint.cmp c) :
    (ofClauses cs).holdsAt ρ = true ↔ ∃ c ∈ cs, c.holdsAt ρ = true := by
  by_cases hnil : [] ∈ cs
  · rw [ofClauses_of_nil_mem hnil]
    exact iff_of_true holdsAt_top ⟨[], hnil, rfl⟩
  · rw [holdsAt_iff]
    constructor
    · rintro ⟨c, hc, hholds⟩
      exact ⟨c, (mem_clauses_ofClauses.1 hc).1, hholds⟩
    · rintro ⟨c, hc, hholds⟩
      have hconsistent := Clause.isConsistent_of_holdsAt (hcs c hc) hholds
      exact ⟨c, mem_clauses_ofClauses.2 ⟨hc, hconsistent, (hnil · |>.elim)⟩, hholds⟩

/-- The cofibration at which a point is at an end holds where the point is at that end. -/
theorem holdsAt_eq (r : Interval) (e : Endpoint) :
    (eq r e.toInt).holdsAt ρ = (r.endAt ρ == e) := by
  cases r with
  | var level =>
    rw [Bool.eq_iff_iff, holdsAt_iff]
    simp [eq, Clause.holdsAt, Constraint.holdsAt, Interval.endAt, Endpoint.toInt_inj]
  | zero | one => cases e <;> rfl

/-- A meet holds where both cofibrations do. -/
theorem IsCanonical.holdsAt_meet (hψ : ψ.IsCanonical) (φ : Cofibration) :
    (φ.meet ψ).holdsAt ρ = (φ.holdsAt ρ && ψ.holdsAt ρ) := by
  rw [Bool.eq_iff_iff, Bool.and_eq_true, Cofibration.meet, holdsAt_ofClauses]
  · simp only [List.mem_flatMap, List.mem_map, holdsAt_iff]
    constructor
    · rintro ⟨_, ⟨c, hc, d, hd, rfl⟩, hholds⟩
      rw [Clause.holdsAt_meet, Bool.and_eq_true] at hholds
      exact ⟨⟨c, hc, hholds.1⟩, d, hd, hholds.2⟩
    · rintro ⟨⟨c, hc, hcholds⟩, d, hd, hdholds⟩
      refine ⟨_, ⟨c, hc, d, hd, rfl⟩, ?_⟩
      rw [Clause.holdsAt_meet, hcholds, hdholds]
      rfl
  · intro c hc
    simp only [List.mem_flatMap, List.mem_map] at hc
    obtain ⟨a, _, b, hb, rfl⟩ := hc
    exact Clause.increasing_meet a (hψ.clause b hb).1

/-- A join holds where one of the cofibrations does. -/
theorem IsCanonical.holdsAt_join (hφ : φ.IsCanonical) (hψ : ψ.IsCanonical) :
    (φ.join ψ).holdsAt ρ = (φ.holdsAt ρ || ψ.holdsAt ρ) := by
  rw [Bool.eq_iff_iff, Bool.or_eq_true, Cofibration.join, holdsAt_ofClauses]
  · simp only [List.mem_append, or_and_right, exists_or, holdsAt_iff]
  · intro c hc
    rcases List.mem_append.1 hc with hc | hc
    · exact (hφ.clause c hc).1
    · exact (hψ.clause c hc).1

/-- Only the empty face holds at no corner. -/
theorem IsCanonical.isFalse_iff (hφ : φ.IsCanonical) (hends : φ.On fun _ => True) :
    φ.isFalse = true ↔ ∀ ρ, φ.holdsAt ρ = false := by
  constructor
  · intro h ρ
    rw [isFalse, List.isEmpty_iff] at h
    simp [holdsAt, h]
  · intro h
    rw [isFalse, List.isEmpty_iff, List.eq_nil_iff_forall_not_mem]
    intro c hc
    obtain ⟨hincreasing, hconsistent⟩ := hφ.clause c hc
    have hholds := Clause.holdsAt_corner hincreasing hconsistent (hends c hc)
    have hsome := holdsAt_iff.2 ⟨c, hc, hholds⟩
    rw [h c.corner] at hsome
    cases hsome

end Cofibration

/-! ## Formulas and their cofibrations -/

namespace Face

variable {dims : IntervalEnv}

/-- An equation is about what the environment says of its variable. -/
theorem endAt_of_point {i : Int} {r : Interval} (h : point dims i = .ok r) (ρ : Corner) :
    r.endAt ρ = dims.endAt ρ i := by
  unfold point at h
  unfold IntervalEnv.endAt
  split at h
  · rw [IntervalEnv.find_eq_ok.1 h]
  · cases h
    rw [Index.get?_of_length_le (by omega)]
    rfl

/-- The cofibration of a formula holds where the formula is true. -/
theorem holdsAt_cofibration {face : Face} {φ : Cofibration}
    (h : face.cofibration dims = .ok φ) (ρ : Corner) : φ.holdsAt ρ = face.isTrueAt ρ dims := by
  induction face generalizing φ with
  | top =>
    cases h
    rfl
  | bottom =>
    cases h
    rfl
  | eq i e =>
    obtain ⟨r, hr, rfl⟩ := cofibration_eq_eq_ok.1 h
    rw [Cofibration.holdsAt_eq, endAt_of_point hr]
    rfl
  | and left right hleft hright =>
    obtain ⟨x, y, hx, hy, rfl⟩ := cofibration_and_eq_ok.1 h
    rw [(isCanonical_cofibration hy).holdsAt_meet, hleft hx, hright hy]
    rfl
  | or left right hleft hright =>
    obtain ⟨x, y, hx, hy, rfl⟩ := cofibration_or_eq_ok.1 h
    rw [(isCanonical_cofibration hx).holdsAt_join (isCanonical_cofibration hy), hleft hx, hright hy]
    rfl
  | missing => cases h

/-- The run answers if no index is negative, and else complains of one that is. -/
def AnswersUnlessNegative (x : Except Fault Cofibration) (indices : List Int) : Prop :=
  (∃ φ, x = .ok φ) ∧ (∀ i ∈ indices, 0 ≤ i) ∨
    ∃ i ∈ indices, i < 0 ∧ x = .error (.unboundDimension i)

/-- If two formulas answer unless an index is negative, so does what is combined of their answers.
-/
theorem AnswersUnlessNegative.combine {x y : Except Fault Cofibration} {is js : List Int}
    (hx : AnswersUnlessNegative x is) (hy : AnswersUnlessNegative y js)
    (op : Cofibration → Cofibration → Cofibration) :
    AnswersUnlessNegative (do let φ ← x; let ψ ← y; return op φ ψ)
      (OrderedSet.union compare is js) := by
  rcases hx with ⟨⟨φ, rfl⟩, his⟩ | ⟨i, hi, hneg, rfl⟩
  · rcases hy with ⟨⟨ψ, rfl⟩, hjs⟩ | ⟨i, hi, hneg, rfl⟩
    · refine .inl ⟨⟨op φ ψ, rfl⟩, fun i hi => ?_⟩
      rcases OrderedSet.mem_union.1 hi with hi | hi
      · exact his i hi
      · exact hjs i hi
    · exact .inr ⟨i, OrderedSet.mem_union.2 (.inr hi), hneg, rfl⟩
  · exact .inr ⟨i, OrderedSet.mem_union.2 (.inl hi), hneg, rfl⟩

/-- An index that is not negative stands for a point in a face formula, bound or not. -/
theorem point_answers (dims : IntervalEnv) {i : Int} (hi : 0 ≤ i) :
    ∃ r, point dims i = .ok r := by
  unfold point
  split
  · have hscope : Index.inScope dims.length i = true := by
      simp only [Index.inScope, Bool.and_eq_true, decide_eq_true_eq]
      omega
    obtain ⟨r, hr⟩ := Index.get?_of_inScope hscope
    exact ⟨r, IntervalEnv.find_eq_ok.2 hr⟩
  · exact ⟨_, rfl⟩

/-- Only a negative index keeps a formula from having a cofibration. -/
theorem cofibration_answersUnlessNegative {face : Face} (h : face.isWhole = true)
    (dims : IntervalEnv) : AnswersUnlessNegative (face.cofibration dims) face.indices := by
  induction face with
  | top => exact .inl ⟨⟨_, rfl⟩, nofun⟩
  | bottom => exact .inl ⟨⟨_, rfl⟩, nofun⟩
  | eq i e =>
    by_cases hi : i < 0
    · refine .inr ⟨i, List.mem_singleton_self i, hi, ?_⟩
      have hlt : i < dims.length := by omega
      rw [cofibration, point, if_pos hlt, IntervalEnv.find, Index.get?_neg dims hi]
      rfl
    · obtain ⟨r, hr⟩ := point_answers dims (Int.not_lt.1 hi)
      refine .inl ⟨⟨_, cofibration_eq_eq_ok.2 ⟨r, hr, rfl⟩⟩, fun j hj => ?_⟩
      obtain rfl := List.mem_singleton.1 hj
      omega
  | and left right hleft hright =>
    rw [isWhole, Bool.and_eq_true] at h
    exact (hleft h.1).combine (hright h.2) .meet
  | or left right hleft hright =>
    rw [isWhole, Bool.and_eq_true] at h
    exact (hleft h.1).combine (hright h.2) .join
  | missing => cases h

/-- Whether no part of the formula is missing and no index is negative. -/
def isProper (face : Face) : Bool :=
  face.isWhole && face.indices.all (0 ≤ ·)

/-- A formula without negative indices has a cofibration in every environment. -/
theorem exists_cofibration {face : Face} (h : face.isProper = true) (dims : IntervalEnv) :
    ∃ φ, face.cofibration dims = .ok φ := by
  simp only [isProper, Bool.and_eq_true, List.all_eq_true, decide_eq_true_eq] at h
  rcases cofibration_answersUnlessNegative h.1 dims with ⟨hφ, _⟩ | ⟨i, hi, hneg, _⟩
  · exact hφ
  · exact absurd (h.2 i hi) (Int.not_le.2 hneg)

end Face

/-- Evaluation keeps the meaning of face formulas. With no index negative, a formula has a
cofibration, which holds at the corners at which the formula is true. It is the empty face exactly
if there are none, and if it is the whole cube the formula is true at all of them. With a negative
index, and only then, a formula has no cofibration. -/
theorem cofibration_denotes_formula {face : Face} (hface : face.isWhole = true)
    (dims : IntervalEnv) :
    ((∀ i ∈ face.indices, 0 ≤ i) → ∃ φ, face.cofibration dims = .ok φ ∧
      (∀ ρ, φ.holdsAt ρ = face.isTrueAt ρ dims) ∧
      (φ.isFalse = true ↔ ∀ ρ, face.isTrueAt ρ dims = false) ∧
      (φ.isTrue = true → ∀ ρ, face.isTrueAt ρ dims = true)) ∧
    ((∃ i, face.cofibration dims = .error (.unboundDimension i)) ↔ ∃ i ∈ face.indices, i < 0) := by
  rcases Face.cofibration_answersUnlessNegative hface dims with
    ⟨⟨φ, hφ⟩, hnonneg⟩ | ⟨i, hi, hneg, herror⟩
  · have hmeans := Face.holdsAt_cofibration hφ
    refine ⟨fun _ => ⟨φ, hφ, hmeans, ?_, ?_⟩, ?_⟩
    · simp only [← hmeans]
      have hends : φ.On fun _ => True :=
        Face.on_cofibration (fun r _ => r.on_true) (fun _ _ => trivial) hφ
      exact (Face.isCanonical_cofibration hφ).isFalse_iff hends
    · intro htrue ρ
      rw [← hmeans]
      exact Cofibration.holdsAt_of_isTrue htrue
    · rw [hφ]
      refine iff_of_false nofun ?_
      rintro ⟨i, hi, hneg⟩
      exact Int.not_lt.2 (hnonneg i hi) hneg
  · refine ⟨fun hnonneg => ?_, iff_of_true ⟨i, herror⟩ ⟨i, hi, hneg⟩⟩
    exact absurd hneg (Int.not_lt.2 (hnonneg i hi))

/-- Of the formula, the clause that sets level `0` to both ends is dropped, and the other keeps a
level that is free. -/
theorem cofibration_denotes_formula_twiceNamed :
    let face : Face := .and (.eq 0 .zero) (.or (.eq 1 .one) (.eq 3 .one))
    let dims : IntervalEnv := [.var 0, .var 0]
    ∃ φ, face.cofibration dims = .ok φ ∧ φ.clauses = [[⟨-2, 1⟩, ⟨0, 0⟩]] ∧
      ∀ ρ, φ.holdsAt ρ = face.isTrueAt ρ dims := by
  intro face dims
  have hface : face.isWhole = true := rfl
  obtain ⟨φ, hφ, hmeans, _⟩ := (cofibration_denotes_formula hface dims).1 (by decide)
  refine ⟨φ, hφ, ?_, hmeans⟩
  have hclauses : (face.cofibration dims).toOption.map Cofibration.clauses =
      some [[⟨-2, 1⟩, ⟨0, 0⟩]] := by
    decide
  rw [hφ] at hclauses
  exact Option.some.inj hclauses

end SmoothCubical
