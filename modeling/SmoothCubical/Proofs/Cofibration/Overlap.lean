import SmoothCubical.Proofs.Cofibration.Satisfaction

/-!
# Overlaps of faces

Two partial elements are compared under each clause of the meet of their faces, with the interval
variables of the clause moved to their ends. Under such a clause both formulas hold, so nothing is
compared where only one element is given. And an assignment of ends to all variables makes both
hold only if it extends one of the clauses, so no part of the overlap is left out
(`overlap_clauses_exact`).

The first half goes by the clauses: a clause of a formula moves its variables so that the formula is
true by the ends that are bound. The second half goes by corners: what holds after variables are
moved is true at the corner that is moved likewise, where the meet has a clause.
-/

set_option autoImplicit false

namespace SmoothCubical

variable {dims : IntervalEnv}

/-! ## Clauses as assignments -/

namespace Clause

variable {c ρ : Clause} {l : Int}

/-- Whether the assignment sets all that the clause sets, to the same ends. -/
def includes (ρ c : Clause) : Bool :=
  c.all fun k => ρ.endpointOf? k.level == some k.endpoint

/-- Whether the assignment sets every generic level of the environment to an end. -/
def covers (ρ : Clause) (dims : IntervalEnv) : Bool :=
  dims.all fun
    | .var level => ρ.endpointOf? level == some 0 || ρ.endpointOf? level == some 1
    | _ => true

/-- A clause is included in an assignment if and only if that assigns to each level of it the end
that it asks for. -/
theorem includes_iff :
    ρ.includes c = true ↔ ∀ k ∈ c, ρ.endpointOf? k.level = some k.endpoint := by
  simp [includes]

/-- What an assignment gives for a level is one of its constraints. -/
theorem mem_of_endpointOf? {e : Int} (h : c.endpointOf? l = some e) : ⟨l, e⟩ ∈ c := by
  induction c with
  | nil => cases h
  | cons k rest ih =>
    unfold endpointOf? at h
    split at h
    · rename_i hrest
      cases h
      exact List.mem_cons_of_mem k (ih hrest)
    · split at h
      · cases h
        subst l
        exact List.mem_cons_self
      · cases h

/-- A consistent clause sets its levels where its constraints say. -/
theorem endpointOf?_of_mem (h : c.isConsistent = true) {k : Constraint} (hk : k ∈ c) :
    c.endpointOf? k.level = some k.endpoint := by
  induction c with
  | nil => cases hk
  | cons k' rest ih =>
    simp only [isConsistent, Bool.and_eq_true, List.all_eq_true, bne_iff_ne] at h
    unfold endpointOf?
    rcases List.mem_cons.1 hk with rfl | hk
    · -- no constraint behind the first is on its level
      have hnone : endpointOf? rest k.level = none := by
        cases he : endpointOf? rest k.level with
        | none => rfl
        | some e => exact absurd rfl (h.1 ⟨k.level, e⟩ (mem_of_endpointOf? he))
      simp [hnone]
    · simp [ih h.2 hk]

/-- A consistent assignment includes each clause whose constraints are among its own. -/
theorem includes_of_subset (h : ρ.isConsistent = true) (hsub : ∀ k ∈ c, k ∈ ρ) :
    ρ.includes c = true :=
  includes_iff.2 fun k hk => endpointOf?_of_mem h (hsub k hk)

end Clause

/-- To move variables by a clause and then by an assignment that includes it is to move them by the
assignment. -/
theorem IntervalEnv.substitute_of_includes {ρ c : Clause} (h : ρ.includes c = true)
    (dims : IntervalEnv) : (dims.substitute c).substitute ρ = dims.substitute ρ := by
  unfold substitute
  rw [List.map_map]
  refine List.map_congr_left fun r _ => ?_
  cases r with
  | zero | one => rfl
  | var level =>
    rw [Function.comp_apply]
    cases hc : c.endpointOf? level with
    | none => simp [Interval.substitute, hc]
    | some e =>
      have hρ := Clause.includes_iff.1 h _ (Clause.mem_of_endpointOf? hc)
      by_cases he : e = 0 <;> simp [Interval.substitute, hc, hρ, he]

/-- What is true under a clause is true under every assignment that includes it. -/
theorem Face.isTrueIn_of_includes {ρ c : Clause} (hρ : ρ.includes c = true) {face : Face}
    (h : face.isTrueIn (dims.substitute c) = true) :
    face.isTrueIn (dims.substitute ρ) = true := by
  rw [← IntervalEnv.substitute_of_includes hρ]
  exact isTrueIn_substitute h ρ

/-! ## Under a clause -/

/-- Under a clause of an equation the equation holds. -/
theorem Cofibration.endpoint?_of_mem_eq {r : Interval} {e : Endpoint} {d : Clause}
    (h : d ∈ (Cofibration.eq r e.toInt).clauses) : (r.substitute d).endpoint? = some e := by
  cases r with
  | var level =>
    obtain rfl : d = [⟨level, e.toInt⟩] := List.mem_singleton.1 h
    cases e <;> simp [Interval.substitute, Clause.endpointOf?, Endpoint.toInt, Interval.endpoint?]
  | zero =>
    cases e with
    | zero => rfl
    | one => cases h
  | one =>
    cases e with
    | zero => cases h
    | one => rfl

/-- Under a clause of its cofibration a formula is true. -/
theorem Face.isTrueIn_of_clause {face : Face} (hscope : face.inScope dims.length = true)
    {φ : Cofibration} (hφ : face.cofibration dims = .ok φ) {d : Clause} (hd : d ∈ φ.clauses) :
    face.isTrueIn (dims.substitute d) = true := by
  induction face generalizing φ d with
  | top => rfl
  | bottom =>
    cases hφ
    cases hd
  | eq i e =>
    obtain ⟨r, hr, rfl⟩ := cofibration_eq_eq_ok.1 hφ
    rw [isTrueIn, beq_iff_eq, IntervalEnv.endpoint?, IntervalEnv.get?_substitute,
      (point_eq_ok hscope).1 hr]
    exact Cofibration.endpoint?_of_mem_eq hd
  | and left right hleft hright =>
    simp only [inScope, Bool.and_eq_true] at hscope
    obtain ⟨x, y, hx, hy, rfl⟩ := cofibration_and_eq_ok.1 hφ
    obtain ⟨hconsistent, a, ha, b, hb, rfl⟩ :=
      ((isCanonical_cofibration hx).mem_clauses_meet (isCanonical_cofibration hy)).1 hd
    -- each part is true under its own clause, which the meet includes
    have hleft' : left.isTrueIn (dims.substitute (a.meet b)) = true := by
      refine isTrueIn_of_includes (Clause.includes_of_subset hconsistent fun k hk => ?_)
        (hleft hscope.1 hx ha)
      exact Clause.mem_meet.2 (.inl hk)
    have hright' : right.isTrueIn (dims.substitute (a.meet b)) = true := by
      refine isTrueIn_of_includes (Clause.includes_of_subset hconsistent fun k hk => ?_)
        (hright hscope.2 hy hb)
      exact Clause.mem_meet.2 (.inr hk)
    rw [isTrueIn, hleft', hright']
    rfl
  | or left right hleft hright =>
    simp only [inScope, Bool.and_eq_true] at hscope
    obtain ⟨x, y, hx, hy, rfl⟩ := cofibration_or_eq_ok.1 hφ
    rw [isTrueIn, Bool.or_eq_true]
    have hmem :=
      ((isCanonical_cofibration hx).mem_clauses_join (isCanonical_cofibration hy)).1 hd
    exact hmem.1.imp (hleft hscope.1 hx) (hright hscope.2 hy)
  | missing => cases hφ

/-! ## At the corner of an assignment -/

/-- The corner moved by an assignment. -/
def Clause.moved (ρ : Clause) (κ : Corner) : Corner :=
  fun level =>
    match ρ.endpointOf? level with
    | some e => if e = 0 then .zero else .one
    | none => κ level

section Moved

variable {ρ : Clause} {κ : Corner}

/-- A point after a substitution is where the point is at the assignment moved by it. -/
theorem Interval.endAt_substitute (r : Interval) :
    (r.substitute ρ).endAt κ = r.endAt (ρ.moved κ) := by
  cases r with
  | zero | one => rfl
  | var level =>
    cases he : ρ.endpointOf? level with
    | none => simp [substitute, Clause.moved, endAt, he]
    | some e => by_cases hzero : e = 0 <;> simp [substitute, Clause.moved, endAt, he, hzero]

/-- An index stands for where the point of the environment is. -/
theorem IntervalEnv.endAt_of_get? {i : Int} {r : Interval} (h : Index.get? dims i = some r) :
    dims.endAt κ i = r.endAt κ := by
  rw [endAt, h]

/-- A formula is true after variables are moved if it is true at the moved corner. -/
theorem Face.isTrueAt_substitute {face : Face} (hscope : face.inScope dims.length = true) :
    face.isTrueAt κ (dims.substitute ρ) = face.isTrueAt (ρ.moved κ) dims := by
  induction face with
  | top | bottom | missing => rfl
  | eq i e =>
    obtain ⟨r, hr⟩ := Index.get?_of_inScope hscope
    have hmoved : Index.get? (dims.substitute ρ) i = some (r.substitute ρ) := by
      rw [IntervalEnv.get?_substitute, hr, Option.map_some]
    rw [isTrueAt, isTrueAt, IntervalEnv.endAt_of_get? hmoved, IntervalEnv.endAt_of_get? hr,
      Interval.endAt_substitute]
  | and left right hleft hright | or left right hleft hright =>
    simp only [inScope, Bool.and_eq_true] at hscope
    rw [isTrueAt, isTrueAt, hleft hscope.1, hright hscope.2]

/-- An assignment includes the clauses that hold at its corner. -/
theorem Clause.includes_of_holdsAt (hρ : ρ.covers dims = true) {c : Clause}
    (hc : c.On fun l => .var l ∈ dims) (h : c.holdsAt (ρ.moved κ) = true) :
    ρ.includes c = true := by
  rw [includes_iff]
  intro k hk
  have hlevel := List.all_eq_true.1 hρ _ (hc k hk).1
  have hend := holdsAt_iff.1 h k hk
  simp only [Bool.or_eq_true, beq_iff_eq] at hlevel
  rcases hlevel with hlevel | hlevel <;>
    simpa [moved, hlevel, Endpoint.toInt] using hend

end Moved

/-! ## Overlaps -/

/-- An assignment that sets all generic variables makes a formula true exactly if it includes a
clause of its cofibration. -/
theorem Face.isTrueIn_substitute_iff {face : Face} (hscope : face.inScope dims.length = true)
    {φ : Cofibration} (hφ : face.cofibration dims = .ok φ) (hlevels : φ.On fun l => .var l ∈ dims)
    {ρ : Clause} (hρ : ρ.covers dims = true) :
    face.isTrueIn (dims.substitute ρ) = true ↔ ∃ c ∈ φ.clauses, ρ.includes c = true := by
  constructor
  · intro htrue
    have hscope' : face.inScope (dims.substitute ρ).length = true := by
      rwa [IntervalEnv.length_substitute]
    obtain ⟨φ', hφ', _⟩ := cofibration_answered (fun r _ => r.on_true) hscope'
    -- what holds after the move is true at every corner, so take any and move it
    have hcorner : φ.holdsAt (ρ.moved fun _ => .zero) = true := by
      rw [holdsAt_cofibration hφ, ← isTrueAt_substitute hscope, ← holdsAt_cofibration hφ']
      exact Cofibration.holdsAt_of_isTrue ((isTrue_eq_isTrueIn hφ').trans htrue)
    obtain ⟨c, hc, hholds⟩ := Cofibration.holdsAt_iff.1 hcorner
    exact ⟨c, hc, Clause.includes_of_holdsAt hρ (hlevels c hc) hholds⟩
  · rintro ⟨c, hc, hincludes⟩
    exact isTrueIn_of_includes hincludes (isTrueIn_of_clause hscope hφ hc)

/-- Two formulas both hold if their conjunction is true by the ends that are bound. -/
theorem Face.holds_both_iff {a b : Face} (ha : a.inScope dims.length = true)
    (hb : b.inScope dims.length = true) :
    a.holds dims = .ok true ∧ b.holds dims = .ok true ↔ (Face.and a b).isTrueIn dims = true := by
  obtain ⟨φ, hφ, _⟩ := cofibration_answered (fun r _ => r.on_true) ha
  obtain ⟨ψ, hψ, _⟩ := cofibration_answered (fun r _ => r.on_true) hb
  rw [holds_of_cofibration hφ, holds_of_cofibration hψ, isTrueIn, Bool.and_eq_true]
  simp only [Except.ok.injEq]

/-- The clauses of an overlap are exact. Let two formulas be in scope. Under each clause of the meet
of their cofibrations both formulas hold. And an assignment that sets all generic variables of the
environment to ends makes both hold exactly if it extends one of the clauses. -/
theorem overlap_clauses_exact {a b : Face} {dims : IntervalEnv}
    (ha : a.inScope dims.length = true) (hb : b.inScope dims.length = true) :
    ∃ φ ψ, a.cofibration dims = .ok φ ∧ b.cofibration dims = .ok ψ ∧
      (∀ c ∈ (φ.meet ψ).clauses,
        a.holds (dims.substitute c) = .ok true ∧ b.holds (dims.substitute c) = .ok true) ∧
      ∀ ρ : Clause, ρ.covers dims = true →
        (a.holds (dims.substitute ρ) = .ok true ∧ b.holds (dims.substitute ρ) = .ok true ↔
          ∃ c ∈ (φ.meet ψ).clauses, ρ.includes c = true) := by
  have hdims (r : Interval) (hr : r ∈ dims) : r.On fun l => .var l ∈ dims := by
    cases r with
    | var level => exact hr
    | zero | one => trivial
  obtain ⟨φ, hφ, honφ⟩ := Face.cofibration_answered hdims ha
  obtain ⟨ψ, hψ, honψ⟩ := Face.cofibration_answered hdims hb
  -- the overlap is the face of the conjunction
  have hscope : (Face.and a b).inScope dims.length = true := Bool.and_eq_true_iff.2 ⟨ha, hb⟩
  have hmeet : (Face.and a b).cofibration dims = .ok (φ.meet ψ) :=
    Face.cofibration_and_eq_ok.2 ⟨φ, ψ, hφ, hψ, rfl⟩
  have hboth (ρ : Clause) :
      a.holds (dims.substitute ρ) = .ok true ∧ b.holds (dims.substitute ρ) = .ok true ↔
        (Face.and a b).isTrueIn (dims.substitute ρ) = true := by
    apply Face.holds_both_iff <;> rwa [IntervalEnv.length_substitute]
  refine ⟨φ, ψ, hφ, hψ, fun c hc => ?_, fun ρ hρ => ?_⟩
  · exact (hboth c).2 (Face.isTrueIn_of_clause hscope hmeet hc)
  · rw [hboth ρ]
    exact Face.isTrueIn_substitute_iff hscope hmeet (honφ.meet honψ) hρ

/-- Two formulas on three variables. Both hold under a clause that leaves the third generic. Where
all three are set so that the first formula fails, no clause is met. -/
theorem overlap_clauses_exact_thirdGeneric :
    let a : Face := .or (.eq 0 .zero) (.eq 2 .one)
    let b : Face := .and (.or (.eq 0 .zero) (.eq 0 .one)) (.eq 1 .zero)
    let dims : IntervalEnv := [.var 2, .var 1, .var 0]
    let inside : Clause := [⟨1, 0⟩, ⟨2, 0⟩]
    let outside : Clause := [⟨0, 0⟩, ⟨1, 0⟩, ⟨2, 1⟩]
    a.inScope dims.length = true ∧ b.inScope dims.length = true ∧ outside.covers dims = true ∧
      ∃ φ ψ, a.cofibration dims = .ok φ ∧ b.cofibration dims = .ok ψ ∧
        inside ∈ (φ.meet ψ).clauses ∧
        a.holds (dims.substitute inside) = .ok true ∧
        b.holds (dims.substitute inside) = .ok true ∧
        ¬∃ c ∈ (φ.meet ψ).clauses, outside.includes c = true := by
  intro a b dims inside outside
  have ha : a.inScope dims.length = true := by decide
  have hb : b.inScope dims.length = true := by decide
  have hcovers : outside.covers dims = true := by decide
  obtain ⟨φ, ψ, hφ, hψ, hunder, hcomplete⟩ := overlap_clauses_exact ha hb
  have hinside : inside ∈ (φ.meet ψ).clauses := by
    cases hφ
    cases hψ
    decide
  refine ⟨ha, hb, hcovers, φ, ψ, hφ, hψ, hinside, (hunder inside hinside).1,
    (hunder inside hinside).2, fun hmet => ?_⟩
  have hfails : a.holds (dims.substitute outside) = .ok false := rfl
  have hholds := ((hcomplete outside hcovers).2 hmet).1
  rw [hfails] at hholds
  cases hholds

end SmoothCubical
