import SmoothCubical.Proofs.Cofibration.Semantics

/-!
# When a face holds

A face formula holds in an interval environment if its cofibration is the whole cube. That is a
question about ends only: an equation holds if its variable is bound to that end, and conjunction
and disjunction are the propositional ones (`Face.holds_eq_isTrueIn`). So what holds goes on to hold
when further variables are moved to ends, and where all variables of a formula are at ends its
cofibration is the whole cube or the empty face (`satisfaction_compositional`).
-/

set_option autoImplicit false

namespace SmoothCubical

/-! ## Ends that are bound -/

/-- The end that an interval variable is bound to, if it is bound to one. -/
def IntervalEnv.endpoint? (dims : IntervalEnv) (index : Int) : Option Endpoint :=
  (Index.get? dims index).bind Interval.endpoint?

/-- Whether the formula is true by the ends that are bound. An equation on an interval variable that
is generic or free is not. -/
def Face.isTrueIn (dims : IntervalEnv) : Face → Bool
  | .top => true
  | .eq index endpoint => dims.endpoint? index == some endpoint
  | .and left right => left.isTrueIn dims && right.isTrueIn dims
  | .or left right => left.isTrueIn dims || right.isTrueIn dims
  | _ => false

variable {dims : IntervalEnv}

/-- The cofibration at which a point is at an end is the whole cube if and only if the point is that
end. -/
theorem Cofibration.isTrue_eq (r : Interval) (e : Endpoint) :
    (Cofibration.eq r e.toInt).isTrue = (r.endpoint? == some e) := by
  cases r with
  | var level => simp [Cofibration.eq, isTrue, Interval.endpoint?]
  | zero | one => cases e <;> rfl

namespace Face

/-- In scope, an index of a face formula stands for the point that the environment has. -/
theorem point_eq_ok {i : Int} (hi : Index.inScope dims.length i = true) {r : Interval} :
    point dims i = .ok r ↔ Index.get? dims i = some r := by
  simp only [Index.inScope, Bool.and_eq_true, decide_eq_true_eq] at hi
  rw [point, if_pos hi.2, IntervalEnv.find_eq_ok]

/-- Whether an index stands for an end can be read off the environment. -/
theorem endpoint?_of_point {i : Int} {r : Interval} (h : point dims i = .ok r) :
    r.endpoint? = dims.endpoint? i := by
  unfold point at h
  unfold IntervalEnv.endpoint?
  split at h
  · rw [IntervalEnv.find_eq_ok.1 h]
    rfl
  · cases h
    rw [Index.get?_of_length_le (by omega)]
    rfl

/-- Whether a cofibration is the whole cube is decided by the ends that are bound. -/
theorem isTrue_eq_isTrueIn {face : Face} {φ : Cofibration} (h : face.cofibration dims = .ok φ) :
    φ.isTrue = face.isTrueIn dims := by
  induction face generalizing φ with
  | top =>
    cases h
    rfl
  | bottom =>
    cases h
    rfl
  | eq i e =>
    obtain ⟨r, hr, rfl⟩ := cofibration_eq_eq_ok.1 h
    rw [Cofibration.isTrue_eq, endpoint?_of_point hr]
    rfl
  | and left right hleft hright =>
    obtain ⟨x, y, hx, hy, rfl⟩ := cofibration_and_eq_ok.1 h
    rw [Cofibration.isTrue_meet, hleft hx, hright hy]
    rfl
  | or left right hleft hright =>
    obtain ⟨x, y, hx, hy, rfl⟩ := cofibration_or_eq_ok.1 h
    rw [Cofibration.isTrue_join, hleft hx, hright hy]
    rfl
  | missing => cases h

/-- A formula that has a cofibration is found to hold exactly if it is true in the environment. -/
theorem holds_of_cofibration {face : Face} {φ : Cofibration} (h : face.cofibration dims = .ok φ) :
    face.holds dims = .ok (face.isTrueIn dims) := by
  rw [holds, h, ← isTrue_eq_isTrueIn h]
  rfl

/-- A formula without negative indices holds if it is true by the ends that are bound. -/
theorem holds_eq_isTrueIn {face : Face} (h : face.isProper = true) (dims : IntervalEnv) :
    face.holds dims = .ok (face.isTrueIn dims) := by
  obtain ⟨φ, hφ⟩ := exists_cofibration h dims
  exact holds_of_cofibration hφ

end Face

/-! ## Moving variables to ends -/

/-- To substitute ends into an environment keeps its length. -/
theorem IntervalEnv.length_substitute (c : Clause) (dims : IntervalEnv) :
    (dims.substitute c).length = dims.length :=
  List.length_map _

/-- To substitute ends into an environment substitutes them into each point. -/
theorem IntervalEnv.get?_substitute (c : Clause) (dims : IntervalEnv) (i : Int) :
    Index.get? (dims.substitute c) i = (Index.get? dims i).map (Interval.substitute c) :=
  Index.get?_map _ dims i

/-- An end stays where it is. -/
theorem Interval.substitute_of_endpoint? {r : Interval} {e : Endpoint} (h : r.endpoint? = some e)
    (c : Clause) : r.substitute c = r := by
  cases r with
  | var level => cases h
  | zero | one => rfl

/-- A variable that stands for an end still does after a substitution. -/
theorem IntervalEnv.endpoint?_substitute {i : Int} {e : Endpoint} (h : dims.endpoint? i = some e)
    (c : Clause) : (dims.substitute c).endpoint? i = some e := by
  obtain ⟨r, hr, he⟩ := Option.bind_eq_some_iff.1 h
  rw [endpoint?, get?_substitute, hr, Option.map_some, Interval.substitute_of_endpoint? he]
  exact he

/-- What is true by the ends that are bound is true when more of them are. -/
theorem Face.isTrueIn_substitute {face : Face} (h : face.isTrueIn dims = true) (c : Clause) :
    face.isTrueIn (dims.substitute c) = true := by
  induction face with
  | top => rfl
  | bottom => cases h
  | eq i e =>
    rw [isTrueIn, beq_iff_eq] at h ⊢
    exact IntervalEnv.endpoint?_substitute h c
  | and left right hleft hright =>
    rw [isTrueIn, Bool.and_eq_true] at h ⊢
    exact ⟨hleft h.1, hright h.2⟩
  | or left right hleft hright =>
    rw [isTrueIn, Bool.or_eq_true] at h ⊢
    exact h.imp hleft hright
  | missing => cases h

/-! ## Formulas at ends -/

namespace Cofibration

/-- The whole cube or the empty face. -/
def ofBool (b : Bool) : Cofibration :=
  if b then top else bottom

/-- The meet of truth values is that of cofibrations. -/
theorem meet_ofBool (p q : Bool) : (ofBool p).meet (ofBool q) = ofBool (p && q) := by
  cases p <;> cases q <;> rfl

/-- The join of truth values is that of cofibrations. -/
theorem join_ofBool (p q : Bool) : (ofBool p).join (ofBool q) = ofBool (p || q) := by
  cases p <;> cases q <;> rfl

/-- At a point that is an end, an equation is true or false. -/
theorem eq_of_endpoint? {r : Interval} {e : Endpoint} (h : r.endpoint? = some e) (e' : Endpoint) :
    eq r e'.toInt = ofBool (r.endpoint? == some e') := by
  cases r with
  | var level => cases h
  | zero | one => cases e' <;> rfl

end Cofibration

/-- Where all variables of a formula are at ends, its cofibration is the whole cube or the empty
face. -/
theorem Face.cofibration_of_ends {face : Face} (h : face.isWhole = true)
    (hends : ∀ i ∈ face.indices, (dims.endpoint? i).isSome = true) :
    face.cofibration dims = .ok (.ofBool (face.isTrueIn dims)) := by
  induction face with
  | top => rfl
  | bottom => rfl
  | eq i e =>
    obtain ⟨e', he'⟩ := Option.isSome_iff_exists.1 (hends i (List.mem_singleton_self i))
    obtain ⟨r, hr, hend⟩ := Option.bind_eq_some_iff.1 he'
    have hpoint : point dims i = .ok r := (point_eq_ok (Index.inScope_of_get? hr)).2 hr
    refine cofibration_eq_eq_ok.2 ⟨r, hpoint, ?_⟩
    rw [Cofibration.eq_of_endpoint? hend, endpoint?_of_point hpoint]
    rfl
  | and left right hleft hright =>
    rw [isWhole, Bool.and_eq_true] at h
    simp only [indices, OrderedSet.mem_union] at hends
    have hx := hleft h.1 fun i hi => hends i (.inl hi)
    have hy := hright h.2 fun i hi => hends i (.inr hi)
    exact cofibration_and_eq_ok.2 ⟨_, _, hx, hy, Cofibration.meet_ofBool _ _⟩
  | or left right hleft hright =>
    rw [isWhole, Bool.and_eq_true] at h
    simp only [indices, OrderedSet.mem_union] at hends
    have hx := hleft h.1 fun i hi => hends i (.inl hi)
    have hy := hright h.2 fun i hi => hends i (.inr hi)
    exact cofibration_or_eq_ok.2 ⟨_, _, hx, hy, Cofibration.join_ofBool _ _⟩
  | missing => cases h

/-- Satisfaction is compositional and stable. A conjunction holds if both parts do, a disjunction if
one does, and an equation if its variable is in the environment and bound to that end. What holds
goes on to hold when variables are moved to ends, however they are. And where all variables of a
formula are bound to ends, it evaluates to the whole cube or to the empty face. -/
theorem satisfaction_compositional {a b : Face} (ha : a.isProper = true) (hb : b.isProper = true)
    (dims : IntervalEnv) :
    (∃ p q, a.holds dims = .ok p ∧ b.holds dims = .ok q ∧
      (Face.and a b).holds dims = .ok (p && q) ∧ (Face.or a b).holds dims = .ok (p || q)) ∧
    (∀ (i : Int) (e : Endpoint), 0 ≤ i →
      (Face.eq i e).holds dims = .ok (dims.endpoint? i == some e)) ∧
    (a.holds dims = .ok true → ∀ c : Clause, a.holds (dims.substitute c) = .ok true) ∧
    ((∀ i ∈ a.indices, (dims.endpoint? i).isSome = true) →
      a.cofibration dims = .ok .top ∨ a.cofibration dims = .ok .bottom) := by
  obtain ⟨φ, hφ⟩ := Face.exists_cofibration ha dims
  obtain ⟨ψ, hψ⟩ := Face.exists_cofibration hb dims
  have hholds := Face.holds_of_cofibration hφ
  refine ⟨⟨a.isTrueIn dims, b.isTrueIn dims, hholds, Face.holds_of_cofibration hψ, ?_, ?_⟩,
    fun i e hi => ?_, fun htrue c => ?_, fun hends => ?_⟩
  · exact Face.holds_of_cofibration (Face.cofibration_and_eq_ok.2 ⟨φ, ψ, hφ, hψ, rfl⟩)
  · exact Face.holds_of_cofibration (Face.cofibration_or_eq_ok.2 ⟨φ, ψ, hφ, hψ, rfl⟩)
  · obtain ⟨r, hr⟩ := Face.point_answers dims hi
    exact Face.holds_of_cofibration (Face.cofibration_eq_eq_ok.2 ⟨r, hr, rfl⟩)
  · rw [hholds] at htrue
    rw [Face.holds_eq_isTrueIn ha, Face.isTrueIn_substitute (Except.ok.inj htrue) c]
  · have hwhole : a.isWhole = true := (Bool.and_eq_true_iff.1 ha).1
    rw [Face.cofibration_of_ends hwhole hends]
    cases a.isTrueIn dims with
    | true => exact .inl rfl
    | false => exact .inr rfl

/-- With the first variable at `0` and the second generic, a disjunction on both holds, and so it
does when the second is moved. Its conjunction with an equation on a free variable does not hold. -/
theorem satisfaction_compositional_halfBound :
    let a : Face := .or (.eq 0 .zero) (.eq 1 .one)
    let b : Face := .eq 5 .one
    let dims : IntervalEnv := [.zero, .var 3]
    a.isProper = true ∧ b.isProper = true ∧ a.holds dims = .ok true ∧
      (Face.and a b).holds dims = .ok false ∧ (Face.or a b).holds dims = .ok true ∧
      ∀ c : Clause, a.holds (dims.substitute c) = .ok true := by
  intro a b dims
  have ha : a.isProper = true := by decide
  have hb : b.isProper = true := by decide
  obtain ⟨⟨p, q, hp, hq, hand, hor⟩, _, hstable, _⟩ := satisfaction_compositional ha hb dims
  obtain rfl : true = p := Except.ok.inj hp
  obtain rfl : false = q := Except.ok.inj hq
  exact ⟨ha, hb, hp, hand, hor, hstable hp⟩

end SmoothCubical
