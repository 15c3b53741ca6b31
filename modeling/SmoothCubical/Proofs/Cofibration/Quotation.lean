import Mathlib.Data.List.Forall2
import SmoothCubical.Proofs.Cofibration.Algebra
import SmoothCubical.Proofs.Stability.NormalForm

/-!
# Cofibrations read back

A cofibration is read back as a disjunction of conjunctions of equations. Evaluated over the
generic interval variables, the formula stands for what was read back, as stored
(`cofibration_survives_reading`): each equation is on the level it was made from, the equations of a
clause meet in the clause, and the clauses join to the cofibration. Levels below those in scope are
indices beyond the environment, which evaluation takes for free interval variables of the same
level.
-/

set_option autoImplicit false

namespace SmoothCubical

open OrderedSet (Increasing)

/-! ## Formulas folded to the right -/

section Fold

variable {dims : IntervalEnv} {faces : List Face} {φs : List Cofibration}

/-- A formula that has a cofibration is not missing. -/
theorem Face.ne_missing {face : Face} {φ : Cofibration} (h : face.cofibration dims = .ok φ) :
    face ≠ .missing := by
  rintro rfl
  cases h

/-- To adjoin a formula that is there is to combine with it. -/
theorem Face.adjoin_of_ne (op : Face → Face → Face) (φ : Face) {ψ : Face} (h : ψ ≠ .missing) :
    Face.adjoin op φ ψ = op φ ψ := by
  cases ψ with
  | missing => exact absurd rfl h
  | _ => rfl

/-- A formula that is there is not replaced. -/
theorem Face.getD_of_ne {φ : Face} (h : φ ≠ .missing) (unit : Face) : φ.getD unit = φ := by
  cases φ with
  | missing => exact absurd rfl h
  | _ => rfl

/-- The formulas stand for the cofibrations, one by one. -/
def StandFor (dims : IntervalEnv) (faces : List Face) (φs : List Cofibration) : Prop :=
  List.Forall₂ (fun face φ => face.cofibration dims = .ok φ) faces φs

/-- A fold of formulas stands for the fold of their cofibrations. The last formula is not joined
to anything, so the unit must be one on the right. -/
theorem StandFor.foldRight {op : Face → Face → Face} {unit : Face}
    {op' : Cofibration → Cofibration → Cofibration} {unit' : Cofibration}
    (hop : ∀ {a b x y}, a.cofibration dims = .ok x → b.cofibration dims = .ok y →
      (op a b).cofibration dims = .ok (op' x y))
    (hunit : unit.cofibration dims = .ok unit')
    (hright : ∀ {x : Cofibration}, x.IsCanonical → op' x unit' = x)
    (h : StandFor dims faces φs) :
    (Face.foldRight op unit faces).cofibration dims = .ok (φs.foldr op' unit') := by
  have hfold : faces.foldr (Face.adjoin op) .missing = .missing ∧ φs.foldr op' unit' = unit' ∨
      (faces.foldr (Face.adjoin op) .missing).cofibration dims = .ok (φs.foldr op' unit') := by
    induction h with
    | nil => exact .inl ⟨rfl, rfl⟩
    | @cons face φ faces φs hface _ ih =>
      right
      rw [List.foldr_cons, List.foldr_cons]
      rcases ih with ⟨hmissing, hrest⟩ | hrest
      · rw [hmissing, hrest, hright (Face.isCanonical_cofibration hface)]
        exact hface
      · rw [Face.adjoin_of_ne op face (Face.ne_missing hrest)]
        exact hop hface hrest
  unfold Face.foldRight
  rcases hfold with ⟨hmissing, hrest⟩ | hfold
  · rw [hmissing, hrest]
    exact hunit
  · rwa [Face.getD_of_ne (Face.ne_missing hfold)]

/-- The conjunction of formulas stands for the meet of their cofibrations. -/
theorem StandFor.conjunction (h : StandFor dims faces φs) :
    (Face.conjunction faces).cofibration dims = .ok (φs.foldr Cofibration.meet .top) :=
  h.foldRight (fun ha hb => Face.cofibration_and_eq_ok.2 ⟨_, _, ha, hb, rfl⟩) rfl
    fun hφ => hφ.meet_top

/-- The disjunction of formulas stands for the join of their cofibrations. -/
theorem StandFor.disjunction (h : StandFor dims faces φs) :
    (Face.disjunction faces).cofibration dims = .ok (φs.foldr Cofibration.join .bottom) :=
  h.foldRight (fun ha hb => Face.cofibration_or_eq_ok.2 ⟨_, _, ha, hb, rfl⟩) rfl
    fun hφ => hφ.join_bottom

/-- What is made of the members of a list one by one stands for them if each does. -/
theorem StandFor.of_mapM {α : Type} {f : α → Except Fault Face} {g : α → Cofibration}
    {xs : List α} (h : ∀ x ∈ xs, ∀ face, f x = .ok face → face.cofibration dims = .ok (g x))
    (hfaces : xs.mapM f = .ok faces) : StandFor dims faces (xs.map g) := by
  induction xs generalizing faces with
  | nil =>
    cases hfaces
    exact List.Forall₂.nil
  | cons x rest ih =>
    rw [List.mapM_cons] at hfaces
    cases hx : f x with
    | error e => simp [hx, bind, Except.bind] at hfaces
    | ok face =>
      cases hrest : rest.mapM f with
      | error e => simp [hx, hrest, bind, Except.bind] at hfaces
      | ok others =>
        obtain rfl : face :: others = faces := by
          simpa [hx, hrest, bind, Except.bind, pure, Except.pure] using hfaces
        refine List.Forall₂.cons (h x List.mem_cons_self face hx) (ih (fun y hy => ?_) hrest)
        exact h y (List.mem_cons_of_mem x hy)

end Fold

/-! ## Clauses and cofibrations from their parts -/

namespace Cofibration

/-- The constraints of a clause meet in the clause. -/
theorem foldr_meet_constraints {ks : List Constraint}
    (h : ∀ k ∈ ks, ∀ k' ∈ ks, k.level = k'.level → k = k') :
    (ks.map fun k => (⟨[[k]]⟩ : Cofibration)).foldr meet top =
      ⟨[OrderedSet.ofList Constraint.cmp ks]⟩ := by
  induction ks with
  | nil => rfl
  | cons k rest ih =>
    have hrest := ih fun a ha b hb => h a (List.mem_cons_of_mem k ha) b (List.mem_cons_of_mem k hb)
    have hconsistent :
        Clause.isConsistent (OrderedSet.ofList Constraint.cmp (k :: rest)) = true := by
      rw [Clause.isConsistent_iff (OrderedSet.increasing_ofList _).nodup]
      simpa only [OrderedSet.mem_ofList] using h
    have hne : OrderedSet.ofList Constraint.cmp (k :: rest) ≠ [] := OrderedSet.insert_ne_nil _ k _
    rw [List.map_cons, List.foldr_cons, hrest]
    change ofClauses [OrderedSet.ofList Constraint.cmp (k :: rest)] = _
    unfold ofClauses
    rw [List.filter_cons_of_pos hconsistent, List.filter_nil, if_neg (by simpa using hne.symm)]
    rfl

/-- Clauses join to the cofibration of their list. -/
theorem foldr_join_clauses {cs : List Clause}
    (h : ∀ c ∈ cs, Increasing Constraint.cmp c ∧ c.isConsistent = true) :
    (cs.map fun c => (⟨[c]⟩ : Cofibration)).foldr join bottom = ofClauses cs := by
  induction cs with
  | nil => rfl
  | cons c rest ih =>
    have hrest := ih fun d hd => h d (List.mem_cons_of_mem c hd)
    have hincreasing (d : Clause) (hd : d ∈ c :: rest) := (h d hd).1
    have hjoined (d : Clause) (hd : d ∈ [c] ++ (ofClauses rest).clauses) :
        Increasing Constraint.cmp d := by
      rcases List.mem_append.1 hd with hd | hd
      · exact hincreasing d (List.mem_singleton.1 hd ▸ List.mem_cons_self)
      · exact hincreasing d (List.mem_cons_of_mem c (mem_clauses_ofClauses.1 hd).1)
    rw [List.map_cons, List.foldr_cons, hrest]
    refine (isCanonical_ofClauses hjoined).ext (isCanonical_ofClauses hincreasing) fun d => ?_
    rw [mem_clauses_ofClauses, mem_clauses_ofClauses]
    simp only [List.singleton_append, List.mem_cons, mem_clauses_ofClauses]
    grind [Clause.isConsistent]

/-- To simplify the clauses of a canonical cofibration changes nothing. -/
theorem IsCanonical.ofClauses_clauses {φ : Cofibration} (hφ : φ.IsCanonical) :
    ofClauses φ.clauses = φ := by
  refine (isCanonical_ofClauses fun c hc => (hφ.clause c hc).1).ext hφ fun c => ?_
  rw [mem_clauses_ofClauses]
  constructor
  · exact fun h => h.1
  · intro hc
    exact ⟨hc, (hφ.clause c hc).2, fun hnil => hφ.eq_nil hnil hc⟩

/-! ## Reading back -/

variable {count : Nat}

/-- The index of a level stands for the level, also if it is beyond the environment. -/
theorem point_flip {l : Int} (hl : l < count) :
    Face.point (.generic count) (Index.flip count l) = .ok (.var l) := by
  unfold Face.point
  rw [IntervalEnv.length_generic]
  split
  · rename_i hindex
    have hscope : Index.inScope count (Index.flip count l) = true := by
      rw [Index.inScope_flip]
      simp only [Index.inScope, Bool.and_eq_true, decide_eq_true_eq]
      simp only [Index.flip] at hindex
      omega
    rw [IntervalEnv.find_eq_ok, IntervalEnv.get?_generic hscope, Index.flip_flip]
  · rw [Index.flip_flip]

/-- The equation that a constraint is read back to stands for that constraint. -/
theorem cofibration_equationOf {k : Constraint} (hk : k.level < count) {face : Face}
    (h : equationOf count k = .ok face) : face.cofibration (.generic count) = .ok ⟨[[k]]⟩ := by
  unfold equationOf Face.equation at h
  cases he : Endpoint.ofInt? k.endpoint with
  | none =>
    rw [he] at h
    cases h
  | some e =>
    rw [he] at h
    cases h
    have hend : e.toInt = k.endpoint := by
      unfold Endpoint.ofInt? at he
      split at he
      · cases he
        simp_all [Endpoint.toInt]
      · split at he <;> cases he
        simp_all [Endpoint.toInt]
    refine Face.cofibration_eq_eq_ok.2 ⟨.var k.level, point_flip hk, ?_⟩
    rw [hend]
    rfl

/-- The formula that a consistent clause is read back to stands for that clause. -/
theorem cofibration_clauseToFace {c : Clause} (hc : Increasing Constraint.cmp c)
    (hconsistent : c.isConsistent = true) (hlevels : c.On fun l => l < count) {face : Face}
    (h : clauseToFace count c = .ok face) : face.cofibration (.generic count) = .ok ⟨[c]⟩ := by
  unfold clauseToFace at h
  cases hfaces : c.reverse.mapM (equationOf count) with
  | error e =>
    rw [hfaces] at h
    cases h
  | ok faces =>
    rw [hfaces] at h
    cases h
    have hstand : StandFor (.generic count) faces (c.reverse.map fun k => ⟨[[k]]⟩) :=
      .of_mapM (fun k hk face => cofibration_equationOf (hlevels k (List.mem_reverse.1 hk)).1)
        hfaces
    have hdistinct := (Clause.isConsistent_iff hc.nodup).1 hconsistent
    have hstored : OrderedSet.ofList Constraint.cmp c.reverse = c :=
      (OrderedSet.increasing_ofList _).ext hc (by simp)
    rw [hstand.conjunction, foldr_meet_constraints, hstored]
    intro k hk k' hk'
    exact hdistinct k (List.mem_reverse.1 hk) k' (List.mem_reverse.1 hk')

/-- To evaluate what a cofibration is read back as gives the cofibration, as stored. -/
theorem IsCanonical.cofibration_toFace {φ : Cofibration} (hφ : φ.IsCanonical)
    (hlevels : φ.On fun l => l < count) {face : Face} (h : φ.toFace count = .ok face) :
    face.cofibration (.generic count) = .ok φ := by
  unfold toFace at h
  cases hfaces : φ.clauses.mapM (clauseToFace count) with
  | error e =>
    rw [hfaces] at h
    cases h
  | ok faces =>
    rw [hfaces] at h
    cases h
    have hstand : StandFor (.generic count) faces (φ.clauses.map fun c => ⟨[c]⟩) :=
      .of_mapM (fun c hc face => cofibration_clauseToFace (hφ.clause c hc).1 (hφ.clause c hc).2
        (hlevels c hc)) hfaces
    rw [hstand.disjunction, foldr_join_clauses hφ.clause, hφ.ofClauses_clauses]

/-- What is read back of a cofibration that holds somewhere but not everywhere is settled. -/
theorem IsCanonical.isSettled_toFace {φ : Cofibration} (hφ : φ.IsCanonical)
    (hlevels : φ.On fun l => l < count) (htrue : φ.isTrue = false) (hfalse : φ.isFalse = false)
    {face : Face} (h : φ.toFace count = .ok face) : face.isSettled count = true := by
  unfold Face.isSettled
  rw [hφ.cofibration_toFace hlevels h]
  simp [htrue, hfalse, h]

/-- Only an endpoint that is no end of the interval keeps a cofibration from being read back. -/
theorem exists_toFace {φ : Cofibration} {depth : Int} (h : φ.On fun _ => True) :
    ∃ face, φ.toFace depth = .ok face := by
  have hequation (c : Clause) (hc : c ∈ φ.clauses) (k : Constraint) (hk : k ∈ c.reverse) :
      ∃ face, equationOf depth k = .ok face ∧ True := by
    unfold equationOf Face.equation
    rcases (h c hc k (List.mem_reverse.1 hk)).2 with hend | hend <;> rw [hend]
    · exact ⟨.eq _ .zero, rfl, trivial⟩
    · exact ⟨.eq _ .one, rfl, trivial⟩
  have hclause (c : Clause) (hc : c ∈ φ.clauses) :
      ∃ face, clauseToFace depth c = .ok face ∧ True := by
    obtain ⟨faces, hfaces, _⟩ := mapM_answered (hequation c hc)
    exact ⟨Face.conjunction faces, by rw [clauseToFace, hfaces]; rfl, trivial⟩
  obtain ⟨faces, hfaces, _⟩ := mapM_answered hclause
  exact ⟨Face.disjunction faces, by rw [toFace, hfaces]; rfl⟩

end Cofibration

/-- A cofibration survives being read back. Under any number of interval variables, if its levels
are those in scope and free ones and its endpoints are ends of the interval, then it is read back as
a formula, and the formula evaluates to the cofibration, as stored. -/
theorem cofibration_survives_reading {φ : Cofibration} (hφ : φ.Built) {count : Nat}
    (hlevels : φ.On fun l => l < count) :
    ∃ face, φ.toFace count = .ok face ∧ face.cofibration (.generic count) = .ok φ := by
  obtain ⟨face, hface⟩ := Cofibration.exists_toFace (hlevels.mono fun _ _ => trivial)
  exact ⟨face, hface, hφ.isCanonical.cofibration_toFace hlevels hface⟩

/-- Under two interval variables, one clause is on the farther of them and the other on the nearer
and a free one. -/
theorem cofibration_survives_reading_freeLevel :
    let φ := (Cofibration.eq (.var 0) 1).join ((Cofibration.eq (.var 1) 0).meet (.eq (.var (-2)) 1))
    let face := Face.or (.and (.eq 0 .zero) (.eq 3 .one)) (.eq 1 .one)
    φ.Built ∧ φ.clauses = [[⟨-2, 1⟩, ⟨1, 0⟩], [⟨0, 1⟩]] ∧ φ.toFace 2 = .ok face ∧
      face.cofibration [.var 1, .var 0] = .ok φ := by
  intro φ face
  have hbuilt : φ.Built := .join (.eq _ _) (.meet (.eq _ _) (.eq _ _))
  have hclauses : φ.clauses = [[⟨-2, 1⟩, ⟨1, 0⟩], [⟨0, 1⟩]] := by decide
  have hface : φ.toFace 2 = .ok face := rfl
  have hlevels : φ.On fun l => l < (2 : Nat) := by
    unfold Cofibration.On Clause.On
    decide
  obtain ⟨face', hface', hback⟩ := cofibration_survives_reading hbuilt hlevels
  obtain rfl : face = face' := Except.ok.inj (hface.symm.trans hface')
  exact ⟨hbuilt, hclauses, hface, hback⟩

end SmoothCubical
