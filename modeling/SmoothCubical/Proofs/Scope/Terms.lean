import SmoothCubical.Proofs.Stability.Settled

/-!
# Terms in scope

A term is in scope if it is whole and all its indices are in range, those of face formulas
included. Then every question that evaluation asks about the term alone has an answer: whether it
mentions an interval variable, and which cofibration a face formula stands for. The constraints of
that cofibration are on levels that occur in the interval environment, so it can be read back
wherever these are in range, as a formula that is again in scope.
-/

set_option autoImplicit false

namespace SmoothCubical

/-- Whether all equations of the formula are on the first `count` interval variables. -/
def Face.inScope (count : Nat) : Face → Bool
  | .top => true
  | .bottom => true
  | .eq index _ => Index.inScope count index
  | .and left right => left.inScope count && right.inScope count
  | .or left right => left.inScope count && right.inScope count
  | .missing => false

namespace Term

mutual

/-- Whether the term is whole and its indices are in range, under so many term and interval
variables. -/
def isScoped : Nat → Nat → Term → Bool
  | _, _, .univ _ => true
  | depth, _, .var index => Index.inScope depth index
  | depth, count, .pi _ domain codomain =>
    domain.isScoped depth count && codomain.isScoped (depth + 1) count
  | depth, count, .lam _ body => body.isScoped (depth + 1) count
  | depth, count, .app function argument =>
    function.isScoped depth count && argument.isScoped depth count
  | depth, count, .path ty left right =>
    ty.isScoped depth count && left.isScoped depth count && right.isScoped depth count
  | depth, count, .pathLam _ body => body.isScoped depth (count + 1)
  | depth, count, .pathApp p dim => p.isScoped depth count && dim.inScope count
  | depth, count, .smoothPath _ ty left right =>
    ty.isScoped depth count && left.isScoped depth count && right.isScoped depth count
  | depth, count, .comp source target family faces base =>
    source.inScope count && target.inScope count && family.isScoped depth (count + 1) &&
      scopedBranches depth count faces && base.isScoped depth count
  | depth, count, .coe source target family base =>
    source.inScope count && target.inScope count && family.isScoped depth (count + 1) &&
      base.isScoped depth count
  | depth, count, .hcomp ty faces base =>
    ty.isScoped depth count && scopedBranches depth count faces && base.isScoped depth count
  | _, _, .missing => false

/-- Whether every formula, and every body under the direction, is in scope. -/
def scopedBranches : Nat → Nat → List (Face × Term) → Bool
  | _, _, [] => true
  | depth, count, (φ, body) :: rest =>
    φ.inScope count && body.isScoped depth (count + 1) && scopedBranches depth count rest

end

/-! ## Whole terms can be searched -/

/-- A search that goes on in a second place is answered if both places can be searched. -/
theorem search_answered {x y : Except Fault Bool} (hx : ∃ b, x = .ok b) (hy : ∃ b, y = .ok b) :
    ∃ b, (x >>= fun found => if found = true then pure true else y) = .ok b := by
  obtain ⟨b, rfl⟩ := hx
  cases b with
  | true => exact ⟨true, rfl⟩
  | false => exact hy

/-- A search that stops at a hit is answered if the rest can be searched. -/
theorem ite_answered {b : Bool} {y : Except Fault Bool} (hy : ∃ b, y = .ok b) :
    ∃ c, (if b = true then pure true else y) = .ok c := by
  cases b with
  | true => exact ⟨true, rfl⟩
  | false => exact hy

mutual

/-- A whole term can be searched for an interval variable. -/
theorem mentions_answered : ∀ {t : Term}, t.isWhole = true →
    ∀ index : Int, ∃ b, t.mentions index = .ok b
  | .univ _, _, _ => ⟨false, rfl⟩
  | .var _, _, _ => ⟨false, rfl⟩
  | .pi _ _ _, h, i => by
    simp only [isWhole, Bool.and_eq_true] at h
    exact search_answered (mentions_answered h.1 i) (mentions_answered h.2 i)
  | .lam _ b, h, i => by
    simp only [isWhole] at h
    exact mentions_answered (t := b) h i
  | .app _ _, h, i => by
    simp only [isWhole, Bool.and_eq_true] at h
    exact search_answered (mentions_answered h.1 i) (mentions_answered h.2 i)
  | .path _ _ _, h, i => by
    simp only [isWhole, Bool.and_eq_true] at h
    exact search_answered (mentions_answered h.1.1 i)
      (search_answered (mentions_answered h.1.2 i) (mentions_answered h.2 i))
  | .pathLam _ b, h, i => by
    simp only [isWhole] at h
    exact mentions_answered (t := b) h (i + 1)
  | .pathApp p _, h, i => by
    simp only [isWhole] at h
    exact ite_answered (mentions_answered (t := p) h i)
  | .smoothPath _ _ _ _, h, i => by
    simp only [isWhole, Bool.and_eq_true] at h
    exact search_answered (mentions_answered h.1.1 i)
      (search_answered (mentions_answered h.1.2 i) (mentions_answered h.2 i))
  | .comp _ _ _ _ _, h, i => by
    simp only [isWhole, Bool.and_eq_true] at h
    exact ite_answered (search_answered (mentions_answered h.1.1 (i + 1))
      (search_answered (mentions_answered h.2 i) (mentionsBranches_answered h.1.2 i)))
  | .coe _ _ _ _, h, i => by
    simp only [isWhole, Bool.and_eq_true] at h
    exact ite_answered (search_answered (mentions_answered h.1 (i + 1))
      (mentions_answered h.2 i))
  | .hcomp _ _ _, h, i => by
    simp only [isWhole, Bool.and_eq_true] at h
    exact search_answered (mentions_answered h.1.1 i)
      (search_answered (mentions_answered h.2 i) (mentionsBranches_answered h.1.2 i))

/-- A whole system of partial elements can be searched for an interval variable. -/
theorem mentionsBranches_answered : ∀ {fs : List (Face × Term)},
    wholeBranches fs = true → ∀ index : Int, ∃ b, mentionsBranches index fs = .ok b
  | [], _, _ => ⟨false, rfl⟩
  | (_, _) :: _, h, i => by
    simp only [wholeBranches, Bool.and_eq_true] at h
    exact ite_answered (search_answered (mentions_answered h.1 (i + 1))
      (mentionsBranches_answered h.2 i))

end

mutual

/-- A term in scope is whole. -/
theorem isWhole_of_isScoped : ∀ {t : Term} {depth count : Nat},
    t.isScoped depth count = true → t.isWhole = true
  | .univ _, _, _, _ => rfl
  | .var _, _, _, _ => rfl
  | .pi _ _ _, _, _, h => by
    simp only [isScoped, Bool.and_eq_true] at h
    simp [isWhole, isWhole_of_isScoped h.1, isWhole_of_isScoped h.2]
  | .lam _ b, _, _, h => by
    simp only [isScoped] at h
    exact isWhole_of_isScoped (t := b) h
  | .app _ _, _, _, h => by
    simp only [isScoped, Bool.and_eq_true] at h
    simp [isWhole, isWhole_of_isScoped h.1, isWhole_of_isScoped h.2]
  | .path _ _ _, _, _, h => by
    simp only [isScoped, Bool.and_eq_true] at h
    simp [isWhole, isWhole_of_isScoped h.1.1, isWhole_of_isScoped h.1.2, isWhole_of_isScoped h.2]
  | .pathLam _ b, _, _, h => by
    simp only [isScoped] at h
    exact isWhole_of_isScoped (t := b) h
  | .pathApp _ _, _, _, h => by
    simp only [isScoped, Bool.and_eq_true] at h
    simp [isWhole, isWhole_of_isScoped h.1]
  | .smoothPath _ _ _ _, _, _, h => by
    simp only [isScoped, Bool.and_eq_true] at h
    simp [isWhole, isWhole_of_isScoped h.1.1, isWhole_of_isScoped h.1.2, isWhole_of_isScoped h.2]
  | .comp _ _ _ _ _, _, _, h => by
    simp only [isScoped, Bool.and_eq_true] at h
    simp [isWhole, isWhole_of_isScoped h.1.1.2, wholeBranches_of_scopedBranches h.1.2,
      isWhole_of_isScoped h.2]
  | .coe _ _ _ _, _, _, h => by
    simp only [isScoped, Bool.and_eq_true] at h
    simp [isWhole, isWhole_of_isScoped h.1.2, isWhole_of_isScoped h.2]
  | .hcomp _ _ _, _, _, h => by
    simp only [isScoped, Bool.and_eq_true] at h
    simp [isWhole, isWhole_of_isScoped h.1.1, wholeBranches_of_scopedBranches h.1.2,
      isWhole_of_isScoped h.2]

/-- A system in scope is whole. -/
theorem wholeBranches_of_scopedBranches : ∀ {fs : List (Face × Term)} {depth count : Nat},
    scopedBranches depth count fs = true → wholeBranches fs = true
  | [], _, _, _ => rfl
  | (_, _) :: _, _, _, h => by
    simp only [scopedBranches, Bool.and_eq_true] at h
    simp [wholeBranches, isWhole_of_isScoped h.1.2, wholeBranches_of_scopedBranches h.2]

end

end Term

/-! ## Cofibrations on given levels -/

/-- All constraints of the clause set one of the levels to an end. -/
def Clause.On (point : Int → Prop) (c : Clause) : Prop :=
  ∀ k ∈ c, point k.level ∧ (k.endpoint = 0 ∨ k.endpoint = 1)

/-- All constraints of the cofibration set one of the levels to an end. -/
def Cofibration.On (point : Int → Prop) (φ : Cofibration) : Prop :=
  ∀ c ∈ φ.clauses, c.On point

/-- The point is an end or one of the levels. -/
def Interval.On (point : Int → Prop) : Interval → Prop
  | .var level => point level
  | _ => True

section On

variable {point point' : Int → Prop}

/-- A clause on some levels is on any more of them. -/
theorem Clause.On.mono (h : ∀ l, point l → point' l) {c : Clause} (hc : c.On point) :
    c.On point' :=
  fun k hk => ⟨h _ (hc k hk).1, (hc k hk).2⟩

/-- A point on some levels is on any more of them. -/
theorem Interval.On.mono (h : ∀ l, point l → point' l) {r : Interval} (hr : r.On point) :
    r.On point' := by
  cases r with
  | var level => exact h level hr
  | zero => trivial
  | one => trivial

namespace Cofibration

/-- A cofibration on some levels is on any more of them. -/
theorem On.mono (h : ∀ l, point l → point' l) {φ : Cofibration} (hφ : φ.On point) :
    φ.On point' :=
  fun c hc => (hφ c hc).mono h

/-- The whole cube is a cofibration on any levels. -/
theorem on_top : top.On point := by
  intro c hc
  obtain rfl : c = [] := by simpa [top] using hc
  simp [Clause.On]

/-- The empty cofibration is on any levels. -/
theorem on_bottom : bottom.On point :=
  nofun

/-- Simplifying a list of clauses invents none. -/
theorem on_ofClauses {cs : List Clause} (h : ∀ c ∈ cs, c.On point) : (ofClauses cs).On point := by
  unfold ofClauses
  dsimp only
  split
  · exact on_top
  · intro c hc
    have hmem := OrderedSet.mem_of_mem_ofList _ hc
    exact h c (List.mem_filter.1 hmem).1

/-- A meet is on the levels that its parts are on. -/
theorem On.meet {φ ψ : Cofibration} (hφ : φ.On point) (hψ : ψ.On point) :
    (φ.meet ψ).On point := by
  apply on_ofClauses
  intro c hc
  simp only [List.mem_flatMap, List.mem_map] at hc
  obtain ⟨a, ha, b, hb, rfl⟩ := hc
  intro k hk
  rcases OrderedSet.mem_of_mem_union _ hk with hk | hk
  · exact hφ a ha k hk
  · exact hψ b hb k hk

/-- A join is on the levels that its parts are on. -/
theorem On.join {φ ψ : Cofibration} (hφ : φ.On point) (hψ : ψ.On point) :
    (φ.join ψ).On point := by
  apply on_ofClauses
  intro c hc
  rcases List.mem_append.1 hc with hc | hc
  · exact hφ c hc
  · exact hψ c hc

/-- The cofibration at which a point is at an end is on the levels of that point. -/
theorem on_eq {r : Interval} (hr : r.On point) {endpoint : Int}
    (he : endpoint = 0 ∨ endpoint = 1) : (Cofibration.eq r endpoint).On point := by
  cases r with
  | var level =>
    intro c hc k hk
    obtain rfl : c = [⟨level, endpoint⟩] := by simpa [Cofibration.eq] using hc
    obtain rfl : k = ⟨level, endpoint⟩ := by simpa using hk
    exact ⟨hr, he⟩
  | zero =>
    change On point (if endpoint = 0 then top else bottom)
    split
    · exact on_top
    · exact on_bottom
  | one =>
    change On point (if endpoint = 1 then top else bottom)
    split
    · exact on_top
    · exact on_bottom

end Cofibration

end On

/-! ## Evaluating and reading back formulas in scope -/

section Formulas

variable {point : Int → Prop} {dims : IntervalEnv}

/-- An end is one of two numbers. -/
theorem Endpoint.toInt_eq (e : Endpoint) : e.toInt = 0 ∨ e.toInt = 1 := by
  cases e with
  | zero => exact .inl rfl
  | one => exact .inr rfl

/-- An interval variable in scope is found, at a point on the levels of the environment. -/
theorem IntervalEnv.find_answered (hdims : ∀ r ∈ dims, r.On point) {i : Int}
    (hi : Index.inScope dims.length i = true) : ∃ r, dims.find i = .ok r ∧ r.On point := by
  obtain ⟨r, hr⟩ := Index.get?_of_inScope hi
  exact ⟨r, IntervalEnv.find_eq_ok.2 hr, hdims r (Index.mem_of_get? hr)⟩

/-- A dimension stands for an end or for a point of the environment. -/
theorem IntervalEnv.resolve_on (hdims : ∀ r ∈ dims, r.On point) {d : Dim} {r : Interval}
    (h : dims.resolve d = .ok r) : r.On point := by
  cases d with
  | zero =>
    cases h
    trivial
  | one =>
    cases h
    trivial
  | var i => exact hdims r (Index.mem_of_get? (IntervalEnv.find_eq_ok.1 h))
  | missing => cases h

/-- A dimension in scope can be resolved. -/
theorem IntervalEnv.resolve_answered {d : Dim} (hd : d.inScope dims.length = true) :
    ∃ r, dims.resolve d = .ok r := by
  cases d with
  | zero => exact ⟨.zero, rfl⟩
  | one => exact ⟨.one, rfl⟩
  | var i =>
    obtain ⟨r, hr⟩ := Index.get?_of_inScope hd
    exact ⟨r, IntervalEnv.find_eq_ok.2 hr⟩
  | missing => cases hd

/-- A face formula in scope stands for a cofibration, on the levels of the environment. -/
theorem Face.cofibration_answered (hdims : ∀ r ∈ dims, r.On point) {φ : Face}
    (hφ : φ.inScope dims.length = true) : ∃ c, φ.cofibration dims = .ok c ∧ c.On point := by
  induction φ with
  | top => exact ⟨_, rfl, Cofibration.on_top⟩
  | bottom => exact ⟨_, rfl, Cofibration.on_bottom⟩
  | eq i e =>
    obtain ⟨r, hr, hon⟩ := IntervalEnv.find_answered hdims hφ
    have hlt : i < dims.length := by
      simp only [Face.inScope, Index.inScope, Bool.and_eq_true, decide_eq_true_eq] at hφ
      exact hφ.2
    refine ⟨.eq r e.toInt, ?_, Cofibration.on_eq hon e.toInt_eq⟩
    rw [Face.cofibration, Face.point, if_pos hlt, hr]
    rfl
  | and φ ψ ihφ ihψ =>
    simp only [Face.inScope, Bool.and_eq_true] at hφ
    obtain ⟨a, ha, hona⟩ := ihφ hφ.1
    obtain ⟨b, hb, honb⟩ := ihψ hφ.2
    exact ⟨_, Face.cofibration_and_eq_ok.2 ⟨a, b, ha, hb, rfl⟩, hona.meet honb⟩
  | or φ ψ ihφ ihψ =>
    simp only [Face.inScope, Bool.and_eq_true] at hφ
    obtain ⟨a, ha, hona⟩ := ihφ hφ.1
    obtain ⟨b, hb, honb⟩ := ihψ hφ.2
    exact ⟨_, Face.cofibration_or_eq_ok.2 ⟨a, b, ha, hb, rfl⟩, hona.join honb⟩
  | missing => cases hφ

/-- The cofibration of an equation is that of the point which its variable stands for. -/
theorem Face.cofibration_eq_eq_ok {i : Int} {e : Endpoint} {φ : Cofibration} :
    (Face.eq i e).cofibration dims = .ok φ ↔
      ∃ r, Face.point dims i = .ok r ∧ Cofibration.eq r e.toInt = φ := by
  rw [Face.cofibration]
  cases Face.point dims i <;> simp [Except.map]

/-- What an equation is about: a point of the environment, or a free variable below all levels. -/
theorem Face.mem_of_point {i : Int} {r : Interval} (h : Face.point dims i = .ok r) :
    r ∈ dims ∨ ∃ l < 0, r = .var l := by
  unfold Face.point at h
  split at h
  · exact .inl (Index.mem_of_get? (IntervalEnv.find_eq_ok.1 h))
  · cases h
    refine .inr ⟨_, ?_, rfl⟩
    unfold Index.flip
    omega

/-- The constraints of a formula are on levels of the environment or below them. -/
theorem Face.on_cofibration (hdims : ∀ r ∈ dims, r.On point) (hfree : ∀ l < 0, point l)
    {face : Face} {φ : Cofibration} (h : face.cofibration dims = .ok φ) : φ.On point := by
  induction face generalizing φ with
  | top =>
    cases h
    exact Cofibration.on_top
  | bottom =>
    cases h
    exact Cofibration.on_bottom
  | eq i e =>
    obtain ⟨r, hr, rfl⟩ := Face.cofibration_eq_eq_ok.1 h
    refine Cofibration.on_eq ?_ e.toInt_eq
    rcases Face.mem_of_point hr with hmem | ⟨l, hl, rfl⟩
    · exact hdims r hmem
    · exact hfree l hl
  | and left right hleft hright =>
    obtain ⟨x, y, hx, hy, rfl⟩ := Face.cofibration_and_eq_ok.1 h
    exact (hleft hx).meet (hright hy)
  | or left right hleft hright =>
    obtain ⟨x, y, hx, hy, rfl⟩ := Face.cofibration_or_eq_ok.1 h
    exact (hleft hx).join (hright hy)
  | missing => cases h

/-- To move constrained variables to their ends brings no new level in. -/
theorem Interval.On.substitute (c : Clause) {r : Interval} (hr : r.On point) :
    (r.substitute c).On point := by
  cases r with
  | zero => trivial
  | one => trivial
  | var level =>
    unfold Interval.substitute
    dsimp only
    split
    · split <;> trivial
    · exact hr

/-- A substitution of ends for interval variables adds no levels to an environment. -/
theorem IntervalEnv.substitute_on (c : Clause) (hdims : ∀ r ∈ dims, r.On point) :
    ∀ r ∈ dims.substitute c, r.On point := by
  intro r hr
  obtain ⟨r', hr', rfl⟩ := List.mem_map.1 hr
  exact (hdims r' hr').substitute c

/-- A fold of formulas in scope is in scope. -/
theorem Face.inScope_foldRight {count : Nat} {op : Face → Face → Face} {unit : Face}
    (hop : ∀ φ ψ, φ.inScope count = true → ψ.inScope count = true →
      (op φ ψ).inScope count = true)
    (hunit : unit.inScope count = true) {fs : List Face}
    (hfs : ∀ φ ∈ fs, φ.inScope count = true) : (foldRight op unit fs).inScope count = true := by
  have hfold : fs.foldr (adjoin op) .missing = .missing ∨
      (fs.foldr (adjoin op) .missing).inScope count = true := by
    induction fs with
    | nil => exact .inl rfl
    | cons φ rest ih =>
      have hφ := hfs φ List.mem_cons_self
      have hrest := ih fun ψ hψ => hfs ψ (List.mem_cons_of_mem φ hψ)
      rw [List.foldr_cons]
      rcases hrest with hrest | hrest
      · rw [hrest]
        exact .inr hφ
      · unfold adjoin
        split
        · exact .inr hφ
        · exact .inr (hop _ _ hφ hrest)
  unfold foldRight
  rcases hfold with hfold | hfold
  · rw [hfold]
    exact hunit
  · unfold getD
    split
    · exact hunit
    · exact hfold

/-- A list that is mapped by answers in a set is mapped to a list of such answers. -/
theorem mapM_answered {α β : Type} {f : α → Except Fault β} {P : β → Prop} {xs : List α}
    (h : ∀ x ∈ xs, ∃ y, f x = .ok y ∧ P y) :
    ∃ ys, xs.mapM f = .ok ys ∧ ∀ y ∈ ys, P y := by
  induction xs with
  | nil => exact ⟨[], rfl, nofun⟩
  | cons x rest ih =>
    obtain ⟨y, hy, hPy⟩ := h x List.mem_cons_self
    obtain ⟨ys, hys, hPys⟩ := ih fun z hz => h z (List.mem_cons_of_mem x hz)
    refine ⟨y :: ys, ?_, ?_⟩
    · rw [List.mapM_cons, hy, hys]
      rfl
    · intro z hz
      rcases List.mem_cons.1 hz with rfl | hz
      · exact hPy
      · exact hPys z hz

/-- A cofibration on levels in range is read back as a formula in scope. -/
theorem Cofibration.toFace_answered {count : Nat} {φ : Cofibration}
    (hφ : φ.On fun l => Index.inScope count l = true) :
    ∃ ψ, φ.toFace count = .ok ψ ∧ ψ.inScope count = true := by
  have hand (φ ψ : Face) (hφ : φ.inScope count = true) (hψ : ψ.inScope count = true) :
      (Face.and φ ψ).inScope count = true := by simp [Face.inScope, hφ, hψ]
  have hor (φ ψ : Face) (hφ : φ.inScope count = true) (hψ : ψ.inScope count = true) :
      (Face.or φ ψ).inScope count = true := by simp [Face.inScope, hφ, hψ]
  have hequation (k : Constraint) (hlevel : Index.inScope count k.level = true)
      (hend : k.endpoint = 0 ∨ k.endpoint = 1) :
      ∃ ψ, equationOf count k = .ok ψ ∧ ψ.inScope count = true := by
    have hflip : Index.inScope count (Index.flip count k.level) = true := by
      rwa [Index.inScope_flip]
    unfold equationOf Face.equation
    rcases hend with hend | hend <;> rw [hend]
    · exact ⟨.eq _ .zero, rfl, hflip⟩
    · exact ⟨.eq _ .one, rfl, hflip⟩
  have hclause (c : Clause) (hc : c ∈ φ.clauses) :
      ∃ ψ, clauseToFace count c = .ok ψ ∧ ψ.inScope count = true := by
    have hon (k : Constraint) (hk : k ∈ c.reverse) := hφ c hc k (List.mem_reverse.1 hk)
    obtain ⟨ψs, hψs, hscope⟩ :=
      mapM_answered fun k hk => hequation k (hon k hk).1 (hon k hk).2
    refine ⟨Face.conjunction ψs, ?_, Face.inScope_foldRight hand rfl hscope⟩
    rw [clauseToFace, hψs]
    rfl
  obtain ⟨ψs, hψs, hscope⟩ := mapM_answered hclause
  refine ⟨Face.disjunction ψs, ?_, Face.inScope_foldRight hor rfl hscope⟩
  rw [toFace, hψs]
  rfl

end Formulas

end SmoothCubical
