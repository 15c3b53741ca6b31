import SmoothCubical.Eval.Evaluate

/-!
# How far values go without a step

Only the evaluation of a term is charged a step. The rules for Kan operations, their closures and
reading back call one another at no charge, so it has to be seen that they do not go on for ever
before they come to a term again.

For that, values are measured. The `size` of a value bounds how often a reader can go into it at no
charge. The body of an interval abstraction has a `time`, which bounds how deep its calls may nest
before the first step, and a `reach`, which bounds the size of what it gives if there was no step. A
composition of paths gives another one at each point, in the elements of its family; so its reach
counts the reach of the family three times, and an element has a reach that is one less.

The measures are right only for values that are `Regular`, as evaluation builds them: a function
type has a term for its codomain, and a composition or coercion of functions goes from one point to
another and has no partial element that is given everywhere. So an abstraction, run at an argument,
always comes to a term.
-/

set_option autoImplicit false

namespace SmoothCubical

/-! ## Sizes -/

/-- The size of a Kan operation, from the reach and time of its family, the size of its partial
elements and the size of its base. -/
def kanSize (reach time tubes base : Nat) : Nat :=
  -- A path type less in the family costs two calls more in its time and one more level in the
  -- answer; that is the `3`. The `9` leaves room for the calls of one composition.
  max (max reach time) (max tubes base) + 3 * reach + 9

mutual

/-- How often a reader can go into a value at no charge. -/
def Value.size : Value → Nat
  | .univ _ => 1
  | .pi _ a _ => 1 + a.size
  | .lam _ c => 1 + c.time
  | .path a l r => 1 + max a.size (max l.size r.size)
  | .smoothPath _ a l r => 1 + max a.size (max l.size r.size)
  | .pathLam _ c => 1 + max c.reach c.time
  | .stuck n none => 1 + n.size
  | .stuck n (some a) => 1 + max n.size a.size

/-- How often a reader can go into a stuck computation at no charge. -/
def Neutral.size : Neutral → Nat
  | .var _ => 0
  | .app n v => 1 + max n.size v.size
  | .pathApp n _ => 1 + n.size
  | .comp _ _ a faces v => 1 + max (max a.reach a.time) (max (tubesSize faces) v.size)
  | .coe _ _ a v => 1 + max (max a.reach a.time) v.size

/-- How deep the calls of an abstraction nest before the first step. -/
def Closure.time : Closure → Nat
  | .body _ _ _ => 0
  | .comp _ _ _ a _ v => 6 + max a.time v.size
  | .coe _ _ _ a v => 6 + max a.time v.size

/-- The size of what an interval abstraction gives at no charge; `0` if it never does. -/
def IntervalClosure.reach : IntervalClosure → Nat
  | .body _ _ _ => 0
  | .choice u v w => max u.size (max v.size w.size)
  | .domain _ a => a.reach - 1
  | .codomain _ _ _ => 0
  | .element _ a => a.reach - 1
  | .left _ a => a.reach - 1
  | .right _ a => a.reach - 1
  | .app _ u y => 2 + max u.reach y.reach
  | .pathApp _ u _ => 1 + u.reach
  | .comp _ _ _ a faces v => kanSize a.reach a.time (tubesSize faces) v.size

/-- How deep the calls of an interval abstraction nest before the first step. -/
def IntervalClosure.time : IntervalClosure → Nat
  | .body _ _ _ => 0
  | .choice _ _ _ => 0
  | .domain _ a => 1 + a.time
  | .codomain _ a y => 1 + max a.time y.time
  | .element _ a => 1 + a.time
  | .left _ a => 1 + a.time
  | .right _ a => 1 + a.time
  | .app _ u y => 1 + max (max u.time u.reach) y.time
  | .pathApp _ u _ => 1 + max u.time u.reach
  | .comp _ _ _ a faces v => kanSize a.reach a.time (tubesSize faces) v.size

/-- The size of what a moved argument is at no charge. -/
def Carried.reach : Carried → Nat
  | .mk d _ v => 1 + kanSize d.reach d.time 0 v.size

/-- How deep the calls of a moved argument nest before the first step. -/
def Carried.time : Carried → Nat
  | .mk d _ _ => d.time

/-- The size of the types that a family gives at no charge; `0` if it never does. -/
def Line.reach : Line → Nat
  | .varying c _ => c.reach
  | .constant a => a.size

/-- How deep the calls of a family nest before the first step. -/
def Line.time : Line → Nat
  | .varying c _ => 1 + c.time
  | .constant _ => 0

/-- The largest reach or time of partial elements. -/
def tubesSize : List (Cofibration × IntervalClosure) → Nat
  | [] => 0
  | (_, u) :: rest => max (max u.reach u.time) (tubesSize rest)

end

/-- No value is of size zero. -/
theorem Value.size_pos (v : Value) : 0 < v.size := by
  fun_cases Value.size v <;> omega

/-- Partial elements are within a size if and only if the reach and the time of each body are. -/
theorem tubesSize_le {faces : List Tube} {n : Nat} :
    tubesSize faces ≤ n ↔ ∀ face ∈ faces, face.2.reach ≤ n ∧ face.2.time ≤ n := by
  induction faces with
  | nil => simp [tubesSize]
  | cons face rest ih =>
    simp only [tubesSize, List.forall_mem_cons, Nat.max_le, ih]

namespace Eval

/-- The first partial element that is given everywhere is one of them. -/
theorem firstTrue?_mem {faces : List Tube} {u : IntervalClosure} (h : firstTrue? faces = some u) :
    ∃ φ, (φ, u) ∈ faces := by
  induction faces with
  | nil => cases h
  | cons face rest ih =>
    unfold firstTrue? at h
    split at h
    · cases h
      exact ⟨face.1, List.mem_cons_self⟩
    · obtain ⟨φ, hmem⟩ := ih h
      exact ⟨φ, List.mem_cons_of_mem face hmem⟩

/-- No partial element is found that is given everywhere if and only if there is none. -/
theorem firstTrue?_eq_none_iff {faces : List Tube} :
    firstTrue? faces = none ↔ ∀ face ∈ faces, face.1.isTrue = false := by
  induction faces with
  | nil => simp [firstTrue?]
  | cons face rest ih =>
    unfold firstTrue?
    by_cases hφ : face.1.isTrue = true <;> simp [hφ, ih]

/-- If none of the partial elements is given everywhere, none of the possible ones is. -/
theorem firstTrue?_possible {faces : List Tube} (h : firstTrue? faces = none) :
    firstTrue? (possible faces) = none := by
  rw [firstTrue?_eq_none_iff] at h ⊢
  intro face hface
  exact h face (List.mem_filter.1 hface).1

/-- Whether a partial element is given everywhere does not depend on its body. -/
theorem firstTrue?_map {faces : List Tube} (f : IntervalClosure → IntervalClosure)
    (h : firstTrue? faces = none) :
    firstTrue? (faces.map fun face => (face.1, f face.2)) = none := by
  rw [firstTrue?_eq_none_iff] at h ⊢
  intro face hface
  obtain ⟨face', hmem, rfl⟩ := List.mem_map.1 hface
  exact h face' hmem

end Eval

/-- The possible partial elements are no larger than all of them. -/
theorem tubesSize_possible (faces : List Tube) :
    tubesSize (Eval.possible faces) ≤ tubesSize faces := by
  have hle := tubesSize_le.1 (Nat.le_refl (tubesSize faces))
  refine tubesSize_le.2 fun face hface => ?_
  exact hle face (List.mem_filter.1 hface).1

/-- The partial element that is given everywhere is no larger than all of them. -/
theorem size_firstTrue? {faces : List Tube} {u : IntervalClosure}
    (h : Eval.firstTrue? faces = some u) :
    u.reach ≤ tubesSize faces ∧ u.time ≤ tubesSize faces := by
  obtain ⟨φ, hmem⟩ := Eval.firstTrue?_mem h
  exact tubesSize_le.1 (Nat.le_refl _) (φ, u) hmem

/-! ## Demands -/

/-- How deep the calls of a demand nest before the first step. -/
def Demand.weight : Demand → Nat
  | .evaluate _ _ _ _ => 0
  | .instantiate c _ => 1 + c.time
  | .instantiateAt c _ => 1 + c.time
  | .comp _ _ a faces _ =>
    match Eval.firstTrue? faces with
    | some u => 2 + u.time
    | none => 1 + a.time
  | .coe _ _ a _ => 1 + a.time

/-- The size of what a Kan operation is if its family has a shape at no charge; `0` if not. -/
def Line.kanBound (a : Line) (tubes base : Nat) : Nat :=
  if a.reach = 0 then 0 else 1 + kanSize a.reach a.time tubes base

/-- The size of what a demand is met with at no charge; `0` if it never is. -/
def Demand.bound : Demand → Nat
  | .evaluate _ _ _ _ => 0
  | .instantiate _ _ => 0
  | .instantiateAt c _ => c.reach
  | .comp source target a faces v =>
    match Eval.firstTrue? faces with
    | some u => u.reach
    | none => if target = source then v.size else a.kanBound (tubesSize faces) v.size
  | .coe source target a v =>
    if source = target ∨ a.isConstant then v.size else a.kanBound 0 v.size

/-- The weight of a composition is within that of its partial elements and of its family. -/
theorem Demand.weight_comp_le (r r' : Interval) (a : Line) (faces : List Tube) (v : Value) :
    (Demand.comp r r' a faces v).weight ≤ 2 + max (tubesSize faces) a.time := by
  simp only [Demand.weight]
  split
  · rename_i u hfirst
    have := size_firstTrue? hfirst
    omega
  · omega

/-- The bound of a composition is within that of its partial elements, its base and the rule for its
family. -/
theorem Demand.bound_comp_le (r r' : Interval) (a : Line) (faces : List Tube) (v : Value) :
    (Demand.comp r r' a faces v).bound ≤
      max (tubesSize faces) (max v.size (a.kanBound (tubesSize faces) v.size)) := by
  simp only [Demand.bound]
  split
  · rename_i u hfirst
    have := size_firstTrue? hfirst
    omega
  · split <;> omega

/-- A composition in the elements of a family of path types is no larger than one in the family,
also if its parts are larger by one. -/
theorem Line.kanBound_element_le (m : MeterId) (a : Line) (flag : Bool)
    {tubes tubes' base base' : Nat} (htubes : tubes' ≤ 1 + max tubes (max a.reach a.time))
    (hbase : base' ≤ 1 + base) :
    (Line.varying (.element m a) flag).kanBound tubes' base' ≤
      kanSize a.reach a.time tubes base := by
  unfold Line.kanBound
  split
  · exact Nat.zero_le _
  · rename_i hreach
    simp only [Line.reach, Line.time, IntervalClosure.reach, IntervalClosure.time, kanSize]
      at hreach ⊢
    omega

/-! ## Regular values -/

mutual

/-- The value is as evaluation builds it, and charges to the first `k` meters only. -/
inductive Value.Regular (k : Nat) : Value → Prop
  | univ {level : Int} : Value.Regular k (.univ level)
  | pi {x : String} {a : Value} {env : Env} {dims : IntervalEnv} {t : Term} :
      Value.Regular k a → (∀ e ∈ env, Entry.Regular k e) →
        Value.Regular k (.pi x a (.body env dims t))
  | lam {x : String} {c : Closure} : Closure.Regular k c → Value.Regular k (.lam x c)
  | path {a l r : Value} :
      Value.Regular k a → Value.Regular k l → Value.Regular k r → Value.Regular k (.path a l r)
  | smoothPath {order : Int} {a l r : Value} :
      Value.Regular k a → Value.Regular k l → Value.Regular k r →
        Value.Regular k (.smoothPath order a l r)
  | pathLam {x : String} {c : IntervalClosure} :
      IntervalClosure.Regular k c → Value.Regular k (.pathLam x c)
  | untyped {n : Neutral} : Neutral.Regular k n → Value.Regular k (.stuck n none)
  | typed {n : Neutral} {a : Value} :
      Neutral.Regular k n → Value.Regular k a → Value.Regular k (.stuck n (some a))

inductive Neutral.Regular (k : Nat) : Neutral → Prop
  | var {level : Int} : Neutral.Regular k (.var level)
  | app {n : Neutral} {v : Value} :
      Neutral.Regular k n → Value.Regular k v → Neutral.Regular k (.app n v)
  | pathApp {n : Neutral} {r : Interval} :
      Neutral.Regular k n → Neutral.Regular k (.pathApp n r)
  | comp {s t : Interval} {a : Line} {faces : List Tube} {v : Value} :
      Line.Regular k a → (∀ face ∈ faces, IntervalClosure.Regular k face.2) →
        Value.Regular k v → Neutral.Regular k (.comp s t a faces v)
  | coe {s t : Interval} {a : Line} {v : Value} :
      Line.Regular k a → Value.Regular k v → Neutral.Regular k (.coe s t a v)

inductive Closure.Regular (k : Nat) : Closure → Prop
  | body {env : Env} {dims : IntervalEnv} {t : Term} :
      (∀ e ∈ env, Entry.Regular k e) → Closure.Regular k (.body env dims t)
  | comp {m : MeterId} {s t : Interval} {a : Line} {faces : List Tube} {v : Value} :
      m < k → s ≠ t → Eval.firstTrue? faces = none → Line.Regular k a →
        (∀ face ∈ faces, IntervalClosure.Regular k face.2) → Value.Regular k v →
        Closure.Regular k (.comp m s t a faces v)
  | coe {m : MeterId} {s t : Interval} {a : Line} {v : Value} :
      m < k → s ≠ t → Line.Regular k a → Value.Regular k v → Closure.Regular k (.coe m s t a v)

inductive IntervalClosure.Regular (k : Nat) : IntervalClosure → Prop
  | body {env : Env} {dims : IntervalEnv} {t : Term} :
      (∀ e ∈ env, Entry.Regular k e) → IntervalClosure.Regular k (.body env dims t)
  | choice {u v w : Value} :
      Value.Regular k u → Value.Regular k v → Value.Regular k w →
        IntervalClosure.Regular k (.choice u v w)
  | domain {m : MeterId} {a : Line} :
      m < k → Line.Regular k a → IntervalClosure.Regular k (.domain m a)
  | codomain {m : MeterId} {a : Line} {y : Carried} :
      m < k → Line.Regular k a → Carried.Regular k y → IntervalClosure.Regular k (.codomain m a y)
  | element {m : MeterId} {a : Line} :
      m < k → Line.Regular k a → IntervalClosure.Regular k (.element m a)
  | left {m : MeterId} {a : Line} :
      m < k → Line.Regular k a → IntervalClosure.Regular k (.left m a)
  | right {m : MeterId} {a : Line} :
      m < k → Line.Regular k a → IntervalClosure.Regular k (.right m a)
  | app {m : MeterId} {u : IntervalClosure} {y : Carried} :
      m < k → IntervalClosure.Regular k u → Carried.Regular k y →
        IntervalClosure.Regular k (.app m u y)
  | pathApp {m : MeterId} {u : IntervalClosure} {r : Interval} :
      m < k → IntervalClosure.Regular k u → IntervalClosure.Regular k (.pathApp m u r)
  | comp {m : MeterId} {s t : Interval} {a : Line} {faces : List Tube} {v : Value} :
      m < k → Line.Regular k a → (∀ face ∈ faces, IntervalClosure.Regular k face.2) →
        Value.Regular k v → IntervalClosure.Regular k (.comp m s t a faces v)

inductive Carried.Regular (k : Nat) : Carried → Prop
  | mk {d : Line} {r : Interval} {v : Value} :
      Line.Regular k d → Value.Regular k v → Carried.Regular k (.mk d r v)

inductive Line.Regular (k : Nat) : Line → Prop
  | varying {c : IntervalClosure} {flag : Bool} :
      IntervalClosure.Regular k c → Line.Regular k (.varying c flag)
  | constant {a : Value} : Value.Regular k a → Line.Regular k (.constant a)

inductive Entry.Regular (k : Nat) : Entry → Prop
  | value {v : Value} : Value.Regular k v → Entry.Regular k (.value v)
  | thunk {id : Nat} : Entry.Regular k (.thunk id)

end

section Mono

variable {k k' : Nat}

mutual

/-- What charges to few meters does so when there are more. -/
theorem Value.Regular.mono (hk : k ≤ k') {v : Value} : v.Regular k → v.Regular k'
  | .univ => .univ
  | .pi a es => .pi (a.mono hk) fun e he => (es e he).mono hk
  | .lam c => .lam (c.mono hk)
  | .path a l r => .path (a.mono hk) (l.mono hk) (r.mono hk)
  | .smoothPath a l r => .smoothPath (a.mono hk) (l.mono hk) (r.mono hk)
  | .pathLam c => .pathLam (c.mono hk)
  | .untyped n => .untyped (n.mono hk)
  | .typed n a => .typed (n.mono hk) (a.mono hk)

/-- A regular stuck computation is so with more accounts. -/
theorem Neutral.Regular.mono (hk : k ≤ k') {n : Neutral} : n.Regular k → n.Regular k'
  | .var => .var
  | .app n v => .app (n.mono hk) (v.mono hk)
  | .pathApp n => .pathApp (n.mono hk)
  | .comp a us v => .comp (a.mono hk) (fun f hf => (us f hf).mono hk) (v.mono hk)
  | .coe a v => .coe (a.mono hk) (v.mono hk)

/-- The regular body of an abstraction is so with more accounts. -/
theorem Closure.Regular.mono (hk : k ≤ k') {c : Closure} : c.Regular k → c.Regular k'
  | .body es => .body fun e he => (es e he).mono hk
  | .comp m hne hnone a us v =>
    .comp (Nat.lt_of_lt_of_le m hk) hne hnone (a.mono hk) (fun f hf => (us f hf).mono hk)
      (v.mono hk)
  | .coe m hne a v => .coe (Nat.lt_of_lt_of_le m hk) hne (a.mono hk) (v.mono hk)

/-- The regular body of an interval abstraction is so with more accounts. -/
theorem IntervalClosure.Regular.mono (hk : k ≤ k') {c : IntervalClosure} :
    c.Regular k → c.Regular k'
  | .body es => .body fun e he => (es e he).mono hk
  | .choice u v w => .choice (u.mono hk) (v.mono hk) (w.mono hk)
  | .domain m a => .domain (Nat.lt_of_lt_of_le m hk) (a.mono hk)
  | .codomain m a y => .codomain (Nat.lt_of_lt_of_le m hk) (a.mono hk) (y.mono hk)
  | .element m a => .element (Nat.lt_of_lt_of_le m hk) (a.mono hk)
  | .left m a => .left (Nat.lt_of_lt_of_le m hk) (a.mono hk)
  | .right m a => .right (Nat.lt_of_lt_of_le m hk) (a.mono hk)
  | .app m u y => .app (Nat.lt_of_lt_of_le m hk) (u.mono hk) (y.mono hk)
  | .pathApp m u => .pathApp (Nat.lt_of_lt_of_le m hk) (u.mono hk)
  | .comp m a us v =>
    .comp (Nat.lt_of_lt_of_le m hk) (a.mono hk) (fun f hf => (us f hf).mono hk) (v.mono hk)

/-- A regular moved argument is so with more accounts. -/
theorem Carried.Regular.mono (hk : k ≤ k') {y : Carried} : y.Regular k → y.Regular k'
  | .mk d v => .mk (d.mono hk) (v.mono hk)

/-- A regular family is so with more accounts. -/
theorem Line.Regular.mono (hk : k ≤ k') {a : Line} : a.Regular k → a.Regular k'
  | .varying c => .varying (c.mono hk)
  | .constant a => .constant (a.mono hk)

/-- A regular entry is so with more accounts. -/
theorem Entry.Regular.mono (hk : k ≤ k') {e : Entry} : e.Regular k → e.Regular k'
  | .value v => .value (v.mono hk)
  | .thunk => .thunk

end

end Mono

/-- The demand is about regular values. -/
inductive Demand.Regular (k : Nat) : Demand → Prop
  | evaluate {nests : Bool} {t : Term} {env : Env} {dims : IntervalEnv} :
      (∀ e ∈ env, e.Regular k) → Regular k (.evaluate nests t env dims)
  | instantiate {c : Closure} {e : Entry} :
      c.Regular k → e.Regular k → Regular k (.instantiate c e)
  | instantiateAt {c : IntervalClosure} {r : Interval} :
      c.Regular k → Regular k (.instantiateAt c r)
  | comp {s t : Interval} {a : Line} {faces : List Tube} {v : Value} :
      a.Regular k → (∀ face ∈ faces, face.2.Regular k) → v.Regular k →
        Regular k (.comp s t a faces v)
  | coe {s t : Interval} {a : Line} {v : Value} :
      a.Regular k → v.Regular k → Regular k (.coe s t a v)

end SmoothCubical
