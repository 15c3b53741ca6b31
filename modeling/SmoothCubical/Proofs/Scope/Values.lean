import SmoothCubical.Eval.Evaluate
import SmoothCubical.Proofs.Scope.Terms

/-!
# Values in scope

A `Scope` says what may occur in a value: which levels of term variables, which levels of interval
variables, and which meters in the closures of Kan rules. A closure in scope holds a term in scope
of its environments, unless the scope is lax.

An argument that was put off is in scope if the computation that was put off is. That is asked of
the computation as it was put off, also after it was run: what an argument is worth in scope does
not change when its value is computed. The session has to know every argument that may occur.
-/

set_option autoImplicit false

namespace SmoothCubical

/-- What may occur in a value. -/
structure Scope where
  /-- The levels of term variables. -/
  level : Int → Prop
  /-- The levels of interval variables. -/
  point : Int → Prop
  /-- The meters that closures of Kan rules and arguments are charged to. -/
  meter : MeterId → Prop
  /-- Whether terms may be out of scope of their environments. -/
  lax : Prop
  /-- What was put off under the number of an argument. -/
  origin : Nat → Option Suspension

/-- What was put off under a number. -/
def Session.origin (s : Session) (id : Nat) : Option Suspension :=
  s.cells[id]?.map Cell.suspension

namespace Session

/-- What was put off before is still known when another argument is put off. -/
theorem origin_push (s : Session) (x : Suspension) {id : Nat} {y : Suspension}
    (hy : s.origin id = some y) :
    origin { s with cells := s.cells.push { suspension := x } } id = some y := by
  unfold origin at hy ⊢
  obtain ⟨c, hc, rfl⟩ := Option.map_eq_some_iff.1 hy
  have hlt := (Array.getElem?_eq_some_iff.1 hc).1
  simp [Array.getElem?_push, Nat.ne_of_lt hlt, hc]

/-- An argument that is put off gets the next number. -/
theorem origin_push_self (s : Session) (x : Suspension) :
    origin { s with cells := s.cells.push { suspension := x } } s.cells.size = some x := by
  simp [origin]

/-- What was put off under a number does not change when its value is kept. -/
theorem origin_setValue (s : Session) (id : Nat) (v : Value) :
    origin { s with cells := s.cells.modify id fun c => { c with value := some v } } =
      s.origin := by
  funext id'
  simp only [origin, Array.getElem?_modify]
  split
  · rw [Option.map_map]
    rfl
  · rfl

end Session

namespace Scope

/-- The scope in which the arguments of the session may occur. -/
def during (S : Scope) (s : Session) : Scope :=
  { S with origin := s.origin }

/-- The scope with one point more. -/
def probing (S : Scope) (r : Interval) : Scope :=
  { S with point := fun l => S.point l ∨ r = .var l }

/-- The scope with one term variable more. -/
def binding (S : Scope) (l : Int) : Scope :=
  { S with level := fun l' => S.level l' ∨ l' = l }

/-- The term is in scope, unless this is not asked. -/
def Scoped (S : Scope) (depth count : Nat) (t : Term) : Prop :=
  S.lax ∨ t.isScoped depth count = true

/-- The partial elements are in scope, unless this is not asked. -/
def ScopedBranches (S : Scope) (depth count : Nat) (fs : List (Face × Term)) : Prop :=
  S.lax ∨ Term.scopedBranches depth count fs = true

/-- The dimension is in scope, unless this is not asked. -/
def ScopedDim (S : Scope) (count : Nat) (d : Dim) : Prop :=
  S.lax ∨ d.inScope count = true

/-- The cofibration is on points in scope, and on free interval variables if terms may be out of
scope. -/
def Covers (S : Scope) (φ : Cofibration) : Prop :=
  φ.On fun l => S.point l ∨ S.lax ∧ l < 0

/-- Whatever is in the first scope is in the second. -/
structure Le (S S' : Scope) : Prop where
  level : ∀ {l}, S.level l → S'.level l
  point : ∀ {l}, S.point l → S'.point l
  meter : ∀ {m}, S.meter m → S'.meter m
  lax : S.lax → S'.lax
  origin : ∀ {id x}, S.origin id = some x → S'.origin id = some x

end Scope

mutual

/-- The value is in scope. -/
inductive Value.In (S : Scope) : Value → Prop
  | univ {level : Int} : Value.In S (.univ level)
  | pi {x : String} {a : Value} {b : Closure} :
      Value.In S a → Closure.In S b → Value.In S (.pi x a b)
  | lam {x : String} {b : Closure} : Closure.In S b → Value.In S (.lam x b)
  | path {a l r : Value} :
      Value.In S a → Value.In S l → Value.In S r → Value.In S (.path a l r)
  | smoothPath {order : Int} {a l r : Value} :
      Value.In S a → Value.In S l → Value.In S r → Value.In S (.smoothPath order a l r)
  | pathLam {x : String} {b : IntervalClosure} :
      IntervalClosure.In S b → Value.In S (.pathLam x b)
  | untyped {n : Neutral} : Neutral.In S n → Value.In S (.stuck n none)
  | typed {n : Neutral} {a : Value} :
      Neutral.In S n → Value.In S a → Value.In S (.stuck n (some a))

/-- The stuck computation is in scope. -/
inductive Neutral.In (S : Scope) : Neutral → Prop
  | var {level : Int} : S.level level → Neutral.In S (.var level)
  | app {n : Neutral} {v : Value} : Neutral.In S n → Value.In S v → Neutral.In S (.app n v)
  | pathApp {n : Neutral} {r : Interval} :
      Neutral.In S n → r.On S.point → Neutral.In S (.pathApp n r)
  | comp {s t : Interval} {a : Line} {faces : List Tube} {v : Value} :
      s.On S.point → t.On S.point → Line.In S a → (∀ face ∈ faces, S.Covers face.1) →
        (∀ face ∈ faces, IntervalClosure.In S face.2) → Value.In S v →
        Neutral.In S (.comp s t a faces v)
  | coe {s t : Interval} {a : Line} {v : Value} :
      s.On S.point → t.On S.point → Line.In S a → Value.In S v → Neutral.In S (.coe s t a v)

/-- The body of an abstraction is in scope. -/
inductive Closure.In (S : Scope) : Closure → Prop
  | body {env : Env} {dims : IntervalEnv} {t : Term} :
      (∀ e ∈ env, Entry.In S e) → (∀ r ∈ dims, r.On S.point) →
        S.Scoped (env.length + 1) dims.length t → Closure.In S (.body env dims t)
  | comp {m : MeterId} {s t : Interval} {a : Line} {faces : List Tube} {v : Value} :
      S.meter m → s.On S.point → t.On S.point → Line.In S a →
        (∀ face ∈ faces, S.Covers face.1) → (∀ face ∈ faces, IntervalClosure.In S face.2) →
        Value.In S v → Closure.In S (.comp m s t a faces v)
  | coe {m : MeterId} {s t : Interval} {a : Line} {v : Value} :
      S.meter m → s.On S.point → t.On S.point → Line.In S a → Value.In S v →
        Closure.In S (.coe m s t a v)

/-- The body of an interval abstraction is in scope. -/
inductive IntervalClosure.In (S : Scope) : IntervalClosure → Prop
  | body {env : Env} {dims : IntervalEnv} {t : Term} :
      (∀ e ∈ env, Entry.In S e) → (∀ r ∈ dims, r.On S.point) →
        S.Scoped env.length (dims.length + 1) t → IntervalClosure.In S (.body env dims t)
  | choice {u v w : Value} :
      Value.In S u → Value.In S v → Value.In S w → IntervalClosure.In S (.choice u v w)
  | domain {m : MeterId} {a : Line} :
      S.meter m → Line.In S a → IntervalClosure.In S (.domain m a)
  | codomain {m : MeterId} {a : Line} {y : Carried} :
      S.meter m → Line.In S a → Carried.In S y → IntervalClosure.In S (.codomain m a y)
  | element {m : MeterId} {a : Line} :
      S.meter m → Line.In S a → IntervalClosure.In S (.element m a)
  | left {m : MeterId} {a : Line} :
      S.meter m → Line.In S a → IntervalClosure.In S (.left m a)
  | right {m : MeterId} {a : Line} :
      S.meter m → Line.In S a → IntervalClosure.In S (.right m a)
  | app {m : MeterId} {u : IntervalClosure} {y : Carried} :
      S.meter m → IntervalClosure.In S u → Carried.In S y → IntervalClosure.In S (.app m u y)
  | pathApp {m : MeterId} {u : IntervalClosure} {r : Interval} :
      S.meter m → IntervalClosure.In S u → r.On S.point → IntervalClosure.In S (.pathApp m u r)
  | comp {m : MeterId} {s t : Interval} {a : Line} {faces : List Tube} {v : Value} :
      S.meter m → s.On S.point → t.On S.point → Line.In S a →
        (∀ face ∈ faces, S.Covers face.1) → (∀ face ∈ faces, IntervalClosure.In S face.2) →
        Value.In S v → IntervalClosure.In S (.comp m s t a faces v)

/-- The moved argument is in scope. -/
inductive Carried.In (S : Scope) : Carried → Prop
  | mk {d : Line} {r : Interval} {v : Value} :
      Line.In S d → r.On S.point → Value.In S v → Carried.In S (.mk d r v)

/-- The family is in scope. -/
inductive Line.In (S : Scope) : Line → Prop
  | varying {c : IntervalClosure} {flag : Bool} :
      IntervalClosure.In S c → Line.In S (.varying c flag)
  | constant {a : Value} : Value.In S a → Line.In S (.constant a)

/-- The entry is in scope. -/
inductive Entry.In (S : Scope) : Entry → Prop
  | value {v : Value} : Value.In S v → Entry.In S (.value v)
  | thunk {id : Nat} {x : Suspension} :
      S.origin id = some x → S.meter x.meter → (∀ e ∈ x.env, Entry.In S e) →
        (∀ r ∈ x.dims, r.On S.point) → S.Scoped x.env.length x.dims.length x.term →
        Entry.In S (.thunk id)

end

/-- The partial elements are in scope. -/
def Scope.Tubes (S : Scope) (faces : List Tube) : Prop :=
  ∀ face ∈ faces, S.Covers face.1 ∧ face.2.In S

/-- The term is in scope of environments that are in scope. -/
structure Scope.Closed (S : Scope) (env : Env) (dims : IntervalEnv) (t : Term) : Prop where
  entries : ∀ e ∈ env, e.In S
  points : ∀ r ∈ dims, r.On S.point
  term : S.Scoped env.length dims.length t

/-- The computation that was put off is in scope. -/
structure Suspension.In (S : Scope) (x : Suspension) : Prop extends
    S.Closed x.env x.dims x.term where
  meter : S.meter x.meter

/-- The demand is in scope. -/
inductive Demand.In (S : Scope) : Demand → Prop
  | evaluate {nests : Bool} {t : Term} {env : Env} {dims : IntervalEnv} :
      S.Closed env dims t → In S (.evaluate nests t env dims)
  | instantiate {c : Closure} {e : Entry} : c.In S → e.In S → In S (.instantiate c e)
  | instantiateAt {c : IntervalClosure} {r : Interval} :
      c.In S → r.On S.point → In S (.instantiateAt c r)
  | comp {s t : Interval} {a : Line} {faces : List Tube} {v : Value} :
      s.On S.point → t.On S.point → a.In S → S.Tubes faces → v.In S →
        In S (.comp s t a faces v)
  | coe {s t : Interval} {a : Line} {v : Value} :
      s.On S.point → t.On S.point → a.In S → v.In S → In S (.coe s t a v)

section Smart

variable {S : Scope}

/-- Partial elements in scope are on cofibrations in scope. -/
theorem Scope.Tubes.covers {faces : List Tube} (h : S.Tubes faces) :
    ∀ face ∈ faces, S.Covers face.1 :=
  fun face hface => (h face hface).1

/-- Partial elements in scope have bodies in scope. -/
theorem Scope.Tubes.bodies {faces : List Tube} (h : S.Tubes faces) :
    ∀ face ∈ faces, face.2.In S :=
  fun face hface => (h face hface).2

/-- An argument is in scope if what was put off under its number is. -/
theorem Suspension.In.entry {x : Suspension} (h : x.In S) {id : Nat}
    (hid : S.origin id = some x) : Entry.In S (.thunk id) :=
  .thunk hid h.meter h.entries h.points h.term

/-- An argument in scope is known, and what was put off is in scope. -/
theorem Entry.In.suspension {id : Nat} (h : Entry.In S (.thunk id)) :
    ∃ x, S.origin id = some x ∧ x.In S := by
  cases h with
  | thunk hid hm hentries hpoints hterm => exact ⟨_, hid, ⟨⟨hentries, hpoints, hterm⟩, hm⟩⟩

end Smart

/-! ## Larger scopes -/

namespace Scope

variable {S S' S'' : Scope}

/-- A scope with the arguments of a session has no more in it than one that knows them all. -/
theorem during_le {s : Session} (h : ∀ {id x}, s.origin id = some x → S.origin id = some x) :
    (S.during s).Le S :=
  ⟨id, id, id, id, h⟩

/-- A scope is within the one that has a point more. -/
theorem le_probing (S : Scope) (r : Interval) : S.Le (S.probing r) :=
  ⟨id, .inl, id, id, id⟩

/-- A scope is within the one that has a term variable more. -/
theorem le_binding (S : Scope) (l : Int) : S.Le (S.binding l) :=
  ⟨.inl, id, id, id, id⟩

/-- The point that was added to a scope is in it. -/
theorem on_probing (S : Scope) (r : Interval) : r.On (S.probing r).point := by
  cases r with
  | var l => exact .inr rfl
  | zero => trivial
  | one => trivial

/-- A term in scope is so in every larger scope. -/
theorem Scoped.mono {depth count : Nat} {t : Term} (hle : S.Le S')
    (h : S.Scoped depth count t) : S'.Scoped depth count t :=
  h.imp hle.lax id

/-- A function type is in scope if its parts are, the codomain under one more variable. -/
theorem scoped_pi {depth count : Nat} {x : String} {a b : Term} :
    S.Scoped depth count (.pi x a b) ↔
      S.Scoped depth count a ∧ S.Scoped (depth + 1) count b := by
  simp only [Scoped, Term.isScoped, Bool.and_eq_true, or_and_left]

/-- An application is in scope if its parts are. -/
theorem scoped_app {depth count : Nat} {f a : Term} :
    S.Scoped depth count (.app f a) ↔ S.Scoped depth count f ∧ S.Scoped depth count a := by
  simp only [Scoped, Term.isScoped, Bool.and_eq_true, or_and_left]

/-- A path type is in scope if its parts are. -/
theorem scoped_path {depth count : Nat} {a l r : Term} :
    S.Scoped depth count (.path a l r) ↔
      S.Scoped depth count a ∧ S.Scoped depth count l ∧ S.Scoped depth count r := by
  simp only [Scoped, Term.isScoped, Bool.and_eq_true, or_and_left, and_assoc]

/-- A smooth path type is in scope if its parts are. -/
theorem scoped_smoothPath {depth count : Nat} {order : Int} {a l r : Term} :
    S.Scoped depth count (.smoothPath order a l r) ↔
      S.Scoped depth count a ∧ S.Scoped depth count l ∧ S.Scoped depth count r := by
  simp only [Scoped, Term.isScoped, Bool.and_eq_true, or_and_left, and_assoc]

/-- A path at a point is in scope if the path and the dimension are. -/
theorem scoped_pathApp {depth count : Nat} {p : Term} {d : Dim} :
    S.Scoped depth count (.pathApp p d) ↔ S.Scoped depth count p ∧ S.ScopedDim count d := by
  simp only [Scoped, ScopedDim, Term.isScoped, Bool.and_eq_true, or_and_left]

/-- A composition is in scope if its parts are, the family under its direction. -/
theorem scoped_comp {depth count : Nat} {s t : Dim} {a b : Term} {fs : List (Face × Term)} :
    S.Scoped depth count (.comp s t a fs b) ↔
      S.ScopedDim count s ∧ S.ScopedDim count t ∧ S.Scoped depth (count + 1) a ∧
        S.ScopedBranches depth count fs ∧ S.Scoped depth count b := by
  simp only [Scoped, ScopedDim, ScopedBranches, Term.isScoped, Bool.and_eq_true, or_and_left,
    and_assoc]

/-- A coercion is in scope if its parts are, the family under its direction. -/
theorem scoped_coe {depth count : Nat} {s t : Dim} {a b : Term} :
    S.Scoped depth count (.coe s t a b) ↔
      S.ScopedDim count s ∧ S.ScopedDim count t ∧ S.Scoped depth (count + 1) a ∧
        S.Scoped depth count b := by
  simp only [Scoped, ScopedDim, Term.isScoped, Bool.and_eq_true, or_and_left, and_assoc]

/-- A homogeneous composition is in scope if its parts are. -/
theorem scoped_hcomp {depth count : Nat} {a b : Term} {fs : List (Face × Term)} :
    S.Scoped depth count (.hcomp a fs b) ↔
      S.Scoped depth count a ∧ S.ScopedBranches depth count fs ∧ S.Scoped depth count b := by
  simp only [Scoped, ScopedBranches, Term.isScoped, Bool.and_eq_true, or_and_left, and_assoc]

/-- A system is in scope if its first formula and body are, and the rest is. -/
theorem scopedBranches_cons {depth count : Nat} {φ : Face} {u : Term}
    {fs : List (Face × Term)} :
    S.ScopedBranches depth count ((φ, u) :: fs) ↔
      (S.lax ∨ φ.inScope count = true) ∧ S.Scoped depth (count + 1) u ∧
        S.ScopedBranches depth count fs := by
  simp only [Scoped, ScopedBranches, Term.scopedBranches, Bool.and_eq_true, or_and_left,
    and_assoc]

/-- A cofibration in scope is so in every larger scope. -/
theorem Covers.mono {φ : Cofibration} (hle : S.Le S') (h : S.Covers φ) : S'.Covers φ :=
  Cofibration.On.mono (fun _ => Or.imp hle.point fun hl => ⟨hle.lax hl.1, hl.2⟩) h

/-- A cofibration on the points of a scope is in it, lax or not. -/
theorem covers_of_on {φ : Cofibration} (h : φ.On S.point) : S.Covers φ :=
  h.mono fun _ => .inl

/-- If terms may be out of scope, an equation may be on a free interval variable. -/
theorem covers_cofibration (hlax : S.lax) {dims : IntervalEnv} (hdims : ∀ r ∈ dims, r.On S.point)
    {face : Face} {φ : Cofibration} (h : face.cofibration dims = .ok φ) : S.Covers φ :=
  Face.on_cofibration (fun r hr => (hdims r hr).mono fun _ => .inl) (fun _ hl => .inr ⟨hlax, hl⟩) h

/-- A point in scope is so in every larger scope. -/
theorem Le.on (hle : S.Le S') {r : Interval} (hr : r.On S.point) : r.On S'.point :=
  hr.mono fun _ => hle.point

end Scope

section Mono

variable {S S' : Scope}

mutual

/-- A value in scope is so in every larger scope. -/
theorem Value.In.mono (hle : S.Le S') {v : Value} : v.In S → v.In S'
  | .univ => .univ
  | .pi a b => .pi (a.mono hle) (b.mono hle)
  | .lam b => .lam (b.mono hle)
  | .path a l r => .path (a.mono hle) (l.mono hle) (r.mono hle)
  | .smoothPath a l r => .smoothPath (a.mono hle) (l.mono hle) (r.mono hle)
  | .pathLam b => .pathLam (b.mono hle)
  | .untyped n => .untyped (n.mono hle)
  | .typed n a => .typed (n.mono hle) (a.mono hle)

/-- A stuck computation in scope is so in every larger scope. -/
theorem Neutral.In.mono (hle : S.Le S') {n : Neutral} : n.In S → n.In S'
  | .var hl => .var (hle.level hl)
  | .app n v => .app (n.mono hle) (v.mono hle)
  | .pathApp n r => .pathApp (n.mono hle) (hle.on r)
  | .comp s t a φs us v =>
    .comp (hle.on s) (hle.on t) (a.mono hle) (fun f hf => (φs f hf).mono hle)
      (fun f hf => (us f hf).mono hle) (v.mono hle)
  | .coe s t a v => .coe (hle.on s) (hle.on t) (a.mono hle) (v.mono hle)

/-- The body of an abstraction in scope is so in every larger scope. -/
theorem Closure.In.mono (hle : S.Le S') {c : Closure} : c.In S → c.In S'
  | .body es rs t =>
    .body (fun e he => (es e he).mono hle) (fun r hr => hle.on (rs r hr)) (t.mono hle)
  | .comp m s t a φs us v =>
    .comp (hle.meter m) (hle.on s) (hle.on t) (a.mono hle) (fun f hf => (φs f hf).mono hle)
      (fun f hf => (us f hf).mono hle) (v.mono hle)
  | .coe m s t a v =>
    .coe (hle.meter m) (hle.on s) (hle.on t) (a.mono hle) (v.mono hle)

/-- The body of an interval abstraction in scope is so in every larger scope. -/
theorem IntervalClosure.In.mono (hle : S.Le S') {c : IntervalClosure} : c.In S → c.In S'
  | .body es rs t =>
    .body (fun e he => (es e he).mono hle) (fun r hr => hle.on (rs r hr)) (t.mono hle)
  | .choice u v w => .choice (u.mono hle) (v.mono hle) (w.mono hle)
  | .domain m a => .domain (hle.meter m) (a.mono hle)
  | .codomain m a y => .codomain (hle.meter m) (a.mono hle) (y.mono hle)
  | .element m a => .element (hle.meter m) (a.mono hle)
  | .left m a => .left (hle.meter m) (a.mono hle)
  | .right m a => .right (hle.meter m) (a.mono hle)
  | .app m u y => .app (hle.meter m) (u.mono hle) (y.mono hle)
  | .pathApp m u r => .pathApp (hle.meter m) (u.mono hle) (hle.on r)
  | .comp m s t a φs us v =>
    .comp (hle.meter m) (hle.on s) (hle.on t) (a.mono hle) (fun f hf => (φs f hf).mono hle)
      (fun f hf => (us f hf).mono hle) (v.mono hle)

/-- A moved argument in scope is so in every larger scope. -/
theorem Carried.In.mono (hle : S.Le S') {y : Carried} : y.In S → y.In S'
  | .mk d r v => .mk (d.mono hle) (hle.on r) (v.mono hle)

/-- A family in scope is so in every larger scope. -/
theorem Line.In.mono (hle : S.Le S') {a : Line} : a.In S → a.In S'
  | .varying c => .varying (c.mono hle)
  | .constant a => .constant (a.mono hle)

/-- An entry in scope is so in every larger scope. -/
theorem Entry.In.mono (hle : S.Le S') {e : Entry} : e.In S → e.In S'
  | .value v => .value (v.mono hle)
  | .thunk hid m es rs t =>
    .thunk (hle.origin hid) (hle.meter m) (fun e he => (es e he).mono hle)
      (fun r hr => hle.on (rs r hr)) (t.mono hle)

end

/-- Partial elements in scope are so in every larger scope. -/
theorem Scope.Tubes.mono (hle : S.Le S') {faces : List Tube} (h : S.Tubes faces) :
    S'.Tubes faces :=
  fun face hface => ⟨(h face hface).1.mono hle, (h face hface).2.mono hle⟩

/-- A term in scope of its environments is so in every larger scope. -/
theorem Scope.Closed.mono (hle : S.Le S') {env : Env} {dims : IntervalEnv} {t : Term}
    (h : S.Closed env dims t) : S'.Closed env dims t where
  entries e he := (h.entries e he).mono hle
  points r hr := hle.on (h.points r hr)
  term := h.term.mono hle

end Mono

/-! ## Earlier sessions

What is in scope when little was put off yet, and in another scope when more was put off, is in the
other scope already when little was: it refers only to what was put off then. -/

section Restrict

/-- What was put off in the first scope was put off in the second. -/
def Scope.Before (S₀ S : Scope) : Prop :=
  ∀ {id x}, S₀.origin id = some x → S.origin id = some x

/-- The scope with the arguments of another. -/
def Scope.upTo (S S₀ : Scope) : Scope :=
  { S with origin := S₀.origin }

variable {S S₀ : Scope}

mutual

/-- A value in scope both now and at an earlier time is in scope of what is now and was known then.
-/
theorem Value.In.restrict (h : S₀.Before S) {v : Value} : v.In S → v.In S₀ → v.In (S.upTo S₀)
  | .univ, _ => .univ
  | .pi a b, .pi a₀ b₀ => .pi (a.restrict h a₀) (b.restrict h b₀)
  | .lam b, .lam b₀ => .lam (b.restrict h b₀)
  | .path a l r, .path a₀ l₀ r₀ => .path (a.restrict h a₀) (l.restrict h l₀) (r.restrict h r₀)
  | .smoothPath a l r, .smoothPath a₀ l₀ r₀ =>
    .smoothPath (a.restrict h a₀) (l.restrict h l₀) (r.restrict h r₀)
  | .pathLam b, .pathLam b₀ => .pathLam (b.restrict h b₀)
  | .untyped n, .untyped n₀ => .untyped (n.restrict h n₀)
  | .typed n a, .typed n₀ a₀ => .typed (n.restrict h n₀) (a.restrict h a₀)

/-- A stuck computation in scope both now and at an earlier time is in scope of what was known then.
-/
theorem Neutral.In.restrict (h : S₀.Before S) {n : Neutral} : n.In S → n.In S₀ → n.In (S.upTo S₀)
  | .var hl, _ => .var hl
  | .app n v, .app n₀ v₀ => .app (n.restrict h n₀) (v.restrict h v₀)
  | .pathApp n r, .pathApp n₀ _ => .pathApp (n.restrict h n₀) r
  | .comp s t a φs us v, .comp _ _ a₀ _ us₀ v₀ =>
    .comp s t (a.restrict h a₀) φs (fun f hf => (us f hf).restrict h (us₀ f hf))
      (v.restrict h v₀)
  | .coe s t a v, .coe _ _ a₀ v₀ => .coe s t (a.restrict h a₀) (v.restrict h v₀)

/-- A body in scope both now and at an earlier time is in scope of what was known then. -/
theorem Closure.In.restrict (h : S₀.Before S) {c : Closure} : c.In S → c.In S₀ → c.In (S.upTo S₀)
  | .body es rs t, .body es₀ _ _ => .body (fun e he => (es e he).restrict h (es₀ e he)) rs t
  | .comp m s t a φs us v, .comp _ _ _ a₀ _ us₀ v₀ =>
    .comp m s t (a.restrict h a₀) φs (fun f hf => (us f hf).restrict h (us₀ f hf))
      (v.restrict h v₀)
  | .coe m s t a v, .coe _ _ _ a₀ v₀ => .coe m s t (a.restrict h a₀) (v.restrict h v₀)

/-- A body under a direction in scope both now and at an earlier time is in scope of what was known
then. -/
theorem IntervalClosure.In.restrict (h : S₀.Before S) {c : IntervalClosure} :
    c.In S → c.In S₀ → c.In (S.upTo S₀)
  | .body es rs t, .body es₀ _ _ => .body (fun e he => (es e he).restrict h (es₀ e he)) rs t
  | .choice u v w, .choice u₀ v₀ w₀ =>
    .choice (u.restrict h u₀) (v.restrict h v₀) (w.restrict h w₀)
  | .domain m a, .domain _ a₀ => .domain m (a.restrict h a₀)
  | .codomain m a y, .codomain _ a₀ y₀ => .codomain m (a.restrict h a₀) (y.restrict h y₀)
  | .element m a, .element _ a₀ => .element m (a.restrict h a₀)
  | .left m a, .left _ a₀ => .left m (a.restrict h a₀)
  | .right m a, .right _ a₀ => .right m (a.restrict h a₀)
  | .app m u y, .app _ u₀ y₀ => .app m (u.restrict h u₀) (y.restrict h y₀)
  | .pathApp m u r, .pathApp _ u₀ _ => .pathApp m (u.restrict h u₀) r
  | .comp m s t a φs us v, .comp _ _ _ a₀ _ us₀ v₀ =>
    .comp m s t (a.restrict h a₀) φs (fun f hf => (us f hf).restrict h (us₀ f hf))
      (v.restrict h v₀)

/-- A moved argument in scope both now and at an earlier time is in scope of what was known then. -/
theorem Carried.In.restrict (h : S₀.Before S) {y : Carried} : y.In S → y.In S₀ → y.In (S.upTo S₀)
  | .mk d r v, .mk d₀ _ v₀ => .mk (d.restrict h d₀) r (v.restrict h v₀)

/-- A family in scope both now and at an earlier time is in scope of what was known then. -/
theorem Line.In.restrict (h : S₀.Before S) {a : Line} : a.In S → a.In S₀ → a.In (S.upTo S₀)
  | .varying c, .varying c₀ => .varying (c.restrict h c₀)
  | .constant a, .constant a₀ => .constant (a.restrict h a₀)

/-- An entry in scope both now and at an earlier time is in scope of what was known then. -/
theorem Entry.In.restrict (h : S₀.Before S) {e : Entry} : e.In S → e.In S₀ → e.In (S.upTo S₀)
  | .value v, .value v₀ => .value (v.restrict h v₀)
  | @Entry.In.thunk _ _ x hid m es rs t, @Entry.In.thunk _ _ x₀ hid₀ _ es₀ _ _ => by
    obtain rfl : x = x₀ := by simpa [hid] using h hid₀
    exact .thunk hid₀ m (fun e he => (es e he).restrict h (es₀ e he)) rs t

end

/-- What was put off, if it is in scope both now and at an earlier time, is in scope of what was
known then. -/
theorem Suspension.In.restrict (h : S₀.Before S) {x : Suspension} (hx : x.In S)
    (hx₀ : x.In S₀) : x.In (S.upTo S₀) where
  entries e he := (hx.entries e he).restrict h (hx₀.entries e he)
  points := hx.points
  term := hx.term
  meter := hx.meter

end Restrict

end SmoothCubical
