import SmoothCubical.Proofs.Cofibration.Canonical
import SmoothCubical.Proofs.Evaluator.Operations

/-!
# Values in which what is pending is stuck

A Kan operation stays pending only if it goes somewhere, if none of its faces is the whole cube or
empty, and if the family has no shape that a rule takes apart. A `PendingLaw` says what is asked of
the family, and which evaluators the closures of a value may belong to. A value obeys the law if
all that is pending in it does, in its closures too.

What is known of the family is that it was looked at, at a probe, by a run that has ended before
(`Session.Found`). The law that a session gives out of this becomes no stricter as the session goes
on. The session is orderly if what it keeps for arguments obeys the law.
-/

set_option autoImplicit false

namespace SmoothCubical

/-- What is asked of values in which operations are pending. -/
structure PendingLaw where
  /-- The meters that closures of Kan rules and arguments are charged to. -/
  meter : MeterId → Prop
  /-- The families in which a composition may be pending. -/
  comp : Line → Prop
  /-- The families along which a coercion may be pending. -/
  coe : Line → Prop
  /-- What was put off under the number of an argument. -/
  origin : Nat → Option Suspension

/-- A cofibration as it is stored, which is neither the whole cube nor empty. -/
structure Cofibration.IsProper (φ : Cofibration) : Prop where
  canonical : φ.IsCanonical
  partly : φ.isTrue = false
  somewhere : φ.isFalse = false

mutual

/-- All that is pending in the value obeys the law. -/
inductive Value.Obeys (K : PendingLaw) : Value → Prop
  | univ {level : Int} : Value.Obeys K (.univ level)
  | pi {x : String} {a : Value} {b : Closure} :
      Value.Obeys K a → Closure.Obeys K b → Value.Obeys K (.pi x a b)
  | lam {x : String} {b : Closure} : Closure.Obeys K b → Value.Obeys K (.lam x b)
  | path {a l r : Value} :
      Value.Obeys K a → Value.Obeys K l → Value.Obeys K r → Value.Obeys K (.path a l r)
  | smoothPath {order : Int} {a l r : Value} :
      Value.Obeys K a → Value.Obeys K l → Value.Obeys K r →
        Value.Obeys K (.smoothPath order a l r)
  | pathLam {x : String} {b : IntervalClosure} :
      IntervalClosure.Obeys K b → Value.Obeys K (.pathLam x b)
  | untyped {n : Neutral} : Neutral.Obeys K n → Value.Obeys K (.stuck n none)
  | typed {n : Neutral} {a : Value} :
      Neutral.Obeys K n → Value.Obeys K a → Value.Obeys K (.stuck n (some a))

/-- The stuck computation obeys the law, if it is a pending operation, and all that is pending in
it does. -/
inductive Neutral.Obeys (K : PendingLaw) : Neutral → Prop
  | var {level : Int} : Neutral.Obeys K (.var level)
  | app {n : Neutral} {v : Value} :
      Neutral.Obeys K n → Value.Obeys K v → Neutral.Obeys K (.app n v)
  | pathApp {n : Neutral} {r : Interval} : Neutral.Obeys K n → Neutral.Obeys K (.pathApp n r)
  | comp {s t : Interval} {a : Line} {faces : List Tube} {v : Value} :
      t ≠ s → K.comp a → Line.Obeys K a → (∀ face ∈ faces, face.1.IsProper) →
        (∀ face ∈ faces, IntervalClosure.Obeys K face.2) → Value.Obeys K v →
        Neutral.Obeys K (.comp s t a faces v)
  | coe {s t : Interval} {a : Line} {v : Value} :
      s ≠ t → K.coe a → Line.Obeys K a → Value.Obeys K v → Neutral.Obeys K (.coe s t a v)

/-- All that is pending in the body of an abstraction obeys the law. -/
inductive Closure.Obeys (K : PendingLaw) : Closure → Prop
  | body {env : Env} {dims : IntervalEnv} {t : Term} :
      (∀ e ∈ env, Entry.Obeys K e) → Closure.Obeys K (.body env dims t)
  | comp {m : MeterId} {s t : Interval} {a : Line} {faces : List Tube} {v : Value} :
      K.meter m → Line.Obeys K a → (∀ face ∈ faces, face.1.IsCanonical) →
        (∀ face ∈ faces, IntervalClosure.Obeys K face.2) → Value.Obeys K v →
        Closure.Obeys K (.comp m s t a faces v)
  | coe {m : MeterId} {s t : Interval} {a : Line} {v : Value} :
      K.meter m → Line.Obeys K a → Value.Obeys K v → Closure.Obeys K (.coe m s t a v)

/-- All that is pending in the body of an interval abstraction obeys the law. -/
inductive IntervalClosure.Obeys (K : PendingLaw) : IntervalClosure → Prop
  | body {env : Env} {dims : IntervalEnv} {t : Term} :
      (∀ e ∈ env, Entry.Obeys K e) → IntervalClosure.Obeys K (.body env dims t)
  | choice {u v w : Value} :
      Value.Obeys K u → Value.Obeys K v → Value.Obeys K w →
        IntervalClosure.Obeys K (.choice u v w)
  | domain {m : MeterId} {a : Line} :
      K.meter m → Line.Obeys K a → IntervalClosure.Obeys K (.domain m a)
  | codomain {m : MeterId} {a : Line} {y : Carried} :
      K.meter m → Line.Obeys K a → Carried.Obeys K y → IntervalClosure.Obeys K (.codomain m a y)
  | element {m : MeterId} {a : Line} :
      K.meter m → Line.Obeys K a → IntervalClosure.Obeys K (.element m a)
  | left {m : MeterId} {a : Line} :
      K.meter m → Line.Obeys K a → IntervalClosure.Obeys K (.left m a)
  | right {m : MeterId} {a : Line} :
      K.meter m → Line.Obeys K a → IntervalClosure.Obeys K (.right m a)
  | app {m : MeterId} {u : IntervalClosure} {y : Carried} :
      K.meter m → IntervalClosure.Obeys K u → Carried.Obeys K y →
        IntervalClosure.Obeys K (.app m u y)
  | pathApp {m : MeterId} {u : IntervalClosure} {r : Interval} :
      K.meter m → IntervalClosure.Obeys K u → IntervalClosure.Obeys K (.pathApp m u r)
  | comp {m : MeterId} {s t : Interval} {a : Line} {faces : List Tube} {v : Value} :
      K.meter m → Line.Obeys K a → (∀ face ∈ faces, face.1.IsCanonical) →
        (∀ face ∈ faces, IntervalClosure.Obeys K face.2) → Value.Obeys K v →
        IntervalClosure.Obeys K (.comp m s t a faces v)

/-- All that is pending in the moved argument obeys the law. -/
inductive Carried.Obeys (K : PendingLaw) : Carried → Prop
  | mk {d : Line} {r : Interval} {v : Value} :
      Line.Obeys K d → Value.Obeys K v → Carried.Obeys K (.mk d r v)

/-- All that is pending in the family obeys the law. -/
inductive Line.Obeys (K : PendingLaw) : Line → Prop
  | varying {c : IntervalClosure} {flag : Bool} :
      IntervalClosure.Obeys K c → Line.Obeys K (.varying c flag)
  | constant {a : Value} : Value.Obeys K a → Line.Obeys K (.constant a)

/-- All that is pending in the entry obeys the law. Of an argument it is asked only whom it belongs
to: what is pending in it is up to the session. -/
inductive Entry.Obeys (K : PendingLaw) : Entry → Prop
  | value {v : Value} : Value.Obeys K v → Entry.Obeys K (.value v)
  | thunk {id : Nat} {x : Suspension} :
      K.origin id = some x → K.meter x.meter → Entry.Obeys K (.thunk id)

end

/-- All that is pending in the partial elements obeys the law. -/
def PendingLaw.Tubes (K : PendingLaw) (faces : List Tube) : Prop :=
  ∀ face ∈ faces, face.1.IsCanonical ∧ face.2.Obeys K

/-- All that is pending in the demand obeys the law. -/
inductive Demand.Obeys (K : PendingLaw) : Demand → Prop
  | evaluate {nests : Bool} {t : Term} {env : Env} {dims : IntervalEnv} :
      (∀ e ∈ env, e.Obeys K) → Obeys K (.evaluate nests t env dims)
  | instantiate {c : Closure} {e : Entry} : c.Obeys K → e.Obeys K → Obeys K (.instantiate c e)
  | instantiateAt {c : IntervalClosure} {r : Interval} :
      c.Obeys K → Obeys K (.instantiateAt c r)
  | comp {s t : Interval} {a : Line} {faces : List Tube} {v : Value} :
      a.Obeys K → K.Tubes faces → v.Obeys K → Obeys K (.comp s t a faces v)
  | coe {s t : Interval} {a : Line} {v : Value} :
      a.Obeys K → v.Obeys K → Obeys K (.coe s t a v)

/-! ## Laws that ask less -/

namespace PendingLaw

/-- Whatever obeys the first law obeys the second. -/
structure Le (K K' : PendingLaw) : Prop where
  meter : ∀ {m}, K.meter m → K'.meter m
  comp : ∀ {a}, K.comp a → K'.comp a
  coe : ∀ {a}, K.coe a → K'.coe a
  origin : ∀ {id x}, K.origin id = some x → K'.origin id = some x

variable {K : PendingLaw} {faces : List Tube}

/-- Partial elements that obey a law are on cofibrations as they are stored. -/
theorem Tubes.canonical (h : K.Tubes faces) : ∀ face ∈ faces, face.1.IsCanonical :=
  fun face hface => (h face hface).1

/-- Partial elements that obey a law have bodies that do. -/
theorem Tubes.bodies (h : K.Tubes faces) : ∀ face ∈ faces, face.2.Obeys K :=
  fun face hface => (h face hface).2

end PendingLaw

section Mono

variable {K K' : PendingLaw}

mutual

/-- A value obeys every law that asks less. -/
theorem Value.Obeys.mono (hle : K.Le K') {v : Value} : v.Obeys K → v.Obeys K'
  | .univ => .univ
  | .pi a b => .pi (a.mono hle) (b.mono hle)
  | .lam b => .lam (b.mono hle)
  | .path a l r => .path (a.mono hle) (l.mono hle) (r.mono hle)
  | .smoothPath a l r => .smoothPath (a.mono hle) (l.mono hle) (r.mono hle)
  | .pathLam b => .pathLam (b.mono hle)
  | .untyped n => .untyped (n.mono hle)
  | .typed n a => .typed (n.mono hle) (a.mono hle)

/-- A stuck computation obeys every law that asks less. -/
theorem Neutral.Obeys.mono (hle : K.Le K') {n : Neutral} : n.Obeys K → n.Obeys K'
  | .var => .var
  | .app n v => .app (n.mono hle) (v.mono hle)
  | .pathApp n => .pathApp (n.mono hle)
  | .comp hne hstuck a φs us v =>
    .comp hne (hle.comp hstuck) (a.mono hle) φs (fun f hf => (us f hf).mono hle) (v.mono hle)
  | .coe hne hstuck a v => .coe hne (hle.coe hstuck) (a.mono hle) (v.mono hle)

/-- The body of an abstraction obeys every law that asks less. -/
theorem Closure.Obeys.mono (hle : K.Le K') {c : Closure} : c.Obeys K → c.Obeys K'
  | .body es => .body fun e he => (es e he).mono hle
  | .comp m a φs us v =>
    .comp (hle.meter m) (a.mono hle) φs (fun f hf => (us f hf).mono hle) (v.mono hle)
  | .coe m a v => .coe (hle.meter m) (a.mono hle) (v.mono hle)

/-- The body of an interval abstraction obeys every law that asks less. -/
theorem IntervalClosure.Obeys.mono (hle : K.Le K') {c : IntervalClosure} :
    c.Obeys K → c.Obeys K'
  | .body es => .body fun e he => (es e he).mono hle
  | .choice u v w => .choice (u.mono hle) (v.mono hle) (w.mono hle)
  | .domain m a => .domain (hle.meter m) (a.mono hle)
  | .codomain m a y => .codomain (hle.meter m) (a.mono hle) (y.mono hle)
  | .element m a => .element (hle.meter m) (a.mono hle)
  | .left m a => .left (hle.meter m) (a.mono hle)
  | .right m a => .right (hle.meter m) (a.mono hle)
  | .app m u y => .app (hle.meter m) (u.mono hle) (y.mono hle)
  | .pathApp m u => .pathApp (hle.meter m) (u.mono hle)
  | .comp m a φs us v =>
    .comp (hle.meter m) (a.mono hle) φs (fun f hf => (us f hf).mono hle) (v.mono hle)

/-- A moved argument obeys every law that asks less. -/
theorem Carried.Obeys.mono (hle : K.Le K') {y : Carried} : y.Obeys K → y.Obeys K'
  | .mk d v => .mk (d.mono hle) (v.mono hle)

/-- A family obeys every law that asks less. -/
theorem Line.Obeys.mono (hle : K.Le K') {a : Line} : a.Obeys K → a.Obeys K'
  | .varying c => .varying (c.mono hle)
  | .constant a => .constant (a.mono hle)

/-- An entry obeys every law that asks less. -/
theorem Entry.Obeys.mono (hle : K.Le K') {e : Entry} : e.Obeys K → e.Obeys K'
  | .value v => .value (v.mono hle)
  | .thunk hid m => .thunk (hle.origin hid) (hle.meter m)

end

/-- Partial elements obey every law that asks less. -/
theorem PendingLaw.Tubes.mono (hle : K.Le K') {faces : List Tube} (h : K.Tubes faces) :
    K'.Tubes faces :=
  fun face hface => ⟨(h face hface).1, (h face hface).2.mono hle⟩

end Mono

/-! ## The law of a session -/

namespace Session

/-- Before the session the family was looked at, at a probe of the meter, and had such a form. -/
def Found (m : MeterId) (s : Session) (a : Line) (P : Form → Prop) : Prop :=
  ∃ (frames : Nat) (b e : Session) (shape : Value), m < b.meters.size ∧ b.Certified m (0 ≤ ·) ∧
    Eval.lineAt (Eval.run frames) m a (.var (Run.probeBase - (b.meter m).probes))
      (Likeness.probed m b) = .ok shape e ∧ e.Precedes m s ∧ P shape.form

/-- The law for values that belong to the evaluator, if one is given. Of values that may belong to
several evaluators nothing is asked about families. -/
def law (s : Session) (owner : Option MeterId) : PendingLaw where
  meter k := ∀ m ∈ owner, k = m
  comp a := ∀ m ∈ owner, s.Found m a fun form => form.isTakenApart = false
  coe a := ∀ m ∈ owner, s.Found m a fun form => form.isTakenApart = false ∧ form ≠ .univ
  origin := s.origin

/-- What the session keeps for the arguments of the evaluator obeys the law, and can be compared. -/
structure Orderly (owner : Option MeterId) (s : Session) : Prop where
  opened : ∀ m ∈ owner, m < s.meters.size
  certified : ∀ m ∈ owner, s.Certified m (0 ≤ ·)
  entries : ∀ {id : Nat} {x : Suspension}, s.origin id = some x →
    (s.law owner).meter x.meter → ∀ e ∈ x.env, e.Obeys (s.law owner)
  values : ∀ {id : Nat} {x : Suspension} {v : Value}, s.cells[id]? = some ⟨x, some v⟩ →
    (s.law owner).meter x.meter → v.Obeys (s.law owner)

/-- The second session is one that a run on the first may leave, on whichever meters. -/
def Onward (s s' : Session) : Prop :=
  ∀ m, s.Continues m s'

variable {m : MeterId} {owner : Option MeterId} {s s' s'' : Session}

instance : Chain Onward where
  refl s _ := Chain.refl s
  trans h h' m := Chain.trans (h m) (h' m)

/-- What was put off stays known as the session goes on. -/
theorem Onward.origin (h : s.Onward s') {id : Nat} {x : Suspension} (hx : s.origin id = some x) :
    s'.origin id = some x :=
  (h 0).origin hx

/-- A family that was looked at before a session was so before every later one. -/
theorem Found.mono {a : Line} {P : Form → Prop} (h : s.Found m a P) (hs : s.Precedes m s') :
    s'.Found m a P := by
  obtain ⟨frames, b, e, shape, hopened, hb, hrun, he, hshape⟩ := h
  exact ⟨frames, b, e, shape, hopened, hb, hrun, he.trans hs, hshape⟩

/-- What obeys the law of a session obeys that of any later one. -/
theorem law_le (h : ∀ m, s.Precedes m s') (owner : Option MeterId) :
    (s.law owner).Le (s'.law owner) where
  meter hm := hm
  comp ha m hm := (ha m hm).mono (h m)
  coe ha m hm := (ha m hm).mono (h m)
  origin := (h 0).origin

/-- The law of a session asks less as the session goes on. -/
theorem Onward.law_le (h : s.Onward s') (owner : Option MeterId) :
    (s.law owner).Le (s'.law owner) :=
  Session.law_le (fun m => (h m).toPrecedes) owner

/-- A session with the same arguments is as orderly, if it has spent no less. -/
theorem Orderly.of_cells (h : s.Orderly owner) (hs : ∀ m, s.Precedes m s')
    (hsize : s.meters.size ≤ s'.meters.size) (hcells : s'.cells = s.cells) :
    s'.Orderly owner where
  opened m hm := Nat.lt_of_lt_of_le (h.opened m hm) hsize
  certified m hm := (h.certified m hm).of_cells hcells (hs m)
  entries {id x} hid hm e he := by
    rw [origin, hcells] at hid
    exact (h.entries hid hm e he).mono (law_le hs owner)
  values hc hm := by
    rw [hcells] at hc
    exact (h.values hc hm).mono (law_le hs owner)

/-- To put a computation off keeps the session orderly, if its environment obeys the law. -/
theorem Orderly.push (h : s.Orderly owner) {x : Suspension}
    (hx : ∀ e ∈ x.env, e.Obeys (s.law owner)) :
    Orderly owner { s with cells := s.cells.push { suspension := x } } := by
  have hs : s.Onward { s with cells := s.cells.push { suspension := x } } :=
    fun m => .suspend m x s
  have hle := hs.law_le owner
  refine ⟨h.opened, fun m hm => ?_, fun {id y} hid hm e he => ?_, fun {id y v} hc hm => ?_⟩
  · exact (hs m).certified (h.opened m hm) _ (h.certified m hm)
      (clear_of_nonneg (fun _ hl => hl) s _)
  · simp only [origin, Array.getElem?_push] at hid
    split at hid
    · cases hid
      exact (hx e he).mono hle
    · exact (h.entries hid hm e he).mono hle
  · simp only [Array.getElem?_push] at hc
    split at hc
    · cases hc
    · exact (h.values hc hm).mono hle

/-- What was put off under a number does not change when a value is kept. -/
theorem origin_settle (id : Nat) (v : Value) (s : Session) :
    ((Run.settle id v).after s).origin = s.origin := by
  cases hsharing : s.sharing with
  | byName => rw [settle_byName hsharing]
  | byNeed => rw [settle_byNeed hsharing, origin_setValue]

/-- To keep a value that a run has computed keeps the session orderly, if it obeys the law. -/
theorem Orderly.settle (h : s.Orderly owner) (h' : s'.Orderly owner) {id : Nat} {v : Value}
    (hs : s.Onward ((Run.settle id v).after s')) (hv : v.Obeys (s'.law owner)) :
    Orderly owner ((Run.settle id v).after s') := by
  have hle := law_le (fun m => Precedes.settle m id v s') owner
  refine ⟨fun m hm => (hs m).opened (h.opened m hm), fun m hm => ?_, fun hid hm e he => ?_,
    fun {id' x w} hc hm => ?_⟩
  · exact (hs m).certified (h.opened m hm) _ (h.certified m hm)
      (clear_of_nonneg (fun _ hl => hl) s _)
  · rw [origin_settle] at hid
    exact (h'.entries hid hm e he).mono hle
  · cases hsharing : s'.sharing with
    | byName =>
      rw [settle_byName hsharing] at hc hle ⊢
      exact h'.values hc hm
    | byNeed =>
      rw [settle_byNeed hsharing] at hc hle ⊢
      rw [Array.getElem?_modify] at hc
      split at hc
      · obtain ⟨c, _, hset⟩ := Option.map_eq_some_iff.1 hc
        cases hset
        exact hv.mono hle
      · exact (h'.values hc hm).mono hle

end Session

end SmoothCubical
