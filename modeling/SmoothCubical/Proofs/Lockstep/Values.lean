import SmoothCubical.Proofs.Lockstep.Terms
import SmoothCubical.Eval.Evaluate

/-!
# Values in correspondence

What two runs in step hold at the same time. Values correspond if they have the same shape, their
stuck parts are stuck on variables that stand for each other, and their closures hold matching
terms in corresponding environments. Points of the interval, cofibrations, meters and the numbers
of arguments that were put off are the same in both. An argument that no value refers to is never
looked at, so sessions need not correspond in all their arguments, but in those that may be looked
at.

A family that is flagged constant corresponds to another only if the two are `Still`: they close
terms that do not mention the direction, or they are the domains, the codomains or the elements of
such families. Two families that are still turn out to correspond at any two points.
-/

set_option autoImplicit false

namespace SmoothCubical.Correspondence

variable (C : Correspondence)

mutual

/-- Values that correspond. -/
inductive Values : Value → Value → Prop
  | univ {level : Int} : Values (.univ level) (.univ level)
  | pi {x y : String} {a a' : Value} {b b' : Closure} :
      C.name x y → Values a a' → Closures b b' → Values (.pi x a b) (.pi y a' b')
  | lam {x y : String} {b b' : Closure} :
      C.name x y → Closures b b' → Values (.lam x b) (.lam y b')
  | path {a a' l l' r r' : Value} :
      Values a a' → Values l l' → Values r r' → Values (.path a l r) (.path a' l' r')
  | smoothPath {order : Int} {a a' l l' r r' : Value} :
      Values a a' → Values l l' → Values r r' →
        Values (.smoothPath order a l r) (.smoothPath order a' l' r')
  | pathLam {x y : String} {b b' : IntervalClosure} :
      C.name x y → IntervalClosures b b' → Values (.pathLam x b) (.pathLam y b')
  | untyped {n n' : Neutral} : Neutrals n n' → Values (.stuck n none) (.stuck n' none)
  | typed {n n' : Neutral} {a a' : Value} :
      Neutrals n n' → Values a a' → Values (.stuck n (some a)) (.stuck n' (some a'))

/-- Stuck computations that correspond. -/
inductive Neutrals : Neutral → Neutral → Prop
  | var {level level' : Int} : C.level level level' → Neutrals (.var level) (.var level')
  | app {n n' : Neutral} {v v' : Value} :
      Neutrals n n' → Values v v' → Neutrals (.app n v) (.app n' v')
  | pathApp {n n' : Neutral} {r : Interval} :
      Neutrals n n' → Neutrals (.pathApp n r) (.pathApp n' r)
  | comp {s t : Interval} {a a' : Line} {faces faces' : List Tube} {v v' : Value} :
      Lines a a' → Tubes faces faces' → Values v v' →
        Neutrals (.comp s t a faces v) (.comp s t a' faces' v')
  | coe {s t : Interval} {a a' : Line} {v v' : Value} :
      Lines a a' → Values v v' → Neutrals (.coe s t a v) (.coe s t a' v')

/-- Bodies of abstractions that correspond. -/
inductive Closures : Closure → Closure → Prop
  | body {V D : Int → Int → Prop} {env env' : Env} {dims dims' : IntervalEnv} {t t' : Term} :
      (∀ i j e e', V i j → Index.get? env i = some e → Index.get? env' j = some e' →
        Entries e e') →
      C.Bound V env env' → C.Dims D dims dims' → Term.Matches C (Under V) D t t' →
        Closures (.body env dims t) (.body env' dims' t')
  | comp {m : MeterId} {s t : Interval} {a a' : Line} {faces faces' : List Tube} {v v' : Value} :
      Lines a a' → Tubes faces faces' → Values v v' →
        Closures (.comp m s t a faces v) (.comp m s t a' faces' v')
  | coe {m : MeterId} {s t : Interval} {a a' : Line} {v v' : Value} :
      Lines a a' → Values v v' → Closures (.coe m s t a v) (.coe m s t a' v')

/-- Bodies of interval abstractions that correspond at every point. -/
inductive IntervalClosures : IntervalClosure → IntervalClosure → Prop
  | body {V D : Int → Int → Prop} {env env' : Env} {dims dims' : IntervalEnv} {t t' : Term} :
      (∀ i j e e', V i j → Index.get? env i = some e → Index.get? env' j = some e' →
        Entries e e') →
      C.Bound V env env' → C.Dims D dims dims' → Term.Matches C V (Under D) t t' →
        IntervalClosures (.body env dims t) (.body env' dims' t')
  | choice {u u' v v' w w' : Value} :
      Values u u' → Values v v' → Values w w' →
        IntervalClosures (.choice u v w) (.choice u' v' w')
  | domain {m : MeterId} {a a' : Line} :
      Lines a a' → IntervalClosures (.domain m a) (.domain m a')
  | codomain {m : MeterId} {a a' : Line} {y y' : Carried} :
      Lines a a' → Arguments y y' → IntervalClosures (.codomain m a y) (.codomain m a' y')
  | element {m : MeterId} {a a' : Line} :
      Lines a a' → IntervalClosures (.element m a) (.element m a')
  | left {m : MeterId} {a a' : Line} :
      Lines a a' → IntervalClosures (.left m a) (.left m a')
  | right {m : MeterId} {a a' : Line} :
      Lines a a' → IntervalClosures (.right m a) (.right m a')
  | app {m : MeterId} {u u' : IntervalClosure} {y y' : Carried} :
      IntervalClosures u u' → Arguments y y' → IntervalClosures (.app m u y) (.app m u' y')
  | pathApp {m : MeterId} {u u' : IntervalClosure} {r : Interval} :
      IntervalClosures u u' → IntervalClosures (.pathApp m u r) (.pathApp m u' r)
  | comp {m : MeterId} {s t : Interval} {a a' : Line} {faces faces' : List Tube} {v v' : Value} :
      Lines a a' → Tubes faces faces' → Values v v' →
        IntervalClosures (.comp m s t a faces v) (.comp m s t a' faces' v')

/-- Bodies of interval abstractions that correspond and do not depend on the point. -/
inductive Still : IntervalClosure → IntervalClosure → Prop
  | body {V D : Int → Int → Prop} {env env' : Env} {dims dims' : IntervalEnv} {t t' : Term} :
      (∀ i j e e', V i j → Index.get? env i = some e → Index.get? env' j = some e' →
        Entries e e') →
      C.Bound V env env' → C.Dims D dims dims' → Term.Matches C V (Under D) t t' →
        t.mentions 0 = .ok false → Still (.body env dims t) (.body env' dims' t')
  | domain {m : MeterId} {a a' : Line} :
      Lines a a' → a.isConstant = true → Still (.domain m a) (.domain m a')
  | codomain {m : MeterId} {a a' d d' : Line} {r : Interval} {v v' : Value} :
      Lines a a' → a.isConstant = true → Lines d d' → d.isConstant = true → Values v v' →
        Still (.codomain m a (.mk d r v)) (.codomain m a' (.mk d' r v'))
  | element {m : MeterId} {a a' : Line} :
      Lines a a' → a.isConstant = true → Still (.element m a) (.element m a')

/-- Moved arguments that correspond. -/
inductive Arguments : Carried → Carried → Prop
  | mk {d d' : Line} {r : Interval} {v v' : Value} :
      Lines d d' → Values v v' → Arguments (.mk d r v) (.mk d' r v')

/-- Families that correspond. -/
inductive Lines : Line → Line → Prop
  | constant {a a' : Value} : Values a a' → Lines (.constant a) (.constant a')
  | moving {c c' : IntervalClosure} :
      IntervalClosures c c' → Lines (.varying c false) (.varying c' false)
  | still {c c' : IntervalClosure} : Still c c' → Lines (.varying c true) (.varying c' true)

/-- What term variables are bound to, in correspondence. -/
inductive Entries : Entry → Entry → Prop
  | value {v v' : Value} : Values v v' → Entries (.value v) (.value v')
  | thunk {id : Nat} : C.argument id → Entries (.thunk id) (.thunk id)

/-- Partial elements that correspond one by one. -/
inductive Tubes : List Tube → List Tube → Prop
  | nil : Tubes [] []
  | cons {φ : Cofibration} {u u' : IntervalClosure} {rest rest' : List Tube} :
      IntervalClosures u u' → Tubes rest rest' → Tubes ((φ, u) :: rest) ((φ, u') :: rest')

end

/-! ## Environments, demands and sessions -/

/-- Environments that correspond: related indices are bound to corresponding entries. -/
structure Environments (V : Int → Int → Prop) (env env' : Env) : Prop where
  entries : ∀ i j e e', V i j → Index.get? env i = some e → Index.get? env' j = some e' →
    C.Entries e e'
  bound : C.Bound V env env'

/-- Demands that correspond. A family that is flagged constant may be asked for at two points, and
a value may be moved along it to two places. -/
inductive Demands : Demand → Demand → Prop
  | evaluate {V D : Int → Int → Prop} {nests : Bool} {t t' : Term} {env env' : Env}
      {dims dims' : IntervalEnv} :
      C.Environments V env env' → C.Dims D dims dims' → Term.Matches C V D t t' →
        Demands (.evaluate nests t env dims) (.evaluate nests t' env' dims')
  | instantiate {c c' : Closure} {e e' : Entry} :
      C.Closures c c' → C.Entries e e' → Demands (.instantiate c e) (.instantiate c' e')
  | instantiateAt {c c' : IntervalClosure} {r : Interval} :
      C.IntervalClosures c c' → Demands (.instantiateAt c r) (.instantiateAt c' r)
  | still {c c' : IntervalClosure} {r r' : Interval} :
      C.Still c c' → Demands (.instantiateAt c r) (.instantiateAt c' r')
  | comp {s t : Interval} {a a' : Line} {faces faces' : List Tube} {v v' : Value} :
      C.Lines a a' → C.Tubes faces faces' → C.Values v v' →
        Demands (.comp s t a faces v) (.comp s t a' faces' v')
  | coe {s t : Interval} {a a' : Line} {v v' : Value} :
      C.Lines a a' → C.Values v v' → Demands (.coe s t a v) (.coe s t a' v')
  | idle {s s' t t' : Interval} {a a' : Line} {v v' : Value} :
      C.Lines a a' → a.isConstant = true → C.Values v v' →
        Demands (.coe s t a v) (.coe s' t' a' v')

/-- Arguments that correspond, before or after they were first looked at. -/
inductive Cells : Cell → Cell → Prop
  | pending {V D : Int → Int → Prop} {m : MeterId} {nests : Bool} {t t' : Term} {env env' : Env}
      {dims dims' : IntervalEnv} :
      C.Environments V env env' → C.Dims D dims dims' → Term.Matches C V D t t' →
        Cells ⟨⟨m, nests, t, env, dims⟩, none⟩ ⟨⟨m, nests, t', env', dims'⟩, none⟩
  | done {x x' : Suspension} {v v' : Value} : C.Values v v' → Cells ⟨x, some v⟩ ⟨x', some v'⟩

/-- Sessions that correspond, in the arguments that may be looked at. Among these are all that are
put off from now on. The sessions agree on all accounts; what they recorded is of no account. -/
structure Sessions (s s' : Session) : Prop where
  meters : s.meters = s'.meters
  sharing : s.sharing = s'.sharing
  size : s.cells.size = s'.cells.size
  later : ∀ id, s.cells.size ≤ id → C.argument id
  cells : ∀ (id : Nat) (c c' : Cell), C.argument id → s.cells[id]? = some c →
    s'.cells[id]? = some c' → C.Cells c c'

/-- Failures of evaluation that correspond. -/
inductive Failures : Failure → Failure → Prop
  | fault {f f' : Fault} : C.Faults f f' → Failures (.fault f) (.fault f')
  | notFunctionType {v v' : Value} :
      C.Values v v' → Failures (.notFunctionType v) (.notFunctionType v')
  | notPathType {v v' : Value} : C.Values v v' → Failures (.notPathType v) (.notPathType v')
  | notFunction {v v' : Value} : C.Values v v' → Failures (.notFunction v) (.notFunction v')
  | notPath {v v' : Value} {r : Interval} :
      C.Values v v' → Failures (.notPath v r) (.notPath v' r)
  | nonTermination {g : Guard} : Failures (.nonTermination g) (.nonTermination g)
  | unknownThunk {id : Nat} : Failures (.unknownThunk id) (.unknownThunk id)

variable {C}

/-- Environments that correspond can be extended by corresponding entries. -/
theorem Environments.cons {V : Int → Int → Prop} {env env' : Env} {e e' : Entry}
    (h : C.Environments V env env') (he : C.Entries e e') :
    C.Environments (Under V) (e :: env) (e' :: env') where
  entries := by
    intro i j a a' hij ha ha'
    cases hij with
    | nearest =>
      rw [Index.get?_cons_zero] at ha ha'
      obtain ⟨rfl, rfl⟩ := And.intro (Option.some.inj ha) (Option.some.inj ha')
      exact he
    | outer hi hj r =>
      rw [Index.get?_cons_succ _ _ hi] at ha
      rw [Index.get?_cons_succ _ _ hj] at ha'
      exact h.entries _ _ _ _ r ha ha'
    | negative hi hj r =>
      rw [Index.get?_neg _ hi] at ha
      contradiction
  bound := h.bound.cons e e'

/-- An environment corresponds to itself if each entry does. -/
theorem Environments.refl {env : Env} (h : ∀ e ∈ env, C.Entries e e) :
    C.Environments (· = ·) env env where
  entries i j e e' hij he he' := by
    subst hij
    obtain rfl : e = e' := by simpa [he] using he'
    exact h e (Index.mem_of_get? he)
  bound i j hij := by
    subst hij
    exact ⟨rfl, fun _ => C.unbound_refl i⟩

/-- Related indices find corresponding entries, or are unbound in both environments. -/
theorem Environments.findEntry {V : Int → Int → Prop} {env env' : Env}
    (h : C.Environments V env env') {i j : Int} (hij : V i j) :
    C.Answers C.Entries (Eval.findEntry env i) (Eval.findEntry env' j) := by
  have hb := h.bound i j hij
  unfold Eval.findEntry
  cases he : Index.get? env i <;> cases he' : Index.get? env' j <;> rw [he, he'] at hb
  case none.none => exact .error (.unboundVariable (hb.2 rfl))
  case some.some => exact .ok (h.entries _ _ _ _ hij he he')
  all_goals simp at hb

/-- Families that correspond are flagged alike. -/
theorem Lines.isConstant_eq {a a' : Line} : C.Lines a a' → a.isConstant = a'.isConstant
  | .constant _ => rfl
  | .moving _ => rfl
  | .still _ => rfl

/-- Partial elements that correspond can be put one after the other. -/
theorem Tubes.append {fs fs' gs gs' : List Tube} (h : C.Tubes fs fs') (k : C.Tubes gs gs') :
    C.Tubes (fs ++ gs) (fs' ++ gs') := by
  match h with
  | .nil => exact k
  | .cons u rest => exact .cons u (rest.append k)

/-- Partial elements still correspond when each tube is replaced in the same way. -/
theorem Tubes.map {fs fs' : List Tube} {f g : IntervalClosure → IntervalClosure}
    (hfg : ∀ u u', C.IntervalClosures u u' → C.IntervalClosures (f u) (g u')) :
    C.Tubes fs fs' →
      C.Tubes (fs.map fun face => (face.1, f face.2)) (fs'.map fun face => (face.1, g face.2))
  | .nil => .nil
  | .cons u rest => .cons (hfg _ _ u) (rest.map hfg)

/-- The partial elements that are given somewhere are the same ones. -/
theorem Tubes.possible {fs fs' : List Tube} :
    C.Tubes fs fs' → C.Tubes (Eval.possible fs) (Eval.possible fs')
  | .nil => .nil
  | @cons _ φ u u' rest rest' hu hrest => by
    have ih := hrest.possible
    unfold Eval.possible at ih ⊢
    by_cases hφ : φ.isFalse = true
    · simpa [hφ] using ih
    · simpa [hφ] using .cons hu ih

/-- Of corresponding partial elements the first that is given everywhere is the same one. -/
theorem Tubes.firstTrue? {fs fs' : List Tube} :
    C.Tubes fs fs' → Option.Rel C.IntervalClosures (Eval.firstTrue? fs) (Eval.firstTrue? fs')
  | .nil => .none
  | @cons _ φ u u' rest rest' hu hrest => by
    unfold Eval.firstTrue?
    by_cases hφ : φ.isTrue = true
    · simpa [hφ] using Option.Rel.some hu
    · simpa [hφ] using hrest.firstTrue?

/-- A session corresponds to itself if each argument does that may be looked at. -/
theorem Sessions.refl {s : Session} (hlater : ∀ id, s.cells.size ≤ id → C.argument id)
    (h : ∀ (id : Nat) (c : Cell), C.argument id → s.cells[id]? = some c → C.Cells c c) :
    C.Sessions s s where
  meters := rfl
  sharing := rfl
  size := rfl
  later := hlater
  cells id c c' hid hc hc' := by
    obtain rfl : c = c' := by simpa [hc] using hc'
    exact h id c hid hc

/-- Sessions that correspond have spent the same. -/
theorem Sessions.meter {s s' : Session} (h : C.Sessions s s') (m : MeterId) :
    s.meter m = s'.meter m := by
  rw [Session.meter, Session.meter, h.meters]

/-- Sessions that correspond still do so after the same change to one meter. -/
theorem Sessions.modifyMeter {s s' : Session} (h : C.Sessions s s') (m : MeterId)
    (f : Meter → Meter) : C.Sessions (s.modifyMeter m f) (s'.modifyMeter m f) where
  meters := congrArg (·.modify m f) h.meters
  sharing := h.sharing
  size := h.size
  later := h.later
  cells := h.cells

/-- The values of arguments may be kept if they correspond. -/
theorem Sessions.setValue {s s' : Session} (h : C.Sessions s s') (id : Nat) {v v' : Value}
    (hv : C.Values v v') :
    C.Sessions { s with cells := s.cells.modify id fun c => { c with value := some v } }
      { s' with cells := s'.cells.modify id fun c => { c with value := some v' } } where
  meters := h.meters
  sharing := h.sharing
  size := by simpa using h.size
  later := by simpa using h.later
  cells := by
    intro id' a a' hlooked ha ha'
    simp only [Array.getElem?_modify] at ha ha'
    by_cases hid : id = id'
    · simp only [hid, if_true, Option.map_eq_some_iff] at ha ha'
      obtain ⟨c, _, rfl⟩ := ha
      obtain ⟨c', _, rfl⟩ := ha'
      exact .done hv
    · simp only [hid, if_false] at ha ha'
      exact h.cells _ _ _ hlooked ha ha'

/-- Arguments that correspond may be added. -/
theorem Sessions.pushCell {s s' : Session} (h : C.Sessions s s') {c c' : Cell}
    (hc : C.Cells c c') :
    C.Sessions { s with cells := s.cells.push c } { s' with cells := s'.cells.push c' } where
  meters := h.meters
  sharing := h.sharing
  size := by simpa using h.size
  later id hid := h.later id (by simp at hid; omega)
  cells := by
    intro id a a' hlooked ha ha'
    simp only [Array.getElem?_push, h.size] at ha ha'
    by_cases hid : id = s'.cells.size
    · simp only [hid, if_true, Option.some.injEq] at ha ha'
      subst ha ha'
      exact hc
    · simp only [hid, if_false] at ha ha'
      exact h.cells _ _ _ hlooked ha ha'

end SmoothCubical.Correspondence
