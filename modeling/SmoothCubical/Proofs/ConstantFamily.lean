import SmoothCubical.Proofs.Lockstep.Reading

/-!
# Constant families

Coercion along a family that is flagged constant does nothing, so the flag had better be right. It
is set where a family is closed whose term does not mention the direction, and it is handed on to
the domains, codomains and elements of that family. This file shows that nothing evaluation builds
carries the flag without being the same type at every point (`constant_family_sound`).

The proof compares two runs from the same session, one at each point. They are runs in step that
differ in no name and no level. What evaluation builds is what corresponds to itself in this sense,
and since corresponding demands are met by corresponding values, evaluation builds nothing else.
-/

set_option autoImplicit false

namespace SmoothCubical

open Correspondence

/-! ## What evaluation builds -/

/-- A value in which every flag was set for a reason: on families that are closed over a direction
which their term does not mention, and on the domains, codomains and elements of such families. -/
def Value.Built (v : Value) : Prop := same.Values v v

/-- An environment of built values, and of arguments that were put off. -/
def Env.Built (env : Env) : Prop := ∀ e ∈ env, same.Entries e e

/-- A session that holds built arguments only. -/
def Session.Built (s : Session) : Prop :=
  ∀ (id : Nat) (c : Cell), s.cells[id]? = some c → same.Cells c c

/-- The families that evaluation builds: a term closed over its direction, the constant family of
a type, and what the rules for function and path types derive from these. Composition hands the
flag on to domains and codomains, coercion leaves it off. -/
inductive Line.Built : Line → Prop
  | closed {family : Term} {env : Env} {dims : IntervalEnv} {a : Line} {s s' : Session} :
      env.Built → s.Built → Eval.closeFamily family env dims s = .ok a s' → Built a
  | constant {ty : Value} : ty.Built → Built (.constant ty)
  | domain {m : MeterId} {a : Line} {flag : Bool} :
      Built a → (flag = true → a.isConstant = true) → Built (.varying (.domain m a) flag)
  | codomain {m : MeterId} {a : Line} {flag : Bool} {r : Interval} {y : Value} :
      Built a → (flag = true → a.isConstant = true) → y.Built →
        Built (.varying (.codomain m a (Eval.carry m a flag r y)) flag)
  | element {m : MeterId} {a : Line} : Built a → Built (.varying (.element m a) a.isConstant)

/-- A built session corresponds to itself. -/
theorem Session.Built.sessions {s : Session} (hs : s.Built) : same.Sessions s s :=
  .refl (fun _ _ => trivial) fun id c _ hc => hs id c hc

/-- A built environment corresponds to itself. -/
theorem Env.Built.environments {env : Env} (henv : env.Built) :
    same.Environments (· = ·) env env :=
  .refl henv

/-- A family that evaluation builds corresponds to itself. -/
theorem Line.Built.lines {a : Line} (ha : a.Built) : same.Lines a a := by
  induction ha with
  | @closed family env dims a s s' henv hs hrun =>
    have hclosed := closeFamily_inStep henv.environments (Dims.refl dims)
      (family.matches_same (fun _ => rfl) (Under.refl fun _ => rfl)) s s hs.sessions
    rw [hrun] at hclosed
    cases hclosed with
    | ok ha _ => exact ha
  | constant hty => exact .constant hty
  | domain _ hflag ih => exact ih.domain _ _ hflag
  | codomain _ hflag hy ih => exact ih.codomain _ _ hflag _ hy
  | element _ ih => exact ih.element _

/-! ## What can be told apart -/

namespace Correspondence

mutual

/-- Values that differ in no name and no level are shown alike. -/
theorem Values.text_eq {v v' : Value} : same.Values v v' → v.text = v'.text
  | .univ => rfl
  | @Values.pi _ x y _ _ _ _ hx ha _ => by
    obtain rfl : x = y := hx
    change s!"(({x} : {_}) → ...)" = s!"(({x} : {_}) → ...)"
    rw [ha.text_eq]
  | .lam hx _ => congrArg (fun x => s!"λ{x}. ...") hx
  | .path ha hl hr => by
    change s!"Path {_} {_} {_}" = s!"Path {_} {_} {_}"
    rw [ha.text_eq, hl.text_eq, hr.text_eq]
  | @Values.smoothPath _ order _ _ _ _ _ _ ha hl hr => by
    change s!"SmoothPath^{order} {_} {_} {_}" = s!"SmoothPath^{order} {_} {_} {_}"
    rw [ha.text_eq, hl.text_eq, hr.text_eq]
  | .pathLam hx _ => congrArg (fun x => s!"⟨{x}⟩ ...") hx
  | .untyped hn => hn.text_eq
  | .typed hn _ => hn.text_eq

/-- Stuck computations that differ in no name and no level are shown alike. -/
theorem Neutrals.text_eq {n n' : Neutral} : same.Neutrals n n' → n.text = n'.text
  | .var hl => congrArg (fun level : Int => s!"x@{level}") hl
  | .app hn hv => by
    change s!"({_} {_})" = s!"({_} {_})"
    rw [hn.text_eq, hv.text_eq]
  | @Neutrals.pathApp _ _ _ r hn => congrArg (fun p => s!"({p} @ {r.text})") hn.text_eq
  | @Neutrals.comp _ s t _ _ _ _ _ _ _ _ hv =>
    congrArg (fun base => s!"<comp {s.text}→{t.text} {base}>") hv.text_eq
  | @Neutrals.coe _ s t _ _ _ _ _ hv =>
    congrArg (fun base => s!"<coe {s.text}→{t.text} {base}>") hv.text_eq

end

/-- Faults that differ in no index are the same. -/
theorem Faults.eq {f f' : Fault} : same.Faults f f' → f = f'
  | .unboundVariable h => by rw [show _ = _ from h]
  | .unboundDimension h => by rw [show _ = _ from h]
  | .missingTerm => rfl
  | .missingDim => rfl
  | .missingFace => rfl
  | .endpointRange => rfl

/-- Failures that differ in no name and no level are of one kind and have one message. -/
theorem Failures.told_alike {e e' : Failure} (h : same.Failures e e') :
    e.kind = e'.kind ∧ e.message = e'.message := by
  cases h with
  | fault hf =>
    cases hf.eq
    exact ⟨rfl, rfl⟩
  | nonTermination => exact ⟨rfl, rfl⟩
  | unknownThunk => exact ⟨rfl, rfl⟩
  | notFunctionType hv | notPathType hv | notFunction hv | notPath hv =>
    refine ⟨rfl, ?_⟩
    delta Failure.message
    dsimp only
    rw [hv.text_eq]

end Correspondence

/-- Two outcomes that nothing tells apart: related answers, or failures of one kind with one
message. What was spent is the same in any case. -/
inductive SameOutcome {α : Type} (R : α → Session → α → Session → Prop) :
    EStateM.Result Failure Session α → EStateM.Result Failure Session α → Prop
  | ok {a a' : α} {s s' : Session} :
      R a s a' s' → s.meters = s'.meters → SameOutcome R (.ok a s) (.ok a' s')
  | error {e e' : Failure} {s s' : Session} :
      e.kind = e'.kind → e.message = e'.message → s.meters = s'.meters →
        SameOutcome R (.error e s) (.error e' s')

/-- Two values that read back to the same term, each in the session it was found in, or fail to
in the same way. -/
def SameReading (frames : Nat) (m : MeterId) (depth dimDepth : Int) (v : Value) (s : Session)
    (v' : Value) (s' : Session) : Prop :=
  SameOutcome (fun t _ t' _ => t = t') (Readback.quote frames m depth dimDepth v s)
    (Readback.quote frames m depth dimDepth v' s')

namespace Correspondence

/-- Outcomes that correspond cannot be told apart. -/
theorem Outcomes.sameOutcome {α : Type} {R : α → α → Prop}
    {S : α → Session → α → Session → Prop} {x y : EStateM.Result Failure Session α}
    (h : same.Outcomes R x y)
    (hRS : ∀ a s a' s', R a a' → same.Sessions s s' → S a s a' s') : SameOutcome S x y := by
  cases h with
  | ok hR hs => exact .ok (hRS _ _ _ _ hR hs) hs.meters
  | error he hs =>
    obtain ⟨hkind, hmessage⟩ := he.told_alike
    exact .error hkind hmessage hs.meters

/-- Values that correspond read back to the same term. -/
theorem Values.sameReading {v v' : Value} (hv : same.Values v v') (frames : Nat) (m : MeterId)
    (depth dimDepth : Int) {s s' : Session} (hs : same.Sessions s s') :
    SameReading frames m depth dimDepth v s v' s' := by
  have hlevel (l l' : Int) : same.level l l' ↔ l = l' := Iff.rfl
  have hread := quote_inStep m frames (.refl hlevel depth) dimDepth hv s s' hs
  refine hread.sameOutcome fun t _ t' _ ht _ => ?_
  exact ht.eq (fun _ _ hx => hx) (fun _ _ hij => hij.eq hlevel) fun _ _ hij => hij

end Correspondence

/-! ## The flag is right -/

/-- A run that leaves a built session behind, and a built value if it answers. -/
def BuildsValue (x : EStateM.Result Failure Session Value) : Prop :=
  match x with
  | .ok v s => v.Built ∧ s.Built
  | .error _ s => s.Built

/-- A session that corresponds to itself is built. -/
theorem Correspondence.Sessions.built {s : Session} (h : same.Sessions s s) : s.Built :=
  fun id c hc => h.cells id c c trivial hc hc

/-- What evaluation builds from what it has built is built, too. -/
theorem run_builds (frames : Nat) (m : MeterId) {d : Demand} (hd : same.Demands d d)
    {s : Session} (hs : s.Built) : BuildsValue (Eval.run frames m d s) := by
  have hrun := run_inStep frames m d d hd s s hs.sessions
  unfold BuildsValue
  generalize Eval.run frames m d s = x at hrun ⊢
  cases x with
  | ok v s =>
    cases hrun with
    | ok hv hs => exact ⟨hv, hs.built⟩
  | error e s =>
    cases hrun with
    | error _ hs => exact hs.built

/-- Interval environments that differ in one entry correspond in all others. -/
theorem Correspondence.Dims.set (dims : IntervalEnv) (k : Nat) (r : Interval) :
    same.Dims (fun i j => i = j ∧ i ≠ k) dims (dims.set k r) := by
  rintro i _ ⟨rfl, hne⟩
  have hget : Index.get? (dims.set k r) i = Index.get? dims i := by
    unfold Index.get?
    split
    · rfl
    · exact List.getElem?_set_ne (by omega)
  have hfind : IntervalEnv.find (dims.set k r) i = IntervalEnv.find dims i := by
    rw [IntervalEnv.find, IntervalEnv.find, hget]
  have hpoint : Face.point (dims.set k r) i = Face.point dims i := by
    rw [Face.point, Face.point, hfind, List.length_set]
  rw [hfind, hpoint]
  exact ⟨.refl (fun _ => rfl) _, .refl (fun _ => rfl) _⟩

/-- The flag of a constant family is right. Evaluation, from what it has built, builds values that
hold only families whose flags were set for a reason. Such a family, if it is flagged constant, is
at any two points the same type: the same failure, or types that read back to the same term. And a
term that does not mention an interval variable has the same value, up to reading back, whatever
that variable stands for.

Both runs start from the session `s`. Of runs made one after the other the second starts where the
first ended, and may then read back differently: a closure keeps its evaluator, whose steps and
probes go on. `constant_family_again` says when they do not. -/
theorem constant_family_sound (frames : Nat) (m : MeterId) (depth dimDepth : Int) {s : Session}
    (hs : s.Built) :
    (∀ (t : Term) (env : Env) (dims : IntervalEnv), env.Built →
      BuildsValue (Eval.evaluate frames m t env dims s)) ∧
    (∀ a : Line, a.Built → a.isConstant = true → ∀ r r' : Interval,
      SameOutcome (SameReading frames m depth dimDepth) (Eval.lineAt (Eval.run frames) m a r s)
        (Eval.lineAt (Eval.run frames) m a r' s)) ∧
    (∀ (t : Term) (k : Nat) (env : Env) (dims : IntervalEnv) (r : Interval), env.Built →
      t.mentions k = .ok false →
      SameOutcome (SameReading frames m depth dimDepth) (Eval.evaluate frames m t env dims s)
        (Eval.evaluate frames m t env (dims.set k r) s)) := by
  have read {x y : Run Value} (h : same.InStep same.Values x y) :
      SameOutcome (SameReading frames m depth dimDepth) (x s) (y s) :=
    (h s s hs.sessions).sameOutcome fun _ _ _ _ hv hs => hv.sameReading frames m depth dimDepth hs
  refine ⟨?builds, ?lines, ?terms⟩
  case builds =>
    intro t env dims henv
    refine run_builds frames m (.evaluate henv.environments (Dims.refl dims) ?_) hs
    exact t.matches_same (fun _ => rfl) fun _ => rfl
  case lines =>
    intro a ha hconst r r'
    exact read (lineAt_inStep (run_inStep frames) m ha.lines (.inl hconst))
  case terms =>
    intro t k env dims r henv hm
    -- Index `k` is related to nothing, so its entries in the two environments may differ.
    have ht : Term.Matches same (· = ·) (fun i j => i = j ∧ i ≠ k) t t :=
      (t.matches_same (fun _ => rfl) fun _ => rfl).of_not_mentions (by omega)
        (fun _ _ hij hne => ⟨hij, hne⟩) hm
    exact read (run_inStep frames m _ _ (.evaluate henv.environments (Dims.set dims k r) ht))

/-- The family of function types `(x : Type1) → x`, which does not mention its direction. -/
def arrowFamily : Line :=
  .varying (.body [] [] (.pi "x" (.univ 1) (.var 0))) true

/-- The codomains of `arrowFamily` at an argument that is carried along its domains. -/
def arrowCodomains : Line :=
  .varying (.codomain 0 arrowFamily (Eval.carry 0 arrowFamily true .zero (.univ 0))) true

/-- The codomains of `arrowFamily` are a family that evaluation builds. -/
theorem arrowCodomains_built : arrowCodomains.Built := by
  have hs : Session.Built {} := by simp [Session.Built]
  have hnone : Env.Built [] := by simp [Env.Built]
  have hclosed : Eval.closeFamily (.pi "x" (.univ 1) (.var 0)) [] [] {} = .ok arrowFamily {} := rfl
  exact .codomain (.closed hnone hs hclosed) (fun _ => rfl) .univ

/-- A path hypothesis between two universes. -/
def pathHypothesis : Value :=
  .generic 0 (some (.path (.univ 1) (.univ 0) (.univ 0)))

/-- The codomains of a constant family of function types are the same type at both ends, and the
point of a path does not depend on an interval variable other than its own. -/
theorem constant_family_sound_arrow :
    (arrowCodomains.Built ∧ arrowCodomains.isConstant = true ∧
      SameOutcome (SameReading 20 0 0 0) (Eval.lineAt (Eval.run 20) 0 arrowCodomains .zero {})
        (Eval.lineAt (Eval.run 20) 0 arrowCodomains .one {})) ∧
    (Env.Built [.value pathHypothesis] ∧ (Term.pathApp (.var 0) (.var 1)).mentions 0 = .ok false ∧
      SameOutcome (SameReading 20 0 1 2)
        (Eval.evaluate 20 0 (.pathApp (.var 0) (.var 1)) [.value pathHypothesis]
          [.zero, .var 0] {})
        (Eval.evaluate 20 0 (.pathApp (.var 0) (.var 1)) [.value pathHypothesis]
          [.one, .var 0] {})) := by
  have hs : Session.Built {} := by simp [Session.Built]
  have hpath : Env.Built [.value pathHypothesis] := by
    simpa [Env.Built] using .value (.typed (.var rfl) (.path .univ .univ .univ))
  refine ⟨⟨arrowCodomains_built, rfl, ?_⟩, hpath, rfl, ?_⟩
  · exact (constant_family_sound 20 0 0 0 hs).2.1 arrowCodomains arrowCodomains_built rfl .zero .one
  · exact (constant_family_sound 20 0 1 2 hs).2.2 (.pathApp (.var 0) (.var 1)) 0
      [.value pathHypothesis] [.zero, .var 0] .one hpath rfl

end SmoothCubical
