import SmoothCubical.Proofs.Evaluator.Operations
import SmoothCubical.Proofs.IdleCoercion

/-!
# Evaluators with different histories

What an evaluator has done before does not show in the normal forms that it computes
(`history_independent`). Compared are two evaluators that were one up to some point. From then on
each may do anything by itself, and whatever is to be compared is built by the same operations on
both.

Two things do depend on the history. Messages show the numbers of probes, and these are never drawn
twice. And at a point that is itself the next probe, a Kan operation takes two directions to be one
(`history_shows`). So the operations that build an environment must not be carried out at probes.
-/

set_option autoImplicit false

namespace SmoothCubical

/-- The entries at the given positions. -/
def pick (env : Env) (positions : List Nat) : Env :=
  positions.filterMap (env[·]?)

/-- Two sessions of an evaluator, with environments that were built in them. The sessions were one,
and have since been led on by operations on either of them alone, and by operations on both that
have built an entry at points which are no probes. -/
inductive Twins (m : MeterId) : Session → Env → Session → Env → Prop
  | start {s : Session} {env : Env} :
      s.Serves m → (∀ e ∈ env, e.In ((Scope.owned m).during s)) → Twins m s env s env
  | left {s s' : Session} {env env' used : Env} (frames : Nat) (k : MeterId) (op : Operation) :
      Twins m s env s' env' → (∀ e ∈ used, e.In (Scope.known.during s)) →
        Twins m ((op.run frames k used).after s) env s' env'
  | right {s s' : Session} {env env' used : Env} (frames : Nat) (k : MeterId) (op : Operation) :
      Twins m s env s' env' → (∀ e ∈ used, e.In (Scope.known.during s')) →
        Twins m s env ((op.run frames k used).after s') env'
  | both {s s' t t' : Session} {env env' : Env} {e e' : Entry} (frames frames' : Nat)
      (op : Operation) (positions : List Nat) :
      Twins m s env s' env' → (∀ r ∈ op.points, r.On (0 ≤ ·)) →
        op.run frames m (pick env positions) s = .ok (some e) t →
        op.run frames' m (pick env' positions) s' = .ok (some e') t' →
        Twins m t (e :: env) t' (e' :: env')

/-- What twins have in common. -/
structure Matched (m : MeterId) (s : Session) (env : Env) (s' : Session) (env' : Env) : Prop where
  serves : s.Serves m
  serves' : s'.Serves m
  owned : ∀ e ∈ env, e.In ((Scope.owned m).during s)
  owned' : ∀ e ∈ env', e.In ((Scope.owned m).during s')
  alike : (Likeness.between m s s').Environments env env'

/-- Unless one of the runs was cut off, both answer, with answers so related, or both fail alike. -/
inductive EndAs {α β : Type} (R : α → β → Prop) :
    EStateM.Result Failure Session α → EStateM.Result Failure Session β → Prop
  | ok {a : α} {b : β} {s s' : Session} : R a b → EndAs R (.ok a s) (.ok b s')
  | error {e e' : Failure} {s s' : Session} : e.Alike e' → EndAs R (.error e s) (.error e' s')
  | cutOff {guard : Guard} {s : Session} {y : EStateM.Result Failure Session β} :
      EndAs R (.error (.nonTermination guard) s) y
  | cutOff' {x : EStateM.Result Failure Session α} {guard : Guard} {s' : Session} :
      EndAs R x (.error (.nonTermination guard) s')

/-! ## Environments of twins -/

/-- What is picked from an environment is in it. -/
theorem mem_of_mem_pick {env : Env} {positions : List Nat} {e : Entry}
    (h : e ∈ pick env positions) : e ∈ env := by
  obtain ⟨i, _, hi⟩ := List.mem_filterMap.1 h
  exact List.mem_of_getElem? hi

namespace Likeness

variable {L : Likeness}

/-- What is picked from alike environments, at the same positions, is alike. -/
theorem Environments.pick {env env' : Env} (h : L.Environments env env') (positions : List Nat) :
    L.Environments (pick env positions) (pick env' positions) := by
  induction positions with
  | nil => exact .nil
  | cons i positions ih =>
    have hi := h.get? i
    unfold SmoothCubical.pick at ih ⊢
    rw [List.filterMap_cons, List.filterMap_cons]
    generalize env[i]? = e at hi ⊢
    generalize env'[i]? = e' at hi ⊢
    cases hi with
    | none => exact ih
    | some he => exact .cons he ih

end Likeness

namespace Matched

variable {m : MeterId} {s s' : Session} {env env' : Env} {α β : Type}

/-- Runs that are alike wherever the environments are end alike from matched sessions. -/
theorem outcome (h : Matched m s env s' env') {x : Run α} {y : Run β} [Run.Advancing m x]
    [Run.Advancing m y] {R : α → β → Prop}
    (hxy : ∀ limit, (Likeness.between m (x.after s) (y.after s')).Environments env env' →
      (Likeness.between m (x.after s) (y.after s')).Alike False limit R x s y s') :
    Likeness.Outcome m False False R (x s) (y s') := by
  have hend : s.Precedes m (x.after s) := (Run.Advancing.keeps s).toPrecedes
  have hend' : s'.Precedes m (y.after s') := (Run.Advancing.keeps s').toPrecedes
  have henv := h.alike.mono (Likeness.between_le hend hend')
  exact hxy _ henv (h.serves.ready Likeness.left_between _)
    (h.serves'.ready Likeness.right_between _) (Nat.le_refl _) False.elim

/-- An operation at points that are no probes ends alike in matched sessions. -/
theorem operation (h : Matched m s env s' env') (frames frames' : Nat) (op : Operation)
    (hop : ∀ r ∈ op.points, r.On (0 ≤ ·)) (positions : List Nat) :
    Likeness.Outcome m False False
      (Option.Rel (Likeness.between m ((op.run frames m (pick env positions)).after s)
        ((op.run frames' m (pick env' positions)).after s')).Entries)
      (op.run frames m (pick env positions) s) (op.run frames' m (pick env' positions) s') :=
  h.outcome fun _ henv => alike_operation (henv.pick positions) Likeness.exact_between op hop

/-- What is picked from the environments of twins belongs to the evaluator. -/
theorem mem_pick (h : Matched m s env s' env') (positions : List Nat) :
    (∀ e ∈ pick env positions, e.In ((Scope.owned m).during s)) ∧
      ∀ e ∈ pick env' positions, e.In ((Scope.owned m).during s') :=
  ⟨fun e he => h.owned e (mem_of_mem_pick he), fun e he => h.owned' e (mem_of_mem_pick he)⟩

end Matched

/-- What belongs to the evaluator still does after a run. -/
theorem owned_after {m : MeterId} {α : Type} {x : Run α} [Run.Advancing m x] {s : Session}
    {env : Env} (h : ∀ e ∈ env, e.In ((Scope.owned m).during s)) :
    ∀ e ∈ env, e.In ((Scope.owned m).during (x.after s)) := by
  have hend : s.Precedes m (x.after s) := (Run.Advancing.keeps s).toPrecedes
  have hle : ((Scope.owned m).during s).Le ((Scope.owned m).during (x.after s)) :=
    ⟨id, id, id, id, hend.origin⟩
  exact fun e he => (h e he).mono hle

/-- What an operation builds belongs to the evaluator, if its operands do, and what did before still
does. -/
theorem owned_cons {m : MeterId} {frames : Nat} {op : Operation} {env used : Env} {s t : Session}
    {e : Entry} (hs : s.Serves m) (henv : ∀ e ∈ env, e.In ((Scope.owned m).during s))
    (hused : ∀ e ∈ used, e.In ((Scope.owned m).during s))
    (hop : ∀ r ∈ op.points, r.On (0 ≤ ·)) (hrun : op.run frames m used s = .ok (some e) t) :
    t.Serves m ∧ ∀ e' ∈ e :: env, e'.In ((Scope.owned m).during t) := by
  have hserves := hs.step frames m op fun e he => (hused e he).mono (Scope.owned_le_known m s)
  rw [Run.after_ok hrun] at hserves
  have hsafe := safe_operation (S := .owned m) (f := frames) trivial rfl hs.sound hused op hop
  have hold := owned_after (x := op.run frames m used) henv
  rw [Run.after_ok hrun] at hold
  refine ⟨hserves, fun e' he' => ?_⟩
  rcases List.mem_cons.1 he' with rfl | he'
  · exact (hsafe.ok hrun).2 e' rfl
  · exact hold e' he'

/-- Twins are matched, whatever was done by one of them alone. -/
theorem Twins.matched {m : MeterId} {s s' : Session} {env env' : Env}
    (h : Twins m s env s' env') : Matched m s env s' env' := by
  induction h with
  | @start s env hs howned =>
    have hholds : (Likeness.between m s s).Holds ((Scope.owned m).during s) :=
      Likeness.holds_owned (.refl m s) (.refl m s)
    exact ⟨hs, hs, howned, howned, .refl fun e he => (howned e he).alike hholds⟩
  | @left s s' env env' used frames k op _ hused ih =>
    have hend : s.Precedes m ((op.run frames k used).after s) :=
      (Run.Advancing.keeps s).toPrecedes
    exact ⟨ih.serves.step frames k op hused, ih.serves', owned_after ih.owned, ih.owned',
      ih.alike.mono (Likeness.between_le hend (.refl m s'))⟩
  | @right s s' env env' used frames k op _ hused ih =>
    have hend : s'.Precedes m ((op.run frames k used).after s') :=
      (Run.Advancing.keeps s').toPrecedes
    exact ⟨ih.serves, ih.serves'.step frames k op hused, ih.owned, owned_after ih.owned',
      ih.alike.mono (Likeness.between_le (.refl m s) hend)⟩
  | @both s s' t t' env env' e e' frames frames' op positions _ hop hrun hrun' ih =>
    obtain ⟨hpick, hpick'⟩ := ih.mem_pick positions
    obtain ⟨hserves, howned⟩ := owned_cons ih.serves ih.owned hpick hop hrun
    obtain ⟨hserves', howned'⟩ := owned_cons ih.serves' ih.owned' hpick' hop hrun'
    have hout := ih.operation frames frames' op hop positions
    rw [hrun, hrun', Run.after_ok hrun, Run.after_ok hrun'] at hout
    have hend : s.Precedes m t := by
      rw [← Run.after_ok hrun]
      exact (Run.Advancing.keeps s).toPrecedes
    have hend' : s'.Precedes m t' := by
      rw [← Run.after_ok hrun']
      exact (Run.Advancing.keeps s').toPrecedes
    cases hout with
    | ok hentry _ =>
      cases hentry with
      | some he =>
        exact ⟨hserves, hserves', howned, howned',
          .cons he (ih.alike.mono (Likeness.between_le hend hend'))⟩

/-! ## History independence -/

/-- Runs with alike outcomes end alike, if neither fails for an argument that is not known. -/
theorem endAs_of_outcome {m : MeterId} {α β : Type} {R : α → β → Prop} {x : Run α} {y : Run β}
    {s s' : Session} (h : Likeness.Outcome m False False R (x s) (y s')) {lax : Prop}
    {P : Session → α → Prop} {Q : Session → β → Prop} (hx : Run.Safe lax P x s)
    (hy : Run.Safe lax Q y s') : EndAs R (x s) (y s') := by
  generalize hu : x s = u at h
  generalize hw : y s' = w at h
  cases h with
  | ok hab _ => exact .ok hab
  | error he _ => exact .error (he not_false)
  | cut he =>
    cases he with
    | nonTermination guard => exact .cutOff
    | unknownThunk id => exact (hx.error hu).2.elim
  | cut' he _ =>
    cases he with
    | nonTermination guard => exact .cutOff'
    | unknownThunk id => exact (hy.error hw).2.elim

/-- History independence. In the environments of twins a term has one normal form, or fails alike,
unless a guard cuts one of the runs off. And an operation builds something in the one if it does so
in the other. -/
theorem history_independent {m : MeterId} {s s' : Session} {env env' : Env}
    (h : Twins m s env s' env') (frames frames' : Nat) (positions : List Nat) :
    (∀ (t : Term) (dims : IntervalEnv) (depth dimDepth : Nat), (∀ r ∈ dims, r.On (0 ≤ ·)) →
      EndAs (· = ·) (normalizeOn frames m t (pick env positions) dims depth dimDepth s)
        (normalizeOn frames' m t (pick env' positions) dims depth dimDepth s')) ∧
    ∀ op : Operation, (∀ r ∈ op.points, r.On (0 ≤ ·)) →
      EndAs (fun r r' => r.isSome = r'.isSome) (op.run frames m (pick env positions) s)
        (op.run frames' m (pick env' positions) s') := by
  have hmatched := h.matched
  obtain ⟨howned, howned'⟩ := hmatched.mem_pick positions
  have hs := hmatched.serves.sound
  have hs' := hmatched.serves'.sound
  constructor
  · intro t dims d e hdims
    have hsafe := safe_normalizeOn (S := .owned m) (f := frames) trivial rfl hs howned hdims t d e
    have hsafe' := safe_normalizeOn (S := .owned m) (f := frames') trivial rfl hs' howned' hdims t
      d e
    refine endAs_of_outcome (hmatched.outcome fun limit henv => ?_) hsafe hsafe'
    exact alike_normalizeOn (henv.pick positions) (Likeness.run_alike limit frames frames')
      (Likeness.quote_alike Likeness.exact_between limit frames frames')
      (.refl (fun _ hl => hl) hdims) t d e
  · intro op hop
    have hsafe := safe_operation (S := .owned m) (f := frames) trivial rfl hs howned op hop
    have hsafe' := safe_operation (S := .owned m) (f := frames') trivial rfl hs' howned' op hop
    have hout := hmatched.operation frames frames' op hop positions
    refine endAs_of_outcome (hout.mono fun r r' hr => ?_) hsafe hsafe'
    cases hr <;> rfl

/-- A session in which an evaluator was just opened. -/
def freshSession : Session :=
  { meters := #[{ settings := .default }] }

/-- To take `Type0` for a path fails at a probe. -/
def failAtProbe : Operation :=
  .evaluate (.coe .zero .one (.pathApp (.univ 0) (.var 0)) (.univ 0)) []

/-- A session in which the evaluator has drawn a probe and failed at another. -/
def usedSession : Session :=
  (failAtProbe.run 100 0 []).after ((Operation.freshProbe.run 100 0 []).after freshSession)

/-- To move a function along function types, with an argument that was put off. -/
def moveFunction : Operation :=
  .evaluate (.app
    (.lam "A" (.coe .zero .one
      (.pi "y" (.pathApp (.pathLam "k" (.var 0)) (.var 0)) (.univ 1)) (.lam "y" (.var 1))))
    (.univ 0)) []

/-- Whether an operation builds something that can be read back. -/
def Operation.builds (op : Operation) (s : Session) : Bool :=
  match op.run 100 0 [] s with
  | .ok (some e) t =>
    match normalizeOn 100 0 (.var 0) [e] [] 0 0 t with
    | .ok _ _ => true
    | .error _ _ => false
  | _ => false

/-- An operation that was seen to build something, and this to read back, has done so. -/
theorem Operation.exists_of_builds {op : Operation} {s : Session} (h : op.builds s = true) :
    ∃ (e : Entry) (t r : Session) (n : Term), op.run 100 0 [] s = .ok (some e) t ∧
      normalizeOn 100 0 (.var 0) [e] [] 0 0 t = .ok n r := by
  unfold builds at h
  split at h
  · rename_i e t hrun
    split at h
    · rename_i n r hread
      exact ⟨e, t, r, n, hrun, hread⟩
    · cases h
  · cases h

/-- An evaluator that was used moves a function as a new one does. -/
theorem history_independent_moveFunction :
    ∃ (e e' : Entry) (t t' r : Session) (n : Term),
      moveFunction.run 100 0 [] usedSession = .ok (some e) t ∧
      moveFunction.run 100 0 [] freshSession = .ok (some e') t' ∧
      normalizeOn 100 0 (.var 0) [e] [] 0 0 t = .ok n r ∧
      EndAs (· = ·) (.ok n r) (normalizeOn 100 0 (.var 0) [e'] [] 0 0 t') := by
  have hfresh : freshSession.Serves 0 := Session.serves_single _ _
  have hstart : Twins 0 freshSession [] freshSession [] := .start hfresh (by simp)
  have hused : Twins 0 usedSession [] freshSession [] :=
    (hstart.left 100 0 .freshProbe (by simp)).left 100 0 failAtProbe (by simp)
  have hbuilds : moveFunction.builds usedSession = true := by decide +kernel
  have hbuilds' : moveFunction.builds freshSession = true := by decide +kernel
  obtain ⟨e, t, r, n, hrun, hread⟩ := Operation.exists_of_builds hbuilds
  obtain ⟨e', t', _, _, hrun', _⟩ := Operation.exists_of_builds hbuilds'
  have hboth : Twins 0 t [e] t' [e'] :=
    hused.both 100 100 moveFunction [] (by simp [moveFunction, Operation.points]) hrun hrun'
  have hends := (history_independent hboth 100 100 [0]).1 (.var 0) [] 0 0 (by simp)
  change EndAs _ (normalizeOn 100 0 (.var 0) [e] [] 0 0 t) _ at hends
  rw [hread] at hends
  exact ⟨e, e', t, t', r, n, hrun, hrun', hread, hends⟩

/-! ## What histories show -/

/-- Carry operations out one after the other. Each takes its operands from what was built before,
the latest first. -/
def carryOut (frames : Nat) (m : MeterId) : List Operation → Env → Run Env
  | [], env => pure env
  | op :: rest, env => do
    match ← op.run frames m env with
    | some e => carryOut frames m rest (e :: env)
    | none => carryOut frames m rest env

/-- What is read back on a new evaluator, after some operations, of the last entry that was
built. -/
def readLast? (ops : List Operation) : Option Term :=
  answer? do
    let m ← Run.openMeter .default
    let env ← carryOut 100 m ops []
    normalizeOn 100 m (.var 0) (pick env [0]) [] 0 0

/-- The message of the first operation that fails on a new evaluator. -/
def firstMessage? (ops : List Operation) : Option String :=
  let run : Run Env := do
    let m ← Run.openMeter .default
    carryOut 100 m ops []
  match run {} with
  | .ok _ _ => none
  | .error e _ => some e.message

/-- Move the path that is constantly `Type0` along a family and take its left end. Between the
direction of the family and the point `r`, the family composes path types that start at `Type0`
with the path type from `Type1` to itself as the base; if the two are one it is the base. -/
def moveAt (r : Interval) : List Operation :=
  let family : Term := .pathApp
    (.comp (.var 0) (.var 1) (.path (.univ 1) (.univ 0) (.univ 0)) []
      (.pathLam "k" (.path (.univ 2) (.univ 1) (.univ 1)))) .zero
  [.evaluate (.pathLam "k" (.univ 0)) [], .coe .zero r (.term family) 0 [r], .pathApply 0 .zero]

/-- Probes show. At a point that is to be the second probe, the operations of `moveAt` build
`Type1` if a probe was drawn before, and `Type0` otherwise. And to apply what is no path to a probe
is told with the number of the probe. -/
theorem history_shows :
    (do
      let n ← readLast? (.freshProbe :: moveAt (.var (Run.probeBase - 1)))
      let n' ← readLast? (moveAt (.var (Run.probeBase - 1)))
      return (n.same (.univ 1), n'.same (.univ 0))) = some (true, true) ∧
    (do
      let e ← firstMessage? [.freshProbe, failAtProbe]
      let e' ← firstMessage? [failAtProbe]
      return e == e') = some false := by
  decide +kernel

end SmoothCubical
