import SmoothCubical.Proofs.Growth
import SmoothCubical.Proofs.Stability.Settled

/-!
# The values of settled terms

A settled term has a value that mirrors it: each part of the value comes from the part of the term
in the same place, and idle coercions have gone (`run_steady`). The environments are those in
which variables stand for themselves; interval variables may be any that differ from one another
and from all probes to come, so that a family can be followed to a probe.

What a stuck computation has for a type is not mirrored. Types are found by running closures about
which nothing is known here, and these may fail; where no type is asked for, nothing fails but the
guards.
-/

set_option autoImplicit false

namespace SmoothCubical

/-! ## Runs with a given answer -/

/-- From the session, the run answers with a value as described and lets the session grow, or it
fails. If `guarded`, only the guards against running forever make it fail. -/
def Run.Yields {α : Type} (guarded : Bool) (P : α → Prop) (x : Run α) (s : Session) : Prop :=
  match x s with
  | .ok a s' => s.Grows s' ∧ P a
  | .error e _ => guarded = true → e.kind = .nonTermination

namespace Run

variable {α β : Type} {guarded : Bool} {P : α → Prop} {Q : β → Prop} {s : Session}

/-- To answer at once as described yields that answer. -/
theorem yields_pure {a : α} (h : P a) : Yields guarded P (pure a : Run α) s :=
  ⟨.refl s, h⟩

/-- Runs that yield, one after the other, yield as a whole. -/
theorem Yields.bind {x : Run α} {f : α → Run β} (hx : Yields guarded P x s)
    (hf : ∀ a s', s.Grows s' → P a → Yields guarded Q (f a) s') :
    Yields guarded Q (x >>= f) s := by
  unfold Yields at hx ⊢
  change match EStateM.bind x f s with
    | .ok b s' => _
    | .error e _ => _
  unfold EStateM.bind
  cases hxs : x s with
  | error e t =>
    rw [hxs] at hx
    exact hx
  | ok a t =>
    rw [hxs] at hx
    have hft := hf a t hx.1 hx.2
    unfold Yields at hft
    dsimp only
    cases hfs : f a t with
    | error e u =>
      rw [hfs] at hft
      exact hft
    | ok b u =>
      rw [hfs] at hft
      exact ⟨hx.1.trans hft.1, hft.2⟩

/-- A run yields every weaker description of its answer. -/
theorem Yields.mono {P' : α → Prop} {x : Run α} (hx : Yields guarded P x s)
    (h : ∀ a, P a → P' a) : Yields guarded P' x s := by
  unfold Yields at hx ⊢
  cases hxs : x s with
  | error e t =>
    rw [hxs] at hx
    exact hx
  | ok a t =>
    rw [hxs] at hx
    exact ⟨hx.1, h a hx.2⟩

/-- A run may first let the session grow and then go on as another. -/
theorem Yields.of_eq {x y : Run α} {s₁ : Session} (hy : Yields guarded P y s₁)
    (hs : s.Grows s₁) (heq : x s = y s₁) : Yields guarded P x s := by
  unfold Yields at hy ⊢
  rw [heq]
  cases hys : y s₁ with
  | error e t =>
    rw [hys] at hy
    exact hy
  | ok a t =>
    rw [hys] at hy
    exact ⟨hs.trans hy.1, hy.2⟩

/-- Of a run that only lets the session grow nothing is known, and it may fail for any cause. -/
theorem Keeps.yields {x : Run α} (hx : Keeps Session.Grows x) (hg : guarded = false) :
    Yields guarded (fun _ => True) x s := by
  unfold Yields
  cases hxs : x s with
  | error e t => simp [hg]
  | ok a t => exact ⟨after_ok hxs ▸ hx s, trivial⟩

/-- An answer of the syntax is handed on. If only guards may fail, there has to be one. -/
theorem yields_ofFault {x : Except Fault α} (h : ∀ a, x = .ok a → P a)
    (hg : guarded = true → ∃ a, x = .ok a) : Yields guarded P (ofFault x) s := by
  cases x with
  | ok a => exact yields_pure (h a rfl)
  | error f =>
    intro total
    obtain ⟨a, ha⟩ := hg total
    cases ha

/-- The guards are the failures that a guarded run may end with. -/
theorem yields_guard (g : Guard) : Yields guarded P (throw (.nonTermination g) : Run α) s :=
  fun _ => rfl

/-- To look at the session yields it. -/
theorem yields_get : Yields guarded (fun _ => True) (get : Run Session) s :=
  ⟨.refl s, trivial⟩

/-- A change that lets the session grow can be made. -/
theorem yields_modify {f : Session → Session} (h : s.Grows (f s)) :
    Yields guarded (fun _ => True) (modify f : Run Unit) s :=
  ⟨h, trivial⟩

/-- To record an event can be done. -/
theorem yields_record (e : Event) : Yields guarded (fun _ => True) (record e) s :=
  ⟨(Session.Grows.lawful (Eval.run 0)).record e s, trivial⟩

/-- To charge a step fails at a guard only. -/
theorem yields_charge (m : MeterId) : Yields guarded (fun _ => True) (charge m) s := by
  unfold charge
  refine Yields.bind (yields_modify (.modifyMeter s m ?_)) fun _ s' _ _ => ?_
  · intro a
    exact Nat.le_refl a.probes
  refine yields_get.bind fun s' _ _ _ => ?_
  dsimp only
  split
  · exact yields_guard _
  · exact yields_pure trivial

/-- To check the nesting fails at a guard only. -/
theorem yields_checkDepth (m : MeterId) (t : Term) :
    Yields guarded (fun _ => True) (checkDepth m t) s := by
  unfold checkDepth
  refine yields_get.bind fun s' _ _ _ => ?_
  dsimp only
  split
  · exact (yields_record _).bind fun _ _ _ _ => yields_guard _
  · exact yields_pure trivial

/-- A nested run yields what the run does. -/
theorem Yields.nest {m : MeterId} {x : Run α} (hx : ∀ s', s.Grows s' → Yields guarded P x s') :
    Yields guarded P (nest m x) s := by
  have deeper : s.Grows (s.modifyMeter m fun a => { a with depth := a.depth + 1 }) :=
    .modifyMeter s m fun _ => Nat.le_refl _
  have hin := hx _ deeper
  unfold Yields at hin ⊢
  unfold Run.nest
  cases hxs : x (s.modifyMeter m fun a => { a with depth := a.depth + 1 }) with
  | error e t =>
    rw [hxs] at hin
    exact hin
  | ok a t =>
    rw [hxs] at hin
    have up : t.Grows (t.modifyMeter m fun a => { a with depth := a.depth - 1 }) :=
      .modifyMeter t m fun _ => Nat.le_refl _
    exact ⟨deeper.trans (hin.1.trans up), hin.2⟩

/-- A run on a new meter yields what it does on any meter that is open. -/
theorem yields_openMeter_bind {settings : Settings} {f : MeterId → Run α}
    (hf : ∀ m s', m < s'.meters.size → Yields guarded P (f m) s') :
    Yields guarded P (openMeter settings >>= f) s := by
  let s₁ : Session := { s with meters := s.meters.push { settings } }
  have opened : s.meters.size < s₁.meters.size := by simp [s₁]
  have grown : s.Grows s₁ := by
    refine ⟨Nat.le_of_lt opened, fun m hm => Nat.le_of_eq ?_⟩
    simp [s₁, Session.meter, Array.getElem?_push, Nat.ne_of_lt hm]
  exact (hf s.meters.size s₁ opened).of_eq grown rfl

end Run

/-! ## Interval variables apart from probes -/

/-- A dimension in scope is resolved. -/
theorem IntervalEnv.resolve_of_inScope {dims : IntervalEnv} {d : Dim}
    (h : d.inScope dims.length = true) : ∃ r, dims.resolve d = .ok r := by
  cases d with
  | zero => exact ⟨.zero, rfl⟩
  | one => exact ⟨.one, rfl⟩
  | missing => cases h
  | var i =>
    obtain ⟨r, hr⟩ := Index.get?_of_inScope h
    exact ⟨r, find_eq_ok.2 hr⟩

/-- The interval variables in scope stand for interval variables that differ, and none is a probe
that the meter will draw. -/
structure Spread (m : MeterId) (dims : IntervalEnv) (s : Session) : Prop where
  opened : m < s.meters.size
  apart : dims.Nodup
  past : ∀ r ∈ dims, ∃ level, r = .var level ∧ Run.probeBase - (s.meter m).probes < level

namespace Spread

variable {m : MeterId} {dims : IntervalEnv} {s s' : Session}

/-- Interval variables that are spread stand for interval variables. -/
theorem isGeneric (h : Spread m dims s) : dims.IsGeneric := by
  intro r hr
  obtain ⟨level, rfl, _⟩ := h.past r hr
  exact ⟨level, rfl⟩

/-- Interval variables stay spread as the session grows. -/
theorem mono (h : Spread m dims s) (hs : s.Grows s') : Spread m dims s' where
  opened := Nat.lt_of_lt_of_le h.opened hs.size
  apart := h.apart
  past r hr := by
    obtain ⟨level, rfl, hlevel⟩ := h.past r hr
    have hprobes := hs.probes m h.opened
    exact ⟨level, rfl, by omega⟩

/-- Interval variables that are spread are so with one more that is apart from them and from all
probes to come. -/
theorem cons (h : Spread m dims s) {level : Int} (fresh : .var level ∉ dims)
    (hlevel : Run.probeBase - (s.meter m).probes < level) : Spread m (.var level :: dims) s where
  opened := h.opened
  apart := List.nodup_cons.2 ⟨fresh, h.apart⟩
  past r hr := by
    rcases List.mem_cons.1 hr with rfl | hr
    · exact ⟨level, rfl, hlevel⟩
    · exact h.past r hr

/-- A probe that is drawn is one more interval variable apart from the probes to come. -/
theorem probe_bind {α : Type} {guarded : Bool} {P : α → Prop} {f : Interval → Run α}
    (h : Spread m dims s)
    (hf : ∀ r s', s.Grows s' → Spread m (r :: dims) s' → Run.Yields guarded P (f r) s') :
    Run.Yields guarded P (Run.probe m >>= f) s := by
  let n := (s.meter m).probes
  let s₁ := s.modifyMeter m fun a => { a with probes := a.probes + 1 }
  have grown : s.Grows s₁ := .modifyMeter s m fun a => Nat.le_succ a.probes
  have drawn : (s₁.meter m).probes = n + 1 := by
    simp only [s₁, Session.meter_modifyMeter s _ h.opened, if_true, n]
  have fresh : Interval.var (Run.probeBase - n) ∉ dims := by
    intro hmem
    obtain ⟨level, heq, hlevel⟩ := h.past _ hmem
    cases heq
    exact absurd hlevel (Int.lt_irrefl _)
  have hspread : Spread m (.var (Run.probeBase - n) :: dims) s₁ :=
    (h.mono grown).cons fresh (by omega)
  exact (hf _ _ grown hspread).of_eq grown rfl

/-- An interval variable that is spread stands for an interval variable. -/
theorem resolve_var (h : Spread m dims s) {i : Int} {r : Interval}
    (hr : IntervalEnv.resolve dims (.var i) = .ok r) : ∃ level, r = .var level :=
  h.isGeneric r (Index.mem_of_get? (IntervalEnv.find_eq_ok.1 hr))

/-- Distinct dimensions are distinct points. -/
theorem resolve_ne (h : Spread m dims s) {d d' : Dim} {r r' : Interval}
    (hd : IntervalEnv.resolve dims d = .ok r) (hd' : IntervalEnv.resolve dims d' = .ok r')
    (hne : d ≠ d') : r ≠ r' := by
  rintro rfl
  cases d with
  | missing => cases hd
  | zero =>
    cases hd
    cases d' with
    | zero => exact hne rfl
    | one => cases hd'
    | missing => cases hd'
    | var j => obtain ⟨_, ⟨⟩⟩ := h.resolve_var hd'
  | one =>
    cases hd
    cases d' with
    | zero => cases hd'
    | one => exact hne rfl
    | missing => cases hd'
    | var j => obtain ⟨_, ⟨⟩⟩ := h.resolve_var hd'
  | var i =>
    obtain ⟨level, rfl⟩ := h.resolve_var hd
    cases d' with
    | zero => cases hd'
    | one => cases hd'
    | missing => cases hd'
    | var j =>
      have hi := IntervalEnv.find_eq_ok.1 hd
      have hj := IntervalEnv.find_eq_ok.1 hd'
      exact hne (congrArg Dim.var (Index.get?_inj h.apart hi hj))

end Spread

/-! ## Environments that stand for themselves -/

/-- The type, if there is one, is of no use to eliminations. -/
def Untold (ty : Option Value) : Prop :=
  ∀ A, ty = some A → A.form.isTakenApart = false

/-- An entry for the variable of the level, as its role says. -/
inductive Role.Fits (level : Nat) : Role → Entry → Prop
  | defined (e : Entry) : Fits level .defined e
  | typed (ty : Option Value) : Fits level .typed (.value (.generic level ty))
  | inert {ty : Option Value} : Untold ty → Fits level .inert (.value (.generic level ty))

/-- A hypothesis fits the role that its type gives it. -/
theorem Role.fits_ofType (level : Nat) (A : Value) :
    (Role.ofType A.form).Fits level (.value (.generic level (some A))) := by
  unfold Role.ofType
  split
  · exact .typed _
  · rename_i hform
    refine .inert fun B hB => ?_
    cases hB
    simpa using hform

/-- Every variable has an entry as its role says. -/
inductive Env.Stands : List Role → Env → Prop
  | nil : Stands [] []
  | cons {role : Role} {roles : List Role} {e : Entry} {env : Env} :
      role.Fits roles.length e → Stands roles env → Stands (role :: roles) (e :: env)

/-- A variable that is not defined stands for itself. -/
theorem Env.Stands.get? {roles : List Role} {env : Env} (h : Env.Stands roles env) {i : Int}
    {role : Role} (hrole : Index.get? roles i = some role) (hdef : role ≠ .defined) :
    ∃ ty, Index.get? env i = some (.value (.generic (Index.flip roles.length i) ty)) ∧
      (role = .inert → Untold ty) := by
  induction h generalizing i with
  | nil => simp [Index.get?] at hrole
  | @cons role' roles e env hfits _ ih =>
    rcases Index.get?_cons_eq_some hrole with ⟨rfl, rfl⟩ | ⟨j, hj, rfl, hbehind⟩
    · rw [Index.get?_cons_zero, List.length_cons, Int.natCast_succ, Index.flip_zero]
      cases hfits with
      | defined => exact absurd rfl hdef
      | typed ty =>
        refine ⟨ty, rfl, fun h => ?_⟩
        cases h
      | @inert ty hty => exact ⟨ty, rfl, fun _ => hty⟩
    · rw [Index.get?_cons_succ _ _ hj, List.length_cons, Int.natCast_succ, Index.flip_succ]
      exact ih hbehind

/-! ## Mirrors -/

/-- Partial elements, closed in their environments. -/
inductive Closes (env : Env) (dims : IntervalEnv) : List (Face × Term) → List Tube → Prop
  | nil : Closes env dims [] []
  | cons {φ : Face} {u : Term} {c : Cofibration} {fs : List (Face × Term)} {tubes : List Tube} :
      φ.cofibration dims = .ok c → Closes env dims fs tubes →
      Closes env dims ((φ, u) :: fs) ((c, .body env dims u) :: tubes)

/-- Interval variables that stand for themselves are generic. -/
theorem IntervalEnv.isGeneric_generic (count : Nat) : (IntervalEnv.generic count).IsGeneric := by
  intro r hr
  rw [generic_eq_countdown] at hr
  obtain ⟨l, -, rfl⟩ := Index.mem_countdown hr
  exact ⟨l, rfl⟩

/-- A settled formula has a cofibration that is neither the whole cube nor empty, and reads back to
itself. -/
theorem Face.cofibration_of_isSettled {count : Nat} {φ : Face} (h : φ.isSettled count = true) :
    ∃ c, φ.cofibration (.generic count) = .ok c ∧ c.isTrue = false ∧ c.isFalse = false ∧
      c.toFace count = .ok φ := by
  unfold Face.isSettled at h
  cases hc : φ.cofibration (.generic count) with
  | error f => simp [hc] at h
  | ok c =>
    cases hψ : c.toFace count with
    | error f => simp [hc, hψ] at h
    | ok ψ =>
      simp only [hc, hψ, Bool.and_eq_true, Bool.not_eq_true', beq_iff_eq] at h
      exact ⟨c, rfl, h.1.1, h.1.2, by rw [hψ, h.2]⟩

namespace Closes

variable {typeFree : Bool} {roles : List Role} {env : Env} {dims : IntervalEnv}
  {fs : List (Face × Term)} {tubes : List Tube}

/-- No settled face holds everywhere, whichever interval variables it is about. -/
theorem firstTrue?_eq_none (h : Closes env dims fs tubes)
    (hfs : Term.settledBranches typeFree roles dims.length fs = true) (hdims : dims.IsGeneric) :
    Eval.firstTrue? tubes = none := by
  induction h with
  | nil => rfl
  | cons hc _ ih =>
    obtain ⟨hφ, _, hfs⟩ := Term.settledBranches_cons hfs
    obtain ⟨c', hc', htrue, _⟩ := Face.cofibration_of_isSettled hφ
    have heq := Face.isTrue_cofibration_eq hdims (IntervalEnv.isGeneric_generic _) hc hc'
    simp only [Eval.firstTrue?, heq, htrue, Bool.false_eq_true, if_false]
    exact ih hfs

/-- At the interval variables in scope, no settled face is empty. -/
theorem possible_eq (h : Closes env dims fs tubes)
    (hfs : Term.settledBranches typeFree roles dims.length fs = true)
    (hdims : dims = .generic dims.length) : Eval.possible tubes = tubes := by
  unfold Eval.possible
  rw [List.filter_eq_self]
  induction h with
  | nil => nofun
  | cons hc _ ih =>
    obtain ⟨hφ, _, hfs⟩ := Term.settledBranches_cons hfs
    intro tube htube
    rcases List.mem_cons.1 htube with rfl | htube
    · obtain ⟨c', hc', _, hfalse, _⟩ := Face.cofibration_of_isSettled hφ
      rw [← hdims, hc] at hc'
      cases hc'
      simpa using hfalse
    · exact ih hfs tube htube

end Closes

section Mirrors

variable (typeFree : Bool) (roles : List Role) (dims : IntervalEnv)

mutual

/-- The value is that of a settled term which is the given one once its idle coercions are
dropped. Bodies are kept as they were written. -/
inductive Mirrors : Term → Value → Prop
  | univ (level : Int) : Mirrors (.univ level) (.univ level)
  | pi {x : String} {a b : Term} {A : Value} {env : Env} : Mirrors a A → Env.Stands roles env →
      b.isSettled typeFree (.ofType a.form :: roles) dims.length = true →
      Mirrors (.pi x a b.dropIdle) (.pi x A (.body env dims b))
  | lam {x : String} {b : Term} {env : Env} : Env.Stands roles env →
      b.isSettled typeFree (.inert :: roles) dims.length = true →
      Mirrors (.lam x b.dropIdle) (.lam x (.body env dims b))
  | path {a l r : Term} {A L R : Value} : Mirrors a A → Mirrors l L → Mirrors r R →
      Mirrors (.path a l r) (.path A L R)
  | smoothPath {k : Int} {a l r : Term} {A L R : Value} : Mirrors a A → Mirrors l L →
      Mirrors r R → Mirrors (.smoothPath k a l r) (.smoothPath k A L R)
  | pathLam {x : String} {b : Term} {env : Env} : Env.Stands roles env →
      b.isSettled typeFree roles (dims.length + 1) = true →
      Mirrors (.pathLam x b.dropIdle) (.pathLam x (.body env dims b))
  | stuck {t : Term} {n : Neutral} {ty : Option Value} : MirrorsStuck t n →
      (t.isInert roles = true → Untold ty) → Mirrors t (.stuck n ty)

/-- The same for stuck computations. Where interval variables do not all stand for themselves,
nothing is said of partial elements. -/
inductive MirrorsStuck : Term → Neutral → Prop
  | var {i : Int} : Index.inScope roles.length i = true →
      MirrorsStuck (.var i) (.var (Index.flip roles.length i))
  | app {f a : Term} {n : Neutral} {v : Value} : MirrorsStuck f n → Mirrors a v →
      MirrorsStuck (.app f a) (.app n v)
  | pathApp {p : Term} {d : Dim} {n : Neutral} {r : Interval} : MirrorsStuck p n →
      IntervalEnv.resolve dims d = .ok r → MirrorsStuck (.pathApp p d) (.pathApp n r)
  | comp {d d' : Dim} {a b : Term} {fs : List (Face × Term)} {r r' : Interval} {env : Env}
      {flag : Bool} {tubes : List Tube} {v : Value} : typeFree = false →
      IntervalEnv.resolve dims d = .ok r → IntervalEnv.resolve dims d' = .ok r' →
      Env.Stands roles env → a.isSettled typeFree roles (dims.length + 1) = true →
      Term.settledBranches typeFree roles dims.length fs = true →
      (dims = .generic dims.length → Closes env dims fs tubes) → Mirrors b v →
      MirrorsStuck (.comp d d' a.dropIdle (Term.dropIdleBranches fs) b)
        (.comp r r' (.varying (.body env dims a) flag) tubes v)
  | coe {d d' : Dim} {a b : Term} {r r' : Interval} {env : Env} {flag : Bool} {v : Value} :
      typeFree = false →
      IntervalEnv.resolve dims d = .ok r → IntervalEnv.resolve dims d' = .ok r' →
      Env.Stands roles env → a.isSettled typeFree roles (dims.length + 1) = true →
      Mirrors b v →
      MirrorsStuck (.coe d d' a.dropIdle b) (.coe r r' (.varying (.body env dims a) flag) v)

end

variable {typeFree roles dims}

/-- What a stuck computation mirrors is stuck in form. -/
theorem MirrorsStuck.form_eq {t : Term} {n : Neutral} (h : MirrorsStuck typeFree roles dims t n) :
    t.form = .stuck := by
  cases h <;> rfl

/-- A term and a value that mirrors it have the same form. -/
theorem Mirrors.form_eq {t : Term} {v : Value} (h : Mirrors typeFree roles dims t v) :
    v.form = t.form := by
  cases h with
  | stuck h _ => exact h.form_eq.symm
  | _ => rfl

/-- A value that mirrors a stuck term is stuck, and its type is of no use if the term is inert. -/
theorem Mirrors.eq_stuck {t : Term} {v : Value} (h : Mirrors typeFree roles dims t v)
    (hform : t.form = .stuck) : ∃ n ty, v = .stuck n ty ∧ MirrorsStuck typeFree roles dims t n ∧
      (t.isInert roles = true → Untold ty) := by
  cases h with
  | @stuck t n ty hn hty => exact ⟨n, ty, rfl, hn, hty⟩
  | _ => cases hform

end Mirrors

end SmoothCubical
