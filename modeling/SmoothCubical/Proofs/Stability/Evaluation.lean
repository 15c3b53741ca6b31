import SmoothCubical.Proofs.IdleCoercion
import SmoothCubical.Proofs.Stability.Mirror

/-!
# Evaluating settled terms

A demand for the value of a settled term, or of a part of one, is met by a value that mirrors the
term (`run_steady`). Each rule is followed with calls that are known to do so, and the induction is
on how many calls may nest.

The only choice that evaluation makes on a settled term is at Kan operations. It takes the family
to a probe, finds a form that no rule takes apart, and leaves the operation pending.
-/

set_option autoImplicit false

namespace SmoothCubical

/-- The demand asks for the value of a settled term; the term is given as it is once its idle
coercions are dropped. -/
inductive Asks (typeFree : Bool) : List Role → IntervalEnv → Demand → Term → Prop
  | evaluate {roles : List Role} {dims : IntervalEnv} {nests : Bool} {t : Term} {env : Env} :
      t.isSettled typeFree roles dims.length = true → Env.Stands roles env →
      Asks typeFree roles dims (.evaluate nests t env dims) t.dropIdle
  | instantiate {role : Role} {roles : List Role} {dims : IntervalEnv} {t : Term} {e : Entry}
      {env : Env} : t.isSettled typeFree (role :: roles) dims.length = true →
      role.Fits roles.length e → Env.Stands roles env →
      Asks typeFree (role :: roles) dims (.instantiate (.body env dims t) e) t.dropIdle
  | instantiateAt {roles : List Role} {dims : IntervalEnv} {r : Interval} {t : Term} {env : Env} :
      t.isSettled typeFree roles (dims.length + 1) = true → Env.Stands roles env →
      Asks typeFree roles (r :: dims) (.instantiateAt (.body env dims t) r) t.dropIdle
  | comp {roles : List Role} {dims : IntervalEnv} {t a : Term} {r r' : Interval} {env : Env}
      {flag : Bool} {tubes : List Tube} {v : Value} :
      MirrorsStuck typeFree roles dims t
        (.comp r r' (.varying (.body env dims a) flag) (Eval.possible tubes) v) →
      typeFree = false → a.isSettled typeFree roles (dims.length + 1) = true →
      a.dropIdle.form.isTakenApart = false → Env.Stands roles env →
      Eval.firstTrue? tubes = none → r' ≠ r →
      Asks typeFree roles dims (.comp r r' (.varying (.body env dims a) flag) tubes v) t
  | coe {roles : List Role} {dims : IntervalEnv} {t a : Term} {r r' : Interval} {env : Env}
      {v : Value} :
      MirrorsStuck typeFree roles dims t (.coe r r' (.varying (.body env dims a) false) v) →
      typeFree = false → a.isSettled typeFree roles (dims.length + 1) = true →
      a.dropIdle.form.isTakenApart = false → a.dropIdle.form ≠ .univ → Env.Stands roles env →
      r ≠ r' → Asks typeFree roles dims (.coe r r' (.varying (.body env dims a) false) v) t
  | idle {roles : List Role} {dims : IntervalEnv} {t : Term} {r r' : Interval} {a : Line}
      {v : Value} : a.isConstant = true → Mirrors typeFree roles dims t v →
      Asks typeFree roles dims (.coe r r' a v) t

namespace Eval

open Run

/-- Demands are met by runs that let the session grow, and those for the value of a settled term
by values that mirror it. -/
structure Steady (typeFree : Bool) (call : Call) : Prop where
  grows : KeepingCall Session.Grows call
  meets : ∀ {roles : List Role} {dims : IntervalEnv} {d : Demand} {t : Term} {m : MeterId}
    {s : Session}, Asks typeFree roles dims d t → Spread m dims s →
    Yields typeFree (Mirrors typeFree roles dims t) (call m d) s

section Rules

variable {typeFree : Bool} {call : Call} (hcall : Steady typeFree call) {roles : List Role}
  {dims : IntervalEnv} {m : MeterId} {env : Env} {s : Session}

/-! ## Eliminations of what is stuck -/

include hcall

/-- A stuck function applied is stuck, whatever its type says, and its type is of no use if that of
the function is. -/
theorem yields_apply {n : Neutral} {ty : Option Value} (v : Value)
    (hty : typeFree = true → Untold ty) :
    Yields typeFree (fun w => ∃ ty', w = .stuck (.app n v) ty' ∧ (Untold ty → Untold ty'))
      (apply call m (.stuck n ty) v) s := by
  have untyped : Untold none := nofun
  unfold apply
  split
  · rename_i heq
    cases heq
  · -- A known function type is asked for the type of the application.
    rename_i n' x A c heq
    cases heq
    have hnot : ¬ Untold (some (.pi x A c)) := fun h => nomatch h _ rfl
    have hfree : typeFree = false := by
      cases typeFree with
      | false => rfl
      | true => exact absurd (hty rfl) hnot
    refine ((hcall.grows m _).yields hfree).bind fun B s' _ _ => ?_
    exact yields_pure ⟨some B, rfl, fun h => absurd h hnot⟩
  · rename_i n' ty' _ heq
    cases heq
    exact yields_pure ⟨none, rfl, fun _ => untyped⟩
  · rename_i hstuck
    exact absurd rfl (hstuck n ty)

omit hcall in
/-- A stuck path at an interval variable is stuck, and so it is at an end if its type is of no use.
-/
theorem yields_pathApply {n : Neutral} {ty : Option Value} {r : Interval}
    (hr : (∃ level, r = .var level) ∨ Untold ty) :
    Yields typeFree (fun w => ∃ ty', w = .stuck (.pathApp n r) ty' ∧ (Untold ty → Untold ty'))
      (pathApply call m (.stuck n ty) r) s := by
  have untyped : Untold none := nofun
  have atVar : ∀ A L R, ¬ Untold ty →
      Yields typeFree (fun w => ∃ ty', w = .stuck (.pathApp n r) ty' ∧ (Untold ty → Untold ty'))
        (pure (stuckPathAt n A L R r)) s := by
    intro A L R hnot
    obtain ⟨level, rfl⟩ := hr.resolve_right hnot
    exact yields_pure ⟨some A, rfl, fun h => absurd h hnot⟩
  unfold pathApply
  split
  · rename_i heq
    cases heq
  · rename_i heq
    cases heq
    exact atVar _ _ _ fun h => nomatch h _ rfl
  · rename_i heq
    cases heq
    exact atVar _ _ _ fun h => nomatch h _ rfl
  · rename_i heq
    cases heq
    exact yields_pure ⟨none, rfl, fun _ => untyped⟩
  · rename_i hstuck
    exact absurd rfl (hstuck n ty)

/-! ## Kan operations -/

/-- The shape of a settled family, seen at a probe. -/
theorem yields_shape {a : Term} {flag : Bool} {r : Interval}
    (ha : a.isSettled typeFree roles (dims.length + 1) = true) (henv : Env.Stands roles env)
    (hdims : Spread m (r :: dims) s) :
    Yields typeFree (fun shape => shape.form = a.dropIdle.form)
      (lineAt call m (.varying (.body env dims a) flag) r) s :=
  (hcall.meets (.instantiateAt ha henv) hdims).mono fun _ h => h.form_eq

/-- A composition along a settled family that no rule takes apart is left pending. -/
theorem yields_comp {t a : Term} {r r' : Interval} {flag : Bool} {tubes : List Tube} {v : Value}
    (ht : MirrorsStuck typeFree roles dims t
      (.comp r r' (.varying (.body env dims a) flag) (possible tubes) v))
    (hfree : typeFree = false) (ha : a.isSettled typeFree roles (dims.length + 1) = true)
    (hform : a.dropIdle.form.isTakenApart = false) (henv : Env.Stands roles env)
    (htrue : firstTrue? tubes = none) (hne : r' ≠ r) (hdims : Spread m dims s) :
    Yields typeFree (Mirrors typeFree roles dims t)
      (comp call m r r' (.varying (.body env dims a) flag) tubes v) s := by
  unfold comp
  rw [htrue]
  dsimp only
  rw [if_neg hne]
  refine hdims.probe_bind fun k s₁ _ hprobe => ?_
  refine (yields_shape hcall ha henv hprobe).bind fun shape s₂ _ hshape => ?_
  rw [← hshape] at hform
  -- No rule takes the family apart, so the composition is left pending.
  split
  · cases hform
  · cases hform
  · cases hform
  · refine (yields_record _).bind fun _ s₃ _ _ => ?_
    refine ((law_lineAt (grows_law hcall.grows) m _ r').yields hfree).bind fun ty s₄ _ _ => ?_
    refine yields_pure (.stuck ht fun inert => ?_)
    cases ht
    cases inert

/-- A coercion along a settled family that no rule takes apart, and that is no universe, is left
pending. -/
theorem yields_coe {t a : Term} {r r' : Interval} {v : Value}
    (ht : MirrorsStuck typeFree roles dims t (.coe r r' (.varying (.body env dims a) false) v))
    (hfree : typeFree = false) (ha : a.isSettled typeFree roles (dims.length + 1) = true)
    (hform : a.dropIdle.form.isTakenApart = false) (huniv : a.dropIdle.form ≠ .univ)
    (henv : Env.Stands roles env) (hne : r ≠ r') (hdims : Spread m dims s) :
    Yields typeFree (Mirrors typeFree roles dims t)
      (coe call m r r' (.varying (.body env dims a) false) v) s := by
  unfold coe
  rw [if_neg hne]
  simp only [Line.isConstant, Bool.false_eq_true, if_false]
  refine hdims.probe_bind fun k s₁ _ hprobe => ?_
  refine (yields_shape hcall ha henv hprobe).bind fun shape s₂ _ hshape => ?_
  rw [← hshape] at hform huniv
  split
  · exact absurd rfl huniv
  · cases hform
  · cases hform
  · cases hform
  · refine (yields_record _).bind fun _ s₃ _ _ => ?_
    refine ((law_lineAt (grows_law hcall.grows) m _ r').yields hfree).bind fun ty s₄ _ _ => ?_
    refine yields_pure (.stuck ht fun inert => ?_)
    cases ht
    cases inert

omit hcall in
/-- A coercion along a family that is flagged constant gives its base. -/
theorem yields_coe_idle {t : Term} {r r' : Interval} {a : Line} {v : Value}
    (ha : a.isConstant = true) (hv : Mirrors typeFree roles dims t v) :
    Yields typeFree (Mirrors typeFree roles dims t) (coe call m r r' a v) s := by
  rw [coe_of_isConstant call m ha]
  exact yields_pure hv

/-! ## Closing families and faces -/

omit hcall in
/-- A family is closed over its environments as it is written, with the flag that its term says. -/
theorem yields_closeFamily {a : Term} (h : typeFree = true → a.ignoresDirection = true) :
    Yields typeFree (fun line => line = .varying (.body env dims a) a.ignoresDirection)
      (closeFamily a env dims) s := by
  unfold closeFamily
  refine (yields_ofFault (P := fun moves => a.ignoresDirection = !moves) ?_ ?_).bind
    fun moves s' _ hmoves => ?_
  · intro moves hmoves
    simp only [Term.ignoresDirection, hmoves]
  · intro total
    exact ⟨false, Term.ignoresDirection_iff.1 (h total)⟩
  · exact yields_pure (by rw [hmoves])

omit hcall in
/-- A system is closed over its environments as it is written. -/
theorem yields_closeTubes (hfree : typeFree = false) (fs : List (Face × Term)) :
    Yields typeFree (Closes env dims fs) (closeTubes env dims fs) s := by
  induction fs generalizing s with
  | nil => exact yields_pure .nil
  | cons face rest ih =>
    obtain ⟨φ, u⟩ := face
    refine Yields.bind (P := fun tube => ∃ c, φ.cofibration dims = .ok c ∧
      tube = (c, .body env dims u)) ?_ fun tube s' _ htube => ?_
    · refine Yields.bind (P := fun c => φ.cofibration dims = .ok c) ?_ fun c s' _ hc => ?_
      · refine yields_ofFault (fun c hc => hc) fun total => ?_
        rw [hfree] at total
        cases total
      · exact yields_pure ⟨c, hc, rfl⟩
    · obtain ⟨c, hc, rfl⟩ := htube
      exact ih.bind fun tubes s'' _ htubes => yields_pure (.cons hc htubes)

/-! ## Terms -/

variable (henv : Env.Stands roles env) (hdims : Spread m dims s)

include henv hdims

/-- A settled term has a value that mirrors it, if calls are steady. -/
theorem yields_value {t : Term} (ht : t.isSettled typeFree roles dims.length = true) :
    Yields typeFree (Mirrors typeFree roles dims t.dropIdle)
      (call m (.evaluate true t env dims)) s :=
  hcall.meets (.evaluate ht henv) hdims

omit hcall hdims in
/-- A settled variable has a value that mirrors it: it is not defined. -/
theorem yields_lookup {i : Int} (ht : (Term.var i).isSettled typeFree roles dims.length = true) :
    Yields typeFree (Mirrors typeFree roles dims (.var i)) (lookup call env i) s := by
  obtain ⟨role, hrole, hdef⟩ := Term.isSettled_var ht
  obtain ⟨ty, hget, hty⟩ := henv.get? hrole hdef
  have hfind : findEntry env i = .ok (.value (.generic (Index.flip roles.length i) ty)) := by
    unfold findEntry
    rw [hget]
  unfold lookup
  rw [hfind]
  refine yields_pure (.stuck (.var (Index.inScope_of_get? hrole)) fun inert => hty ?_)
  simpa [Term.isInert, hrole] using inert

/-- A settled application has a value that mirrors it: its function is stuck. -/
theorem yields_app {f a : Term}
    (ht : (Term.app f a).isSettled typeFree roles dims.length = true) :
    Yields typeFree (Mirrors typeFree roles dims (.app f.dropIdle a.dropIdle))
      (step call m (.app f a) env dims) s := by
  obtain ⟨hf, ha, hform, hfree⟩ := Term.isSettled_app ht
  unfold step
  refine (yields_value hcall henv hdims hf).bind fun v s₁ hs₁ hv => ?_
  obtain ⟨n, ty, rfl, hn, hty⟩ := hv.eq_stuck hform
  refine (yields_value hcall henv (hdims.mono hs₁) ha).bind fun w s₂ hs₂ hw => ?_
  refine (yields_apply hcall w fun total => hty (hfree total)).mono ?_
  rintro _ ⟨ty', rfl, hty'⟩
  exact .stuck (.app hn hw) fun inert => hty' (hty inert)

/-- A settled path at a point has a value that mirrors it: its path is stuck. -/
theorem yields_pathApp {p : Term} {d : Dim}
    (ht : (Term.pathApp p d).isSettled typeFree roles dims.length = true) :
    Yields typeFree (Mirrors typeFree roles dims (.pathApp p.dropIdle d))
      (step call m (.pathApp p d) env dims) s := by
  obtain ⟨hp, hform, hd, hends⟩ := Term.isSettled_pathApp ht
  obtain ⟨r, hr⟩ := IntervalEnv.resolve_of_inScope hd
  unfold step
  refine (yields_value hcall henv hdims hp).bind fun v s₁ hs₁ hv => ?_
  obtain ⟨n, ty, rfl, hn, hty⟩ := hv.eq_stuck hform
  rw [hr]
  refine (yields_pathApply ?_).mono ?_
  · refine hends.imp (fun hvar => ?_) hty
    cases d with
    | var i => exact hdims.resolve_var hr
    | _ => cases hvar
  · rintro _ ⟨ty', rfl, hty'⟩
    exact .stuck (.pathApp hn hr) fun inert => hty' (hty inert)

omit hcall henv hdims in
/-- A dimension in scope is resolved. -/
theorem yields_resolve {d : Dim} (hd : d.inScope dims.length = true) :
    Yields typeFree (fun r => IntervalEnv.resolve dims d = .ok r)
      (ofFault (IntervalEnv.resolve dims d)) s :=
  yields_ofFault (fun _ h => h) fun _ => IntervalEnv.resolve_of_inScope hd

/-- A settled composition has a value that mirrors it: it is left pending. -/
theorem yields_compTerm {d d' : Dim} {a b : Term} {fs : List (Face × Term)}
    (ht : (Term.comp d d' a fs b).isSettled typeFree roles dims.length = true) :
    Yields typeFree (Mirrors typeFree roles dims (Term.comp d d' a fs b).dropIdle)
      (step call m (.comp d d' a fs b) env dims) s := by
  obtain ⟨hfree, hd, hd', hne, ha, hform, hfs, hb⟩ := Term.isSettled_comp ht
  have typed : typeFree = true → a.ignoresDirection = true := by simp [hfree]
  unfold step
  refine (yields_closeFamily typed).bind fun line s₁ hs₁ hline => ?_
  subst hline
  refine (yields_value hcall henv (hdims.mono hs₁) hb).bind fun v s₂ hs₂ hv => ?_
  refine (yields_closeTubes hfree fs).bind fun tubes s₃ hs₃ htubes => ?_
  refine (yields_resolve hd').bind fun r' s₄ hs₄ hr' => ?_
  refine (yields_resolve hd).bind fun r s₅ hs₅ hr => ?_
  have hdims₅ := hdims.mono (hs₁.trans (hs₂.trans (hs₃.trans (hs₄.trans hs₅))))
  refine hcall.meets (.comp ?_ hfree ha hform henv ?_ ?_) hdims₅
  · refine .comp hfree hr hr' henv ha hfs (fun hgeneric => ?_) hv
    rw [htubes.possible_eq hfs hgeneric]
    exact htubes
  · exact htubes.firstTrue?_eq_none hfs hdims.isGeneric
  · exact (hdims.resolve_ne hr hr' hne).symm

/-- A settled coercion has a value that mirrors it: it is left pending, or it is idle and gone. -/
theorem yields_coeTerm {d d' : Dim} {a b : Term}
    (ht : (Term.coe d d' a b).isSettled typeFree roles dims.length = true) :
    Yields typeFree (Mirrors typeFree roles dims (Term.coe d d' a b).dropIdle)
      (step call m (.coe d d' a b) env dims) s := by
  obtain ⟨hd, hd', hb, hidle⟩ := Term.isSettled_coe ht
  have typed : typeFree = true → a.ignoresDirection = true := by
    intro total
    rcases hidle with idle | ⟨hfree, _⟩
    · exact idle
    · rw [total] at hfree
      cases hfree
  unfold step
  refine (yields_closeFamily typed).bind fun line s₁ hs₁ hline => ?_
  subst hline
  refine (yields_resolve hd).bind fun r s₂ hs₂ hr => ?_
  refine (yields_resolve hd').bind fun r' s₃ hs₃ hr' => ?_
  have hdims₃ := hdims.mono (hs₁.trans (hs₂.trans hs₃))
  refine (yields_value hcall henv hdims₃ hb).bind fun v s₄ hs₄ hv => ?_
  unfold Term.dropIdle
  -- The family was flagged by its term as it stands, which is also what `dropIdle` looks at.
  split
  · rename_i idle
    exact hcall.meets (.idle idle hv) (hdims₃.mono hs₄)
  · rename_i moves
    obtain ⟨hfree, hne, ha, hform, huniv⟩ := hidle.resolve_left moves
    have hflag : a.ignoresDirection = false := by simpa using moves
    rw [hflag]
    refine hcall.meets (.coe ?_ hfree ha hform huniv henv ?_) (hdims₃.mono hs₄)
    · exact .coe hfree hr hr' henv ha hv
    · exact hdims.resolve_ne hr hr' hne

/-- Evaluating a settled term by its outermost form gives a value that mirrors it. -/
theorem yields_step {t : Term} (ht : t.isSettled typeFree roles dims.length = true) :
    Yields typeFree (Mirrors typeFree roles dims t.dropIdle) (step call m t env dims) s := by
  cases t with
  | univ level => exact yields_pure (.univ level)
  | var i => exact yields_lookup henv ht
  | pi x a b =>
    obtain ⟨ha, hb⟩ := Term.isSettled_pi ht
    refine (yields_value hcall henv hdims ha).bind fun A s₁ _ hA => ?_
    exact yields_pure (.pi hA henv hb)
  | lam x b => exact yields_pure (.lam henv (Term.isSettled_lam ht))
  | app f a => exact yields_app hcall henv hdims ht
  | path a l r =>
    obtain ⟨ha, hl, hr⟩ := Term.isSettled_path ht
    refine (yields_value hcall henv hdims ha).bind fun A s₁ hs₁ hA => ?_
    refine (yields_value hcall henv (hdims.mono hs₁) hl).bind fun L s₂ hs₂ hL => ?_
    refine (yields_value hcall henv (hdims.mono (hs₁.trans hs₂)) hr).bind fun R s₃ _ hR => ?_
    exact yields_pure (.path hA hL hR)
  | pathLam x b => exact yields_pure (.pathLam henv ht)
  | pathApp p d => exact yields_pathApp hcall henv hdims ht
  | smoothPath k a l r =>
    obtain ⟨ha, hl, hr⟩ := Term.isSettled_smoothPath ht
    refine (yields_value hcall henv hdims ha).bind fun A s₁ hs₁ hA => ?_
    refine (yields_value hcall henv (hdims.mono hs₁) hl).bind fun L s₂ hs₂ hL => ?_
    refine (yields_value hcall henv (hdims.mono (hs₁.trans hs₂)) hr).bind fun R s₃ _ hR => ?_
    exact yields_pure (.smoothPath hA hL hR)
  | comp d d' a fs b => exact yields_compTerm hcall henv hdims ht
  | coe d d' a b => exact yields_coeTerm hcall henv hdims ht
  | hcomp a fs b => cases ht
  | missing => cases ht

/-- One step of evaluation takes a settled term to a value that mirrors it, if there is fuel. -/
theorem yields_chargedStep {t : Term} (ht : t.isSettled typeFree roles dims.length = true) :
    Yields typeFree (Mirrors typeFree roles dims t.dropIdle) (chargedStep call m t env dims) s :=
  (yields_charge m).bind fun _ _ hs _ => yields_step hcall henv (hdims.mono hs) ht

end Rules

/-- Demands are met steadily if calls are steady. -/
theorem answer_steady {typeFree : Bool} {call : Call} (hcall : Steady typeFree call) :
    Steady typeFree (answer call) where
  grows := law_answer (grows_law hcall.grows)
  meets {roles dims d t m s} hd hdims := by
    cases hd with
    | @evaluate _ _ nests t env ht henv =>
      cases nests with
      | true =>
        refine Yields.nest fun s₁ hs₁ => ?_
        refine (yields_checkDepth m _).bind fun _ s₂ hs₂ _ => ?_
        exact yields_chargedStep hcall henv (hdims.mono (hs₁.trans hs₂)) ht
      | false => exact yields_chargedStep hcall henv hdims ht
    | instantiate ht he henv => exact hcall.meets (.evaluate ht (.cons he henv)) hdims
    | instantiateAt ht henv => exact hcall.meets (.evaluate ht henv) hdims
    | comp ht hfree ha hform henv htrue hne =>
      exact yields_comp hcall ht hfree ha hform henv htrue hne hdims
    | coe ht hfree ha hform huniv henv hne =>
      exact yields_coe hcall ht hfree ha hform huniv henv hne hdims
    | idle ha hv => exact yields_coe_idle ha hv

/-- Whatever the number of calls that may nest, settled terms have values that mirror them. -/
theorem run_steady (typeFree : Bool) : ∀ frames, Steady typeFree (run frames)
  | 0 => ⟨run_grows 0, fun _ _ => yields_guard _⟩
  | frames + 1 => answer_steady (run_steady typeFree frames)

end Eval

end SmoothCubical
