import SmoothCubical.Proofs.Lockstep.Runs

/-!
# Evaluation in step

Corresponding demands are met in step (`run_inStep`). Evaluation is written against an unknown
call, so this is shown rule by rule: each rule goes in step if the calls it makes do, and the
number of calls that may nest is what the induction is on.

The two places where the demands differ are a family that is flagged constant, which may be asked
for at two points, and a value that is moved along such a family, which stays where it is.
-/

set_option autoImplicit false

namespace SmoothCubical.Correspondence

variable {C : Correspondence} {call call' : Call}

/-! ## Entries -/

/-- An argument that may be looked at is known to both of two corresponding sessions or to
neither. -/
theorem Sessions.cell {s s' : Session} (h : C.Sessions s s') {id : Nat} (hid : C.argument id) :
    Option.Rel C.Cells s.cells[id]? s'.cells[id]? := by
  have hsize := h.size
  cases hc : s.cells[id]? <;> cases hc' : s'.cells[id]?
  case none.none => exact .none
  case some.some => exact .some (h.cells id _ _ hid hc hc')
  case none.some =>
    have hout := Array.getElem?_eq_none_iff.1 hc
    have hin := (Array.getElem?_eq_some_iff.1 hc').1
    omega
  case some.none =>
    have hin := (Array.getElem?_eq_some_iff.1 hc).1
    have hout := Array.getElem?_eq_none_iff.1 hc'
    omega

/-- Entries that correspond are forced in step, whether they hold values or arguments that were put
off. -/
theorem force_inStep (hcall : C.Calls call call') {e e' : Entry} (he : C.Entries e e') :
    C.InStep C.Values (Eval.force call e) (Eval.force call' e') := by
  cases he with
  | value hv => exact .pure hv
  | @thunk id hid =>
    refine get_inStep.bind fun s s' hs => ?_
    have hcell := hs.cell hid
    generalize s.cells[id]? = c at hcell
    generalize s'.cells[id]? = c' at hcell
    cases hcell with
    | none => exact .throw .unknownThunk
    | some hc =>
      cases hc with
      | done hv => exact .pure hv
      | pending henv hdims ht =>
        refine (hcall _ _ _ (.evaluate henv hdims ht)).bind fun v v' hv => ?_
        exact (settle_inStep id hv).seq (.pure hv)

/-- Variables that stand for each other are looked up in step. -/
theorem lookup_inStep (hcall : C.Calls call call') {V : Int → Int → Prop} {env env' : Env}
    (henv : C.Environments V env env') {i j : Int} (hij : V i j) :
    C.InStep C.Values (Eval.lookup call env i) (Eval.lookup call' env' j) :=
  (ofFault_inStep (henv.findEntry hij)).bind fun _ _ he => force_inStep hcall he

/-! ## Eliminations -/

/-- Corresponding families are corresponding types at each point, and at any two points if they
are flagged constant. -/
theorem lineAt_inStep (hcall : C.Calls call call') (m : MeterId) {a a' : Line} (ha : C.Lines a a')
    {r r' : Interval} (hr : a.isConstant = true ∨ r = r') :
    C.InStep C.Values (Eval.lineAt call m a r) (Eval.lineAt call' m a' r') := by
  cases ha with
  | constant hv => exact .pure hv
  | still hc => exact hcall _ _ _ (.still hc)
  | moving hc =>
    obtain rfl : r = r' := by simpa [Line.isConstant] using hr
    exact hcall _ _ _ (.instantiateAt hc)

/-- Functions that correspond are applied in step to arguments that do. -/
theorem apply_inStep (hcall : C.Calls call call') (m : MeterId) {f f' v v' : Value}
    (hf : C.Values f f') (hv : C.Values v v') :
    C.InStep C.Values (Eval.apply call m f v) (Eval.apply call' m f' v') := by
  cases hf with
  | lam _ hb => exact hcall _ _ _ (.instantiate hb (.value hv))
  | untyped hn => exact .pure (.untyped (.app hn hv))
  | typed hn hty =>
    cases hty with
    | pi _ _ hb =>
      refine (hcall _ _ _ (.instantiate hb (.value hv))).bind fun ty ty' hty => ?_
      exact .pure (.typed (.app hn hv) hty)
    | _ => exact .pure (.untyped (.app hn hv))
  | univ => exact .throw (.notFunction .univ)
  | pi hx ha hb => exact .throw (.notFunction (.pi hx ha hb))
  | path ha hl hr => exact .throw (.notFunction (.path ha hl hr))
  | smoothPath ha hl hr => exact .throw (.notFunction (.smoothPath ha hl hr))
  | pathLam hx hb => exact .throw (.notFunction (.pathLam hx hb))

/-- Stuck paths that correspond do so at every point, where they may become an end of their type. -/
theorem stuckPathAt_corresponds {n n' : Neutral} {a a' l l' r r' : Value} (hn : C.Neutrals n n')
    (ha : C.Values a a') (hl : C.Values l l') (hr : C.Values r r') (point : Interval) :
    C.Values (Eval.stuckPathAt n a l r point) (Eval.stuckPathAt n' a' l' r' point) := by
  cases point with
  | zero => exact hl
  | one => exact hr
  | var _ => exact .typed (.pathApp hn) ha

/-- Paths that correspond are taken at a point in step. -/
theorem pathApply_inStep (hcall : C.Calls call call') (m : MeterId) {p p' : Value}
    (hp : C.Values p p') (r : Interval) :
    C.InStep C.Values (Eval.pathApply call m p r) (Eval.pathApply call' m p' r) := by
  cases hp with
  | pathLam _ hb => exact hcall _ _ _ (.instantiateAt hb)
  | untyped hn => exact .pure (.untyped (.pathApp hn))
  | typed hn hty =>
    cases hty with
    | path ha hl hr => exact .pure (stuckPathAt_corresponds hn ha hl hr r)
    | smoothPath ha hl hr => exact .pure (stuckPathAt_corresponds hn ha hl hr r)
    | _ => exact .pure (.untyped (.pathApp hn))
  | univ => exact .throw (.notPath .univ)
  | pi hx ha hb => exact .throw (.notPath (.pi hx ha hb))
  | lam hx hb => exact .throw (.notPath (.lam hx hb))
  | path ha hl hr => exact .throw (.notPath (.path ha hl hr))
  | smoothPath ha hl hr => exact .throw (.notPath (.smoothPath ha hl hr))

/-! ## Kan operations -/

variable (C) in
/-- The parts of function types that correspond. -/
def FunctionParts (p p' : Value × Closure) : Prop :=
  C.Values p.1 p'.1 ∧ C.Closures p.2 p'.2

variable (C) in
/-- The parts of path types that correspond. -/
def PathParts (p p' : Value × Value × Value) : Prop :=
  C.Values p.1 p'.1 ∧ C.Values p.2.1 p'.2.1 ∧ C.Values p.2.2 p'.2.2

/-- The function types that corresponding families are at a point correspond. The points may differ
where the families are constant. -/
theorem piAt_inStep (hcall : C.Calls call call') (m : MeterId) {a a' : Line} (ha : C.Lines a a')
    {r r' : Interval} (hr : a.isConstant = true ∨ r = r') :
    C.InStep C.FunctionParts (Eval.piAt call m a r) (Eval.piAt call' m a' r') := by
  refine (lineAt_inStep hcall m ha hr).bind fun ty ty' hty => ?_
  cases hty with
  | pi _ hd hb => exact .pure ⟨hd, hb⟩
  | univ => exact .throw (.notFunctionType .univ)
  | lam hx hb => exact .throw (.notFunctionType (.lam hx hb))
  | path ha hl hr => exact .throw (.notFunctionType (.path ha hl hr))
  | smoothPath ha hl hr => exact .throw (.notFunctionType (.smoothPath ha hl hr))
  | pathLam hx hb => exact .throw (.notFunctionType (.pathLam hx hb))
  | untyped hn => exact .throw (.notFunctionType (.untyped hn))
  | typed hn ha => exact .throw (.notFunctionType (.typed hn ha))

/-- The path types that corresponding families are at a point correspond. The points may differ
where the families are constant. -/
theorem pathTypeAt_inStep (hcall : C.Calls call call') (m : MeterId) {a a' : Line}
    (ha : C.Lines a a') {r r' : Interval} (hr : a.isConstant = true ∨ r = r') :
    C.InStep C.PathParts (Eval.pathTypeAt call m a r)
      (Eval.pathTypeAt call' m a' r') := by
  refine (lineAt_inStep hcall m ha hr).bind fun ty ty' hty => ?_
  cases hty with
  | path ha hl hr => exact .pure ⟨ha, hl, hr⟩
  | smoothPath ha hl hr => exact .pure ⟨ha, hl, hr⟩
  | univ => exact .throw (.notPathType .univ)
  | pi hx ha hb => exact .throw (.notPathType (.pi hx ha hb))
  | lam hx hb => exact .throw (.notPathType (.lam hx hb))
  | pathLam hx hb => exact .throw (.notPathType (.pathLam hx hb))
  | untyped hn => exact .throw (.notPathType (.untyped hn))
  | typed hn ha => exact .throw (.notPathType (.typed hn ha))

/-- Composition goes in step: the same face is given everywhere on both sides, and the families have
one shape. -/
theorem comp_inStep (hcall : C.Calls call call') (m : MeterId) (s t : Interval) {a a' : Line}
    (ha : C.Lines a a') {fs fs' : List Tube} (hfs : C.Tubes fs fs') {v v' : Value}
    (hv : C.Values v v') :
    C.InStep C.Values (Eval.comp call m s t a fs v) (Eval.comp call' m s t a' fs' v') := by
  have hfirst := hfs.firstTrue?
  unfold Eval.comp
  generalize Eval.firstTrue? fs = first at hfirst
  generalize Eval.firstTrue? fs' = first' at hfirst
  cases hfirst with
  | some htube => exact hcall _ _ _ (.instantiateAt htube)
  | none =>
    by_cases hst : t = s
    · simpa only [hst, if_true] using .pure hv
    · simp only [hst, if_false]
      refine (probe_inStep m).bind fun r r' hr => ?_
      refine (lineAt_inStep hcall m ha (.inr hr)).bind fun ty ty' hty => ?_
      have stays : C.InStep C.Values
          (do let ty ← Eval.lineAt call m a t
              return .stuck (.comp s t a (Eval.possible fs) v) (some ty))
          (do let ty ← Eval.lineAt call' m a' t
              return .stuck (.comp s t a' (Eval.possible fs') v') (some ty)) :=
        (lineAt_inStep hcall m ha (.inr rfl)).bind fun ty ty' hty =>
          .pure (.typed (.comp ha hfs.possible hv) hty)
      cases hty with
      | pi hx _ _ => exact .pure (.lam hx (.comp ha hfs.possible hv))
      | path _ _ _ => exact .pure (.pathLam C.name_path (.comp ha hfs.possible hv))
      | smoothPath _ _ _ => exact .pure (.pathLam C.name_path (.comp ha hfs.possible hv))
      | _ => exact (record_inStep _ _).seq stays

/-- Corresponding values are moved along corresponding families in step. Along a family that is
flagged constant they stay where they are, wherever they are moved. -/
theorem coe_inStep (hcall : C.Calls call call') (m : MeterId) {a a' : Line} (ha : C.Lines a a')
    {s s' t t' : Interval} (hst : a.isConstant = true ∨ s = s' ∧ t = t') {v v' : Value}
    (hv : C.Values v v') :
    C.InStep C.Values (Eval.coe call m s t a v) (Eval.coe call' m s' t' a' v') := by
  have hflag := ha.isConstant_eq
  unfold Eval.coe
  by_cases hconst : a.isConstant = true
  · rw [hconst] at hflag
    simpa only [hconst, ← hflag, if_true, ite_self] using .pure hv
  · obtain ⟨rfl, rfl⟩ := hst.resolve_left hconst
    rw [← hflag]
    by_cases hst : s = t
    · simpa only [hst, if_true] using .pure hv
    · simp only [hst, hconst, if_false]
      refine (probe_inStep m).bind fun r r' hr => ?_
      refine (lineAt_inStep hcall m ha (.inr hr)).bind fun ty ty' hty => ?_
      have stays : C.InStep C.Values
          (do let ty ← Eval.lineAt call m a t
              return .stuck (.coe s t a v) (some ty))
          (do let ty ← Eval.lineAt call' m a' t
              return .stuck (.coe s t a' v') (some ty)) :=
        (lineAt_inStep hcall m ha (.inr rfl)).bind fun ty ty' hty =>
          .pure (.typed (.coe ha hv) hty)
      cases hty with
      | univ => exact .pure hv
      | pi hx _ _ => exact .pure (.lam hx (.coe ha hv))
      | path _ _ _ => exact .pure (.pathLam C.name_path (.comp ha .nil hv))
      | smoothPath _ _ _ => exact .pure (.pathLam C.name_path (.comp ha .nil hv))
      | _ => exact (record_inStep _ _).seq stays

/-- The domains of corresponding families correspond, and may be flagged constant if these are. -/
theorem Lines.domain {a a' : Line} (ha : C.Lines a a') (m : MeterId) (flag : Bool)
    (hflag : flag = true → a.isConstant = true) :
    C.Lines (.varying (.domain m a) flag) (.varying (.domain m a') flag) := by
  cases flag with
  | true => exact .still (.domain ha (hflag rfl))
  | false => exact .moving (.domain ha)

/-- Arguments are carried along the domains of corresponding families. -/
theorem Lines.carry {a a' : Line} (ha : C.Lines a a') (m : MeterId) (flag : Bool)
    (hflag : flag = true → a.isConstant = true) (r : Interval) {y y' : Value}
    (hy : C.Values y y') :
    C.Arguments (Eval.carry m a flag r y) (Eval.carry m a' flag r y') :=
  .mk (ha.domain m flag hflag) hy

/-- The codomains of corresponding families at a carried argument correspond, and may be flagged
constant if these families are. -/
theorem Lines.codomain {a a' : Line} (ha : C.Lines a a') (m : MeterId) (flag : Bool)
    (hflag : flag = true → a.isConstant = true) (r : Interval) {y y' : Value}
    (hy : C.Values y y') :
    C.Lines (.varying (.codomain m a (Eval.carry m a flag r y)) flag)
      (.varying (.codomain m a' (Eval.carry m a' flag r y')) flag) := by
  cases flag with
  | true => exact .still (.codomain ha (hflag rfl) (ha.domain m true hflag) rfl hy)
  | false => exact .moving (.codomain ha (ha.carry m false hflag r hy))

/-- The types that corresponding families of path types are paths in correspond. -/
theorem Lines.element {a a' : Line} (ha : C.Lines a a') (m : MeterId) :
    C.Lines (.varying (.element m a) a.isConstant) (.varying (.element m a') a.isConstant) := by
  cases hconst : a.isConstant with
  | true => exact .still (.element ha hconst)
  | false => exact .moving (.element ha)

/-- Moved arguments that correspond are found at a point in step. -/
theorem carriedAt_inStep (hcall : C.Calls call call') (m : MeterId) {y y' : Carried}
    (hy : C.Arguments y y') (r : Interval) :
    C.InStep C.Values (Eval.carriedAt call m y r) (Eval.carriedAt call' m y' r) := by
  cases hy with
  | mk hd hv => exact hcall _ _ _ (.coe hd hv)

/-- Composites of functions are applied in step. -/
theorem compFunctionAt_inStep (hcall : C.Calls call call') (m : MeterId) (s t : Interval)
    {a a' : Line} (ha : C.Lines a a') {fs fs' : List Tube} (hfs : C.Tubes fs fs')
    {v v' y y' : Value} (hv : C.Values v v') (hy : C.Values y y') :
    C.InStep C.Values (Eval.compFunctionAt call m s t a fs v y)
      (Eval.compFunctionAt call' m s t a' fs' v' y') := by
  unfold Eval.compFunctionAt
  rw [← ha.isConstant_eq]
  have hargument := ha.carry m a.isConstant id t hy
  refine (carriedAt_inStep hcall m hargument s).bind fun x x' hx => ?_
  refine (apply_inStep hcall m hv hx).bind fun w w' hw => ?_
  have htubes := hfs.map fun _ _ hu => IntervalClosures.app (m := m) hu hargument
  exact hcall _ _ _ (.comp (ha.codomain m a.isConstant id t hy) htubes hw)

/-- Functions that were moved along a family are applied in step. -/
theorem coeFunctionAt_inStep (hcall : C.Calls call call') (m : MeterId) (s t : Interval)
    {a a' : Line} (ha : C.Lines a a') {v v' y y' : Value} (hv : C.Values v v')
    (hy : C.Values y y') :
    C.InStep C.Values (Eval.coeFunctionAt call m s t a v y)
      (Eval.coeFunctionAt call' m s t a' v' y') := by
  refine (carriedAt_inStep hcall m (ha.carry m false nofun t hy) s).bind fun x x' hx => ?_
  refine (apply_inStep hcall m hv hx).bind fun w w' hw => ?_
  exact hcall _ _ _ (.coe (ha.codomain m false nofun t hy) hw)

/-- Composites of paths are taken at a point in step. -/
theorem compPathAt_inStep (hcall : C.Calls call call') (m : MeterId) (s t : Interval)
    {a a' : Line} (ha : C.Lines a a') {fs fs' : List Tube} (hfs : C.Tubes fs fs')
    {v v' : Value} (hv : C.Values v v') (k : Interval) :
    C.InStep C.Values (Eval.compPathAt call m s t a fs v k)
      (Eval.compPathAt call' m s t a' fs' v' k) := by
  refine (pathApply_inStep hcall m hv k).bind fun w w' hw => ?_
  have hsides := hfs.map fun _ _ hu => IntervalClosures.pathApp (m := m) (r := k) hu
  rw [← ha.isConstant_eq]
  refine hcall _ _ _ (.comp (ha.element m) (hsides.append ?_) hw)
  exact .cons (.left ha) (.cons (.right ha) .nil)

/-! ## Closures -/

/-- Bodies of abstractions that correspond are instantiated in step. -/
theorem instantiate_inStep (hcall : C.Calls call call') (m : MeterId) {c c' : Closure}
    (hc : C.Closures c c') {e e' : Entry} (he : C.Entries e e') :
    C.InStep C.Values (Eval.instantiate call m c e) (Eval.instantiate call' m c' e') := by
  cases hc with
  | body hentries hbound hdims ht =>
    have henv : C.Environments _ _ _ := ⟨hentries, hbound⟩
    exact hcall _ _ _ (.evaluate (henv.cons he) hdims ht)
  | comp ha hfs hv =>
    exact (force_inStep hcall he).bind fun _ _ hy => compFunctionAt_inStep hcall _ _ _ ha hfs hv hy
  | coe ha hv =>
    exact (force_inStep hcall he).bind fun _ _ hy => coeFunctionAt_inStep hcall _ _ _ ha hv hy

/-- Bodies of interval abstractions that correspond are instantiated at a point in step. -/
theorem instantiateAt_inStep (hcall : C.Calls call call') (m : MeterId) {c c' : IntervalClosure}
    (hc : C.IntervalClosures c c') (r : Interval) :
    C.InStep C.Values (Eval.instantiateAt call m c r) (Eval.instantiateAt call' m c' r) := by
  cases hc with
  | body hentries hbound hdims ht =>
    exact hcall _ _ _ (.evaluate ⟨hentries, hbound⟩ (hdims.cons r) ht)
  | choice hu hv hw =>
    cases r with
    | zero => exact .pure hu
    | one => exact .pure hv
    | var _ => exact .pure hw
  | domain ha => exact (piAt_inStep hcall _ ha (.inr rfl)).bind fun _ _ hp => .pure hp.1
  | codomain ha hy =>
    refine (piAt_inStep hcall _ ha (.inr rfl)).bind fun p p' hp => ?_
    refine (carriedAt_inStep hcall _ hy r).bind fun y y' hy => ?_
    exact hcall _ _ _ (.instantiate hp.2 (.value hy))
  | element ha => exact (pathTypeAt_inStep hcall _ ha (.inr rfl)).bind fun _ _ hp => .pure hp.1
  | left ha => exact (pathTypeAt_inStep hcall _ ha (.inr rfl)).bind fun _ _ hp => .pure hp.2.1
  | right ha => exact (pathTypeAt_inStep hcall _ ha (.inr rfl)).bind fun _ _ hp => .pure hp.2.2
  | app hu hy =>
    refine (hcall _ _ _ (.instantiateAt hu)).bind fun f f' hf => ?_
    refine (carriedAt_inStep hcall _ hy r).bind fun y y' hy => ?_
    exact apply_inStep hcall _ hf hy
  | pathApp hu =>
    exact (hcall _ _ _ (.instantiateAt hu)).bind fun _ _ hp => pathApply_inStep hcall _ hp _
  | comp ha hfs hv => exact compPathAt_inStep hcall _ _ _ ha hfs hv r

/-- Closures that are still go in step although they are run at two points. -/
theorem still_inStep (hcall : C.Calls call call') (m : MeterId) {c c' : IntervalClosure}
    (hc : C.Still c c') (r r' : Interval) :
    C.InStep C.Values (Eval.instantiateAt call m c r) (Eval.instantiateAt call' m c' r') := by
  cases hc with
  | @body V D env env' dims dims' t t' hentries hbound hdims ht hm =>
    -- The direction is not mentioned, so it may be left out and have two values.
    let E (i j : Int) : Prop := Under D i j ∧ i ≠ 0
    have hE : C.Dims E (r :: dims) (r' :: dims') :=
      hdims.cons_of (fun _ _ hij => hij.1) fun h => absurd rfl h.2
    have ht : Term.Matches C V E t t' :=
      ht.of_not_mentions (by omega) (fun _ _ hij hne => ⟨hij, hne⟩) hm
    exact hcall _ _ _ (.evaluate ⟨hentries, hbound⟩ hE ht)
  | domain ha hconst => exact (piAt_inStep hcall _ ha (.inl hconst)).bind fun _ _ hp => .pure hp.1
  | element ha hconst =>
    exact (pathTypeAt_inStep hcall _ ha (.inl hconst)).bind fun _ _ hp => .pure hp.1
  | codomain ha hconst hd hfixed hv =>
    refine (piAt_inStep hcall _ ha (.inl hconst)).bind fun p p' hp => ?_
    -- The argument is moved along constant domains, so it is the same at both points.
    refine (hcall _ _ _ (.idle hd hfixed hv)).bind fun y y' hy => ?_
    exact hcall _ _ _ (.instantiate hp.2 (.value hy))

/-! ## Terms -/

section Terms

variable {V D : Int → Int → Prop} {env env' : Env} {dims dims' : IntervalEnv}

/-- Matching families are closed to corresponding ones: both are flagged constant or neither is. -/
theorem closeFamily_inStep (henv : C.Environments V env env') (hdims : C.Dims D dims dims')
    {a a' : Term} (ha : Term.Matches C V (Under D) a a') :
    C.InStep C.Lines (Eval.closeFamily a env dims) (Eval.closeFamily a' env' dims') := by
  unfold Eval.closeFamily
  rw [← ha.mentions_eq (by omega) (by omega) fun _ _ => Under.eq_zero_iff]
  cases hm : a.mentions 0 with
  | error f => exact .throw (.fault (.refl f))
  | ok moves =>
    refine .pure ?_
    cases moves with
    | true => exact .moving (.body henv.entries henv.bound hdims ha)
    | false => exact .still (.body henv.entries henv.bound hdims ha hm)

/-- Systems of partial elements that match are closed in step, in environments that correspond. -/
theorem closeTubes_inStep (henv : C.Environments V env env') (hdims : C.Dims D dims dims')
    {fs fs' : List (Face × Term)} (h : Term.BranchesMatch C V D fs fs') :
    C.InStep C.Tubes (Eval.closeTubes env dims fs) (Eval.closeTubes env' dims' fs') := by
  induction fs generalizing fs' with
  | nil =>
    cases h
    exact .pure .nil
  | cons face rest ih =>
    cases h with
    | cons hφ hu hrest =>
      unfold Eval.closeTubes Eval.closeTube
      refine InStep.bind (R := fun x x' => x.1 = x'.1 ∧ C.IntervalClosures x.2 x'.2) ?_ ?_
      · refine (ofFault_inStep (hdims.cofibration hφ)).bind fun φ φ' hφ => .pure ⟨hφ, ?_⟩
        exact .body henv.entries henv.bound hdims hu
      · rintro ⟨φ, u⟩ ⟨φ', u'⟩ ⟨rfl, hu⟩
        exact (ih hrest).bind fun _ _ hfs => .pure (.cons hu hfs)

/-- Matching terms in corresponding environments take the same step. -/
theorem step_inStep (hcall : C.Calls call call') (m : MeterId)
    (henv : C.Environments V env env') (hdims : C.Dims D dims dims') {t t' : Term}
    (ht : Term.Matches C V D t t') :
    C.InStep C.Values (Eval.step call m t env dims) (Eval.step call' m t' env' dims') := by
  have value {t t' : Term} (ht : Term.Matches C V D t t') :
      C.InStep C.Values (call m (.evaluate true t env dims))
        (call' m (.evaluate true t' env' dims')) :=
    hcall _ _ _ (.evaluate henv hdims ht)
  have at' {d d' : Dim} (hd : d.Matches D d') :
      C.InStep (· = ·) (Run.ofFault (IntervalEnv.resolve dims d))
        (Run.ofFault (IntervalEnv.resolve dims' d')) :=
    ofFault_inStep (hdims.resolve hd)
  cases ht with
  | univ => exact .pure .univ
  | var hij => exact lookup_inStep hcall henv hij
  | pi hx ha hb =>
    refine (value ha).bind fun _ _ ha => .pure (.pi hx ha ?_)
    exact .body henv.entries henv.bound hdims hb
  | lam hx hb => exact .pure (.lam hx (.body henv.entries henv.bound hdims hb))
  | app hf ha =>
    refine (value hf).bind fun f f' hf => ?_
    have applied : C.InStep C.Values
        (do Eval.apply call m f (← call m (.evaluate true _ env dims)))
        (do Eval.apply call' m f' (← call' m (.evaluate true _ env' dims'))) :=
      (value ha).bind fun _ _ hv => apply_inStep hcall m hf hv
    -- Only an abstraction puts its argument off, and both are abstractions or neither is.
    cases hf with
    | lam _ hb =>
      refine (suspend_inStep m false henv hdims ha).bind fun e e' he => ?_
      exact hcall _ _ _ (.instantiate hb he)
    | _ => exact applied
  | path ha hl hr =>
    refine (value ha).bind fun _ _ ha => (value hl).bind fun _ _ hl => ?_
    exact (value hr).bind fun _ _ hr => .pure (.path ha hl hr)
  | pathLam hx hb => exact .pure (.pathLam hx (.body henv.entries henv.bound hdims hb))
  | pathApp hp hd =>
    refine (value hp).bind fun p p' hp => (at' hd).bind fun r r' hr => ?_
    exact hr ▸ pathApply_inStep hcall m hp r
  | smoothPath ha hl hr =>
    refine (value ha).bind fun _ _ ha => (value hl).bind fun _ _ hl => ?_
    exact (value hr).bind fun _ _ hr => .pure (.smoothPath ha hl hr)
  | comp hs ht ha hfs hb =>
    refine (closeFamily_inStep henv hdims ha).bind fun a a' ha => ?_
    refine (value hb).bind fun v v' hv => ?_
    refine (closeTubes_inStep henv hdims hfs).bind fun fs fs' hfs => ?_
    refine (at' ht).bind fun t t' ht => (at' hs).bind fun s s' hs => ?_
    subst hs ht
    exact hcall _ _ _ (.comp ha hfs hv)
  | coe hs ht ha hb =>
    refine (closeFamily_inStep henv hdims ha).bind fun a a' ha => ?_
    refine (at' hs).bind fun s s' hs => (at' ht).bind fun t t' ht => ?_
    subst hs ht
    exact (value hb).bind fun v v' hv => hcall _ _ _ (.coe ha hv)
  | hcomp ha hfs hb =>
    refine (value ha).bind fun a a' ha => (value hb).bind fun v v' hv => ?_
    refine (closeTubes_inStep henv hdims hfs).bind fun fs fs' hfs => ?_
    exact hcall _ _ _ (.comp (.constant ha) hfs hv)
  | missing => exact .throw (.fault .missingTerm)

end Terms

/-! ## Demands -/

/-- Calls that go in step make all rules go in step. -/
theorem answer_inStep (hcall : C.Calls call call') :
    C.Calls (Eval.answer call) (Eval.answer call') := by
  intro m d d' hd
  cases hd with
  | @evaluate V D nests t t' env env' dims dims' henv hdims ht =>
    have charged := (charge_inStep m).seq (step_inStep hcall m henv hdims ht)
    cases nests with
    | true => exact nest_inStep m ((checkDepth_inStep m t t').seq charged)
    | false => exact charged
  | instantiate hc he => exact instantiate_inStep hcall m hc he
  | instantiateAt hc => exact instantiateAt_inStep hcall m hc _
  | still hc => exact still_inStep hcall m hc _ _
  | comp ha hfs hv => exact comp_inStep hcall m _ _ ha hfs hv
  | coe ha hv => exact coe_inStep hcall m ha (.inr ⟨rfl, rfl⟩) hv
  | idle ha hconst hv => exact coe_inStep hcall m ha (.inl hconst) hv

/-- Corresponding demands are met in step. -/
theorem run_inStep : ∀ frames, C.Calls (Eval.run frames) (Eval.run frames)
  | 0 => fun _ _ _ _ => .throw .nonTermination
  | frames + 1 => answer_inStep (run_inStep frames)

end SmoothCubical.Correspondence
