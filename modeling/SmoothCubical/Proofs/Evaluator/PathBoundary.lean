import SmoothCubical.Proofs.Evaluator.History
import SmoothCubical.Proofs.Relaxation.Conservative
import SmoothCubical.Proofs.Termination.Values

/-!
# The ends of a composite of paths

In a family of path types, composition and coercion answer with a path. To take that path at an end
is to take the base there and then to look the end up in the path type that the family is at the
target (`pathApply_composite`): the ends are two more faces, of which the one at hand is given
everywhere, and no other face is. That is so for all families, faces and directions.

So the path ends where the family does at the target, as the family is found at that moment. If all
of it belongs to the evaluator, the family is found alike at any other moment, and the ends read
back the same (`composite_boundary`). If not, they may read back differently
(`composite_end_apart`).
-/

set_option autoImplicit false

namespace SmoothCubical

/-- The point of the interval that an end is. -/
def Endpoint.point : Endpoint → Interval
  | .zero => .zero
  | .one => .one

/-- The one of two ends that is at this end of the interval. -/
def Endpoint.select (e : Endpoint) (left right : Value) : Value :=
  match e with
  | .zero => left
  | .one => right

/-- Whether a type is a type of paths, smooth or not. -/
def Value.isPathType : Value → Bool
  | .path _ _ _ => true
  | .smoothPath _ _ _ _ => true
  | _ => false

/-- A type of paths is a path type or a smooth path type. -/
theorem Value.eq_of_isPathType {v : Value} (h : v.isPathType = true) :
    (∃ ty left right, v = .path ty left right) ∨
      ∃ order ty left right, v = .smoothPath order ty left right := by
  cases v with
  | path ty left right => exact .inl ⟨ty, left, right, rfl⟩
  | smoothPath order ty left right => exact .inr ⟨order, ty, left, right, rfl⟩
  | _ => cases h

namespace Eval

/-- What a family is at a fresh probe. -/
def shapeOf (call : Call) (m : MeterId) (family : Line) : Run Value := do
  lineAt call m family (← Run.probe m)

/-- An end of the path type that a family is at a point. -/
def endAt (call : Call) (m : MeterId) (family : Line) (point : Interval) (e : Endpoint) :
    Run Value := do
  let parts ← pathTypeAt call m family point
  return e.select parts.2.1 parts.2.2

/-- The path that is composed in a family of path types. -/
def composite (m : MeterId) (source target : Interval) (family : Line) (faces : List Tube)
    (base : Value) : Value :=
  .pathLam "k" (.comp m source target family faces base)

/-! ## Composition answers with a path -/

section Answers

variable {m : MeterId} {source target : Interval} {family : Line} {faces : List Tube} {base : Value}
  {f : Nat} {s t : Session} {shape : Value}

/-- In a family of path types composition answers with the composite path, at the cost of the look
at its shape. -/
theorem comp_path (hfaces : ∀ face ∈ faces, face.1.isTrue = false) (hmoves : target ≠ source)
    (hshape : shapeOf (run f) m family s = .ok shape t) (hpath : shape.isPathType = true) :
    run (f + 1) m (.comp source target family faces base) s =
      .ok (composite m source target family (possible faces) base) t := by
  change comp (run f) m source target family faces base s = _
  rw [comp, firstTrue?_eq_none_iff.2 hfaces]
  dsimp only
  obtain ⟨point, s₁, hpoint, hshape⟩ := Run.bind_eq_ok.1 hshape
  rw [if_neg hmoves, Run.bind_ok hpoint, Run.bind_ok hshape]
  obtain ⟨_, _, _, rfl⟩ | ⟨_, _, _, _, rfl⟩ := Value.eq_of_isPathType hpath <;> rfl

/-- In a family of path types coercion answers with the composite path without faces. -/
theorem coe_path (hmoves : target ≠ source) (hconstant : family.isConstant = false)
    (hshape : shapeOf (run f) m family s = .ok shape t) (hpath : shape.isPathType = true) :
    run (f + 1) m (.coe source target family base) s =
      .ok (composite m source target family [] base) t := by
  change coe (run f) m source target family base s = _
  obtain ⟨point, s₁, hpoint, hshape⟩ := Run.bind_eq_ok.1 hshape
  rw [coe, if_neg hmoves.symm, hconstant, if_neg Bool.false_ne_true, Run.bind_ok hpoint,
    Run.bind_ok hshape]
  obtain ⟨_, _, _, rfl⟩ | ⟨_, _, _, _, rfl⟩ := Value.eq_of_isPathType hpath <;> rfl

end Answers

/-! ## The faces at an end -/

/-- If none of the first faces is given everywhere, the search goes on with the others. -/
theorem firstTrue?_append {fs : List Tube} (h : firstTrue? fs = none) (gs : List Tube) :
    firstTrue? (fs ++ gs) = firstTrue? gs := by
  induction fs with
  | nil => rfl
  | cons face rest ih =>
    unfold firstTrue? at h
    rw [List.cons_append, firstTrue?]
    split at h
    · cases h
    · rename_i hface
      rw [if_neg hface]
      exact ih h

/-- The two faces that are added for the ends of a path type. -/
def endFaces (m : MeterId) (family : Line) (k : Interval) : List Tube :=
  [(Cofibration.eq k 0, .left m family), (Cofibration.eq k 1, .right m family)]

/-- The faces of a composite at a point. -/
def facesAt (m : MeterId) (family : Line) (faces : List Tube) (k : Interval) : List Tube :=
  (faces.map fun face => (face.1, IntervalClosure.pathApp m face.2 k)) ++ endFaces m family k

/-- At an end, the face of that end is the first that is given everywhere. -/
theorem firstTrue?_facesAt {faces : List Tube} (hfaces : firstTrue? faces = none) (m : MeterId)
    (family : Line) (e : Endpoint) :
    firstTrue? (facesAt m family faces e.point) =
      some (match e with | .zero => .left m family | .one => .right m family) := by
  have hothers := firstTrue?_map (fun u => .pathApp m u e.point) hfaces
  rw [facesAt, firstTrue?_append hothers]
  cases e <;> rfl

section Ends

variable {faces : List Tube} (hfaces : firstTrue? faces = none) (f : Nat) (k m : MeterId)
  (source target : Interval) (line family : Line) (base start : Value) (e : Endpoint)
include hfaces

/-- The body of a composite, at an end, looks up the end at the target. -/
theorem comp_end : run (f + 2) m (.comp source target line (facesAt m family faces e.point) start) =
    endAt (run f) m family target e := by
  change comp (run (f + 1)) m source target line _ start = _
  rw [comp, firstTrue?_facesAt hfaces]
  cases e <;> rfl

/-- To take a composite at an end is to take the base there, and then to look the end up in the path
type that the family is at the target. -/
theorem pathApply_composite :
    pathApply (run (f + 3)) k (composite m source target family faces base) e.point = (do
      let _ ← pathApply (run (f + 2)) m base e.point
      endAt (run f) m family target e) := by
  change compPathAt (run (f + 2)) m source target family faces base e.point = _
  unfold compPathAt
  congr 1
  funext start
  exact comp_end hfaces f m source target _ family start e

end Ends

end Eval

/-! ## Ends that read back the same -/

section Owned

open Eval Likeness

variable {m : MeterId} {s₀ s s' : Session} {family : Line} {r : Interval}

instance (k : MeterId) (f : Nat) (e : Endpoint) :
    Run.Advancing m (endAt (run f) k family r e) := by
  unfold endAt
  infer_instance

/-- An end is a point on any levels. -/
theorem Endpoint.on_point (e : Endpoint) (P : Int → Prop) : e.point.On P := by
  cases e <;> trivial

/-- Alike families have alike ends at points that stand for each other. -/
theorem alike_endAt {L : Likeness} [L.Faithful] {limit : Nat} (f f' : Nat) {a a' : Line}
    (ha : L.Lines a a') {r r' : Interval} (hr : L.Points r r') (e : Endpoint) :
    L.Alike False limit L.Values (endAt (run f) L.meter a r e) s
      (endAt (run f') L.meter a' r' e) s' := by
  apply (alike_pathTypeAt (run_alike limit f f') ha hr).bind
  intro p t p' t' _ _ hp
  cases e with
  | zero => exact .pure hp.2.1
  | one => exact .pure hp.2.2

/-- To look an end up in a family of the evaluator is safe. -/
theorem safe_endAt (f : Nat) (hs : s.Sound) (ha : family.In ((Scope.owned m).during s))
    (hr : r.On (0 ≤ ·)) (e : Endpoint) :
    Run.Safe True (InScope (.owned m)) (endAt (run f) m family r e) s := by
  apply (safe_pathTypeAt (run_safe f) (S := .owned m) hs rfl ha hr).bind
  intro p s₁ hs₁ hp
  cases e with
  | zero => exact Run.safe_pure hs₁.sound hp.2.1
  | one => exact Run.safe_pure hs₁.sound hp.2.2

/-- Values that are alike at the ends of two runs read back the same, or fail to alike. -/
theorem endAs_quote {x y : Run Value} [Run.Advancing m x] [Run.Advancing m y] (hs : s.Hosts m)
    (hs' : s'.Hosts m) {v v' : Value} {t t' : Session} (hx : x s = .ok v t) (hy : y s' = .ok v' t')
    (hsafe : Run.Safe True (InScope (.owned m)) x s)
    (hsafe' : Run.Safe True (InScope (.owned m)) y s') (hv : (between m t t').Values v v')
    (k k' d e : Nat) :
    EndAs (· = ·) (Readback.quote k m d e v t) (Readback.quote k' m d e v' t') := by
  obtain ⟨hleads, hin⟩ := hsafe.ok hx
  obtain ⟨hleads', hin'⟩ := hsafe'.ok hy
  exact endAs_of_outcome (outcome_quote hs hs' hx hy hv False.elim False.elim d e)
    (Readback.quote_safe m k hleads.sound rfl (.inl trivial) hin)
    (Readback.quote_safe m k' hleads'.sound rfl (.inl trivial) hin')

/-- A path of the evaluator that was taken at an end can be taken there again. -/
theorem unlessCutOff_pathApply {base b : Value} (hbase : base.In ((Scope.owned m).during s₀))
    {e : Endpoint} (hs : s₀.Attends m s) {f : Nat} {t : Session}
    (hrun : pathApply (run f) m base e.point s = .ok b t) (hs' : s₀.Attends m s') (f' : Nat) :
    UnlessCutOff False (fun _ t' => s₀.Attends m t') (pathApply (run f') m base e.point s') := by
  have hsafe := safe_pathApply (run_safe f') (S := .owned m) hs'.serves.sound rfl
    (hs'.owned hbase) (e.on_point _)
  apply (unlessCutOff_again (R := fun L => L.Values) hs hs' hsafe ?_ hrun).mono
  · rintro _ t' ⟨_, hrun'⟩
    exact hs'.pathApply hbase (e.on_point _) hrun'
  · rintro L _ rfl hL hholds limit
    apply alike_pathApply (run_alike limit f f') (hbase.alike hholds)
    exact points_refl (L.fixed_of_nonneg hL) (e.on_point _)

/-- What was found in one session of the evaluator reads back the same if it is found in another. -/
theorem unlessCutOff_reading {x y : Run Value} [Run.Advancing m x] [Run.Advancing m y]
    (hs : s₀.Attends m s) (hs' : s₀.Attends m s') (hsafe : Run.Safe True (InScope (.owned m)) x s)
    (hsafe' : Run.Safe True (InScope (.owned m)) y s')
    (hxy : ∀ L : Likeness, [L.Faithful] → L.meter = m → L.Exact →
      L.Holds ((Scope.owned m).during s₀) → ∀ limit, L.Alike False limit L.Values x s y s')
    {w : Value} {t : Session} (hrun : x s = .ok w t) :
    UnlessCutOff False
      (fun w' t' => ∀ k k' d d' : Nat,
        EndAs (· = ·) (Readback.quote k m d d' w t) (Readback.quote k' m d d' w' t'))
      (y s') := by
  apply (unlessCutOff_again (R := fun L => L.Values) hs hs' hsafe' hxy hrun).mono
  rintro w' t' ⟨hw, hrun'⟩
  exact endAs_quote (.serves hs.serves) (.serves hs'.serves) hrun hrun' hsafe hsafe' hw

/-- An end of a family of the evaluator that was looked up reads back the same if it is looked up
again. -/
theorem unlessCutOff_endAt (hfamily : family.In ((Scope.owned m).during s₀)) (hr : r.On (0 ≤ ·))
    {e : Endpoint} (hs : s₀.Attends m s) {f : Nat} {w : Value} {t : Session}
    (hrun : endAt (run f) m family r e s = .ok w t) (hs' : s₀.Attends m s') (f' : Nat) :
    UnlessCutOff False
      (fun w' t' => ∀ k k' d d' : Nat,
        EndAs (· = ·) (Readback.quote k m d d' w t) (Readback.quote k' m d d' w' t'))
      (endAt (run f') m family r e s') := by
  have hsafe {q : Session} (hq : s₀.Attends m q) (n : Nat) :
      Run.Safe True (InScope (.owned m)) (endAt (run n) m family r e) q :=
    safe_endAt n hq.serves.sound (hfamily.mono (hq.leads.le _)) hr e
  apply unlessCutOff_reading hs hs' (hsafe hs f) (hsafe hs' f') ?_ hrun
  rintro L _ rfl hL hholds limit
  apply alike_endAt f f' (hfamily.alike hholds)
  exact points_refl (L.fixed_of_nonneg hL) hr

end Owned

/-- The value is a path that begins and ends where the family does at the target. It was made of
another path, its base. -/
structure EndsOver (m : MeterId) (family : Line) (target : Interval) (base p : Value) : Prop where
  /-- To take it at an end is to take the base there, and then to look the end up in the path type
  that the family is at the target. -/
  looksUp : ∀ (e : Endpoint) (f : Nat), Eval.pathApply (Eval.run (f + 3)) m p e.point = (do
    let _ ← Eval.pathApply (Eval.run (f + 2)) m base e.point
    Eval.endAt (Eval.run f) m family target e)
  /-- Let the family and the base belong to the evaluator. If the base can be taken at an end and
  the end can be looked up, in some sessions, then the path can be taken there in any session and
  reads back as the end does, unless a guard cuts it off. -/
  reads : ∀ {s₀ s s' q : Session}, target.On (0 ≤ ·) → family.In ((Scope.owned m).during s₀) →
    base.In ((Scope.owned m).during s₀) → s₀.Attends m s → s₀.Attends m s' → s₀.Attends m q →
    ∀ (e : Endpoint) {f f' : Nat} {b w : Value} {t t' : Session},
      Eval.pathApply (Eval.run f) m base e.point s = .ok b t →
      Eval.endAt (Eval.run f') m family target e s' = .ok w t' →
      ∀ n : Nat, UnlessCutOff False
        (fun v r => ∀ k k' d d' : Nat,
          EndAs (· = ·) (Readback.quote k m d d' w t') (Readback.quote k' m d d' v r))
        (Eval.pathApply (Eval.run n) m p e.point q)

open Eval

/-- A composite begins and ends where its family does at the target. -/
theorem endsOver_composite {faces : List Tube} (hfaces : firstTrue? faces = none) (m : MeterId)
    (source target : Interval) (family : Line) (base : Value) :
    EndsOver m family target base (composite m source target family faces base) where
  looksUp e f := pathApply_composite hfaces f m m source target family base e
  reads := by
    intro s₀ s s' q htarget hfamily hin hs hs' hq e f f' b w t t' hbase hend n
    cases n with
    | zero => exact .cutOff id
    | succ n =>
      change UnlessCutOff _ _ (compPathAt (run n) m source target family faces base e.point q)
      apply (unlessCutOff_pathApply hin hs hbase hq n).bind
      intro start q₁ _ hq₁
      -- Two more calls are nested before the end is looked up.
      match n with
      | 0 => exact .cutOff id
      | 1 =>
        change UnlessCutOff _ _ (comp (run 0) m source target _
          (facesAt m family faces e.point) start q₁)
        rw [comp, firstTrue?_facesAt hfaces]
        cases e <;> exact .cutOff id
      | n + 2 =>
        change UnlessCutOff _ _ (run (n + 2) m (.comp source target _
          (facesAt m family faces e.point) start) q₁)
        rw [comp_end hfaces]
        exact unlessCutOff_endAt hfamily htarget hs' hend hq₁ n

/-- In a family that is a path type at a fresh probe, between different points, composition and
coercion answer with a path that begins and ends where the family does at the target. For
composition, no face must be given everywhere; for coercion, the family must not be flagged
constant. -/
theorem composite_boundary {m : MeterId} {source target : Interval} {family : Line} {f : Nat}
    {s t : Session} {shape : Value} (hmoves : target ≠ source)
    (hshape : shapeOf (run f) m family s = .ok shape t) (hpath : shape.isPathType = true)
    (base : Value) :
    (∀ faces : List Tube, (∀ face ∈ faces, face.1.isTrue = false) →
      ∃ body, run (f + 1) m (.comp source target family faces base) s = .ok (.pathLam "k" body) t ∧
        EndsOver m family target base (.pathLam "k" body)) ∧
    (family.isConstant = false →
      ∃ body, run (f + 1) m (.coe source target family base) s = .ok (.pathLam "k" body) t ∧
        EndsOver m family target base (.pathLam "k" body)) := by
  constructor
  · intro faces hfaces
    have hpossible := firstTrue?_possible (firstTrue?_eq_none_iff.2 hfaces)
    exact ⟨_, comp_path hfaces hmoves hshape hpath,
      endsOver_composite hpossible m source target family base⟩
  · intro hconstant
    exact ⟨_, coe_path hmoves hconstant hshape hpath,
      endsOver_composite rfl m source target family base⟩

/-- A path type between `Type5` moved along what `f` is at a path of types, and what `P` is in the
direction of the family. -/
def movedEnds : Term :=
  .path (movedAlong 2 (movedAlong 2 (.univ 0))) (.coe .zero .one probedTwice (.univ 5))
    (.pathApp (.var 2) (.var 0))

/-- The constant path at `Type5`. -/
def constantPath (ctx : Context) : Value :=
  .pathLam "k" (.body ctx.env ctx.dims (.univ 5))

/-- The family of these path types over a context with that path added to it. -/
def movedEndsOver (ctx : Context) : Line :=
  .varying (.body (.value (constantPath ctx) :: ctx.env) ctx.dims movedEnds) false

/-- The path that was added to the context, given at the end of the interval variable. -/
def pathAtEnd (ctx : Context) : Tube :=
  (Cofibration.eq (.var 0) 1, .body (.value (constantPath ctx) :: ctx.env) ctx.dims (.var 0))

/-- If `f` was made by the same evaluator, the composite starts where the family does at an interval
variable. A path is given at the end of that variable, and so neither everywhere nor nowhere. -/
theorem composite_boundary_movedEnds :
    ∃ (ctx : Context) (p w : Value) (s t r : Session),
      declareOn 200 .default [movingPath, movedConstant, .dimension] {} = .ok ctx s ∧
      (pathAtEnd ctx).1.isTrue = false ∧ (pathAtEnd ctx).1.isFalse = false ∧
      run 200 0 (.comp .zero (.var 0) (movedEndsOver ctx) [pathAtEnd ctx] (constantPath ctx)) s =
        .ok p t ∧
      endAt (run 200) 0 (movedEndsOver ctx) (.var 0) .zero t = .ok w r ∧
      UnlessCutOff False
        (fun v r' => ∀ d d' : Nat,
          EndAs (· = ·) (Readback.quote 200 0 d d' w r) (Readback.quote 200 0 d d' v r'))
        (pathApply (run 200) 0 p .zero t) := by
  have hends : answer? (do
      let ctx ← declareOn 200 .default [movingPath, movedConstant, .dimension]
      let shape ← shapeOf (run 199) 0 (movedEndsOver ctx)
      let _ ← endAt (run 200) 0 (movedEndsOver ctx) (.var 0) .zero
      return (shape.isPathType, ctx.dims)) = some (true, [.var 0]) := by
    decide +kernel
  have hstarts : answer? (do
      let ctx ← declareOn 200 .default [movingPath, movedConstant, .dimension]
      let _ ← shapeOf (run 199) 0 (movedEndsOver ctx)
      let _ ← pathApply (run 200) 0 (constantPath ctx) .zero) = some () := by
    decide +kernel
  obtain ⟨_, hends⟩ := answer?_eq_some hends
  obtain ⟨_, hstarts⟩ := answer?_eq_some hstarts
  obtain ⟨ctx, s, hctx, hends⟩ := Run.bind_eq_ok.1 hends
  obtain ⟨shape, t, hshape, hends⟩ := Run.bind_eq_ok.1 hends
  obtain ⟨w, r, hend, hrest⟩ := Run.bind_eq_ok.1 hends
  obtain ⟨hpath, hdims⟩ := Prod.mk.inj (EStateM.Result.ok.inj hrest).1
  rw [Run.bind_ok hctx, Run.bind_ok hshape] at hstarts
  obtain ⟨b, _, hstart, _⟩ := Run.bind_eq_ok.1 hstarts
  obtain ⟨hserves, howned⟩ := owned_of_declareOn hctx
  have hbase : (constantPath ctx).In ((Scope.owned 0).during s) :=
    .pathLam (.body howned.entries howned.points (.inl trivial))
  have henv : ∀ e ∈ Entry.value (constantPath ctx) :: ctx.env, e.In ((Scope.owned 0).during s) :=
    List.forall_mem_cons.2 ⟨.value hbase, howned.entries⟩
  have hfamily : (movedEndsOver ctx).In ((Scope.owned 0).during s) :=
    .varying (.body henv howned.points (.inl trivial))
  have hmoves : Interval.var 0 ≠ .zero := by decide
  obtain ⟨body, hcomp, hover⟩ := (composite_boundary hmoves hshape hpath (constantPath ctx)).1
    [pathAtEnd ctx] (List.forall_mem_singleton.2 rfl)
  have hgiven : closeGiven (run 200) (.value (constantPath ctx) :: ctx.env) ctx.dims
      [(.eq 0 .one, .term (.var 0))] s = .ok [pathAtEnd ctx] s := by
    unfold pathAtEnd
    rw [hdims]
    rfl
  have ht : s.Attends 0 t := by
    have hstep := Session.Attends.step ⟨hserves, hserves.sound.refl⟩ henv 200
      (.comp .zero (.var 0) (.varying (.term movedEnds) false) [(.eq 0 .one, .term (.var 0))] 0
        ctx.dims)
      (List.forall_mem_cons.2 ⟨trivial, List.forall_mem_cons.2 ⟨Int.le_refl 0, howned.points⟩⟩)
    rwa [Operation.run,
      Run.after_bind_ok (show GivenFamily.close _ _ _ _ s = .ok (movedEndsOver ctx) s from rfl),
      Run.after_bind_ok (show lookup _ _ 0 s = .ok (constantPath ctx) s from rfl),
      Run.after_bind_ok (show closeGiven _ _ _ _ s = .ok [pathAtEnd ctx] s from hgiven),
      Run.after_bind_ok hcomp] at hstep
  have hreads := hover.reads (Int.le_refl 0) hfamily hbase ht ht ht .zero hstart hend 200
  exact ⟨ctx, .pathLam "k" body, w, s, t, r, hctx, rfl, rfl, hcomp, hend,
    hreads.mono fun v r' h d d' => h 200 200 d d'⟩

/-- If `f` was made by another evaluator, the composite may start elsewhere than the family was seen
to do. -/
theorem composite_end_apart :
    answer? (do
      let ctx ← Declaration.addAll 200 .default [movingPath, movedConstant] .empty
      let d ← Kernel.derivation 200 .default
      let w ← endAt (run 200) d.meter (movedEndsOver ctx) .one .zero
      let p ← run 200 d.meter (.comp .zero .one (movedEndsOver ctx) [] (constantPath ctx))
      let v ← pathApply (run 200) d.meter p .zero
      Typing.conv d ctx v w) = some false := by
  decide +kernel

end SmoothCubical
