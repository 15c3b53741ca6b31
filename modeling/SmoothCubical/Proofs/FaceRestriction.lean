import SmoothCubical.Proofs.ConstantFamily
import SmoothCubical.Proofs.IdleCoercion
import SmoothCubical.Proofs.Lockstep.Kernel

/-!
# Evaluation on a face

Partial elements are compared clause by clause. A clause fixes some interval variables to ends, and
what is compared is evaluated in the environment of the context, under interval variables that are
moved to these ends. So the entries of the context are not evaluated on the face; only the term is.

If no type and no definition of the context mentions a fixed interval variable, this makes no
difference: a term has the value that it has in the context built again on the face
(`evaluate_on_face`). Otherwise it does. A definition that moves along a fixed interval variable,
or a hypothesis whose type does, stays as it is off the face, and a partial element that agrees with
the base on its face is refused (`face_keeps_entries`).
-/

set_option autoImplicit false

namespace SmoothCubical

/-! ## Contexts on a face -/

namespace Declaration

/-- Add an entry to a context on the face of a clause: an interval variable that the clause fixes is
bound to its end. -/
def addOnFace (c : Clause) (frames : Nat) (settings : Settings) (ctx : Context) :
    Declaration → Run Context
  | .dimension => return { ctx with dims := ctx.freshDim.substitute c :: ctx.dims }
  | x => x.add frames settings ctx

/-- Add entries one after the other, on the face of a clause. -/
def addAllOnFace (c : Clause) (frames : Nat) (settings : Settings) :
    List Declaration → Context → Run Context
  | [], ctx => pure ctx
  | x :: rest, ctx => do addAllOnFace c frames settings rest (← x.addOnFace c frames settings ctx)

end Declaration

/-- Whether the term mentions no interval variable of the environment that the clause fixes. -/
def Term.avoids (c : Clause) (dims : IntervalEnv) (t : Term) : Bool :=
  (List.range dims.length).all fun k =>
    dims[k]? == (IntervalEnv.substitute c dims)[k]? ||
      match t.mentions k with
      | .ok false => true
      | _ => false

/-- Whether no entry mentions an interval variable that the clause fixes; `dims` are the interval
variables that are bound before the first. -/
def Declaration.allAvoid (c : Clause) : List Declaration → IntervalEnv → Bool
  | [], _ => true
  | .hypothesis _ ty :: rest, dims => ty.avoids c dims && allAvoid c rest dims
  | .definition _ ty value :: rest, dims =>
    ty.avoids c dims && value.avoids c dims && allAvoid c rest dims
  | .dimension :: rest, dims => allAvoid c rest (.var dims.length :: dims)

namespace Correspondence

/-- Interval environments correspond in what the clause leaves as it is. -/
theorem Dims.substitute (c : Clause) (dims : IntervalEnv) :
    same.Dims (fun i j => i = j ∧ Index.get? dims i = Index.get? (IntervalEnv.substitute c dims) i)
      dims (IntervalEnv.substitute c dims) := by
  rintro i _ ⟨rfl, hget⟩
  have hfind : IntervalEnv.find (IntervalEnv.substitute c dims) i = IntervalEnv.find dims i := by
    rw [IntervalEnv.find, IntervalEnv.find, hget]
  have hpoint : Face.point (IntervalEnv.substitute c dims) i = Face.point dims i := by
    rw [Face.point, Face.point, hfind, IntervalEnv.substitute, List.length_map]
  rw [hfind, hpoint]
  exact ⟨.refl (fun _ => rfl) _, .refl (fun _ => rfl) _⟩

/-- A term that avoids a clause matches itself where the clause leaves interval variables as they
are. -/
theorem matches_of_avoids {c : Clause} {dims : IntervalEnv} {t : Term}
    (h : t.avoids c dims = true) :
    Term.Matches same (· = ·)
      (fun i j => i = j ∧ Index.get? dims i = Index.get? (IntervalEnv.substitute c dims) i)
      t t := by
  -- The interval variables that are moved are taken out of the relation one after the other.
  have upTo (n : Nat) (hn : n ≤ dims.length) : Term.Matches same (· = ·)
      (fun i j => i = j ∧ ∀ k : Nat, k < n → i = k →
        dims[k]? = (IntervalEnv.substitute c dims)[k]?) t t := by
    induction n with
    | zero => exact t.matches_same (fun _ => rfl) fun i => ⟨rfl, by omega⟩
    | succ n ih =>
      have hk := List.all_eq_true.1 h n (List.mem_range.2 hn)
      have hout := ih (by omega)
      by_cases hkept : dims[n]? = (IntervalEnv.substitute c dims)[n]?
      · refine hout.mono (fun _ _ hij => hij) fun i j hij => ⟨hij.1, fun k hk hik => ?_⟩
        rcases Nat.lt_succ_iff_lt_or_eq.1 hk with hk | rfl
        · exact hij.2 k hk hik
        · exact hkept
      · have hmentions : t.mentions n = .ok false := by
          simp only [Bool.or_eq_true, beq_iff_eq, hkept, false_or] at hk
          split at hk
          · assumption
          · contradiction
        refine hout.of_not_mentions (Int.natCast_nonneg n) (fun i j hij hne => ?_) hmentions
        refine ⟨hij.1, fun k hk hik => hij.2 k ?_ hik⟩
        omega
  refine (upTo dims.length (Nat.le_refl _)).mono (fun _ _ hij => hij) fun i j hij => ⟨hij.1, ?_⟩
  unfold Index.get?
  by_cases hneg : i < 0
  · simp [hneg]
  · simp only [hneg, if_false]
    by_cases hlt : i.toNat < dims.length
    · exact hij.2 i.toNat hlt (by omega)
    · simp [IntervalEnv.substitute, Nat.le_of_not_lt hlt]

/-- Environments that correspond can be extended by corresponding entries, with the same indices. -/
theorem Environments.push {env env' : Env} (h : same.Environments (· = ·) env env') {e e' : Entry}
    (he : same.Entries e e') : same.Environments (· = ·) (e :: env) (e' :: env') where
  entries i j a a' hij := (h.cons he).entries i j a a' (hij ▸ Under.refl (fun _ => rfl) i)
  bound i j hij := (h.cons he).bound i j (hij ▸ Under.refl (fun _ => rfl) i)

/-- The second context is the first, built again on the face of a clause. -/
structure OnFace (c : Clause) (ctx ctx' : Context) : Prop where
  env : same.Environments (· = ·) ctx.env ctx'.env
  depth : ctx.depth = ctx'.depth
  dims : ctx'.dims = IntervalEnv.substitute c ctx.dims

namespace OnFace

variable {c : Clause} {ctx ctx' : Context}

/-- A term that avoids the clause is evaluated in step off the face and on it. -/
theorem evaluate (h : OnFace c ctx ctx') {t : Term} (ht : t.avoids c ctx.dims = true)
    (frames : Nat) (settings : Settings) :
    same.InStep same.Values (Kernel.evaluate frames settings t ctx.env ctx.dims)
      (Kernel.evaluate frames settings t ctx'.env ctx'.dims) := by
  rw [h.dims]
  exact evaluate_inStep h.env (.substitute c ctx.dims) (matches_of_avoids ht) frames settings

/-- A context and its restriction can be extended by definitions whose values correspond. -/
theorem cons (h : OnFace c ctx ctx') (name : String) (a a' : Value) {v v' : Value}
    (hv : same.Values v v') : OnFace c (ctx.define name a v) (ctx'.define name a' v') where
  env := h.env.push (.value hv)
  depth := by
    have hdepth := h.depth
    simp only [Context.depth, Context.define, List.length_cons] at hdepth ⊢
    omega
  dims := h.dims

/-- The variables that a context and its restriction would add next correspond. -/
theorem nextVar (h : OnFace c ctx ctx') {a a' : Value} (ha : same.Values a a') :
    same.Values (ctx.nextVar a) (ctx'.nextVar a') :=
  .typed (.var h.depth) ha

/-- A context and its restriction can be extended by an interval variable and what it becomes on the
face. -/
theorem extendDim (h : OnFace c ctx ctx') :
    OnFace c ctx.extendDim { ctx' with dims := ctx'.freshDim.substitute c :: ctx'.dims } where
  env := h.env
  depth := h.depth
  dims := by
    have hfresh : ctx'.freshDim = ctx.freshDim := by
      simp [Context.freshDim, Context.dimDepth, h.dims, IntervalEnv.substitute]
    simp only [hfresh, h.dims, Context.extendDim, IntervalEnv.substitute, List.map_cons]

/-- An entry that avoids the clause is added in step off the face and on it. -/
theorem add (h : OnFace c ctx ctx') {x : Declaration} {rest : List Declaration}
    (havoid : Declaration.allAvoid c (x :: rest) ctx.dims = true) (frames : Nat)
    (settings : Settings) :
    same.InStep (fun ctx ctx' => OnFace c ctx ctx' ∧ Declaration.allAvoid c rest ctx.dims = true)
      (x.add frames settings ctx) (x.addOnFace c frames settings ctx') := by
  cases x with
  | hypothesis name ty =>
    obtain ⟨hty, hrest⟩ := Bool.and_eq_true_iff.1 havoid
    refine (h.evaluate hty frames settings).bind fun a a' ha => .pure ⟨?_, hrest⟩
    exact h.cons name a a' (h.nextVar ha)
  | definition name ty value =>
    obtain ⟨hboth, hrest⟩ := Bool.and_eq_true_iff.1 havoid
    obtain ⟨hty, hvalue⟩ := Bool.and_eq_true_iff.1 hboth
    refine (h.evaluate hty frames settings).bind fun a a' _ => ?_
    refine (h.evaluate hvalue frames settings).bind fun v v' hv => .pure ⟨?_, hrest⟩
    exact h.cons name a a' hv
  | dimension => exact .pure ⟨h.extendDim, havoid⟩

/-- Entries that avoid the clause are added in step off the face and on it. -/
theorem addAll (h : OnFace c ctx ctx') {xs : List Declaration}
    (havoid : Declaration.allAvoid c xs ctx.dims = true) (frames : Nat) (settings : Settings) :
    same.InStep (OnFace c) (Declaration.addAll frames settings xs ctx)
      (Declaration.addAllOnFace c frames settings xs ctx') := by
  induction xs generalizing ctx ctx' with
  | nil => exact .pure h
  | cons x rest ih =>
    exact (h.add havoid frames settings).bind fun ctx₁ ctx₁' hadded => ih hadded.1 hadded.2

end OnFace

end Correspondence

/-! ## Terms on a face -/

open Correspondence in
/-- A term is evaluated on the face. Let no entry of a context mention an interval variable that a
clause fixes. Then the context can be built again on the face of the clause, and a term has the same
value in the environment of the context, under the interval variables moved by the clause, as in the
context on the face: the values read back to the same term, or both evaluations fail alike, and the
same is spent. -/
theorem evaluate_on_face {frames : Nat} {settings : Settings} {xs : List Declaration}
    {sharing : Sharing} {ctx : Context} {s : Session} (c : Clause)
    (hctx : Declaration.addAll frames settings xs .empty { sharing } = .ok ctx s)
    (havoid : Declaration.allAvoid c xs [] = true) :
    ∃ (ctx' : Context) (s' : Session),
      Declaration.addAllOnFace c frames settings xs .empty { sharing } = .ok ctx' s' ∧
      ctx'.depth = ctx.depth ∧ ctx'.dims = IntervalEnv.substitute c ctx.dims ∧
      ∀ (frames : Nat) (settings : Settings) (t : Term),
        SameOutcome
          (fun v s₁ v' s₂ => ∀ (frames : Nat) (m : MeterId),
            SameReading frames m ctx.depth ctx.dimDepth v s₁ v' s₂)
          (Kernel.evaluate frames settings t ctx.env (IntervalEnv.substitute c ctx.dims) s)
          (Kernel.evaluate frames settings t ctx'.env ctx'.dims s') := by
  have hempty : OnFace c .empty .empty := ⟨.refl nofun, rfl, rfl⟩
  have hsession : same.Sessions { sharing } { sharing } :=
    .refl (fun _ _ => trivial) (by simp)
  have hrun := hempty.addAll havoid frames settings _ _ hsession
  rw [hctx] at hrun
  generalize hctx' : Declaration.addAllOnFace c frames settings xs .empty { sharing } = y at hrun
  cases hrun with
  | @ok _ ctx' _ s' hface hs =>
    refine ⟨ctx', s', rfl, hface.depth.symm, hface.dims, fun frames settings t => ?_⟩
    have hterm := evaluate_inStep hface.env (.refl ctx'.dims)
      (t.matches_same (fun _ => rfl) fun _ => rfl) frames settings s s' hs
    rw [← hface.dims]
    exact hterm.sameOutcome fun v s₁ v' s₂ hv hs frames m =>
      hv.sameReading frames m ctx.depth ctx.dimDepth hs

/-- A path `p` from `a` to `b` in a type `A`. -/
def somePath : List Declaration :=
  [.hypothesis "A" (.univ 0), .hypothesis "a" (.var 0), .hypothesis "b" (.var 1),
    .hypothesis "p" (.path (.var 2) (.var 1) (.var 0))]

/-- To `somePath`, interval variables `i` and `j` and the point `d` of `p` at `j`. -/
def pointBesideFace : List Declaration :=
  somePath ++ [.dimension, .dimension, .definition "d" (.var 3) (.pathApp (.var 0) (.var 0))]

/-- The clause that fixes the first interval variable to `0`. -/
def atStart : Clause := [⟨0, 0⟩]

/-- Where `i` is `0`, the paths from `p` at `i` to `d` are found in the context on the face. -/
theorem evaluate_on_face_pointBesideFace :
    ∃ (ctx ctx' : Context) (v v' : Value) (s s' s₁ s₂ : Session),
      Declaration.addAll 20 .default pointBesideFace .empty {} = .ok ctx s ∧
      Declaration.allAvoid atStart pointBesideFace [] = true ∧
      Declaration.addAllOnFace atStart 20 .default pointBesideFace .empty {} = .ok ctx' s' ∧
      Kernel.evaluate 20 .default (.path (.var 4) (.pathApp (.var 1) (.var 1)) (.var 0)) ctx.env
        (IntervalEnv.substitute atStart ctx.dims) s = .ok v s₁ ∧
      Kernel.evaluate 20 .default (.path (.var 4) (.pathApp (.var 1) (.var 1)) (.var 0)) ctx'.env
        ctx'.dims s' = .ok v' s₂ ∧
      SameReading 20 0 ctx.depth ctx.dimDepth v s₁ v' s₂ := by
  have hanswer : answer? (do
      let ctx ← Declaration.addAll 20 .default pointBesideFace .empty
      let _ ← Kernel.evaluate 20 .default (.path (.var 4) (.pathApp (.var 1) (.var 1)) (.var 0))
        ctx.env (IntervalEnv.substitute atStart ctx.dims)) = some () := by
    decide +kernel
  have havoid : Declaration.allAvoid atStart pointBesideFace [] = true := by decide +kernel
  obtain ⟨_, hrun⟩ := answer?_eq_some hanswer
  obtain ⟨ctx, s, hadd, hrest⟩ := Run.bind_eq_ok.1 hrun
  obtain ⟨v, s₁, hv, _⟩ := Run.bind_eq_ok.1 hrest
  obtain ⟨ctx', s', hadd', _, _, hsame⟩ := evaluate_on_face atStart hadd havoid
  have hsame := hsame 20 .default (.path (.var 4) (.pathApp (.var 1) (.var 1)) (.var 0))
  rw [hv] at hsame
  generalize hv' : Kernel.evaluate 20 .default
    (.path (.var 4) (.pathApp (.var 1) (.var 1)) (.var 0)) ctx'.env ctx'.dims s' = y at hsame
  cases hsame with
  | @ok _ v' _ s₂ hread _ =>
    exact ⟨ctx, ctx', v, v', s, s', s₁, s₂, hadd, havoid, hadd', hv, hv', hread 20 0⟩

/-! ## Entries off the face -/

/-- To `somePath`, an interval variable `i` and the point `d` of `p` at `i`. -/
def movingDefinition : List Declaration :=
  somePath ++ [.dimension, .definition "d" (.var 3) (.pathApp (.var 0) (.var 0))]

/-- To `somePath`, an interval variable `i` and a path `q` from the point of `p` at `i` to `b`. -/
def movingHypothesis : List Declaration :=
  somePath ++
    [.dimension, .hypothesis "q" (.path (.var 3) (.pathApp (.var 0) (.var 0)) (.var 1))]

/-- Give an element of `A` on the face where `i` is `0`, over the base `a`: how that is refused,
whether the element has the same normal form off the face as in the context on the face, and whether
the latter is `a`. -/
def compareOnFace (xs : List Declaration) (t : Term) : Run (Option FailureKind × Bool × Bool) := do
  let ctx ← declare 100 .default xs .empty
  let composed : Term := .hcomp (.var 4) [(.eq 0 .zero, t)] (.var 3)
  let verdict ← failureKind? (Kernel.checkTerm 100 .default ctx composed (.var 4))
  let v ← Kernel.evaluate 100 .default t ctx.env (IntervalEnv.substitute atStart ctx.dims)
  let n ← Kernel.quote 100 .default ctx.depth ctx.dimDepth v
  let ctx' ← Declaration.addAllOnFace atStart 100 .default xs .empty
  let n' ← Kernel.normalize 100 .default ctx' t
  return (verdict, n.same n', n'.same (.var 3))

/-- Entries that mention a fixed interval variable are not evaluated on the face. Where `i` is `0`,
both the point `d` and the start of `q` are `a`, but they are compared with the base as they are off
the face, and are refused. -/
theorem face_keeps_entries :
    answer? (compareOnFace movingDefinition (.var 0)) =
        some (some .invalidFace, false, true) ∧
      answer? (compareOnFace movingHypothesis (.pathApp (.var 0) .zero)) =
        some (some .invalidFace, false, true) := by
  decide +kernel

end SmoothCubical
