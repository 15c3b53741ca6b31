import Mathlib.Data.List.Forall2
import SmoothCubical.Proofs.Lockstep.Kernel
import SmoothCubical.Proofs.Lockstep.Names

/-!
# Typing in step

Matching terms are judged alike in corresponding contexts (`judge_agrees`): both have types, which
correspond, or both are refused, for reasons of one kind. Types are compared by comparing the terms
that they are read back to, so this needs that a variable stands for one other only; then two terms
are the same, up to display names, exactly when the terms that match them are (`Matches.same_eq`).

The interval variables are the same for both contexts.
-/

set_option autoImplicit false

namespace SmoothCubical

open Relator

/-! ## Equal terms have equal matches -/

/-- What is related under a binder: the nearest variables, the outer ones that were related, and the
negative indices that were. -/
theorem under_iff {R : Int → Int → Prop} {i j : Int} :
    Under R i j ↔ (i = 0 ∧ j = 0) ∨ (0 < i ∧ 0 < j ∧ R (i - 1) (j - 1)) ∨
      (i < 0 ∧ j < 0 ∧ R i j) := by
  constructor
  · intro h
    cases h with
    | nearest => exact .inl ⟨rfl, rfl⟩
    | outer hi hj r => exact .inr (.inl ⟨by omega, by omega, by simpa using r⟩)
    | negative hi hj r => exact .inr (.inr ⟨hi, hj, r⟩)
  · rintro (⟨rfl, rfl⟩ | ⟨hi, hj, r⟩ | ⟨hi, hj, r⟩)
    · exact .nearest
    · simpa using Under.outer (by omega) (by omega) r
    · exact .negative hi hj r

/-- If variables stand for one other only, they do so under a binder. -/
theorem Under.biUnique {R : Int → Int → Prop} (h : BiUnique R) : BiUnique (Under R) := by
  constructor
  · intro i i' j hij hij'
    rcases under_iff.1 hij with ⟨rfl, rfl⟩ | ⟨hi, hj, r⟩ | ⟨hi, hj, r⟩ <;>
      rcases under_iff.1 hij' with ⟨rfl, hj'⟩ | ⟨hi', hj', r'⟩ | ⟨hi', hj', r'⟩ <;>
      first | omega | skip
    · have := h.1 r r'
      omega
    · exact h.1 r r'
  · intro i j j' hij hij'
    rcases under_iff.1 hij with ⟨rfl, rfl⟩ | ⟨hi, hj, r⟩ | ⟨hi, hj, r⟩ <;>
      rcases under_iff.1 hij' with ⟨hi', rfl⟩ | ⟨hi', hj', r'⟩ | ⟨hi', hj', r'⟩ <;>
      first | omega | skip
    · have := h.2 r r'
      omega
    · exact h.2 r r'

namespace Term

variable {C : Correspondence}

mutual

/-- Two terms are the same exactly when the terms that match them are, if every variable stands
for one other only and interval variables stand for themselves. -/
theorem Matches.same_eq {V D : Int → Int → Prop} (hV : BiUnique V) (hD : ∀ i j, D i j → i = j)
    {s s' t t' : Term} :
    Term.Matches C V D s s' → Term.Matches C V D t t' → s.same t = s'.same t'
  | .univ, ht => by cases ht <;> rfl
  | .var r, ht => by
    cases ht with
    | var r' =>
      rw [Bool.eq_iff_iff]
      simp [same, rel_eq hV r r']
    | _ => rfl
  | .pi _ a b, ht => by
    cases ht with
    | pi _ a' b' => simp only [same, a.same_eq hV hD a', b.same_eq (Under.biUnique hV) hD b']
    | _ => rfl
  | .lam _ b, ht => by
    cases ht with
    | lam _ b' => simp only [same, b.same_eq (Under.biUnique hV) hD b']
    | _ => rfl
  | .app f a, ht => by
    cases ht with
    | app f' a' => simp only [same, f.same_eq hV hD f', a.same_eq hV hD a']
    | _ => rfl
  | .path a l r, ht => by
    cases ht with
    | path a' l' r' =>
      simp only [same, a.same_eq hV hD a', l.same_eq hV hD l', r.same_eq hV hD r']
    | _ => rfl
  | .pathLam _ b, ht => by
    cases ht with
    | pathLam _ b' => simp only [same, b.same_eq hV (fun _ _ => Under.eq hD) b']
    | _ => rfl
  | .pathApp p d, ht => by
    cases ht with
    | pathApp p' d' => simp only [same, p.same_eq hV hD p', d.eq hD, d'.eq hD]
    | _ => rfl
  | .smoothPath a l r, ht => by
    cases ht with
    | smoothPath a' l' r' =>
      simp only [same, a.same_eq hV hD a', l.same_eq hV hD l', r.same_eq hV hD r']
    | _ => rfl
  | .comp s t a fs b, ht => by
    cases ht with
    | comp s' t' a' fs' b' =>
      simp only [same, s.eq hD, s'.eq hD, t.eq hD, t'.eq hD, fs.same_eq hV hD fs',
        a.same_eq hV (fun _ _ => Under.eq hD) a', b.same_eq hV hD b']
    | _ => rfl
  | .coe s t a b, ht => by
    cases ht with
    | coe s' t' a' b' =>
      simp only [same, s.eq hD, s'.eq hD, t.eq hD, t'.eq hD,
        a.same_eq hV (fun _ _ => Under.eq hD) a', b.same_eq hV hD b']
    | _ => rfl
  | .hcomp a fs b, ht => by
    cases ht with
    | hcomp a' fs' b' =>
      simp only [same, a.same_eq hV hD a', fs.same_eq hV hD fs', b.same_eq hV hD b']
    | _ => rfl
  | .missing, ht => by cases ht <;> rfl

/-- Whether two systems are the same up to display names is the same question on both sides of a
match. -/
theorem BranchesMatch.same_eq {V D : Int → Int → Prop} (hV : BiUnique V)
    (hD : ∀ i j, D i j → i = j) {fs fs' gs gs' : List (Face × Term)} :
    Term.BranchesMatch C V D fs fs' → Term.BranchesMatch C V D gs gs' →
      sameBranches fs gs = sameBranches fs' gs'
  | .nil, hgs => by cases hgs <;> rfl
  | .cons φ u rest, hgs => by
    cases hgs with
    | nil => rfl
    | cons φ' u' rest' =>
      simp only [sameBranches, φ.eq hD, φ'.eq hD, u.same_eq hV (fun _ _ => Under.eq hD) u',
        rest.same_eq hV hD rest']

end

/-- Bodies that match under an interval variable match as terms of the larger scope. -/
theorem Matches.body {V : Int → Int → Prop} {b b' : Term}
    (hb : Term.Matches C V (Under (· = ·)) b b') : Term.Matches C V (· = ·) b b' :=
  hb.mono (fun _ _ hij => hij) fun _ _ => Under.eq fun _ _ hij => hij

/-! ## Sameness is an equivalence -/

/-- Every term matches itself up to display names. -/
theorem matches_names_refl (t : Term) : Term.Matches .names (· = ·) (· = ·) t t :=
  t.matches_refl (fun _ => trivial) (fun _ => rfl) fun _ => rfl

/-- Every term is the same as itself up to display names. -/
theorem same_refl (t : Term) : t.same t = true :=
  t.matches_names_refl.same (fun _ _ h => h) fun _ _ h => h

/-- Terms that are the same are the same as the same terms. -/
theorem same_congr {t t' : Term} (h : t.same t' = true) (u : Term) : t.same u = t'.same u := by
  have hunique : Relator.BiUnique fun i j : Int => i = j :=
    ⟨fun _ _ _ h h' => h.trans h'.symm, fun _ _ _ h h' => h.symm.trans h'⟩
  have hmatch : Term.Matches .names (· = ·) (· = ·) t t' :=
    matches_of_same (fun _ => rfl) (fun _ => rfl) h
  exact hmatch.same_eq hunique (fun _ _ h => h) u.matches_names_refl

/-- Being the same up to display names is symmetric. -/
theorem same_symm {t t' : Term} (h : t.same t' = true) : t'.same t = true :=
  (same_congr h t).symm.trans t.same_refl

/-- Being the same up to display names is transitive. -/
theorem same_trans {t t' t'' : Term} (h : t.same t' = true) (h' : t'.same t'' = true) :
    t.same t'' = true :=
  (same_congr h t'').trans h'

end Term

namespace Correspondence

variable (C : Correspondence)

/-! ## Verdicts -/

/-- Outcomes that agree: related answers, or failures of one kind. -/
inductive Verdicts {α β : Type} (R : α → β → Prop) :
    EStateM.Result Failure Session α → EStateM.Result Failure Session β → Prop
  | ok {a : α} {b : β} {s s' : Session} :
      R a b → C.Sessions s s' → Verdicts R (.ok a s) (.ok b s')
  | error {e e' : Failure} {s s' : Session} :
      e.kind = e'.kind → C.Sessions s s' → Verdicts R (.error e s) (.error e' s')

/-- Runs that lead from corresponding sessions to outcomes that agree. -/
def Agrees {α β : Type} (R : α → β → Prop) (x : Run α) (y : Run β) : Prop :=
  ∀ s s', C.Sessions s s' → C.Verdicts R (x s) (y s')

variable {C}

/-- Runs in step agree. -/
theorem InStep.agrees {α β : Type} {R : α → β → Prop} {x : Run α} {y : Run β}
    (h : C.InStep R x y) : C.Agrees R x y := by
  intro s s' hs
  have hout := h s s' hs
  generalize x s = p at hout
  generalize y s' = q at hout
  cases hout with
  | ok hab hs => exact .ok hab hs
  | error he hs => exact .error he.kind_eq hs

namespace Agrees

variable {α β γ δ : Type} {R : α → β → Prop} {S : γ → δ → Prop}

/-- Judgments that answer at once with related answers agree. -/
theorem pure {a : α} {b : β} (h : R a b) :
    C.Agrees R (Pure.pure a : Run α) (Pure.pure b : Run β) :=
  fun _ _ hs => .ok h hs

/-- Judgments that fail at once agree if the failures are of one kind. -/
theorem throw {e e' : Failure} (h : e.kind = e'.kind) :
    C.Agrees R (MonadExcept.throw e : Run α) (MonadExcept.throw e' : Run β) :=
  fun _ _ hs => .error h hs

/-- Judgments that agree and go on to agree do so as a whole. -/
theorem bind {x : Run α} {y : Run β} {f : α → Run γ} {g : β → Run δ} (hxy : C.Agrees R x y)
    (hfg : ∀ a b, R a b → C.Agrees S (f a) (g b)) : C.Agrees S (x >>= f) (y >>= g) := by
  intro s s' hs
  have hout := hxy s s' hs
  change C.Verdicts S (EStateM.bind x f s) (EStateM.bind y g s')
  unfold EStateM.bind
  cases hx : x s <;> cases hy : y s' <;> rw [hx, hy] at hout <;> cases hout
  case ok.ok.ok hab hs => exact hfg _ _ hab _ _ hs
  case error.error.error he hs => exact .error he hs

/-- Lists whose members are related one by one are gone through in both runs. -/
theorem forM {f : α → Run Unit} {g : β → Run Unit}
    (h : ∀ a b, R a b → C.Agrees (fun _ _ => True) (f a) (g b)) {xs : List α} {ys : List β} :
    List.Forall₂ R xs ys → C.Agrees (fun _ _ => True) (xs.forM f) (ys.forM g)
  | .nil => .pure trivial
  | .cons hab hrest => (h _ _ hab).bind fun _ _ _ => forM h hrest

/-- Checks that agree on each member of a list agree on the list. -/
theorem forM_self {f g : α → Run Unit} (h : ∀ a, C.Agrees (fun _ _ => True) (f a) (g a))
    (xs : List α) : C.Agrees (fun _ _ => True) (xs.forM f) (xs.forM g) :=
  forM (fun a _ hab => hab ▸ h a) (List.forall₂_same.2 fun _ _ => rfl)

end Agrees

/-! ## Contexts -/

variable (C)

/-- Contexts that correspond: related indices are bound to corresponding entries of corresponding
types, and values may be read back in both. -/
structure Contexts (V : Int → Int → Prop) (ctx ctx' : Context) : Prop where
  env : C.Environments V ctx.env ctx'.env
  types : ∀ i j b b', V i j → Index.get? ctx.bindings i = some b →
    Index.get? ctx'.bindings j = some b' → C.Values b.ty b'.ty
  bound : C.Bound V ctx.bindings ctx'.bindings
  dims : ctx.dims = ctx'.dims
  depth : C.Reads ctx.depth ctx'.depth

variable {C} {V : Int → Int → Prop} {ctx ctx' : Context}

namespace Contexts

/-- The empty context corresponds to itself if levels stand for themselves only. -/
theorem empty (hlevel : ∀ l l', C.level l l' ↔ l = l') : C.Contexts (· = ·) .empty .empty where
  env := .refl nofun
  types i j b b' _ hb := by simp [Context.empty, Index.get?] at hb
  bound i j hij := ⟨by rw [hij], fun _ => hij ▸ C.unbound_refl i⟩
  dims := rfl
  depth := .refl hlevel _

/-- Contexts that correspond bind as many interval variables. -/
theorem dimDepth (h : C.Contexts V ctx ctx') : ctx.dimDepth = ctx'.dimDepth := by
  rw [Context.dimDepth, Context.dimDepth, h.dims]

/-- Contexts that correspond bind the same interval variables. -/
theorem bindsDim (h : C.Contexts V ctx ctx') : ctx.bindsDim = ctx'.bindsDim := by
  funext i
  rw [Context.bindsDim, Context.bindsDim, h.dimDepth]

/-- Contexts that correspond have the same interval variable to add next. -/
theorem freshDim (h : C.Contexts V ctx ctx') : ctx.freshDim = ctx'.freshDim := by
  rw [Context.freshDim, Context.freshDim, h.dimDepth]

/-- Variables that stand for each other are found with corresponding types. -/
theorem find (h : C.Contexts V ctx ctx') {i j : Int} (hij : V i j) :
    C.Answers (fun b b' => C.Values b.ty b'.ty) (ctx.find i) (ctx'.find j) := by
  have hb := h.bound i j hij
  unfold Context.find
  cases he : Index.get? ctx.bindings i <;> cases he' : Index.get? ctx'.bindings j <;>
    rw [he, he'] at hb
  case none.none => exact .error (.unboundVariable (hb.2 rfl))
  case some.some => exact .ok (h.types _ _ _ _ hij he he')
  all_goals simp at hb

/-- The variables that corresponding contexts would add next correspond. -/
theorem nextVar (h : C.Contexts V ctx ctx') {a a' : Value} (ha : C.Values a a') :
    C.Values (ctx.nextVar a) (ctx'.nextVar a') :=
  .typed (.var h.depth.level) ha

/-- Contexts that correspond can be extended by hypotheses of corresponding types. -/
theorem extend (h : C.Contexts V ctx ctx') (x y : String) {a a' : Value} (ha : C.Values a a') :
    C.Contexts (Under V) (ctx.extend x a) (ctx'.extend y a') where
  env := h.env.cons (.value (h.nextVar ha))
  types := by
    intro i j b b' hij hb hb'
    cases hij with
    | nearest =>
      simp only [Context.extend, Index.get?_cons_zero, Option.some.injEq] at hb hb'
      subst hb hb'
      exact ha
    | outer hi hj r =>
      simp only [Context.extend, Index.get?_cons_succ _ _ hi, Index.get?_cons_succ _ _ hj]
        at hb hb'
      exact h.types _ _ _ _ r hb hb'
    | negative hi hj r =>
      rw [Index.get?_neg _ hi] at hb
      contradiction
  bound := h.bound.cons _ _
  dims := h.dims
  depth := by
    have hmore (ctx : Context) (x : String) (a : Value) :
        (ctx.extend x a).depth = ctx.depth + 1 := by
      simp [Context.depth, Context.extend]
    rw [hmore, hmore]
    exact h.depth.succ

/-- Corresponding contexts with one definition more of corresponding values. -/
theorem define (h : C.Contexts V ctx ctx') (x y : String) {a a' v v' : Value} (ha : C.Values a a')
    (hv : C.Values v v') : C.Contexts (Under V) (ctx.define x a v) (ctx'.define y a' v') where
  env := h.env.cons (.value hv)
  types := (h.extend x y ha).types
  bound := (h.extend x y ha).bound
  dims := h.dims
  depth := (h.extend x y ha).depth

/-- Contexts that correspond can be extended by an interval variable. -/
theorem extendDim (h : C.Contexts V ctx ctx') : C.Contexts V ctx.extendDim ctx'.extendDim where
  env := h.env
  types := h.types
  bound := h.bound
  dims := by rw [Context.extendDim, Context.extendDim, h.dims, h.freshDim]
  depth := h.depth

end Contexts

/-! ## Conversion -/

section Rules

variable (d : Derivation) (hC : BiUnique C.level)

/-- If levels stand for at most one another, so do the indices that they are read back to. -/
theorem indices_biUnique (hC : BiUnique C.level) (n n' : Int) : BiUnique (C.Indices n n') := by
  constructor
  · rintro i i' j ⟨_, _, hl⟩ ⟨_, _, hl'⟩
    have hflip := hC.1 hl hl'
    rw [← Index.flip_flip n i, hflip, Index.flip_flip]
  · rintro i j j' ⟨_, _, hl⟩ ⟨_, _, hl'⟩
    have hflip := hC.2 hl hl'
    rw [← Index.flip_flip n' j, hflip, Index.flip_flip]

include hC in
/-- Corresponding values are convertible in both scopes or in none. -/
theorem convertible_inStep {n n' : Int} (hn : C.Reads n n') (frames : Nat) (m : MeterId) (e : Int)
    {v v' w w' : Value} (hv : C.Values v v') (hw : C.Values w w') :
    C.InStep (· = ·) (Readback.convertible frames m n e v w)
      (Readback.convertible frames m n' e v' w') := by
  refine (quote_inStep m frames hn e hv).bind fun _ _ hs => ?_
  refine (quote_inStep m frames hn e hw).bind fun _ _ ht => .pure ?_
  exact hs.same_eq (indices_biUnique hC n n') (fun _ _ hij => hij) ht

/-- Matching terms are evaluated in step under the same interval environment. -/
theorem value_agrees (h : C.Contexts V ctx ctx') (dims : IntervalEnv) {t t' : Term}
    (ht : Term.Matches C V (· = ·) t t') :
    C.Agrees C.Values (Eval.evaluate d.frames d.meter t ctx.env dims)
      (Eval.evaluate d.frames d.meter t' ctx'.env dims) :=
  (run_inStep d.frames d.meter _ _ (.evaluate h.env (.refl dims) ht)).agrees

/-- A derivation evaluates matching terms alike. -/
theorem eval_agrees (h : C.Contexts V ctx ctx') {t t' : Term}
    (ht : Term.Matches C V (· = ·) t t') :
    C.Agrees C.Values (Typing.eval d ctx t) (Typing.eval d ctx' t') := by
  unfold Typing.eval
  rw [← h.dims]
  exact value_agrees d h ctx.dims ht

/-- A derivation instantiates corresponding bodies alike. -/
theorem instantiate_agrees {c c' : Closure} (hc : C.Closures c c') {e e' : Entry}
    (he : C.Entries e e') :
    C.Agrees C.Values (Eval.run d.frames d.meter (.instantiate c e))
      (Eval.run d.frames d.meter (.instantiate c' e')) :=
  (run_inStep d.frames d.meter _ _ (.instantiate hc he)).agrees

/-- A derivation looks corresponding families up alike. -/
theorem lineAt_agrees {a a' : Line} (ha : C.Lines a a') (r : Interval) :
    C.Agrees C.Values (Typing.lineAt d a r) (Typing.lineAt d a' r) :=
  (lineAt_inStep (run_inStep d.frames) d.meter ha (.inr rfl)).agrees

/-- A value of the wrong shape is read back to be reported. -/
theorem refuse_agrees (h : C.Contexts V ctx ctx') {α β : Type} {R : α → β → Prop} {v v' : Value}
    (hv : C.Values v v') {f : Term → Failure} (hf : ∀ t t', (f t).kind = (f t').kind) :
    C.Agrees R (do throw (f (← Typing.quote d ctx v)) : Run α)
      (do throw (f (← Typing.quote d ctx' v')) : Run β) := by
  unfold Typing.quote
  rw [← h.dimDepth]
  exact (quote_inStep d.meter d.frames h.depth ctx.dimDepth hv).agrees.bind fun t t' _ =>
    .throw (hf t t')

/-- Two values that do not convert are read back to be reported. -/
theorem report_agrees (h : C.Contexts V ctx ctx') {v v' w w' : Value} (hv : C.Values v v')
    (hw : C.Values w w') :
    C.Agrees (fun _ _ => True)
      (do let wanted ← Typing.quote d ctx w
          let found ← Typing.quote d ctx v
          throw (.typeMismatch (.term wanted) (.term found)) : Run Unit)
      (do let wanted ← Typing.quote d ctx' w'
          let found ← Typing.quote d ctx' v'
          throw (.typeMismatch (.term wanted) (.term found)) : Run Unit) := by
  unfold Typing.quote
  rw [← h.dimDepth]
  refine (quote_inStep d.meter d.frames h.depth ctx.dimDepth hw).agrees.bind fun _ _ _ => ?_
  exact (quote_inStep d.meter d.frames h.depth ctx.dimDepth hv).agrees.bind fun _ _ _ => .throw rfl

/-- Types that correspond are found to be in the same universe. -/
theorem universeLevel_agrees (h : C.Contexts V ctx ctx') {v v' : Value} (hv : C.Values v v') :
    C.Agrees (· = ·) (Typing.universeLevel d ctx v) (Typing.universeLevel d ctx' v') := by
  have refuse := refuse_agrees d (R := fun i j : Int => i = j) h hv
    (f := fun t => .typeMismatch .univ (.term t)) fun _ _ => rfl
  cases hv with
  | univ => exact .pure rfl
  | _ => exact refuse

include hC

/-- Conversion gives the same verdict on values that correspond. -/
theorem conv_agrees (h : C.Contexts V ctx ctx') {v v' w w' : Value} (hv : C.Values v v')
    (hw : C.Values w w') :
    C.Agrees (· = ·) (Typing.conv d ctx v w) (Typing.conv d ctx' v' w') := by
  unfold Typing.conv
  rw [← h.dimDepth]
  exact (convertible_inStep hC h.depth d.frames d.meter ctx.dimDepth hv hw).agrees

/-- Types that correspond may stand for others without converting, on both sides or on neither. -/
theorem weakens_agrees (h : C.Contexts V ctx ctx') {v v' w w' : Value} (hv : C.Values v v')
    (hw : C.Values w w') :
    C.Agrees (· = ·) (Typing.weakens d ctx v w) (Typing.weakens d ctx' v' w') := by
  cases hv with
  | univ =>
    cases hw with
    | univ => exact .pure rfl
    | _ => exact .pure rfl
  | smoothPath ha hl hr =>
    cases hw with
    | smoothPath hb hl' hr' =>
      unfold Typing.weakens Value.isSmooth Value.smoothness?
      dsimp only
      split
      · exact conv_agrees d hC h (.smoothPath ha hl hr) (.smoothPath hb hl' hr')
      · exact .pure rfl
    | _ => exact .pure rfl
  | _ => exact .pure rfl

/-- Types that correspond pass for each other, or fail to, alike. -/
theorem convert_agrees (h : C.Contexts V ctx ctx') {v v' w w' : Value} (hv : C.Values v v')
    (hw : C.Values w w') :
    C.Agrees (fun _ _ => True) (Typing.convert d ctx v w) (Typing.convert d ctx' v' w') := by
  unfold Typing.convert
  refine (conv_agrees d hC h hv hw).bind fun b b' hb => ?_
  subst hb
  split
  · exact .pure trivial
  · refine (weakens_agrees d hC h hv hw).bind fun b b' hb => ?_
    subst hb
    split
    · exact .pure trivial
    · exact (record_inStep _ _).agrees.bind fun _ _ _ => report_agrees d h hv hw

/-- A judgment that has found corresponding types concludes alike, against corresponding goals or
none. -/
theorem conclude_agrees (h : C.Contexts V ctx ctx') {goal goal' : Option Value}
    (hgoal : Option.Rel C.Values goal goal') {v v' : Value} (hv : C.Values v v') :
    C.Agrees C.Values (Typing.conclude d ctx goal v) (Typing.conclude d ctx' goal' v') := by
  cases hgoal with
  | none => exact .pure hv
  | some hw => exact (convert_agrees d hC h hv hw).bind fun _ _ _ => .pure hv

/-! ## The ends of paths and partial elements -/

/-- Bodies that match are checked alike at an end of a path. -/
theorem checkEnd_agrees (h : C.Contexts V ctx ctx') {b b' : Term}
    (hb : Term.Matches C V (· = ·) b b') (r : Interval) {v v' : Value} (hv : C.Values v v') :
    C.Agrees (fun _ _ => True) (Typing.checkEnd d ctx b r v) (Typing.checkEnd d ctx' b' r v') := by
  unfold Typing.checkEnd
  rw [← h.dims]
  refine (value_agrees d h (r :: ctx.dims) hb).bind fun w w' hw => ?_
  refine (conv_agrees d hC h hw hv).bind fun c c' hc => ?_
  subst hc
  split
  · exact .pure trivial
  · exact report_agrees d h hw hv

/-- Bodies that match are checked alike at both ends of a path. -/
theorem checkEnds_agrees (h : C.Contexts V ctx ctx') {b b' : Term}
    (hb : Term.Matches C V (· = ·) b b') {l l' r r' : Value} (hl : C.Values l l')
    (hr : C.Values r r') :
    C.Agrees (fun _ _ => True) (Typing.checkEnds d ctx b l r)
      (Typing.checkEnds d ctx' b' l' r') :=
  (checkEnd_agrees d hC h hb .zero hl).bind fun _ _ _ => checkEnd_agrees d hC h hb .one hr

omit hC in
/-- A dimension is in scope of both contexts or of neither. -/
theorem checkDim_agrees (h : C.Contexts V ctx ctx') (r : Dim) :
    C.Agrees (fun _ _ => True) (Typing.checkDim ctx r) (Typing.checkDim ctx' r) := by
  unfold Typing.checkDim
  rw [h.bindsDim]
  split
  · split
    · exact .pure trivial
    · exact .throw rfl
  · exact .pure trivial

omit hC in
/-- A face formula is in scope of both contexts or of neither. -/
theorem checkFormula_agrees (h : C.Contexts V ctx ctx') (φ : Face) :
    C.Agrees (fun _ _ => True) (Typing.checkFormula ctx φ) (Typing.checkFormula ctx' φ) := by
  unfold Typing.checkFormula
  rw [h.bindsDim]
  split
  · exact .throw rfl
  · exact .pure trivial

omit hC in
/-- Orders of smoothness are checked alike, since no context is looked at. -/
theorem checkOrder_agrees (largest order : Int) :
    C.Agrees (fun _ _ => True) (Smoothness.checkOrder largest order)
      (Smoothness.checkOrder largest order) := by
  unfold Smoothness.checkOrder
  split
  · exact .throw rfl
  · exact .pure trivial

variable (C V) in
/-- Partial elements that match, on the same face. -/
structure PartsMatch (p p' : Typing.PartialElement) : Prop where
  formula : p.formula = p'.formula
  body : Term.Matches C V (· = ·) p.body p'.body
  cof : p.cof = p'.cof

omit hC in
/-- Systems that match give corresponding partial elements. -/
theorem partialElements_agrees (h : C.Contexts V ctx ctx') {fs fs' : List (Face × Term)}
    (hfs : Term.BranchesMatch C V (· = ·) fs fs') :
    C.Agrees (List.Forall₂ (C.PartsMatch V)) (Typing.partialElements ctx fs)
      (Typing.partialElements ctx' fs') := by
  induction fs generalizing fs' with
  | nil =>
    cases hfs
    exact .pure .nil
  | cons face rest ih =>
    cases hfs with
    | cons hφ hu hrest =>
      have hcof : C.Dims (· = ·) ctx.dims ctx'.dims := h.dims ▸ .refl ctx.dims
      refine (ofFault_inStep (hcof.cofibration hφ)).agrees.bind fun c c' hc => ?_
      refine (ih hrest).bind fun ps ps' hps => .pure (.cons ?_ hps)
      exact ⟨hφ.eq fun _ _ hij => hij, hu.body, hc⟩

/-- Partial elements that correspond are compared alike on one clause of their overlap. -/
theorem checkOverlapOn_agrees (h : C.Contexts V ctx ctx') {p p' q q' : Typing.PartialElement}
    (hp : C.PartsMatch V p p') (hq : C.PartsMatch V q q') (c : Clause) :
    C.Agrees (fun _ _ => True) (Typing.checkOverlapOn d ctx p q c)
      (Typing.checkOverlapOn d ctx' p' q' c) := by
  unfold Typing.checkOverlapOn
  rw [← h.dims, ← h.freshDim, ← h.dimDepth]
  refine (value_agrees d h _ hp.body).bind fun u u' hu => ?_
  refine (value_agrees d h _ hq.body).bind fun v v' hv => ?_
  refine (convertible_inStep hC h.depth d.frames d.meter _ hu hv).agrees.bind fun b b' hb => ?_
  subst hb
  split
  · exact .pure trivial
  · exact .throw rfl

/-- Partial elements that correspond are compared alike with each other. -/
theorem checkOverlaps_agrees (h : C.Contexts V ctx ctx') {ps ps' : List Typing.PartialElement}
    (hps : List.Forall₂ (C.PartsMatch V) ps ps') :
    C.Agrees (fun _ _ => True) (Typing.checkOverlaps d ctx ps)
      (Typing.checkOverlaps d ctx' ps') := by
  induction hps with
  | nil => exact .pure trivial
  | cons hp hrest ih =>
    refine Agrees.bind (Agrees.forM (fun q q' hq => ?_) hrest) fun _ _ _ => ih
    unfold Typing.checkOverlap
    rw [← hp.cof, ← hq.cof]
    exact .forM_self (checkOverlapOn_agrees d hC h hp hq) _

/-- A partial element is compared with the base alike, on one clause of its face. -/
theorem checkBaseOn_agrees (h : C.Contexts V ctx ctx') (source : Dim) {base base' : Term}
    (hbase : Term.Matches C V (· = ·) base base') {p p' : Typing.PartialElement}
    (hp : C.PartsMatch V p p') (c : Clause) :
    C.Agrees (fun _ _ => True) (Typing.checkBaseOn d ctx source base p c)
      (Typing.checkBaseOn d ctx' source base' p' c) := by
  unfold Typing.checkBaseOn
  rw [← h.dims]
  refine (ofFault_inStep_refl (fun _ => rfl) _).agrees.bind fun r r' hr => ?_
  subst hr
  refine (value_agrees d h _ hp.body).bind fun u u' hu => ?_
  refine (value_agrees d h _ hbase).bind fun v v' hv => ?_
  refine (conv_agrees d hC h hu hv).bind fun b b' hb => ?_
  subst hb
  split
  · exact .pure trivial
  · exact .throw rfl

/-- Systems that match agree with each other and with the base, on both sides or on neither. -/
theorem checkAgreement_agrees (h : C.Contexts V ctx ctx') (source : Dim)
    {fs fs' : List (Face × Term)} (hfs : Term.BranchesMatch C V (· = ·) fs fs')
    {base base' : Term} (hbase : Term.Matches C V (· = ·) base base') :
    C.Agrees (fun _ _ => True) (Typing.checkAgreement d ctx source fs base)
      (Typing.checkAgreement d ctx' source fs' base') := by
  unfold Typing.checkAgreement
  split
  · refine (partialElements_agrees h hfs).bind fun ps ps' hps => ?_
    refine (checkOverlaps_agrees d hC h hps).bind fun _ _ _ => ?_
    refine .forM (fun p p' hp => ?_) hps
    unfold Typing.checkBase
    rw [← hp.cof]
    exact .forM_self (checkBaseOn_agrees d hC h source hbase hp) _
  · exact .pure trivial

/-! ## Judgments -/

omit hC

variable (C V) in
/-- The terms are judged alike, in corresponding contexts and against corresponding goals. -/
def JudgedAlike (t t' : Term) : Prop :=
  ∀ {ctx ctx' : Context}, C.Contexts V ctx ctx' → ∀ {goal goal' : Option Value},
    Option.Rel C.Values goal goal' →
      C.Agrees C.Values (Typing.judge d t ctx goal) (Typing.judge d t' ctx' goal')

include hC

/-- Two elements are checked against a type, plain or smooth. -/
theorem pathType_agrees {a a' l l' r r' : Term} (hmatch : Term.Matches C V (· = ·) a a')
    (ha : C.JudgedAlike V d a a') (hl : C.JudgedAlike V d l l') (hr : C.JudgedAlike V d r r')
    (h : C.Contexts V ctx ctx') {goal goal' : Option Value}
    (hgoal : Option.Rel C.Values goal goal') :
    C.Agrees C.Values
      (do let level ← Typing.universeLevel d ctx (← Typing.judge d a ctx none)
          let v ← Typing.eval d ctx a
          let _ ← Typing.judge d l ctx (some v)
          let _ ← Typing.judge d r ctx (some v)
          Typing.conclude d ctx goal (.univ level))
      (do let level ← Typing.universeLevel d ctx' (← Typing.judge d a' ctx' none)
          let v ← Typing.eval d ctx' a'
          let _ ← Typing.judge d l' ctx' (some v)
          let _ ← Typing.judge d r' ctx' (some v)
          Typing.conclude d ctx' goal' (.univ level)) := by
  refine (ha h .none).bind fun ty ty' hty => ?_
  refine (universeLevel_agrees d h hty).bind fun i i' hi => ?_
  refine (eval_agrees d h hmatch).bind fun v v' hv => ?_
  refine (hl h (.some hv)).bind fun _ _ _ => (hr h (.some hv)).bind fun _ _ _ => ?_
  subst hi
  exact conclude_agrees d hC h hgoal .univ

omit hC in
/-- A Kan operation finds the family and the two points that it goes between. -/
theorem kanLine_agrees {a a' : Term} (hmatch : Term.Matches C V (Under (· = ·)) a a')
    (ha : C.JudgedAlike V d a a') (h : C.Contexts V ctx ctx') (source target : Dim)
    {f g : Line → Interval → Interval → Run Value}
    (hfg : ∀ line line' r r', C.Lines line line' → C.Agrees C.Values (f line r r') (g line' r r')) :
    C.Agrees C.Values
      (do let _ ← Typing.universeLevel d ctx.extendDim (← Typing.judge d a ctx.extendDim none)
          Typing.checkDim ctx source
          Typing.checkDim ctx target
          let line ← Eval.closeFamily a ctx.env ctx.dims
          let r ← Run.ofFault (IntervalEnv.resolve ctx.dims source)
          let r' ← Run.ofFault (IntervalEnv.resolve ctx.dims target)
          f line r r')
      (do let _ ← Typing.universeLevel d ctx'.extendDim (← Typing.judge d a' ctx'.extendDim none)
          Typing.checkDim ctx' source
          Typing.checkDim ctx' target
          let line ← Eval.closeFamily a' ctx'.env ctx'.dims
          let r ← Run.ofFault (IntervalEnv.resolve ctx'.dims source)
          let r' ← Run.ofFault (IntervalEnv.resolve ctx'.dims target)
          g line r r') := by
  refine (ha h.extendDim .none).bind fun ty ty' hty => ?_
  refine (universeLevel_agrees d h.extendDim hty).bind fun _ _ _ => ?_
  refine (checkDim_agrees h source).bind fun _ _ _ => ?_
  refine (checkDim_agrees h target).bind fun _ _ _ => ?_
  rw [← h.dims]
  refine (closeFamily_inStep h.env (.refl ctx.dims) hmatch).agrees.bind fun line line' hline => ?_
  refine (ofFault_inStep_refl (fun _ => rfl) _).agrees.bind fun r _ hr => ?_
  refine (ofFault_inStep_refl (fun _ => rfl) _).agrees.bind fun r' _ hr' => ?_
  subst hr hr'
  exact hfg line line' r r' hline

end Rules

mutual

/-- Matching terms are judged alike. -/
theorem judge_agrees {C : Correspondence} (hC : BiUnique C.level) (d : Derivation) :
    ∀ (t : Term) {V : Int → Int → Prop} {t' : Term},
      Term.Matches C V (· = ·) t t' → C.JudgedAlike V d t t'
  | .univ _, _, _, .univ => fun h _ _ hgoal => conclude_agrees d hC h hgoal .univ
  | .var _, _, _, .var hij => fun h _ _ hgoal =>
    (ofFault_inStep (h.find hij)).agrees.bind fun _ _ hb => conclude_agrees d hC h hgoal hb
  | .pi x a b, _, .pi y _ _, .pi _ ha hb => by
    intro h goal goal' hgoal
    unfold Typing.judge
    refine (judge_agrees hC d a ha h .none).bind fun ty ty' hty => ?_
    refine (universeLevel_agrees d h hty).bind fun i _ hi => ?_
    refine (eval_agrees d h ha).bind fun v v' hv => ?_
    have hinner := h.extend x y hv
    refine (judge_agrees hC d b hb hinner .none).bind fun ty ty' hty => ?_
    refine (universeLevel_agrees d hinner hty).bind fun j _ hj => ?_
    subst hi hj
    exact conclude_agrees d hC h hgoal .univ
  | .lam _ b, _, _, .lam _ hb => by
    intro h goal goal' hgoal
    unfold Typing.judge
    cases hgoal with
    | none => exact .throw rfl
    | some hv =>
      have refuse := refuse_agrees d (R := C.Values) h hv
        (f := fun t => .typeMismatch (.term t) .function) fun _ _ => rfl
      cases hv with
      | pi _ ha hc =>
        refine (instantiate_agrees d hc (.value (h.nextVar ha))).bind fun ty ty' hty => ?_
        exact judge_agrees hC d b hb (h.extend _ _ ha) (.some hty)
      | _ => exact refuse
  | .app f a, _, _, .app hf ha => by
    intro h goal goal' hgoal
    unfold Typing.judge
    refine (judge_agrees hC d f hf h .none).bind fun ty ty' hty => ?_
    have refuse := refuse_agrees d (R := C.Values) h hty
      (f := fun t => .typeMismatch .functionType (.term t)) fun _ _ => rfl
    cases hty with
    | pi _ hdom hc =>
      refine (judge_agrees hC d a ha h (.some hdom)).bind fun _ _ _ => ?_
      refine (eval_agrees d h ha).bind fun v v' hv => ?_
      refine (instantiate_agrees d hc (.value hv)).bind fun ty ty' hty => ?_
      exact conclude_agrees d hC h hgoal hty
    | _ => exact refuse
  | .path a l r, _, _, .path ha hl hr => by
    intro h goal goal' hgoal
    unfold Typing.judge
    exact pathType_agrees d hC ha (judge_agrees hC d a ha) (judge_agrees hC d l hl)
      (judge_agrees hC d r hr) h hgoal
  | .pathLam _ b, _, _, .pathLam _ hb => by
    intro h goal goal' hgoal
    unfold Typing.judge
    cases hgoal with
    | none => exact .throw rfl
    | some hv =>
      have refuse := refuse_agrees d (R := C.Values) h hv
        (f := fun t => .typeMismatch (.term t) .path) fun _ _ => rfl
      cases hv with
      | path ha hl hr =>
        refine (judge_agrees hC d b hb.body h.extendDim (.some ha)).bind fun _ _ _ => ?_
        exact (checkEnds_agrees d hC h hb.body hl hr).bind fun _ _ _ => .pure ha
      | smoothPath ha hl hr =>
        refine (judge_agrees hC d b hb.body h.extendDim (.some ha)).bind fun _ _ _ => ?_
        exact (checkEnds_agrees d hC h hb.body hl hr).bind fun _ _ _ => .pure ha
      | _ => exact refuse
  | .pathApp p r, _, _, .pathApp hp hr => by
    intro h goal goal' hgoal
    obtain rfl := hr.eq fun _ _ hij => hij
    unfold Typing.judge
    refine (checkDim_agrees h r).bind fun _ _ _ => ?_
    refine (judge_agrees hC d p hp h .none).bind fun ty ty' hty => ?_
    have refuse := refuse_agrees d (R := C.Values) h hty
      (f := fun t => .typeMismatch .pathType (.term t)) fun _ _ => rfl
    cases hty with
    | path ha _ _ => exact conclude_agrees d hC h hgoal ha
    | smoothPath ha _ _ => exact conclude_agrees d hC h hgoal ha
    | _ => exact refuse
  | .smoothPath order a l r, _, _, .smoothPath ha hl hr => by
    intro h goal goal' hgoal
    unfold Typing.judge
    refine (checkOrder_agrees d.settings.maxSmoothOrder order).bind fun _ _ _ => ?_
    exact pathType_agrees d hC ha (judge_agrees hC d a ha) (judge_agrees hC d l hl)
      (judge_agrees hC d r hr) h hgoal
  | .comp s t a fs b, _, _, .comp hs ht ha hfs hb => by
    intro h goal goal' hgoal
    obtain rfl := hs.eq fun _ _ hij => hij
    obtain rfl := ht.eq fun _ _ hij => hij
    unfold Typing.judge
    apply kanLine_agrees d ha (judge_agrees hC d a ha.body) h
    intro line line' r r' hline
    rw [← h.freshDim]
    refine (lineAt_agrees d hline r).bind fun start start' hstart => ?_
    refine (judge_agrees hC d b hb h (.some hstart)).bind fun _ _ _ => ?_
    refine (lineAt_agrees d hline _).bind fun along along' halong => ?_
    refine (judgeFaces_agrees hC d fs hfs h halong).bind fun _ _ _ => ?_
    refine (checkAgreement_agrees d hC h s hfs hb).bind fun _ _ _ => ?_
    exact (lineAt_agrees d hline r').bind fun ty ty' hty => conclude_agrees d hC h hgoal hty
  | .coe s t a b, _, _, .coe hs ht ha hb => by
    intro h goal goal' hgoal
    obtain rfl := hs.eq fun _ _ hij => hij
    obtain rfl := ht.eq fun _ _ hij => hij
    unfold Typing.judge
    apply kanLine_agrees d ha (judge_agrees hC d a ha.body) h
    intro line line' r r' hline
    refine (lineAt_agrees d hline r).bind fun start start' hstart => ?_
    refine (judge_agrees hC d b hb h (.some hstart)).bind fun _ _ _ => ?_
    exact (lineAt_agrees d hline r').bind fun ty ty' hty => conclude_agrees d hC h hgoal hty
  | .hcomp a fs b, _, _, .hcomp ha hfs hb => by
    intro h goal goal' hgoal
    unfold Typing.judge
    refine (judge_agrees hC d a ha h .none).bind fun ty ty' hty => ?_
    refine (universeLevel_agrees d h hty).bind fun _ _ _ => ?_
    refine (eval_agrees d h ha).bind fun v v' hv => ?_
    refine (judge_agrees hC d b hb h (.some hv)).bind fun _ _ _ => ?_
    refine (judgeFaces_agrees hC d fs hfs h hv).bind fun _ _ _ => ?_
    refine (checkAgreement_agrees d hC h .zero hfs hb).bind fun _ _ _ => ?_
    exact conclude_agrees d hC h hgoal hv
  | .missing, _, _, .missing => fun _ _ _ _ => .throw rfl

/-- Systems that match are judged alike, in corresponding contexts and against corresponding types.
-/
theorem judgeFaces_agrees {C : Correspondence} (hC : BiUnique C.level) (d : Derivation) :
    ∀ (fs : List (Face × Term)) {V : Int → Int → Prop} {fs' : List (Face × Term)},
      Term.BranchesMatch C V (· = ·) fs fs' → ∀ {ctx ctx' : Context}, C.Contexts V ctx ctx' →
      ∀ {along along' : Value}, C.Values along along' →
        C.Agrees (fun _ _ => True) (Typing.judgeFaces d fs ctx along)
          (Typing.judgeFaces d fs' ctx' along')
  | [], _, _, .nil, _, _, _, _, _, _ => .pure trivial
  | (φ, u) :: rest, _, _, .cons hφ hu hrest, _, _, h, _, _, halong => by
    obtain rfl := hφ.eq fun _ _ hij => hij
    unfold Typing.judgeFaces
    refine (checkFormula_agrees h φ).bind fun _ _ _ => ?_
    refine (judge_agrees hC d u hu.body h.extendDim (.some halong)).bind fun _ _ _ => ?_
    exact judgeFaces_agrees hC d rest hrest h halong

end

/-! ## The kernel -/

section Kernel

variable {C : Correspondence} {V : Int → Int → Prop} {ctx ctx' : Context} {t t' : Term}

/-- Derivations are opened in step. -/
theorem derivation_inStep (frames : Nat) (settings : Settings) :
    C.InStep (· = ·) (Kernel.derivation frames settings) (Kernel.derivation frames settings) :=
  (openMeter_inStep settings).bind fun _ _ hm => .pure (by rw [hm])

/-- Terms that match are inferred alike, with corresponding types. -/
theorem infer_agrees (hC : BiUnique C.level) (h : C.Contexts V ctx ctx')
    (ht : Term.Matches C V (· = ·) t t') (frames : Nat) (settings : Settings) :
    C.Agrees C.Values (Kernel.infer frames settings ctx t)
      (Kernel.infer frames settings ctx' t') := by
  refine (derivation_inStep frames settings).agrees.bind fun d _ hd => ?_
  subst hd
  exact judge_agrees hC d t ht h .none

/-- Terms that match are checked alike against corresponding types. -/
theorem check_agrees (hC : BiUnique C.level) (h : C.Contexts V ctx ctx')
    (ht : Term.Matches C V (· = ·) t t') {ty ty' : Value} (hty : C.Values ty ty')
    (frames : Nat) (settings : Settings) :
    C.Agrees (fun _ _ => True) (Kernel.check frames settings ctx t ty)
      (Kernel.check frames settings ctx' t' ty') := by
  refine (derivation_inStep frames settings).agrees.bind fun d _ hd => ?_
  subst hd
  exact (judge_agrees hC d t ht h (.some hty)).bind fun _ _ _ => .pure trivial

/-- A type is checked to be one, and a term against it, in corresponding contexts alike. -/
theorem checkTerm_agrees (hC : BiUnique C.level) (h : C.Contexts V ctx ctx')
    (ht : Term.Matches C V (· = ·) t t') {e e' : Term} (he : Term.Matches C V (· = ·) e e')
    (frames : Nat) (settings : Settings) :
    C.Agrees (fun _ _ => True) (Kernel.checkTerm frames settings ctx t e)
      (Kernel.checkTerm frames settings ctx' t' e') := by
  refine (derivation_inStep frames settings).agrees.bind fun d _ hd => ?_
  subst hd
  have huniverse : C.Agrees (· = ·) (Typing.inferUniverse d ctx e)
      (Typing.inferUniverse d ctx' e') :=
    (judge_agrees hC d e he h .none).bind fun _ _ hty => universeLevel_agrees d h hty
  refine huniverse.bind fun _ _ _ => (eval_agrees d h he).bind fun ty ty' hty => ?_
  exact (judge_agrees hC d t ht h (.some hty)).bind fun _ _ _ => .pure trivial

end Kernel

end Correspondence

end SmoothCubical
