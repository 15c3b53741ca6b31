import SmoothCubical.Proofs.ConstantFamily
import SmoothCubical.Proofs.Evaluator.PathBoundary

/-!
# Constant families that are looked up again

A family that is flagged constant is the same type at any two points if it is looked up at both from
one session (`constant_family_sound`). Calls come one after the other, however, and the first leaves
a session in which more arguments were computed and more probes drawn. A family of the evaluator
does not notice: it reads back the same in every session of the evaluator, at every point
(`constant_family_again`). A family with closures of another evaluator may, since these draw the
probes of their own.
-/

set_option autoImplicit false

namespace SmoothCubical

open Correspondence

/-! ## Failures up to the numbers of probes -/

namespace Correspondence

variable {C : Correspondence}

mutual

/-- Values that correspond still do so with the numbers of their probes left out. -/
theorem Values.masked {v v' : Value} : C.Values v v' → C.Values v.masked v'.masked
  | .univ => .univ
  | .pi hx ha hb => .pi hx ha.masked hb
  | .lam hx hb => .lam hx hb
  | .path ha hl hr => .path ha.masked hl.masked hr.masked
  | .smoothPath ha hl hr => .smoothPath ha.masked hl.masked hr.masked
  | .pathLam hx hb => .pathLam hx hb
  | .untyped hn => .untyped hn.masked
  | .typed hn ha => .typed hn.masked ha

/-- Stuck computations that correspond still do so with the numbers of their probes left out. -/
theorem Neutrals.masked {n n' : Neutral} : C.Neutrals n n' → C.Neutrals n.masked n'.masked
  | .var hl => .var hl
  | .app hn hv => .app hn.masked hv.masked
  | .pathApp hn => .pathApp hn.masked
  | .comp ha hfs hv => .comp ha hfs hv.masked
  | .coe ha hv => .coe ha hv.masked

end

/-- Failures that differ in no name and no level differ in no more than the numbers of probes. -/
theorem Failures.alike {e e' : Failure} (h : same.Failures e e') : e.Alike e' := by
  have hmasked : same.Failures e.masked e'.masked := by
    cases h with
    | fault hf => exact .fault hf
    | notFunctionType hv => exact .notFunctionType hv.masked
    | notPathType hv => exact .notPathType hv.masked
    | notFunction hv => exact .notFunction hv.masked
    | notPath hv => exact .notPath hv.masked
    | nonTermination => exact .nonTermination
    | unknownThunk => exact .unknownThunk
  exact ⟨h.told_alike.1, hmasked.told_alike.2⟩

/-- Of two values that correspond, the one reads back as whatever the other does. -/
theorem Values.endAs_quote {v v' : Value} (hv : same.Values v v') {s s' : Session}
    (hs : same.Sessions s s') (k : Nat) (m : MeterId) (d e : Nat)
    {y : EStateM.Result Failure Session Term}
    (h : EndAs (· = ·) (Readback.quote k m d e v' s') y) :
    EndAs (· = ·) (Readback.quote k m d e v s) y := by
  have hlevel (l l' : Int) : same.level l l' ↔ l = l' := Iff.rfl
  have hread := quote_inStep m k (.refl hlevel d) e hv s s' hs
  generalize Readback.quote k m d e v s = x, Readback.quote k m d e v' s' = x' at hread h
  cases hread with
  | ok ht _ =>
    cases ht.eq (fun _ _ hx => hx) (fun _ _ hij => hij.eq hlevel) fun _ _ hij => hij
    cases h with
    | ok heq => exact .ok heq
    | cutOff' => exact .cutOff'
  | error he _ =>
    cases h with
    | error halike => exact .error ⟨he.alike.1.trans halike.1, he.alike.2.trans halike.2⟩
    | cutOff =>
      cases he
      exact .cutOff
    | cutOff' => exact .cutOff'

end Correspondence

/-! ## One look-up after the other -/

open Eval Likeness

section Owned

variable {m : MeterId} {s₀ s s' : Session} {a : Line} {r : Interval}

/-- To look a family of the evaluator up at a point that is no probe leaves a session of the
evaluator. -/
theorem Session.Attends.lineAt (h : s₀.Attends m s) (ha : a.In ((Scope.owned m).during s₀))
    (hr : r.On (0 ≤ ·)) {f : Nat} {ty : Value} {t : Session}
    (hrun : Eval.lineAt (run f) m a r s = .ok ty t) : s₀.Attends m t := by
  cases ha with
  | constant _ =>
    cases hrun
    exact h
  | @varying c _ hc =>
    -- A family over its direction is looked up as a path is taken at a point.
    have hpath : (Value.pathLam "k" c).In ((Scope.owned m).during s₀) := .pathLam hc
    exact h.pathApply hpath hr hrun

/-- A family of the evaluator that was looked up at a point reads back the same if it is looked up
there again. -/
theorem unlessCutOff_lineAt (ha : a.In ((Scope.owned m).during s₀)) (hr : r.On (0 ≤ ·))
    (hs : s₀.Attends m s) {f : Nat} {ty : Value} {t : Session}
    (hrun : lineAt (run f) m a r s = .ok ty t) (hs' : s₀.Attends m s') (f' : Nat) :
    UnlessCutOff False
      (fun ty' t' => ∀ k k' d d' : Nat,
        EndAs (· = ·) (Readback.quote k m d d' ty t) (Readback.quote k' m d d' ty' t'))
      (lineAt (run f') m a r s') := by
  have hsafe {q : Session} (hq : s₀.Attends m q) (n : Nat) :
      Run.Safe True (InScope (.owned m)) (lineAt (run n) m a r) q :=
    safe_lineAt (run_safe n) (S := .owned m) hq.serves.sound rfl (ha.mono (hq.leads.le _)) hr
  apply unlessCutOff_reading hs hs' (hsafe hs f) (hsafe hs' f') ?_ hrun
  rintro L _ rfl hL hholds limit
  apply alike_lineAt (run_alike limit f f') (ha.alike hholds)
  exact points_refl (L.fixed_of_nonneg hL) hr

end Owned

/-- A family of the evaluator that is flagged constant is the same type whenever and wherever it is
looked up. If it was found at one point, in a session of the evaluator, then the session that the
look-up left is one of the evaluator, too; and in this or in any other, at any point, the family
reads back as it did, unless a guard cuts the look-up off. -/
theorem constant_family_again {m : MeterId} {s₀ s : Session} {a : Line} (ha : a.Built)
    (hconst : a.isConstant = true) (hown : a.In ((Scope.owned m).during s₀)) (hbuilt : s.Built)
    (hs : s₀.Attends m s) {r : Interval} (hr : r.On (0 ≤ ·)) {f : Nat} {ty : Value} {t : Session}
    (hrun : lineAt (run f) m a r s = .ok ty t) :
    s₀.Attends m t ∧
    ∀ s' : Session, s₀.Attends m s' → ∀ r' : Interval, r'.On (0 ≤ ·) → ∀ f' : Nat,
      UnlessCutOff False
        (fun ty' t' => ∀ k k' d d' : Nat,
          EndAs (· = ·) (Readback.quote k m d d' ty t) (Readback.quote k' m d d' ty' t'))
        (lineAt (run f') m a r' s') := by
  refine ⟨hs.lineAt hown hr hrun, ?_⟩
  intro s' hs' r' hr' f'
  -- From the same session, the family is found at the other point as it was at the first.
  have hstep : same.InStep same.Values (lineAt (run f) m a r) (lineAt (run f) m a r') :=
    lineAt_inStep (run_inStep f) m ha.lines (.inl hconst)
  have hmoved := hstep s s hbuilt.sessions
  rw [hrun] at hmoved
  generalize hrun' : lineAt (run f) m a r' s = x at hmoved
  cases hmoved with
  | ok hty ht =>
    apply (unlessCutOff_lineAt hown hr' hs hrun' hs' f').mono
    intro ty' t' hreads k k' d d'
    exact hty.endAs_quote ht k m d d' (hreads k k' d d')

/-- The codomains of a constant family of function types, looked up at one end and then at the
other. -/
theorem constant_family_again_arrow :
    ∃ (ty : Value) (t : Session),
      lineAt (run 20) 0 arrowCodomains .zero freshSession = .ok ty t ∧
      UnlessCutOff False
        (fun ty' t' => ∀ k k' d d' : Nat,
          EndAs (· = ·) (Readback.quote k 0 d d' ty t) (Readback.quote k' 0 d d' ty' t'))
        (lineAt (run 20) 0 arrowCodomains .one t) := by
  obtain ⟨ty, t, hrun⟩ : ∃ ty t,
      lineAt (run 20) 0 arrowCodomains .zero freshSession = .ok ty t :=
    ⟨_, _, rfl⟩
  have hserves : freshSession.Serves 0 := Session.serves_single _ _
  have hfamily : arrowFamily.In ((Scope.owned 0).during freshSession) :=
    .varying (.body (List.forall_mem_nil _) (List.forall_mem_nil _) (.inl trivial))
  have hown : arrowCodomains.In ((Scope.owned 0).during freshSession) :=
    .varying (.codomain rfl hfamily (.mk (.varying (.domain rfl hfamily)) trivial .univ))
  have hbuilt : freshSession.Built := by simp [Session.Built, freshSession]
  obtain ⟨ht, hagain⟩ := constant_family_again arrowCodomains_built rfl hown hbuilt
    ⟨hserves, hserves.sound.refl⟩ (r := .zero) trivial hrun
  exact ⟨ty, t, hrun, hagain t ht .one trivial 20⟩

end SmoothCubical
