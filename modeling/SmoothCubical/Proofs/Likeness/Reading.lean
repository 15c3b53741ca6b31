import SmoothCubical.Readback
import SmoothCubical.Proofs.Likeness.Evaluation

/-!
# Reading back alike

Where no probes are in play, alike values read back to the same term (`quote_alike`), and a session
that keeps no values spends no less on it than another (`quote_strict`).
-/

set_option autoImplicit false

namespace SmoothCubical

namespace Readback

open Run

variable {m k : MeterId} {f : Nat}

section Rules

variable {read : Reader} [∀ d e v, Advancing m (read d e v)]

instance (d e : Int) (a : Line) : Advancing m (line (Eval.run f) read k d e a) := by
  unfold line
  infer_instance

instance (d e : Int) (fs : List Tube) : Advancing m (tubes (Eval.run f) read k d e fs) := by
  induction fs with
  | nil =>
    unfold tubes
    infer_instance
  | cons tube rest ih =>
    unfold tubes
    infer_instance

instance (d e : Int) (n : Neutral) : Advancing m (neutral (Eval.run f) read k d e n) := by
  cases n <;>
  · unfold neutral
    infer_instance

instance (d e : Int) (v : Value) : Advancing m (value (Eval.run f) read k d e v) := by
  cases v <;>
  · unfold value
    infer_instance

end Rules

instance (d e : Int) (v : Value) : Advancing m (quote f k d e v) := by
  induction f generalizing d e v with
  | zero =>
    unfold quote
    infer_instance
  | succ f ih =>
    unfold quote
    infer_instance

instance (d e : Int) (v w : Value) : Advancing m (convertible f k d e v w) := by
  unfold convertible
  infer_instance

end Readback

namespace Likeness

open Readback

/-- Readers that read alike values back to the same term. -/
def Readers (L : Likeness) (strict : Prop) (limit : Nat) (read read' : Reader) : Prop :=
  ∀ (d e : Int) (v v' : Value) (s s' : Session), 0 ≤ e → L.Values v v' →
    L.Alike strict limit (· = ·) (read d e v) s (read' d e v') s'

section Rules

variable {L : Likeness} [L.Faithful] {strict : Prop} {limit f f' : Nat} {s s' : Session}
  {read read' : Reader}
  [∀ d e v, Run.Advancing L.meter (read d e v)] [∀ d e v, Run.Advancing L.meter (read' d e v)]
  (hcall : Calls strict limit f f') (hread : L.Readers strict limit read read') {d e : Int}
  (he : 0 ≤ e)

section

include hcall hread he

/-- Families that are alike read back to the same term, where no probes are in play. -/
theorem alike_line (hL : L.Exact) {a a' : Line} (ha : L.Lines a a') :
    L.Alike strict limit (· = ·) (line (Eval.run f) read L.meter d e a) s
      (line (Eval.run f') read' L.meter d e a') s' := by
  apply (alike_lineAt hcall ha (points_nonneg hL he)).bind
  intro ty t ty' t' _ _ hty
  exact hread d (e + 1) ty ty' t t' (by omega) hty

/-- Partial elements that are alike read back to the same system, where no probes are in play. -/
theorem alike_tubes (hL : L.Exact) {fs fs' : List Tube} (hfs : L.Tubes fs fs') :
    L.Alike strict limit (· = ·) (tubes (Eval.run f) read L.meter d e fs) s
      (tubes (Eval.run f') read' L.meter d e fs') s' := by
  induction fs generalizing fs' s s' with
  | nil =>
    cases hfs with
    | nil => exact .pure rfl
    | skip' hprobes => exact (hprobes hL).elim
  | cons tube rest ih =>
    cases hfs with
    | skip hprobes => exact (hprobes hL).elim
    | skip' hprobes => exact (hprobes hL).elim
    | @cons φ φ' u u' fs fs' _ hφ hu hfs =>
      obtain rfl := hφ hL
      apply (Alike.ofFault (.refl (fun _ => rfl) (φ.toFace e))).bind
      rintro face t₁ _ t₁' - - rfl
      apply Alike.bind
        (hcall L _ _ t₁ t₁' (.instantiateAt hu (points_nonneg hL he)) trivial trivial)
      intro v t₂ v' t₂' _ _ hv
      apply (hread d (e + 1) v v' t₂ t₂' (by omega) hv).bind
      rintro body t₃ _ t₃' - - rfl
      apply (ih hfs).bind
      rintro rest t₄ _ t₄' - - rfl
      exact .pure rfl

/-- Stuck computations that are alike read back to the same term, where no probes are in play. -/
theorem alike_neutral (hL : L.Exact) {n n' : Neutral} (hn : L.Neutrals n n') :
    L.Alike strict limit (· = ·) (neutral (Eval.run f) read L.meter d e n) s
      (neutral (Eval.run f') read' L.meter d e n') s' := by
  have point {r r' : Interval} (hr : L.Points r r') (s s' : Session) :
      L.Alike strict limit (· = ·) (Run.ofFault (dim e r)) s (Run.ofFault (dim e r')) s' := by
    rw [hr.eq hL]
    exact .ofFault (.refl (fun _ => rfl) _)
  cases hn with
  | @var level =>
    apply (Alike.ofFault (.refl (fun _ => rfl) (indexOfLevel d level))).bind
    rintro i t₁ _ t₁' - - rfl
    exact .pure rfl
  | @app n n' v v' hn hv =>
    apply (hread d e (.stuck n none) (.stuck n' none) s s' he (.untyped hn)).bind
    rintro g t₁ _ t₁' - - rfl
    apply (hread d e v v' t₁ t₁' he hv).bind
    rintro a t₂ _ t₂' - - rfl
    exact .pure rfl
  | @pathApp n n' r r' hn hr =>
    apply (hread d e (.stuck n none) (.stuck n' none) s s' he (.untyped hn)).bind
    rintro p t₁ _ t₁' - - rfl
    apply (point hr t₁ t₁').bind
    rintro k t₂ _ t₂' - - rfl
    exact .pure rfl
  | @comp r r' t t' a a' fs fs' v v' hr ht ha hfs hv =>
    apply (alike_line hcall hread he hL ha).bind
    rintro a t₁ _ t₁' - - rfl
    apply (hread d e v v' t₁ t₁' he hv).bind
    rintro b t₂ _ t₂' - - rfl
    apply (alike_tubes hcall hread he hL hfs).bind
    rintro fs t₃ _ t₃' - - rfl
    apply (point ht t₃ t₃').bind
    rintro target t₄ _ t₄' - - rfl
    apply (point hr t₄ t₄').bind
    rintro source t₅ _ t₅' - - rfl
    exact .pure rfl
  | @coe r r' t t' a a' v v' hr ht ha hv =>
    apply (alike_line hcall hread he hL ha).bind
    rintro a t₁ _ t₁' - - rfl
    apply (point hr t₁ t₁').bind
    rintro source t₂ _ t₂' - - rfl
    apply (point ht t₂ t₂').bind
    rintro target t₃ _ t₃' - - rfl
    apply (hread d e v v' t₃ t₃' he hv).bind
    rintro b t₄ _ t₄' - - rfl
    exact .pure rfl

end

/-- One layer of reading back ends alike if what it calls does. -/
theorem alike_value (hcall : Calls strict limit f f') (hread : L.Readers strict limit read read')
    (hL : L.Exact) :
    L.Readers strict limit (value (Eval.run f) read L.meter)
      (value (Eval.run f') read' L.meter) := by
  intro d e v v' s s' he hv
  cases hv with
  | univ => exact .pure rfl
  | @pi x a a' b b' ha hb =>
    have hy : L.Entries (.value (.generic d (some a))) (.value (.generic d (some a'))) :=
      .value (.typed .var ha)
    apply Alike.bind (hcall L _ _ s s' (.instantiate hb hy) trivial trivial)
    intro w t₁ w' t₁' _ _ hw
    apply (hread d e a a' t₁ t₁' he ha).bind
    rintro domain t₂ _ t₂' - - rfl
    apply (hread (d + 1) e w w' t₂ t₂' he hw).bind
    rintro codomain t₃ _ t₃' - - rfl
    exact .pure rfl
  | @lam x b b' hb =>
    have hy : L.Entries (.value (.generic d none)) (.value (.generic d none)) :=
      .value (.untyped .var)
    apply Alike.bind (hcall L _ _ s s' (.instantiate hb hy) trivial trivial)
    intro w t₁ w' t₁' _ _ hw
    apply (hread (d + 1) e w w' t₁ t₁' he hw).bind
    rintro body t₂ _ t₂' - - rfl
    exact .pure rfl
  | @path a a' l l' r r' ha hl hr =>
    apply (hread d e a a' s s' he ha).bind
    rintro ty t₁ _ t₁' - - rfl
    apply (hread d e l l' t₁ t₁' he hl).bind
    rintro left t₂ _ t₂' - - rfl
    apply (hread d e r r' t₂ t₂' he hr).bind
    rintro right t₃ _ t₃' - - rfl
    exact .pure rfl
  | @smoothPath order a a' l l' r r' ha hl hr =>
    apply (hread d e a a' s s' he ha).bind
    rintro ty t₁ _ t₁' - - rfl
    apply (hread d e l l' t₁ t₁' he hl).bind
    rintro left t₂ _ t₂' - - rfl
    apply (hread d e r r' t₂ t₂' he hr).bind
    rintro right t₃ _ t₃' - - rfl
    exact .pure rfl
  | @pathLam x b b' hb =>
    apply Alike.bind (hcall L _ _ s s' (.instantiateAt hb (points_nonneg hL he)) trivial trivial)
    intro w t₁ w' t₁' _ _ hw
    apply (hread d (e + 1) w w' t₁ t₁' (by omega) hw).bind
    rintro body t₂ _ t₂' - - rfl
    exact .pure rfl
  | untyped hn => exact alike_neutral hcall hread he hL hn
  | typed hn _ => exact alike_neutral hcall hread he hL hn

end Rules

variable {L : Likeness} [L.Faithful]

/-- Alike values read back to the same term, unless one of the runs is cut off. -/
theorem quote_alike (hL : L.Exact) (limit f f' : Nat) :
    L.Readers False limit (quote f L.meter) (quote f' L.meter) := by
  induction f generalizing f' with
  | zero =>
    intro d e v v' s s' _ _ _ _ _ _
    exact .cut (.nonTermination .frames)
  | succ f ih =>
    cases f' with
    | zero =>
      intro d e v v' s s' _ _ _ _ _ _
      exact .cut' (.nonTermination .frames) False.elim
    | succ f' => exact alike_value (run_alike limit f f') (ih f') hL

/-- A session that keeps no values spends no less than any other to read a value back, and the
other is not cut off before it. -/
theorem quote_strict (hL : L.Exact) (limit f : Nat) :
    L.Readers True limit (quote f L.meter) (quote f L.meter) := by
  induction f with
  | zero =>
    intro d e v v' s s' _ _ _ _ _ _
    exact .cut (.nonTermination .frames)
  | succ f ih => exact alike_value (run_strict limit f) ih hL

/-- Values that are alike read back to the same term, where no probes are in play. -/
theorem quote_readers (hL : L.Exact) {strict : Prop} {f f' : Nat} (hf : strict → f' = f)
    (limit : Nat) : L.Readers strict limit (quote f L.meter) (quote f' L.meter) := by
  by_cases h : strict
  · obtain rfl := hf h
    rw [eq_true h]
    exact quote_strict hL limit f'
  · rw [eq_false h]
    exact quote_alike hL limit f f'

/-- Values that are alike convert with values that the others convert with. -/
theorem alike_convertible (hL : L.Exact) {strict : Prop} {limit f f' : Nat}
    (hf : strict → f' = f) {s s' : Session} {d e : Int} (he : 0 ≤ e) {v v' w w' : Value}
    (hv : L.Values v v') (hw : L.Values w w') :
    L.Alike strict limit (· = ·) (convertible f L.meter d e v w) s
      (convertible f' L.meter d e v' w') s' := by
  apply (quote_readers hL hf limit d e v v' s s' he hv).bind
  rintro n t₁ _ t₁' - - rfl
  apply (quote_readers hL hf limit d e w w' t₁ t₁' he hw).bind
  rintro n' t₂ _ t₂' - - rfl
  exact .pure rfl

end Likeness

end SmoothCubical
