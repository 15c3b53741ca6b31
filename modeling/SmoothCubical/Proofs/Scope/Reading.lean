import SmoothCubical.Readback
import SmoothCubical.Proofs.Scope.Evaluation
import SmoothCubical.Proofs.Stability.Shape

/-!
# Reading back in scope

A value in scope is read back as a term in scope (`quote_safe`). The scope has to fit the numbers
of variables under which the value is read back: all levels that may occur are in range. Bodies are
read at fresh variables, in the scope that has these in addition.
-/

set_option autoImplicit false

namespace SmoothCubical

/-- The levels that may occur are in range under so many term and interval variables, unless this
is not asked. -/
def Scope.Fits (S : Scope) (depth count : Nat) : Prop :=
  S.lax ∨ (∀ l, S.level l → Index.inScope depth l = true) ∧
    ∀ l, S.point l → Index.inScope count l = true

/-- A level in scope stays so under one more binder. -/
theorem Index.inScope_succ {n : Nat} {l : Int} (h : inScope n l = true) :
    inScope (n + 1 : Nat) l = true := by
  simp only [inScope, Bool.and_eq_true, decide_eq_true_eq] at h ⊢
  omega

/-- Nothing is in scope of the empty context. -/
theorem Index.not_inScope_zero (l : Int) : inScope (0 : Nat) l ≠ true := by
  simp only [inScope, ne_eq, Bool.and_eq_true, decide_eq_true_eq]
  omega

/-- The level of the variable that is bound next is in scope under its binder. -/
theorem Index.inScope_self (n : Nat) : inScope (n + 1 : Nat) n = true := by
  simp only [inScope, Bool.and_eq_true, decide_eq_true_eq]
  omega

namespace Scope

variable {S : Scope} {depth count : Nat}

/-- A scope that can be read back at a depth can be so with the variable of that depth, one deeper.
-/
theorem Fits.binding (h : S.Fits depth count) : (S.binding depth).Fits (depth + 1) count := by
  refine h.imp id fun h => ⟨?_, h.2⟩
  rintro l (hl | rfl)
  · exact Index.inScope_succ (h.1 l hl)
  · exact Index.inScope_self depth

/-- A scope that can be read back at a depth can be so with one more interval variable. -/
theorem Fits.probing (h : S.Fits depth count) :
    (S.probing (.var count)).Fits depth (count + 1) := by
  refine h.imp id fun h => ⟨h.1, ?_⟩
  rintro l (hl | hl)
  · exact Index.inScope_succ (h.2 l hl)
  · cases hl
    exact Index.inScope_self count

end Scope

namespace Readback

open Run Eval

/-- Values in scope are read back in scope. -/
def SafeReader (m : MeterId) (read : Reader) : Prop :=
  ∀ {S : Scope} {s : Session} {depth count : Nat} {v : Value}, s.Sound → S.meter m →
    S.Fits depth count → v.In (S.during s) →
    Safe S.lax (fun _ t => S.Scoped depth count t) (read depth count v) s

section Rules

variable {call : Call} {read : Reader} {m : MeterId} (hcall : SafeCall call)
  (hread : SafeReader m read) {S : Scope} {s : Session} {depth count : Nat}

/-- A level in scope is read back to an index in scope. -/
theorem safe_indexOfLevel (hs : s.Sound) (hfits : S.Fits depth count) {l : Int}
    (hl : S.level l) :
    Safe S.lax (fun _ i => S.Scoped depth count (.var i)) (ofFault (indexOfLevel depth l)) s := by
  apply safe_ofFault hs
  · intro i hi
    exact .inr (inScope_of_indexOfLevel hi)
  · refine hfits.imp id fun h => ⟨Index.flip depth l, ?_⟩
    rw [indexOfLevel, if_pos (h.1 l hl)]

/-- A point in scope is read back to a dimension in scope. -/
theorem safe_dim (hs : s.Sound) (hfits : S.Fits depth count) {r : Interval}
    (hr : r.On S.point) :
    Safe S.lax (fun _ d => S.ScopedDim count d) (ofFault (dim count r)) s := by
  apply safe_ofFault hs
  · intro d hd
    exact .inr (inScope_of_dim hd)
  · refine hfits.imp id fun h => ?_
    cases r with
    | zero => exact ⟨.zero, rfl⟩
    | one => exact ⟨.one, rfl⟩
    | var l =>
      refine ⟨.var (Index.flip count l), ?_⟩
      rw [dim, if_pos (h.2 l hr)]

/-- A cofibration in scope is read back to a face formula in scope. -/
theorem safe_toFace (hs : s.Sound) (hfits : S.Fits depth count) {φ : Cofibration}
    (hφ : S.Covers φ) :
    Safe S.lax (fun _ ψ => S.lax ∨ ψ.inScope count = true) (ofFault (φ.toFace count)) s := by
  have hface (hlax : ¬ S.lax) : ∃ ψ, φ.toFace count = .ok ψ ∧ ψ.inScope count = true := by
    have hrange := (hfits.resolve_left hlax).2
    refine Cofibration.toFace_answered (Cofibration.On.mono (fun l hl => hrange l ?_) hφ)
    exact hl.resolve_right fun h => hlax h.1
  by_cases hlax : S.lax
  · apply safe_ofFault hs
    · intro ψ _
      exact .inl hlax
    · exact .inl hlax
  · obtain ⟨ψ, hψ, hscope⟩ := hface hlax
    rw [hψ]
    exact safe_pure hs (.inr hscope)

include hcall hread

/-- A family in scope is read back safely, to a term in scope under its direction. -/
theorem safe_line (hs : s.Sound) (hm : S.meter m) (hfits : S.Fits depth count) {a : Line}
    (ha : a.In (S.during s)) :
    Safe S.lax (fun _ t => S.Scoped depth (count + 1) t) (line call read m depth count a) s := by
  have ha' : a.In ((S.probing (.var count)).during s) := ha.mono ((S.during s).le_probing _)
  apply (safe_lineAt hcall (S := S.probing (.var count)) hs hm ha' (S.on_probing _)).bind
  intro ty s₁ hs₁ hty
  exact hread (S := S.probing (.var count)) hs₁.sound hm hfits.probing hty

/-- Partial elements in scope are read back safely, to a system in scope. -/
theorem safe_tubes (hs : s.Sound) (hm : S.meter m) (hfits : S.Fits depth count)
    {faces : List Tube} (hfaces : (S.during s).Tubes faces) :
    Safe S.lax (fun _ ts => S.ScopedBranches depth count ts)
      (tubes call read m depth count faces) s := by
  induction faces generalizing s with
  | nil => exact safe_pure hs (.inr rfl)
  | cons face rest ih =>
    obtain ⟨φ, u⟩ := face
    obtain ⟨hφ, hu⟩ := hfaces (φ, u) List.mem_cons_self
    apply (safe_toFace hs hfits hφ).bind
    intro ψ s₁ hs₁ hψ
    have hu₁ : u.In ((S.probing (.var count)).during s₁) :=
      (hu.mono (hs₁.le S)).mono ((S.during s₁).le_probing _)
    apply (hcall (S := S.probing (.var count)) hs₁.sound hm
      (.instantiateAt hu₁ (S.on_probing _))).bind
    intro v s₂ hs₂ hv
    apply (hread (S := S.probing (.var count)) hs₂.sound hm hfits.probing hv).bind
    intro t s₃ hs₃ ht
    have hrest : (S.during s₃).Tubes rest := fun f hf =>
      (hfaces.mono (((hs₁.trans hs₂).trans hs₃).le S)) f (List.mem_cons_of_mem _ hf)
    apply (ih hs₃.sound hrest).bind
    intro ts s₄ hs₄ hts
    exact safe_pure hs₄.sound (Scope.scopedBranches_cons.2 ⟨hψ, ht, hts⟩)

/-- A stuck computation in scope is read back safely, to a term in scope. -/
theorem safe_neutral (hs : s.Sound) (hm : S.meter m) (hfits : S.Fits depth count) {n : Neutral}
    (hn : n.In (S.during s)) :
    Safe S.lax (fun _ t => S.Scoped depth count t) (neutral call read m depth count n) s := by
  cases hn with
  | var hl =>
    apply (safe_indexOfLevel hs hfits hl).bind
    intro i s₁ hs₁ hi
    exact safe_pure hs₁.sound hi
  | app hf hv =>
    apply (hread hs hm hfits (.untyped hf)).bind
    intro f s₁ hs₁ hf
    apply (hread hs₁.sound hm hfits (hv.mono (hs₁.le S))).bind
    intro v s₂ hs₂ hv
    exact safe_pure hs₂.sound (Scope.scoped_app.2 ⟨hf, hv⟩)
  | pathApp hp hr =>
    apply (hread hs hm hfits (.untyped hp)).bind
    intro p s₁ hs₁ hp
    apply (safe_dim hs₁.sound hfits hr).bind
    intro d s₂ hs₂ hd
    exact safe_pure hs₂.sound (Scope.scoped_pathApp.2 ⟨hp, hd⟩)
  | comp hr hr' ha hφs hus hv =>
    apply (safe_line hcall hread hs hm hfits ha).bind
    intro a s₁ hs₁ ha
    apply (hread hs₁.sound hm hfits (hv.mono (hs₁.le S))).bind
    intro b s₂ hs₂ hb
    have hfaces : (S.during s).Tubes _ := fun f hf => ⟨hφs f hf, hus f hf⟩
    apply (safe_tubes hcall hread hs₂.sound hm hfits
      (hfaces.mono ((hs₁.trans hs₂).le S))).bind
    intro fs s₃ hs₃ hfs
    apply (safe_dim hs₃.sound hfits hr').bind
    intro d' s₄ hs₄ hd'
    apply (safe_dim hs₄.sound hfits hr).bind
    intro d s₅ hs₅ hd
    exact safe_pure hs₅.sound (Scope.scoped_comp.2 ⟨hd, hd', ha, hfs, hb⟩)
  | coe hr hr' ha hv =>
    apply (safe_line hcall hread hs hm hfits ha).bind
    intro a s₁ hs₁ ha
    apply (safe_dim hs₁.sound hfits hr).bind
    intro d s₂ hs₂ hd
    apply (safe_dim hs₂.sound hfits hr').bind
    intro d' s₃ hs₃ hd'
    apply (hread hs₃.sound hm hfits (hv.mono (((hs₁.trans hs₂).trans hs₃).le S))).bind
    intro b s₄ hs₄ hb
    exact safe_pure hs₄.sound (Scope.scoped_coe.2 ⟨hd, hd', ha, hb⟩)

/-- One layer of reading back is safe in scope if what it calls is. -/
theorem safe_readValue (hs : s.Sound) (hm : S.meter m) (hfits : S.Fits depth count) {v : Value}
    (hv : v.In (S.during s)) :
    Safe S.lax (fun _ t => S.Scoped depth count t) (value call read m depth count v) s := by
  have fresh : (S.binding depth).level depth := .inr rfl
  cases hv with
  | univ => exact safe_pure hs (.inr rfl)
  | pi ha hb =>
    have hle := (S.during s).le_binding depth
    have hy : Entry.In ((S.binding depth).during s) (.value (.generic depth (some _))) :=
      .value (.typed (.var fresh) (ha.mono hle))
    apply (hcall (S := S.binding depth) hs hm (.instantiate (hb.mono hle) hy)).bind
    intro b s₁ hs₁ hb
    apply (hread hs₁.sound hm hfits (ha.mono (hs₁.le S))).bind
    intro a s₂ hs₂ ha
    apply (hread (S := S.binding depth) hs₂.sound hm hfits.binding (hb.mono (hs₂.le _))).bind
    intro b s₃ hs₃ hb
    exact safe_pure hs₃.sound (Scope.scoped_pi.2 ⟨ha, hb⟩)
  | lam hb =>
    have hle := (S.during s).le_binding depth
    have hy : Entry.In ((S.binding depth).during s) (.value (.generic depth none)) :=
      .value (.untyped (.var fresh))
    apply (hcall (S := S.binding depth) hs hm (.instantiate (hb.mono hle) hy)).bind
    intro b s₁ hs₁ hb
    apply (hread (S := S.binding depth) hs₁.sound hm hfits.binding hb).bind
    intro b s₂ hs₂ hb
    exact safe_pure hs₂.sound hb
  | path ha hl hr =>
    apply (hread hs hm hfits ha).bind
    intro a s₁ hs₁ ha
    apply (hread hs₁.sound hm hfits (hl.mono (hs₁.le S))).bind
    intro l s₂ hs₂ hl
    apply (hread hs₂.sound hm hfits (hr.mono ((hs₁.trans hs₂).le S))).bind
    intro r s₃ hs₃ hr
    exact safe_pure hs₃.sound (Scope.scoped_path.2 ⟨ha, hl, hr⟩)
  | smoothPath ha hl hr =>
    apply (hread hs hm hfits ha).bind
    intro a s₁ hs₁ ha
    apply (hread hs₁.sound hm hfits (hl.mono (hs₁.le S))).bind
    intro l s₂ hs₂ hl
    apply (hread hs₂.sound hm hfits (hr.mono ((hs₁.trans hs₂).le S))).bind
    intro r s₃ hs₃ hr
    exact safe_pure hs₃.sound (Scope.scoped_smoothPath.2 ⟨ha, hl, hr⟩)
  | pathLam hb =>
    have hle := (S.during s).le_probing (.var count)
    apply (hcall (S := S.probing (.var count)) hs hm
      (.instantiateAt (hb.mono hle) (S.on_probing _))).bind
    intro b s₁ hs₁ hb
    apply (hread (S := S.probing (.var count)) hs₁.sound hm hfits.probing hb).bind
    intro b s₂ hs₂ hb
    exact safe_pure hs₂.sound hb
  | untyped hn => exact safe_neutral hcall hread hs hm hfits hn
  | typed hn _ => exact safe_neutral hcall hread hs hm hfits hn

end Rules

/-- Values in scope are read back in scope, however many calls may nest. -/
theorem quote_safe (m : MeterId) : ∀ frames, SafeReader m (quote frames m)
  | 0 => fun hs _ _ _ => safe_throw hs trivial
  | frames + 1 => fun hs hm hfits hv =>
    safe_readValue (run_safe frames) (quote_safe m frames) hs hm hfits hv

end Readback

end SmoothCubical
