import SmoothCubical.Readback
import SmoothCubical.Proofs.Lockstep.Evaluation

/-!
# Reading back in step

Corresponding values read back in step, to terms that match (`quote_inStep`). The two may be read
back under different numbers of term variables; `Reads` says which numbers go together. The
interval variables are the same for both.
-/

set_option autoImplicit false

namespace SmoothCubical

namespace Correspondence

variable (C : Correspondence)

/-- Numbers of term variables under which corresponding values may be read back: fresh variables
stand for each other, and levels that stand for each other are in scope together, however many
binders are met on the way. -/
structure Reads (d d' : Int) : Prop where
  fresh : ∀ n : Nat, C.level (d + n) (d' + n)
  nonneg_iff : ∀ {l l' : Int}, C.level l l' → (0 ≤ l ↔ 0 ≤ l')
  lt_iff : ∀ {l l' : Int}, C.level l l' → ∀ n : Nat, (l < d + n ↔ l' < d' + n)
  unbound : ∀ {l l' : Int}, C.level l l' → ∀ n : Nat,
    C.unbound (Index.flip (d + n) l) (Index.flip (d' + n) l')

/-- The indices of the levels that stand for each other. -/
def Indices (d d' i j : Int) : Prop :=
  0 ≤ i ∧ 0 ≤ j ∧ C.level (Index.flip d i) (Index.flip d' j)

/-- Terms that match under so many term variables and the same interval variables. -/
def ReadMatch (d d' : Int) (t t' : Term) : Prop :=
  Term.Matches C (C.Indices d d') (· = ·) t t'

/-- Readers that read corresponding values back in step. -/
def Readers (read read' : Readback.Reader) : Prop :=
  ∀ {d d' : Int}, C.Reads d d' → ∀ (e : Int) {v v' : Value}, C.Values v v' →
    C.InStep (C.ReadMatch d d') (read d e v) (read' d' e v')

variable {C} {call call' : Call} {read read' : Readback.Reader} {d d' : Int}

/-- Under a binder, both sides read back one variable more. -/
theorem Reads.succ (h : C.Reads d d') : C.Reads (d + 1) (d' + 1) := by
  have shift (e : Int) (n : Nat) : e + 1 + n = e + (n + 1 : Nat) := by omega
  refine ⟨fun n => ?_, h.nonneg_iff, fun hl n => ?_, fun hl n => ?_⟩ <;> rw [shift d, shift d']
  · exact h.fresh (n + 1)
  · exact h.lt_iff hl (n + 1)
  · exact h.unbound hl (n + 1)

/-- Where levels stand for themselves only, values are read back under one number. -/
theorem Reads.refl (hC : ∀ l l', C.level l l' ↔ l = l') (d : Int) : C.Reads d d := by
  refine ⟨fun n => (hC _ _).2 rfl, fun hl => ?_, fun hl n => ?_, fun hl n => ?_⟩ <;>
    obtain rfl := (hC _ _).1 hl
  · exact Iff.rfl
  · exact Iff.rfl
  · exact C.unbound_refl _

/-- Where levels stand for themselves only, so do the indices that they are read back to. -/
theorem Indices.eq (hC : ∀ l l', C.level l l' ↔ l = l') {i j : Int} (h : C.Indices d d i j) :
    i = j := by
  have hlevel := (hC _ _).1 h.2.2
  rw [← Index.flip_flip d i, hlevel, Index.flip_flip]

/-- A fresh variable of the two scopes. -/
theorem Reads.level (h : C.Reads d d') : C.level d d' := by
  simpa using h.fresh 0

/-- Under one more binder the indices of levels move as indices do. -/
theorem Reads.indices_succ (h : C.Reads d d') {i j : Int} (hij : C.Indices (d + 1) (d' + 1) i j) :
    Under (C.Indices d d') i j := by
  obtain ⟨hi, hj, hl⟩ := hij
  have hlt := h.lt_iff hl 0
  simp only [Index.flip] at hl hlt
  rcases Int.lt_trichotomy i 0 with hneg | rfl | hpos
  · omega
  · obtain rfl : j = 0 := by omega
    exact .nearest
  · have hout : C.Indices d d' (i - 1) (j - 1) := by
      refine ⟨by omega, by omega, ?_⟩
      simpa only [Index.flip, show d - 1 - (i - 1) = d + 1 - 1 - i by omega,
        show d' - 1 - (j - 1) = d' + 1 - 1 - j by omega] using hl
    simpa using Under.outer (by omega) (by omega) hout

/-- Terms that match under one more term variable are bodies that match. -/
theorem Reads.body (h : C.Reads d d') {b b' : Term} (hb : C.ReadMatch (d + 1) (d' + 1) b b') :
    Term.Matches C (Under (C.Indices d d')) (· = ·) b b' :=
  hb.mono (fun _ _ => h.indices_succ) fun _ _ hij => hij

/-- Terms that match are bodies that match under one more interval variable. -/
theorem ReadMatch.under {b b' : Term} (hb : C.ReadMatch d d' b b') :
    Term.Matches C (C.Indices d d') (Under (· = ·)) b b' :=
  hb.mono (fun _ _ hij => hij) fun _ _ hij => hij ▸ Under.refl (fun _ => rfl) _

/-- Levels that stand for each other are read back to indices that do. -/
theorem indexOfLevel_answers (h : C.Reads d d') {l l' : Int} (hl : C.level l l') :
    C.Answers (C.Indices d d') (Readback.indexOfLevel d l) (Readback.indexOfLevel d' l') := by
  have hpos := h.nonneg_iff hl
  have hlt := h.lt_iff hl 0
  have hun := h.unbound hl 0
  simp only [Int.natCast_zero, Int.add_zero] at hlt hun
  unfold Readback.indexOfLevel Index.inScope
  by_cases hin : 0 ≤ l ∧ l < d
  · have hin' : 0 ≤ l' ∧ l' < d' := by omega
    simp only [hin, hin', decide_true, Bool.and_self, if_true]
    refine .ok ⟨by simp only [Index.flip]; omega, by simp only [Index.flip]; omega, ?_⟩
    rwa [Index.flip_flip, Index.flip_flip]
  · have hin' : ¬ (0 ≤ l' ∧ l' < d') := by omega
    simp only [← Bool.decide_and, hin, hin', decide_false, Bool.false_eq_true, if_false]
    exact .error (.unboundVariable hun)

/-! ## The rules of reading back -/

/-- An answer to a question that does not look at term variables. -/
theorem ofFault_inStep_refl {α : Type} {R : α → α → Prop} (hR : ∀ a, R a a)
    (x : Except Fault α) : C.InStep R (Run.ofFault x) (Run.ofFault x) :=
  ofFault_inStep (.refl hR x)

/-- Families that correspond are read back in step, at a fresh interval variable. -/
theorem line_inStep (hcall : C.Calls call call') (hread : C.Readers read read')
    (h : C.Reads d d') (m : MeterId) (e : Int) {a a' : Line} (ha : C.Lines a a') :
    C.InStep (Term.Matches C (C.Indices d d') (Under (· = ·)))
      (Readback.line call read m d e a) (Readback.line call' read' m d' e a') := by
  refine (lineAt_inStep hcall m ha (.inr rfl)).bind fun ty ty' hty => ?_
  exact (hread h (e + 1) hty).mono fun _ _ => ReadMatch.under

/-- Partial elements that correspond are read back in step. -/
theorem tubes_inStep (hcall : C.Calls call call') (hread : C.Readers read read')
    (h : C.Reads d d') (m : MeterId) (e : Int) {fs fs' : List Tube} (hfs : C.Tubes fs fs') :
    C.InStep (Term.BranchesMatch C (C.Indices d d') (· = ·))
      (Readback.tubes call read m d e fs) (Readback.tubes call' read' m d' e fs') := by
  induction fs generalizing fs' with
  | nil =>
    cases hfs
    exact .pure .nil
  | cons face rest ih =>
    cases hfs with
    | cons hu hrest =>
      refine (ofFault_inStep_refl (Face.matches_refl fun _ => rfl) _).bind fun φ φ' hφ => ?_
      refine (hcall _ _ _ (.instantiateAt hu)).bind fun u u' hu => ?_
      refine (hread h (e + 1) hu).bind fun b b' hb => ?_
      refine (ih hrest).bind fun rest rest' hrest => ?_
      exact .pure (.cons hφ hb.under hrest)

/-- Stuck computations that correspond are read back in step. -/
theorem neutral_inStep (hcall : C.Calls call call') (hread : C.Readers read read')
    (h : C.Reads d d') (m : MeterId) (e : Int) {n n' : Neutral} (hn : C.Neutrals n n') :
    C.InStep (C.ReadMatch d d') (Readback.neutral call read m d e n)
      (Readback.neutral call' read' m d' e n') := by
  have point (r : Interval) : C.InStep (Dim.Matches (· = ·)) (Run.ofFault (Readback.dim e r))
      (Run.ofFault (Readback.dim e r)) :=
    ofFault_inStep_refl (Dim.matches_refl fun _ => rfl) _
  cases hn with
  | var hl =>
    exact (ofFault_inStep (indexOfLevel_answers h hl)).bind fun _ _ hij => .pure (.var hij)
  | app hf hv =>
    refine (hread h e (.untyped hf)).bind fun _ _ hf => ?_
    exact (hread h e hv).bind fun _ _ hv => .pure (.app hf hv)
  | pathApp hp =>
    refine (hread h e (.untyped hp)).bind fun _ _ hp => ?_
    exact (point _).bind fun _ _ hr => .pure (.pathApp hp hr)
  | comp ha hfs hv =>
    refine (line_inStep hcall hread h m e ha).bind fun _ _ ha => ?_
    refine (hread h e hv).bind fun _ _ hv => ?_
    refine (tubes_inStep hcall hread h m e hfs).bind fun _ _ hfs => ?_
    refine (point _).bind fun _ _ ht => (point _).bind fun _ _ hs => ?_
    exact .pure (.comp hs ht ha hfs hv)
  | coe ha hv =>
    refine (line_inStep hcall hread h m e ha).bind fun _ _ ha => ?_
    refine (point _).bind fun _ _ hs => (point _).bind fun _ _ ht => ?_
    exact (hread h e hv).bind fun _ _ hv => .pure (.coe hs ht ha hv)

/-- One layer of reading back goes in step if what it calls does. -/
theorem value_inStep (hcall : C.Calls call call') (hread : C.Readers read read') (m : MeterId) :
    C.Readers (Readback.value call read m) (Readback.value call' read' m) := by
  intro d d' h e v v' hv
  cases hv with
  | univ => exact .pure .univ
  | pi hx ha hb =>
    have hy : C.Entries _ _ := .value (.typed (.var h.level) ha)
    refine (hcall _ _ _ (.instantiate hb hy)).bind fun b b' hb => ?_
    refine (hread h e ha).bind fun a a' ha => ?_
    exact (hread h.succ e hb).bind fun _ _ hb => .pure (.pi hx ha (h.body hb))
  | lam hx hb =>
    have hy : C.Entries _ _ := .value (.untyped (.var h.level))
    refine (hcall _ _ _ (.instantiate hb hy)).bind fun b b' hb => ?_
    exact (hread h.succ e hb).bind fun _ _ hb => .pure (.lam hx (h.body hb))
  | path ha hl hr =>
    refine (hread h e ha).bind fun _ _ ha => (hread h e hl).bind fun _ _ hl => ?_
    exact (hread h e hr).bind fun _ _ hr => .pure (.path ha hl hr)
  | smoothPath ha hl hr =>
    refine (hread h e ha).bind fun _ _ ha => (hread h e hl).bind fun _ _ hl => ?_
    exact (hread h e hr).bind fun _ _ hr => .pure (.smoothPath ha hl hr)
  | pathLam hx hb =>
    refine (hcall _ _ _ (.instantiateAt hb)).bind fun b b' hb => ?_
    exact (hread h (e + 1) hb).bind fun _ _ hb => .pure (.pathLam hx hb.under)
  | untyped hn => exact neutral_inStep hcall hread h m e hn
  | typed hn _ => exact neutral_inStep hcall hread h m e hn

/-- Corresponding values read back in step, to matching terms. -/
theorem quote_inStep (m : MeterId) :
    ∀ frames, C.Readers (Readback.quote frames m) (Readback.quote frames m)
  | 0 => fun _ _ _ _ _ => .throw .nonTermination
  | frames + 1 => value_inStep (run_inStep frames) (quote_inStep m frames) m

end Correspondence

end SmoothCubical
