import SmoothCubical.Readback
import SmoothCubical.Proofs.Termination.Evaluation

/-!
# Reading back finishes

Regular values can be read back (`quote_ends`). To read an abstraction over a term variable, its
body is run, which takes a step. Whatever else is read is smaller than the value it is part of, or
was paid for. So the induction is again on the steps that are left and then on a size, which is the
size of the value here.
-/

set_option autoImplicit false

namespace SmoothCubical.Readback

open Run

/-- Regular values are read back where fewer than `L` steps are left, or no more than `L` and the
value is small against `K`; and a step is taken before calls nest `K` deep. -/
def Serves (k L K : Nat) (read : Nat → Reader) : Prop :=
  ∀ (d e : Int) {v : Value} {s : Session}, s.Regular k → v.Regular k →
    (s.left < L ∨ s.left ≤ L ∧ v.size + 1 < K) →
      Ends k (Prompt L K) (fun _ _ => True) (fun n => read n d e v) s

section Rules

variable {k L K : Nat} {read : Nat → Reader} (hread : Serves k L K read) {m : MeterId} (hm : m < k)
  {s : Session} (hs : s.Regular k) (d e : Int)

include hread hm hs

/-- To read a regular family back ends, if calls and readers serve within its reach and time. -/
theorem ends_line {a : Line} (ha : a.Regular k)
    (hlt : s.left < L ∨ s.left ≤ L ∧ max a.reach a.time + 1 < K) :
    Ends k (Prompt L K) (fun _ _ => True) (fun n => line (Eval.run n) (read n) m d e a) s := by
  have hat := Eval.ends_lineAt (Eval.serves_run k L K) hs hm ha (.var e) (by omega)
  refine hat.bind fun ty s₁ hs₁ hle hty => ?_
  have hpaid := hty.2
  exact hread _ _ hs₁ hty.1 (by omega)

/-- To read regular partial elements back ends, if calls and readers serve within their size. -/
theorem ends_tubes {faces : List Tube} (hfaces : ∀ face ∈ faces, face.2.Regular k)
    (hlt : s.left < L ∨ s.left ≤ L ∧ tubesSize faces + 1 < K) :
    Ends k (Prompt L K) (fun _ _ => True) (fun n => tubes (Eval.run n) (read n) m d e faces) s := by
  induction faces generalizing s with
  | nil => exact .pure hs trivial
  | cons face rest ih =>
    obtain ⟨φ, u⟩ := face
    obtain ⟨hu, hrest⟩ := List.forall_mem_cons.1 hfaces
    simp only [tubesSize] at hlt
    refine (ends_ofFault hs _).bind fun face s₁ hs₁ hle₁ _ => ?_
    have hweight : s₁.left < L ∨ s₁.left ≤ L ∧ 1 + u.time < K := by omega
    refine (Eval.serves_run k L K hm hs₁ (.instantiateAt (r := .var e) hu) hweight).bind ?_
    intro body s₂ hs₂ hle₂ hbody
    have hpaid : s₂.left < s₁.left ∨ body.size ≤ u.reach := hbody.2
    refine (hread _ _ hs₂ hbody.1 (by omega)).bind fun term s₃ hs₃ hle₃ _ => ?_
    exact (ih hs₃ hrest (by omega)).bind fun rest s₄ hs₄ _ _ => .pure hs₄ trivial

/-- The parts of a stuck computation are smaller than it. -/
theorem ends_neutral {n : Neutral} (hn : n.Regular k)
    (hlt : s.left < L ∨ s.left ≤ L ∧ n.size + 1 < K) :
    Ends k (Prompt L K) (fun _ _ => True)
      (fun frames => neutral (Eval.run frames) (read frames) m d e n) s := by
  cases hn with
  | var => exact (ends_ofFault hs _).bind fun _ s₁ hs₁ _ _ => .pure hs₁ trivial
  | @app f v hf hv =>
    simp only [Neutral.size] at hlt
    have hfun : s.left < L ∨ s.left ≤ L ∧ 1 + f.size + 1 < K := by omega
    refine (hread _ _ hs (.untyped hf) hfun).bind fun _ s₁ hs₁ hle _ => ?_
    exact (hread _ _ hs₁ hv (by omega)).bind fun _ s₂ hs₂ _ _ => .pure hs₂ trivial
  | pathApp hp =>
    refine (hread _ _ hs (.untyped hp) hlt).bind fun _ s₁ hs₁ hle _ => ?_
    exact (ends_ofFault hs₁ _).bind fun _ s₂ hs₂ _ _ => .pure hs₂ trivial
  | comp ha hfaces hv =>
    simp only [Neutral.size] at hlt
    refine (ends_line hread hm hs d e ha (by omega)).bind fun _ s₁ hs₁ hle₁ _ => ?_
    refine (hread _ _ hs₁ hv (by omega)).bind fun _ s₂ hs₂ hle₂ _ => ?_
    refine (ends_tubes hread hm hs₂ d e hfaces (by omega)).bind fun _ s₃ hs₃ hle₃ _ => ?_
    refine (ends_ofFault hs₃ _).bind fun _ s₄ hs₄ _ _ => ?_
    exact (ends_ofFault hs₄ _).bind fun _ s₅ hs₅ _ _ => .pure hs₅ trivial
  | coe ha hv =>
    simp only [Neutral.size] at hlt
    refine (ends_line hread hm hs d e ha (by omega)).bind fun _ s₁ hs₁ hle₁ _ => ?_
    refine (ends_ofFault hs₁ _).bind fun _ s₂ hs₂ hle₂ _ => ?_
    refine (ends_ofFault hs₂ _).bind fun _ s₃ hs₃ hle₃ _ => ?_
    exact (hread _ _ hs₃ hv (by omega)).bind fun _ s₄ hs₄ _ _ => .pure hs₄ trivial

/-- A value is read back by its outermost form. -/
theorem ends_value {v : Value} (hv : v.Regular k) (hleft : s.left ≤ L) (hK : v.size < K) :
    Ends k (Prompt L K) (fun _ _ => True) (fun n => value (Eval.run n) (read n) m d e v) s := by
  -- Both kinds of path types are read part by part.
  have parts {a l r : Value} (ha : a.Regular k) (hl : l.Regular k) (hr : r.Regular k)
      (hK : 1 + max a.size (max l.size r.size) < K) (f : Term → Term → Term → Term) :
      Ends k (Prompt L K) (fun _ _ => True) (fun n => do
        let a ← read n d e a
        let l ← read n d e l
        return f a l (← read n d e r)) s := by
    refine (hread _ _ hs ha (by omega)).bind fun _ s₁ hs₁ hle₁ _ => ?_
    refine (hread _ _ hs₁ hl (by omega)).bind fun _ s₂ hs₂ hle₂ _ => ?_
    exact (hread _ _ hs₂ hr (by omega)).bind fun _ s₃ hs₃ _ _ => .pure hs₃ trivial
  cases hv with
  | univ => exact .pure hs trivial
  | @pi x dom env dims t hdom henv =>
    simp only [Value.size] at hK
    have hvar : Entry.Regular k (.value (.generic d (some dom))) := .value (.typed .var hdom)
    have hweight : s.left < L ∨ s.left ≤ L ∧ 1 + 0 < K := by omega
    refine (Eval.serves_run k L K hm hs (.instantiate (.body henv) hvar) hweight).bind ?_
    intro body s₁ hs₁ hle hbody
    have hless := hbody.left_lt
    refine (hread _ _ hs₁ hdom (by omega)).bind fun _ s₂ hs₂ hle' _ => ?_
    exact (hread _ _ hs₂ hbody.1 (by omega)).bind fun _ s₃ hs₃ _ _ => .pure hs₃ trivial
  | lam hc =>
    have hvar : Entry.Regular k (.value (.generic d none)) := .value (.untyped .var)
    refine (Eval.serves_run k L K hm hs (.instantiate hc hvar) (.inr ⟨hleft, hK⟩)).bind ?_
    intro body s₁ hs₁ hle hbody
    have hless := hbody.left_lt
    exact (hread _ _ hs₁ hbody.1 (by omega)).bind fun _ s₂ hs₂ _ _ => .pure hs₂ trivial
  | path ha hl hr => exact parts ha hl hr hK .path
  | smoothPath ha hl hr => exact parts ha hl hr hK (.smoothPath _)
  | @pathLam x c hc =>
    simp only [Value.size] at hK
    have hweight : s.left < L ∨ s.left ≤ L ∧ 1 + c.time < K := by omega
    refine (Eval.serves_run k L K hm hs (.instantiateAt (r := .var e) hc) hweight).bind ?_
    intro body s₁ hs₁ hle hbody
    have hpaid : s₁.left < s.left ∨ body.size ≤ c.reach := hbody.2
    exact (hread _ _ hs₁ hbody.1 (by omega)).bind fun _ s₂ hs₂ _ _ => .pure hs₂ trivial
  | untyped hn =>
    simp only [Value.size] at hK
    exact ends_neutral hread hm hs d e hn (by omega)
  | typed hn _ =>
    simp only [Value.size] at hK
    exact ends_neutral hread hm hs d e hn (by omega)

end Rules

/-- Every regular value can be read back, under any numbers of variables, and calls do not nest much
deeper than the size of the value before a step is taken. -/
theorem quote_ends {k : Nat} {m : MeterId} (hm : m < k) (d e : Int) {v : Value}
    (hv : v.Regular k) {s : Session} (hs : s.Regular k) :
    Ends k (Prompt s.left (v.size + 2)) (fun _ _ => True) (fun n => quote n m d e v) s := by
  have hread : Serves k s.left (v.size + 1) (fun n => quote n m) := by
    intro d' e' v' s' hs' hv' hlt
    exact (quote_ends hm d' e' hv' hs').promptly hlt
  have hvalue := ends_value hread hm hs d e hv (Nat.le_refl _) (Nat.lt_succ_self _)
  have hnext : Ends k (fun n => Prompt s.left (v.size + 2) (n + 1)) (fun _ _ => True)
      (fun n => quote (n + 1) m d e v) s :=
    hvalue.relax fun n s' _ hprompt hn => hprompt (Nat.le_of_succ_le_succ hn)
  exact hnext.succ ⟨hs, Nat.le_refl _, fun _ hn => absurd hn (by omega)⟩
termination_by (s.left, v.size)
decreasing_by
  exact Prod.lex_def.2 (by omega)

/-- To read a regular value back finishes. -/
theorem quote_finishes {k : Nat} {m : MeterId} (hm : m < k) (d e : Int) {v : Value}
    (hv : v.Regular k) {s : Session} (hs : s.Regular k) :
    Finishes k (fun _ _ => True) (fun n => quote n m d e v) s :=
  (quote_ends hm d e hv hs).finishes

/-- To compare regular values finishes. -/
theorem convertible_finishes {k : Nat} {m : MeterId} (hm : m < k) (d e : Int) {v w : Value}
    (hv : v.Regular k) (hw : w.Regular k) {s : Session} (hs : s.Regular k) :
    Finishes k (fun _ _ => True) (fun n => convertible n m d e v w) s := by
  refine (quote_finishes hm d e hv hs).bind fun _ s₁ hs₁ _ _ => ?_
  exact (quote_finishes hm d e hw hs₁).bind fun _ s₂ hs₂ _ _ => .pure hs₂ trivial

end SmoothCubical.Readback
