import SmoothCubical.Readback
import SmoothCubical.Proofs.Stability.Mirror

/-!
# The shape of what is read back

Whatever value is read back, the term is normal in shape: it applies only eliminations, takes
points only of eliminations, and its variables and dimensions are in scope (`quote_isNormal`).
Nothing is assumed of the value, since a stuck computation is read back as an elimination and
levels out of scope are refused.
-/

set_option autoImplicit false

namespace SmoothCubical

namespace Readback

open Run Eval

/-- What a point is read back to is in scope. -/
theorem inScope_of_dim {count : Nat} {r : Interval} {d : Dim} (h : dim count r = .ok d) :
    d.inScope count = true := by
  cases r with
  | zero =>
    cases h
    rfl
  | one =>
    cases h
    rfl
  | var level =>
    simp only [dim] at h
    split at h
    · rename_i hscope
      cases h
      rw [← hscope]
      exact Index.inScope_flip count level
    · cases h

/-- What a level is read back to is in scope. -/
theorem inScope_of_indexOfLevel {depth : Nat} {level i : Int}
    (h : indexOfLevel depth level = .ok i) : Index.inScope depth i = true := by
  unfold indexOfLevel at h
  split at h
  · rename_i hscope
    cases h
    rw [← hscope]
    exact Index.inScope_flip depth level
  · cases h

/-- Whatever is read back is normal in shape, and an elimination if it was stuck. -/
def ReadsNormal (read : Reader) : Prop :=
  ∀ (depth count : Nat) (v : Value) (s : Session),
    Yields false (fun t => t.isNormal depth count = true ∧
      (v.form = .stuck → t.isElimination = true)) (read depth count v) s

section Rules

variable {call : Call} {read : Reader} (hcall : KeepingCall Session.Grows call)
  (hread : ReadsNormal read) (m : MeterId) (depth count : Nat) (s : Session)

include hcall hread

/-- A family is read back to a term that is normal in shape. -/
theorem yields_line_isNormal (a : Line) :
    Yields false (fun t => t.isNormal depth (count + 1) = true)
      (line call read m depth count a) s := by
  unfold line
  refine ((law_lineAt (grows_law hcall) m a _).yields rfl).bind fun ty s₁ _ _ => ?_
  exact (hread depth (count + 1) ty s₁).mono fun t ht => ht.1

/-- Partial elements are read back to a system that is normal in shape. -/
theorem yields_tubes_isNormal (fs : List Tube) :
    Yields false (fun ts => Term.normalBranches depth count ts = true)
      (tubes call read m depth count fs) s := by
  induction fs generalizing s with
  | nil => exact yields_pure rfl
  | cons face rest ih =>
    obtain ⟨φ, u⟩ := face
    unfold tubes
    refine ((law_ofFault (grows_law hcall) _).yields rfl).bind fun ψ s₁ _ _ => ?_
    refine ((hcall m _).yields rfl).bind fun v s₂ _ _ => ?_
    refine (hread depth (count + 1) v s₂).bind fun t s₃ _ ht => ?_
    refine (ih s₃).bind fun ts s₄ _ hts => ?_
    exact yields_pure (by simp only [Term.normalBranches, ht.1, hts, Bool.and_self])

omit hcall hread in
/-- A point is read back to a dimension in scope, or refused. -/
theorem yields_dim (r : Interval) :
    Yields false (fun d => d.inScope count = true) (ofFault (dim count r)) s := by
  refine yields_ofFault (fun d => inScope_of_dim) fun total => ?_
  cases total

omit hcall hread in
/-- A level is read back to an index in scope, or refused. -/
theorem yields_indexOfLevel (level : Int) :
    Yields false (fun i => Index.inScope depth i = true)
      (ofFault (indexOfLevel depth level)) s := by
  refine yields_ofFault (fun i => inScope_of_indexOfLevel) fun total => ?_
  cases total

/-- A stuck computation is read back to an elimination that is normal in shape. -/
theorem yields_neutral_isNormal (n : Neutral) :
    Yields false (fun t => t.isNormal depth count = true ∧ t.isElimination = true)
      (neutral call read m depth count n) s := by
  cases n with
  | var level =>
    refine (yields_indexOfLevel depth s level).bind fun i s₁ _ hi => ?_
    exact yields_pure ⟨hi, rfl⟩
  | app f v =>
    -- The function is read back as a stuck value, so what is applied is an elimination.
    refine (hread depth count (.stuck f none) s).bind fun t s₁ _ ht => ?_
    refine (hread depth count v s₁).bind fun u s₂ _ hu => ?_
    refine yields_pure ⟨?_, rfl⟩
    simp only [Term.isNormal, ht.1, ht.2 rfl, hu.1, Bool.and_self]
  | pathApp p r =>
    refine (hread depth count (.stuck p none) s).bind fun t s₁ _ ht => ?_
    refine (yields_dim count s₁ r).bind fun d s₂ _ hd => ?_
    refine yields_pure ⟨?_, rfl⟩
    simp only [Term.isNormal, ht.1, ht.2 rfl, hd, Bool.and_self]
  | comp r r' a fs v =>
    refine (yields_line_isNormal hcall hread m depth count s a).bind fun t s₁ _ ht => ?_
    refine (hread depth count v s₁).bind fun u s₂ _ hu => ?_
    refine (yields_tubes_isNormal hcall hread m depth count s₂ fs).bind fun ts s₃ _ hts => ?_
    refine (yields_dim count s₃ r').bind fun d' s₄ _ hd' => ?_
    refine (yields_dim count s₄ r).bind fun d s₅ _ hd => ?_
    refine yields_pure ⟨?_, rfl⟩
    simp only [Term.isNormal, ht, hu.1, hts, hd, hd', Bool.and_self]
  | coe r r' a v =>
    refine (yields_line_isNormal hcall hread m depth count s a).bind fun t s₁ _ ht => ?_
    refine (yields_dim count s₁ r).bind fun d s₂ _ hd => ?_
    refine (yields_dim count s₂ r').bind fun d' s₃ _ hd' => ?_
    refine (hread depth count v s₃).bind fun u s₄ _ hu => ?_
    refine yields_pure ⟨?_, rfl⟩
    simp only [Term.isNormal, ht, hu.1, hd, hd', Bool.and_self]

/-- One layer of reading back gives terms that are normal in shape if what it calls does. -/
theorem yields_value_isNormal (v : Value) :
    Yields false (fun t => t.isNormal depth count = true ∧
      (v.form = .stuck → t.isElimination = true)) (value call read m depth count v) s := by
  cases v with
  | univ level => exact yields_pure ⟨rfl, fun h => by cases h⟩
  | pi x A c =>
    refine ((hcall m _).yields rfl).bind fun B s₁ _ _ => ?_
    refine (hread depth count A s₁).bind fun a s₂ _ ha => ?_
    refine (hread (depth + 1) count B s₂).bind fun b s₃ _ hb => ?_
    refine yields_pure ⟨?_, fun h => by cases h⟩
    simp only [Term.isNormal, ha.1, hb.1, Bool.and_self]
  | lam x c =>
    refine ((hcall m _).yields rfl).bind fun B s₁ _ _ => ?_
    refine (hread (depth + 1) count B s₁).bind fun b s₂ _ hb => ?_
    exact yields_pure ⟨hb.1, fun h => by cases h⟩
  | path A L R =>
    refine (hread depth count A s).bind fun a s₁ _ ha => ?_
    refine (hread depth count L s₁).bind fun l s₂ _ hl => ?_
    refine (hread depth count R s₂).bind fun r s₃ _ hr => ?_
    refine yields_pure ⟨?_, fun h => by cases h⟩
    simp only [Term.isNormal, ha.1, hl.1, hr.1, Bool.and_self]
  | smoothPath k A L R =>
    refine (hread depth count A s).bind fun a s₁ _ ha => ?_
    refine (hread depth count L s₁).bind fun l s₂ _ hl => ?_
    refine (hread depth count R s₂).bind fun r s₃ _ hr => ?_
    refine yields_pure ⟨?_, fun h => by cases h⟩
    simp only [Term.isNormal, ha.1, hl.1, hr.1, Bool.and_self]
  | pathLam x c =>
    refine ((hcall m _).yields rfl).bind fun B s₁ _ _ => ?_
    refine (hread depth (count + 1) B s₁).bind fun b s₂ _ hb => ?_
    exact yields_pure ⟨hb.1, fun h => by cases h⟩
  | stuck n ty =>
    exact (yields_neutral_isNormal hcall hread m depth count s n).mono fun t ht =>
      ⟨ht.1, fun _ => ht.2⟩

end Rules

/-- Whatever the number of calls that may nest, what is read back is normal in shape. -/
theorem quote_isNormal (m : MeterId) (frames : Nat) : ReadsNormal (quote frames m) := by
  induction frames with
  | zero => exact fun _ _ _ _ => yields_guard _
  | succ frames ih =>
    intro depth count v s
    exact yields_value_isNormal (run_grows frames) ih m depth count s v

end Readback

end SmoothCubical
