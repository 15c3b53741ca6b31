import SmoothCubical.Proofs.Scope.Terms

/-!
# The laws of shifting

Shifts of a term compose by adding their amounts and are undone by the opposite amount; two shifts
from different cutoffs can be exchanged; and no interval variable is touched (`shift_algebra`).

What a shift does to a term is settled by what it does to variables: two pairs of shifts that agree
on every variable agree on every term (`shift_shift_congr`). This is where the binders matter. A
binder of a term variable raises all cutoffs by one, and to raise all cutoffs by one is to count
variables from one further on, so the pairs still agree below the binder. A binder of an interval
variable raises none.
-/

set_option autoImplicit false

namespace SmoothCubical.Term

/-! ## Shifts agree where they agree on variables -/

/-- Pairs of shifts that agree on all variables do so below a binder, too. -/
theorem shift_shift_var_under {a b a' b' c d c' d' : Int}
    (h : ∀ i : Int, ((var i).shift a d).shift b c = ((var i).shift a' d').shift b' c') (i : Int) :
    ((var i).shift a (d + 1)).shift b (c + 1) = ((var i).shift a' (d' + 1)).shift b' (c' + 1) := by
  have hbefore := h (i - 1)
  simp only [shift, var.injEq] at hbefore ⊢
  grind

mutual

/-- Pairs of shifts that agree on all variables agree on all terms. -/
theorem shift_shift_congr {a b a' b' : Int} : ∀ (t : Term) {c d c' d' : Int},
    (∀ i : Int, ((var i).shift a d).shift b c = ((var i).shift a' d').shift b' c') →
    (t.shift a d).shift b c = (t.shift a' d').shift b' c'
  | .univ _, _, _, _, _, _ => rfl
  | .var i, _, _, _, _, h => h i
  | .pi _ A B, _, _, _, _, h => by
    simp only [shift, A.shift_shift_congr h, B.shift_shift_congr (shift_shift_var_under h)]
  | .lam _ u, _, _, _, _, h => by
    simp only [shift, u.shift_shift_congr (shift_shift_var_under h)]
  | .app f u, _, _, _, _, h => by
    simp only [shift, f.shift_shift_congr h, u.shift_shift_congr h]
  | .path A l r, _, _, _, _, h => by
    simp only [shift, A.shift_shift_congr h, l.shift_shift_congr h, r.shift_shift_congr h]
  | .pathLam _ u, _, _, _, _, h => by simp only [shift, u.shift_shift_congr h]
  | .pathApp p _, _, _, _, _, h => by simp only [shift, p.shift_shift_congr h]
  | .smoothPath _ A l r, _, _, _, _, h => by
    simp only [shift, A.shift_shift_congr h, l.shift_shift_congr h, r.shift_shift_congr h]
  | .comp _ _ A fs u, _, _, _, _, h => by
    simp only [shift, A.shift_shift_congr h, shiftBranches_shiftBranches_congr fs h,
      u.shift_shift_congr h]
  | .coe _ _ A u, _, _, _, _, h => by
    simp only [shift, A.shift_shift_congr h, u.shift_shift_congr h]
  | .hcomp A fs u, _, _, _, _, h => by
    simp only [shift, A.shift_shift_congr h, shiftBranches_shiftBranches_congr fs h,
      u.shift_shift_congr h]
  | .missing, _, _, _, _, _ => rfl

/-- Two pairs of shifts that move each variable alike move each system alike. -/
theorem shiftBranches_shiftBranches_congr {a b a' b' : Int} :
    ∀ (fs : List (Face × Term)) {c d c' d' : Int},
    (∀ i : Int, ((var i).shift a d).shift b c = ((var i).shift a' d').shift b' c') →
    shiftBranches b c (shiftBranches a d fs) = shiftBranches b' c' (shiftBranches a' d' fs)
  | [], _, _, _, _, _ => rfl
  | (_, u) :: rest, _, _, _, _, h => by
    simp only [shiftBranches, u.shift_shift_congr h, shiftBranches_shiftBranches_congr rest h]

end

mutual

/-- To shift by nothing changes nothing. -/
@[simp] theorem shift_zero : ∀ (t : Term) (c : Int), t.shift 0 c = t
  | .univ _, _ => rfl
  | .var _, _ => by simp [shift]
  | .pi _ A B, c => by rw [shift, A.shift_zero, B.shift_zero]
  | .lam _ u, c => by rw [shift, u.shift_zero]
  | .app f u, c => by rw [shift, f.shift_zero, u.shift_zero]
  | .path A l r, c => by rw [shift, A.shift_zero, l.shift_zero, r.shift_zero]
  | .pathLam _ u, c => by rw [shift, u.shift_zero]
  | .pathApp p _, c => by rw [shift, p.shift_zero]
  | .smoothPath _ A l r, c => by rw [shift, A.shift_zero, l.shift_zero, r.shift_zero]
  | .comp _ _ A fs u, c => by rw [shift, A.shift_zero, shiftBranches_zero fs, u.shift_zero]
  | .coe _ _ A u, c => by rw [shift, A.shift_zero, u.shift_zero]
  | .hcomp A fs u, c => by rw [shift, A.shift_zero, shiftBranches_zero fs, u.shift_zero]
  | .missing, _ => rfl

/-- To shift a system by nothing leaves it as it is. -/
theorem shiftBranches_zero : ∀ (fs : List (Face × Term)) (c : Int), shiftBranches 0 c fs = fs
  | [], _ => rfl
  | (_, u) :: rest, c => by rw [shiftBranches, u.shift_zero, shiftBranches_zero rest]

end

/-- Two shifts from one cutoff are one shift, if the first does not move variables below it. -/
theorem shift_add {a : Int} (ha : 0 ≤ a) (b c : Int) (t : Term) :
    (t.shift a c).shift b c = t.shift (a + b) c := by
  have hvar (i : Int) :
      ((var i).shift a c).shift b c = ((var i).shift (a + b) c).shift 0 c := by
    simp only [shift_zero, shift, var.injEq]
    by_cases hi : i ≥ c
    · rw [if_pos hi, if_pos hi, if_pos (by omega)]
      omega
    · rw [if_neg hi, if_neg hi, if_neg hi]
  rw [t.shift_shift_congr hvar, shift_zero]

/-- Two shifts can be exchanged. The one from the higher cutoff begins as much higher, when it comes
second, as the other has moved its variables. -/
theorem shift_exchange {a b c d : Int} (ha : 0 ≤ a) (hb : 0 ≤ b) (hcd : c ≤ d) (t : Term) :
    (t.shift a d).shift b c = (t.shift b c).shift a (d + b) := by
  refine t.shift_shift_congr fun i => ?_
  simp only [shift, var.injEq]
  by_cases hd : i ≥ d
  · rw [if_pos hd, if_pos (by omega), if_pos (by omega), if_pos (by omega)]
    omega
  · rw [if_neg hd]
    by_cases hc : i ≥ c
    · rw [if_pos hc, if_neg (by omega)]
    · rw [if_neg hc, if_neg (by omega)]

/-! ## What shifts leave alone -/

mutual

/-- A term is whole if and only if it is so shifted. -/
@[simp] theorem isWhole_shift (a : Int) : ∀ (t : Term) (c : Int),
    (t.shift a c).isWhole = t.isWhole
  | .univ _, _ => rfl
  | .var _, _ => rfl
  | .pi _ A B, c => by simp only [shift, isWhole, A.isWhole_shift a, B.isWhole_shift a]
  | .lam _ u, c => by simp only [shift, isWhole, u.isWhole_shift a]
  | .app f u, c => by simp only [shift, isWhole, f.isWhole_shift a, u.isWhole_shift a]
  | .path A l r, c => by
    simp only [shift, isWhole, A.isWhole_shift a, l.isWhole_shift a, r.isWhole_shift a]
  | .pathLam _ u, c => by simp only [shift, isWhole, u.isWhole_shift a]
  | .pathApp p _, c => by simp only [shift, isWhole, p.isWhole_shift a]
  | .smoothPath _ A l r, c => by
    simp only [shift, isWhole, A.isWhole_shift a, l.isWhole_shift a, r.isWhole_shift a]
  | .comp _ _ A fs u, c => by
    simp only [shift, isWhole, A.isWhole_shift a, wholeBranches_shiftBranches a fs,
      u.isWhole_shift a]
  | .coe _ _ A u, c => by simp only [shift, isWhole, A.isWhole_shift a, u.isWhole_shift a]
  | .hcomp A fs u, c => by
    simp only [shift, isWhole, A.isWhole_shift a, wholeBranches_shiftBranches a fs,
      u.isWhole_shift a]
  | .missing, _ => rfl

/-- A system is whole if and only if it is so shifted. -/
theorem wholeBranches_shiftBranches (a : Int) : ∀ (fs : List (Face × Term)) (c : Int),
    wholeBranches (shiftBranches a c fs) = wholeBranches fs
  | [], _ => rfl
  | (_, u) :: rest, c => by
    simp only [shiftBranches, wholeBranches, u.isWhole_shift a, wholeBranches_shiftBranches a rest]

end

mutual

/-- A shifted term mentions the interval variables that the term mentions. -/
@[simp] theorem mentions_shift (a : Int) : ∀ (t : Term) (c k : Int),
    (t.shift a c).mentions k = t.mentions k
  | .univ _, _, _ => rfl
  | .var _, _, _ => rfl
  | .pi _ A B, c, k => by simp only [shift, mentions, A.mentions_shift a, B.mentions_shift a]
  | .lam _ u, c, k => by simp only [shift, mentions, u.mentions_shift a]
  | .app f u, c, k => by simp only [shift, mentions, f.mentions_shift a, u.mentions_shift a]
  | .path A l r, c, k => by
    simp only [shift, mentions, A.mentions_shift a, l.mentions_shift a, r.mentions_shift a]
  | .pathLam _ u, c, k => by simp only [shift, mentions, u.mentions_shift a]
  | .pathApp p _, c, k => by simp only [shift, mentions, p.mentions_shift a]
  | .smoothPath _ A l r, c, k => by
    simp only [shift, mentions, A.mentions_shift a, l.mentions_shift a, r.mentions_shift a]
  | .comp _ _ A fs u, c, k => by
    simp only [shift, mentions, A.mentions_shift a, mentionsBranches_shiftBranches a fs,
      u.mentions_shift a]
  | .coe _ _ A u, c, k => by
    simp only [shift, mentions, A.mentions_shift a, u.mentions_shift a]
  | .hcomp A fs u, c, k => by
    simp only [shift, mentions, A.mentions_shift a, mentionsBranches_shiftBranches a fs,
      u.mentions_shift a]
  | .missing, _, _ => rfl

/-- A system mentions the same interval variables after a shift. -/
theorem mentionsBranches_shiftBranches (a : Int) : ∀ (fs : List (Face × Term)) (c k : Int),
    mentionsBranches k (shiftBranches a c fs) = mentionsBranches k fs
  | [], _, _ => rfl
  | (_, u) :: rest, c, k => by
    simp only [shiftBranches, mentionsBranches, u.mentions_shift a,
      mentionsBranches_shiftBranches a rest]

end

/-! ## The laws -/

/-- A whole term can be shifted. -/
theorem shift?_of_isWhole {t : Term} (h : t.isWhole = true) (a c : Int) :
    t.shift? a c = .ok (t.shift a c) :=
  if_pos h

/-- A whole term can be shifted twice. -/
theorem shift?_bind_shift? {t : Term} (h : t.isWhole = true) (a b c d : Int) :
    (t.shift? a d >>= shift? b c) = .ok ((t.shift a d).shift b c) := by
  rw [shift?_of_isWhole h]
  exact shift?_of_isWhole ((t.isWhole_shift a d).trans h) b c

/-- The laws of shifting. A whole term can be shifted again and again. To shift it by nothing gives
it back; shifts from one cutoff add up, and the opposite shift undoes a shift; shifts from two
cutoffs can be exchanged if the higher cutoff is raised by what the shift from the lower one adds;
and the same interval variables are mentioned before and after. -/
theorem shift_algebra {t : Term} (ht : t.isWhole = true) (a b c d : Nat) :
    t.shift? 0 c = .ok t ∧
    (∃ u, (t.shift? a c >>= shift? b c) = .ok u ∧ t.shift? (a + b) c = .ok u) ∧
    (t.shift? a c >>= shift? (-a) c) = .ok t ∧
    (c ≤ d → ∃ u, (t.shift? a d >>= shift? b c) = .ok u ∧
      (t.shift? b c >>= shift? a (d + b)) = .ok u) ∧
    ∀ k : Int, ∃ found, (t.shift? a c >>= mentions k) = .ok found ∧ t.mentions k = .ok found := by
  have ha : (0 : Int) ≤ a := Int.natCast_nonneg a
  refine ⟨?_, ⟨_, shift?_bind_shift? ht a b c c, ?_⟩, ?_, fun hcd => ?_, fun k => ?_⟩
  · rw [shift?_of_isWhole ht, shift_zero]
  · rw [shift?_of_isWhole ht, shift_add ha]
  · rw [shift?_bind_shift? ht, shift_add ha, Int.add_right_neg, shift_zero]
  · have hexchange := t.shift_exchange ha (Int.natCast_nonneg b) (Int.ofNat_le.2 hcd)
    refine ⟨_, shift?_bind_shift? ht a b c d, ?_⟩
    rw [shift?_bind_shift? ht, hexchange]
  · obtain ⟨found, hfound⟩ := mentions_answered ht k
    refine ⟨found, ?_, hfound⟩
    rw [shift?_of_isWhole ht]
    exact (t.mentions_shift a c k).trans hfound

/-- A composition of functions, below an abstraction. Its family and its partial element bind term
variables of their own, in the scope of the direction. -/
def functionsBelow : Term :=
  .lam "x" (.comp .zero (.var 0) (.pi "y" (.pathApp (.var 1) (.var 0)) (.app (.var 3) (.var 0)))
    [(.eq 0 .one, .pathLam "k" (.app (.var 2) (.lam "z" (.var 4))))] (.var 0))

/-- `functionsBelow`, moved by two from its variable `2` on, and then by three from `1` on. -/
def functionsMoved : Term :=
  .lam "x" (.comp .zero (.var 0) (.pi "y" (.pathApp (.var 1) (.var 0)) (.app (.var 6) (.var 0)))
    [(.eq 0 .one, .pathLam "k" (.app (.var 5) (.lam "z" (.var 9))))] (.var 0))

/-- For a function type under binders, the shifts commute and cancel, and what it mentions is kept.
-/
theorem shift_algebra_functionsBelow :
    functionsBelow.isWhole = true ∧
    (functionsBelow.shift? 2 2 >>= shift? 3 1) = .ok functionsMoved ∧
    (functionsBelow.shift? 3 1 >>= shift? 2 5) = .ok functionsMoved ∧
    (functionsBelow.shift? 2 1 >>= shift? (-2) 1) = .ok functionsBelow ∧
    (functionsBelow.shift? 2 1 >>= mentions 0) = .ok true := by
  obtain ⟨_, _, hback, hexchange, hmentions⟩ :=
    shift_algebra (t := functionsBelow) rfl 2 3 1 2
  obtain ⟨u, hlower, hhigher⟩ := hexchange (by decide)
  obtain ⟨found, hshifted, hfound⟩ := hmentions 0
  obtain rfl : functionsMoved = u := Except.ok.inj hlower
  obtain rfl : true = found := Except.ok.inj hfound
  exact ⟨rfl, hlower, hhigher, hback, hshifted⟩

end SmoothCubical.Term
