import SmoothCubical.Interval

/-!
# Indices in scope

What it means for an index to be found in a scope. Index and level of a variable determine each
other, and an index that is found is in range.
-/

set_option autoImplicit false

namespace SmoothCubical

namespace Index

variable {α : Type}

/-- Index zero is the nearest entry. -/
@[simp] theorem get?_cons_zero (a : α) (scope : List α) : get? (a :: scope) 0 = some a := by
  simp [get?]

/-- The other indices of an extended scope are those of the scope. -/
theorem get?_cons_succ (a : α) (scope : List α) {i : Int} (hi : 0 ≤ i) :
    get? (a :: scope) (i + 1) = get? scope i := by
  have hs : (i + 1).toNat = i.toNat + 1 := by omega
  simp [get?, hs, show ¬ i + 1 < 0 by omega, show ¬ i < 0 by omega]

/-- A negative index is never found. -/
theorem get?_neg (scope : List α) {i : Int} (hi : i < 0) : get? scope i = none := by
  simp [get?, hi]

/-- What is found behind the nearest binder is found without it, one index before. -/
theorem get?_cons_eq_some {a b : α} {scope : List α} {i : Int}
    (h : get? (a :: scope) i = some b) :
    i = 0 ∧ a = b ∨ ∃ j, 0 ≤ j ∧ i = j + 1 ∧ get? scope j = some b := by
  rcases Int.lt_trichotomy i 0 with hneg | rfl | hpos
  · rw [get?_neg _ hneg] at h
    contradiction
  · rw [get?_cons_zero] at h
    exact .inl ⟨rfl, Option.some.inj h⟩
  · obtain ⟨j, rfl⟩ : ∃ j, i = j + 1 := ⟨i - 1, by omega⟩
    have hj : 0 ≤ j := by omega
    rw [get?_cons_succ _ _ hj] at h
    exact .inr ⟨j, hj, rfl, h⟩

/-- An index beyond the scope is never found. -/
theorem get?_of_length_le {scope : List α} {i : Int} (hi : scope.length ≤ i) :
    get? scope i = none := by
  unfold get?
  rw [if_neg (by omega), List.getElem?_eq_none_iff]
  omega

/-- What is found in a scope that was mapped is what was found before, mapped. -/
theorem get?_map {β : Type} (f : α → β) (scope : List α) (i : Int) :
    get? (scope.map f) i = (get? scope i).map f := by
  unfold get?
  split
  · rfl
  · exact List.getElem?_map

/-- What is found is in the scope. -/
theorem mem_of_get? {scope : List α} {i : Int} {a : α} (h : get? scope i = some a) :
    a ∈ scope := by
  unfold get? at h
  split at h
  · contradiction
  · exact List.mem_of_getElem? h

/-- An index that is found is in scope. -/
theorem inScope_of_get? {scope : List α} {i : Int} {a : α} (h : get? scope i = some a) :
    inScope scope.length i = true := by
  unfold get? at h
  split at h
  · contradiction
  · have hlt : i.toNat < scope.length := (List.getElem?_eq_some_iff.1 h).1
    simp only [inScope, Bool.and_eq_true, decide_eq_true_eq]
    omega

/-- An index that is in scope is found. -/
theorem get?_of_inScope {scope : List α} {i : Int} (h : inScope scope.length i = true) :
    ∃ a, get? scope i = some a := by
  simp only [inScope, Bool.and_eq_true, decide_eq_true_eq] at h
  refine ⟨scope.get ⟨i.toNat, by omega⟩, ?_⟩
  unfold get?
  rw [if_neg (by omega)]
  exact List.getElem?_eq_getElem (by omega)

/-- In a scope without repetitions, two indices that find the same are the same. -/
theorem get?_inj {scope : List α} (h : scope.Nodup) {i j : Int} {a : α}
    (hi : get? scope i = some a) (hj : get? scope j = some a) : i = j := by
  unfold get? at hi hj
  split at hi
  · contradiction
  · split at hj
    · contradiction
    · have hlt : i.toNat < scope.length := (List.getElem?_eq_some_iff.1 hi).1
      have heq := (List.getElem?_inj hlt h).1 (hi.trans hj.symm)
      omega

/-- To pass from levels to indices and back changes nothing. -/
theorem flip_flip (depth level : Int) : flip depth (flip depth level) = level := by
  simp only [flip]
  omega

/-- The nearest variable has the highest level. -/
theorem flip_zero (depth : Int) : flip (depth + 1) 0 = depth := by
  simp only [flip]
  omega

/-- One more binder changes the index of a variable and keeps its level. -/
theorem flip_succ (depth i : Int) : flip (depth + 1) (i + 1) = flip depth i := by
  simp only [flip]
  omega

/-- A level is in scope if and only if its index is. -/
theorem inScope_flip (depth level : Int) :
    inScope depth (flip depth level) = inScope depth level := by
  rw [Bool.eq_iff_iff]
  simp only [inScope, Bool.and_eq_true, decide_eq_true_eq]
  unfold flip
  omega

/-! ## Counting down -/

/-- What is made of the levels below `n`, that of the latest variable first. -/
def countdown (make : Int → α) : Nat → List α
  | 0 => []
  | n + 1 => make n :: countdown make n

variable {make : Int → α}

/-- There are as many as there are levels. -/
@[simp] theorem length_countdown : ∀ n, (countdown make n).length = n
  | 0 => rfl
  | n + 1 => congrArg (· + 1) (length_countdown n)

/-- Each is made of a level below. -/
theorem mem_countdown {a : α} : ∀ {n : Nat}, a ∈ countdown make n → ∃ l : Nat, l < n ∧ a = make l
  | n + 1, h => by
    obtain rfl | h := List.mem_cons.1 h
    · exact ⟨n, Nat.lt_succ_self n, rfl⟩
    · obtain ⟨l, hl, rfl⟩ := mem_countdown h
      exact ⟨l, Nat.lt_succ_of_lt hl, rfl⟩

/-- At an index stands what is made of the level of the variable. -/
theorem get?_countdown {n : Nat} {i : Int} (hi : inScope n i = true) :
    get? (countdown make n) i = some (make (flip n i)) := by
  simp only [inScope, Bool.and_eq_true, decide_eq_true_eq] at hi
  obtain ⟨k, rfl⟩ := Int.eq_ofNat_of_zero_le hi.1
  induction n generalizing k with
  | zero => omega
  | succ n ih =>
    cases k with
    | zero =>
      rw [Int.natCast_succ, Int.natCast_zero, flip_zero]
      exact get?_cons_zero _ _
    | succ k =>
      rw [Int.natCast_succ, Int.natCast_succ, flip_succ, ← ih k (by omega)]
      exact get?_cons_succ _ _ (Int.natCast_nonneg k)

end Index

/-- An interval variable stands for a point if and only if its index finds it. -/
theorem IntervalEnv.find_eq_ok {dims : IntervalEnv} {i : Int} {r : Interval} :
    dims.find i = .ok r ↔ Index.get? dims i = some r := by
  unfold find
  cases Index.get? dims i <;> simp

end SmoothCubical
