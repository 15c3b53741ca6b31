import SmoothCubical.OrderedSet

/-!
# Ordered sets by their members

Where a comparison tells only equal things equal, what was put into an ordered set is in it and
nothing else is. Where it also orders them, the set is stored increasing, so that its members
determine it (`Increasing.ext`).
-/

set_option autoImplicit false

namespace SmoothCubical.OrderedSet

open Std (LawfulEqCmp OrientedCmp ReflCmp TransCmp)

variable {α : Type}

/-! ## Membership -/

section Any

variable (cmp : α → α → Ordering)

/-- What something was inserted into is not empty. -/
theorem insert_ne_nil (x : α) (xs : List α) : insert cmp x xs ≠ [] := by
  cases xs with
  | nil => simp [insert]
  | cons y ys =>
    unfold insert
    split <;> simp

/-- What is there after an insertion was there or is what was inserted. -/
theorem mem_of_mem_insert {x y : α} {xs : List α} (h : y ∈ insert cmp x xs) :
    y = x ∨ y ∈ xs := by
  induction xs with
  | nil => simpa [insert] using h
  | cons z zs ih =>
    unfold insert at h
    split at h
    · simpa using h
    · exact .inr h
    · rcases List.mem_cons.1 h with rfl | h
      · exact .inr List.mem_cons_self
      · exact (ih h).imp id (List.mem_cons_of_mem z)

/-- What is in a union is in one of the two lists. -/
theorem mem_of_mem_union {y : α} {xs ys : List α} (h : y ∈ union cmp xs ys) :
    y ∈ xs ∨ y ∈ ys := by
  induction xs with
  | nil => exact .inr h
  | cons x xs ih =>
    rcases mem_of_mem_insert cmp h with rfl | h
    · exact .inl List.mem_cons_self
    · exact (ih h).imp (List.mem_cons_of_mem x) id

/-- What is in the set of a list is in the list. -/
theorem mem_of_mem_ofList {y : α} {xs : List α} (h : y ∈ ofList cmp xs) : y ∈ xs :=
  (mem_of_mem_union cmp h).resolve_right List.not_mem_nil

/-- A union is empty if and only if both lists are. -/
theorem union_eq_nil_iff {xs ys : List α} : union cmp xs ys = [] ↔ xs = [] ∧ ys = [] := by
  cases xs with
  | nil => simp [union]
  | cons x xs => simpa [union] using insert_ne_nil cmp x _

end Any

section Lawful

variable {cmp : α → α → Ordering} [LawfulEqCmp cmp]

/-- After an insertion there is what was inserted and what was there. -/
@[simp] theorem mem_insert {x y : α} {xs : List α} : y ∈ insert cmp x xs ↔ y = x ∨ y ∈ xs := by
  refine ⟨mem_of_mem_insert cmp, fun h => ?_⟩
  induction xs with
  | nil => simpa [insert] using h
  | cons z zs ih =>
    unfold insert
    split
    case h_1 => simpa using h
    case h_2 heq =>
      obtain rfl := LawfulEqCmp.eq_of_compare heq
      simpa using h
    case h_3 =>
      rcases h with rfl | h
      · exact List.mem_cons_of_mem z (ih (.inl rfl))
      · rcases List.mem_cons.1 h with rfl | h
        · exact List.mem_cons_self
        · exact List.mem_cons_of_mem z (ih (.inr h))

/-- A union has what either list has. -/
@[simp] theorem mem_union {y : α} {xs ys : List α} :
    y ∈ union cmp xs ys ↔ y ∈ xs ∨ y ∈ ys := by
  induction xs with
  | nil => simp [union]
  | cons x xs ih =>
    change y ∈ insert cmp x (union cmp xs ys) ↔ _
    simp [ih, or_assoc]

/-- The set of a list has what the list has. -/
@[simp] theorem mem_ofList {y : α} {xs : List α} : y ∈ ofList cmp xs ↔ y ∈ xs := by
  change y ∈ union cmp xs [] ↔ _
  simp

end Lawful

/-! ## Increasing lists -/

/-- Each member comes before all that stand behind it. -/
def Increasing (cmp : α → α → Ordering) (xs : List α) : Prop :=
  xs.Pairwise fun x y => cmp x y = .lt

section Ordered

variable {cmp : α → α → Ordering} [TransCmp cmp] [LawfulEqCmp cmp] {xs ys : List α}

omit [LawfulEqCmp cmp] in
/-- To insert into a sorted list leaves it sorted. -/
theorem Increasing.insert (h : Increasing cmp xs) (x : α) : Increasing cmp (insert cmp x xs) := by
  induction xs with
  | nil => exact List.pairwise_singleton _ _
  | cons y ys ih =>
    obtain ⟨hy, hys⟩ := List.pairwise_cons.1 h
    unfold OrderedSet.insert
    split
    case h_1 hlt =>
      refine List.pairwise_cons.2 ⟨fun z hz => ?_, h⟩
      rcases List.mem_cons.1 hz with rfl | hz
      · exact hlt
      · exact TransCmp.lt_trans hlt (hy z hz)
    case h_2 => exact h
    case h_3 hgt =>
      refine List.pairwise_cons.2 ⟨fun z hz => ?_, ih hys⟩
      rcases mem_of_mem_insert cmp hz with rfl | hz
      · exact OrientedCmp.lt_of_gt hgt
      · exact hy z hz

omit [LawfulEqCmp cmp] in
/-- A union with a sorted list is sorted. -/
theorem Increasing.union (h : Increasing cmp ys) (xs : List α) :
    Increasing cmp (union cmp xs ys) := by
  induction xs with
  | nil => exact h
  | cons x xs ih => exact ih.insert x

omit [LawfulEqCmp cmp] in
/-- The set of a list is sorted. -/
theorem increasing_ofList (xs : List α) : Increasing cmp (ofList cmp xs) :=
  Increasing.union List.Pairwise.nil xs

omit [TransCmp cmp] in
/-- A sorted list has no repetitions. -/
theorem Increasing.nodup (h : Increasing cmp xs) : xs.Nodup := by
  refine List.Pairwise.imp (fun {x y} hlt hxy => ?_) h
  subst hxy
  have hself : cmp x x = .eq := ReflCmp.compare_self
  simp [hself] at hlt

/-- An increasing list is determined by its members. -/
theorem Increasing.ext (hxs : Increasing cmp xs) (hys : Increasing cmp ys)
    (h : ∀ z, z ∈ xs ↔ z ∈ ys) : xs = ys := by
  have hperm : xs.Perm ys := (List.perm_ext_iff_of_nodup hxs.nodup hys.nodup).2 h
  refine hperm.eq_of_pairwise (fun x y _ _ hlt hlt' => ?_) hxs hys
  exact (OrientedCmp.not_lt_of_lt hlt hlt').elim

end Ordered

/-! ## Dictionary order -/

section Dictionary

variable (cmp : α → α → Ordering)

/-- Lists are compared in lexicographic order. -/
theorem compareLists_eq : compareLists cmp = List.compareLex cmp := by
  funext xs ys
  induction xs generalizing ys with
  | nil => cases ys <;> rfl
  | cons x xs ih =>
    cases ys with
    | nil => rfl
    | cons y ys =>
      rw [compareLists, List.compareLex, ih]
      rfl

instance [LawfulEqCmp cmp] : LawfulEqCmp (compareLists cmp) := by
  rw [compareLists_eq]
  infer_instance

instance [TransCmp cmp] : TransCmp (compareLists cmp) := by
  rw [compareLists_eq]
  infer_instance

end Dictionary

end SmoothCubical.OrderedSet
