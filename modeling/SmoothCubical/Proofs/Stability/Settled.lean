import SmoothCubical.Value
import SmoothCubical.Syntax.Scope
import SmoothCubical.Proofs.Index
import SmoothCubical.Proofs.OrderedSet

/-!
# Settled terms

A term is settled if evaluation finds nothing in it to compute, idle coercions apart: it applies
only what is stuck, takes the ends only of paths whose type is out of sight, and its Kan
operations are along families that no rule takes apart. This is read off the term, given what is
known of the variables in scope (`Role`) and how many interval variables there are.

An idle coercion, along a family that does not mention its direction, is dropped by evaluation.
`Term.dropIdle` is the term without them. The test is made on the term as it stands, before
anything inside the family is dropped, since this is what evaluation looks at.
-/

set_option autoImplicit false

namespace SmoothCubical

/-! ## Forms -/

/-- The outermost form of a value. The two kinds of path type count as one. -/
inductive Form
  | univ
  | pi
  | lam
  | path
  | pathLam
  | stuck
deriving DecidableEq, Repr

/-- Whether Kan operations take a family of types of this form apart. -/
def Form.isTakenApart : Form → Bool
  | .pi => true
  | .path => true
  | _ => false

def Value.form : Value → Form
  | .univ _ => .univ
  | .pi _ _ _ => .pi
  | .lam _ _ => .lam
  | .path _ _ _ => .path
  | .smoothPath _ _ _ _ => .path
  | .pathLam _ _ => .pathLam
  | .stuck _ _ => .stuck

/-- The form that a settled term without idle coercions has as a value. -/
def Term.form : Term → Form
  | .univ _ => .univ
  | .pi _ _ _ => .pi
  | .lam _ _ => .lam
  | .path _ _ _ => .path
  | .smoothPath _ _ _ _ => .path
  | .pathLam _ _ => .pathLam
  | _ => .stuck

/-! ## Idle coercions -/

namespace Term

/-- Whether a family does without its direction. A family with a missing part does not. -/
def ignoresDirection (family : Term) : Bool :=
  match family.mentions 0 with
  | .ok moves => !moves
  | .error _ => false

/-- A family ignores its direction if and only if it was searched for it without success. -/
theorem ignoresDirection_iff {a : Term} : a.ignoresDirection = true ↔ a.mentions 0 = .ok false := by
  unfold ignoresDirection
  cases a.mentions 0 with
  | error f => simp
  | ok moves => cases moves <;> simp

mutual

/-- The term with its idle coercions replaced by their bases. -/
def dropIdle : Term → Term
  | .univ level => .univ level
  | .var index => .var index
  | .pi name domain codomain => .pi name domain.dropIdle codomain.dropIdle
  | .lam name body => .lam name body.dropIdle
  | .app function argument => .app function.dropIdle argument.dropIdle
  | .path ty left right => .path ty.dropIdle left.dropIdle right.dropIdle
  | .pathLam name body => .pathLam name body.dropIdle
  | .pathApp p dim => .pathApp p.dropIdle dim
  | .smoothPath order ty left right =>
    .smoothPath order ty.dropIdle left.dropIdle right.dropIdle
  | .comp source target family faces base =>
    .comp source target family.dropIdle (dropIdleBranches faces) base.dropIdle
  | .coe source target family base =>
    if family.ignoresDirection then base.dropIdle
    else .coe source target family.dropIdle base.dropIdle
  | .hcomp ty faces base => .hcomp ty.dropIdle (dropIdleBranches faces) base.dropIdle
  | .missing => .missing

def dropIdleBranches : List (Face × Term) → List (Face × Term)
  | [] => []
  | (φ, body) :: rest => (φ, body.dropIdle) :: dropIdleBranches rest

end

mutual

/-- Whether an idle coercion stands anywhere in the term. -/
def hasIdle : Term → Bool
  | .univ _ => false
  | .var _ => false
  | .pi _ domain codomain => domain.hasIdle || codomain.hasIdle
  | .lam _ body => body.hasIdle
  | .app function argument => function.hasIdle || argument.hasIdle
  | .path ty left right => ty.hasIdle || left.hasIdle || right.hasIdle
  | .pathLam _ body => body.hasIdle
  | .pathApp p _ => p.hasIdle
  | .smoothPath _ ty left right => ty.hasIdle || left.hasIdle || right.hasIdle
  | .comp _ _ family faces base => family.hasIdle || hasIdleBranches faces || base.hasIdle
  | .coe _ _ family base => family.ignoresDirection || family.hasIdle || base.hasIdle
  | .hcomp ty faces base => ty.hasIdle || hasIdleBranches faces || base.hasIdle
  | .missing => false

def hasIdleBranches : List (Face × Term) → Bool
  | [] => false
  | (_, body) :: rest => body.hasIdle || hasIdleBranches rest

end

/-! To drop a coercion makes a term smaller, so a term that is left as it was had none. -/

mutual

/-- To drop idle coercions makes no term larger. -/
theorem sizeOf_dropIdle_le : ∀ t : Term, sizeOf t.dropIdle ≤ sizeOf t
  | .univ _ => Nat.le_refl _
  | .var _ => Nat.le_refl _
  | .missing => Nat.le_refl _
  | .pi _ a b => by
    have ha := sizeOf_dropIdle_le a
    have hb := sizeOf_dropIdle_le b
    simp only [dropIdle, pi.sizeOf_spec]
    omega
  | .lam _ b => by
    have hb := sizeOf_dropIdle_le b
    simp only [dropIdle, lam.sizeOf_spec]
    omega
  | .app f a => by
    have hf := sizeOf_dropIdle_le f
    have ha := sizeOf_dropIdle_le a
    simp only [dropIdle, app.sizeOf_spec]
    omega
  | .path a l r => by
    have ha := sizeOf_dropIdle_le a
    have hl := sizeOf_dropIdle_le l
    have hr := sizeOf_dropIdle_le r
    simp only [dropIdle, path.sizeOf_spec]
    omega
  | .pathLam _ b => by
    have hb := sizeOf_dropIdle_le b
    simp only [dropIdle, pathLam.sizeOf_spec]
    omega
  | .pathApp p _ => by
    have hp := sizeOf_dropIdle_le p
    simp only [dropIdle, pathApp.sizeOf_spec]
    omega
  | .smoothPath _ a l r => by
    have ha := sizeOf_dropIdle_le a
    have hl := sizeOf_dropIdle_le l
    have hr := sizeOf_dropIdle_le r
    simp only [dropIdle, smoothPath.sizeOf_spec]
    omega
  | .comp _ _ a fs b => by
    have ha := sizeOf_dropIdle_le a
    have hfs := sizeOf_dropIdleBranches_le fs
    have hb := sizeOf_dropIdle_le b
    simp only [dropIdle, comp.sizeOf_spec]
    omega
  | .coe _ _ a b => by
    have ha := sizeOf_dropIdle_le a
    have hb := sizeOf_dropIdle_le b
    simp only [dropIdle, coe.sizeOf_spec]
    split
    · omega
    · simp only [coe.sizeOf_spec]
      omega
  | .hcomp a fs b => by
    have ha := sizeOf_dropIdle_le a
    have hfs := sizeOf_dropIdleBranches_le fs
    have hb := sizeOf_dropIdle_le b
    simp only [dropIdle, hcomp.sizeOf_spec]
    omega

/-- To drop idle coercions makes no system larger. -/
theorem sizeOf_dropIdleBranches_le : ∀ fs : List (Face × Term),
    sizeOf (dropIdleBranches fs) ≤ sizeOf fs
  | [] => Nat.le_refl _
  | (φ, u) :: rest => by
    have hu := sizeOf_dropIdle_le u
    have hrest := sizeOf_dropIdleBranches_le rest
    simp only [dropIdleBranches, List.cons.sizeOf_spec, Prod.mk.sizeOf_spec]
    omega

end

mutual

/-- Dropping the idle coercions of a term changes it exactly if it has some. -/
theorem dropIdle_eq_self_iff : ∀ t : Term, t.dropIdle = t ↔ t.hasIdle = false
  | .univ _ => by simp [dropIdle, hasIdle]
  | .var _ => by simp [dropIdle, hasIdle]
  | .missing => by simp [dropIdle, hasIdle]
  | .pi _ a b => by simp [dropIdle, hasIdle, dropIdle_eq_self_iff a, dropIdle_eq_self_iff b]
  | .lam _ b => by simp [dropIdle, hasIdle, dropIdle_eq_self_iff b]
  | .app f a => by simp [dropIdle, hasIdle, dropIdle_eq_self_iff f, dropIdle_eq_self_iff a]
  | .path a l r => by
    simp [dropIdle, hasIdle, dropIdle_eq_self_iff a, dropIdle_eq_self_iff l,
      dropIdle_eq_self_iff r, and_assoc]
  | .pathLam _ b => by simp [dropIdle, hasIdle, dropIdle_eq_self_iff b]
  | .pathApp p _ => by simp [dropIdle, hasIdle, dropIdle_eq_self_iff p]
  | .smoothPath _ a l r => by
    simp [dropIdle, hasIdle, dropIdle_eq_self_iff a, dropIdle_eq_self_iff l,
      dropIdle_eq_self_iff r, and_assoc]
  | .comp _ _ a fs b => by
    simp [dropIdle, hasIdle, dropIdle_eq_self_iff a, dropIdleBranches_eq_self_iff fs,
      dropIdle_eq_self_iff b, and_assoc]
  | .coe s t a b => by
    by_cases idle : a.ignoresDirection = true
    · -- The base alone is never the whole coercion.
      have smaller : b.dropIdle ≠ .coe s t a b := by
        intro h
        have hle := sizeOf_dropIdle_le b
        rw [h, coe.sizeOf_spec] at hle
        omega
      simp [dropIdle, hasIdle, idle, smaller]
    · simp [dropIdle, hasIdle, idle, dropIdle_eq_self_iff a, dropIdle_eq_self_iff b]
  | .hcomp a fs b => by
    simp [dropIdle, hasIdle, dropIdle_eq_self_iff a, dropIdleBranches_eq_self_iff fs,
      dropIdle_eq_self_iff b, and_assoc]

/-- A system is itself without its idle coercions if and only if it has none. -/
theorem dropIdleBranches_eq_self_iff : ∀ fs : List (Face × Term),
    dropIdleBranches fs = fs ↔ hasIdleBranches fs = false
  | [] => by simp [dropIdleBranches, hasIdleBranches]
  | (_, u) :: rest => by
    simp [dropIdleBranches, hasIdleBranches, dropIdle_eq_self_iff u,
      dropIdleBranches_eq_self_iff rest]

end

end Term

/-! ## What is known of variables -/

/-- What is known of a term variable. -/
inductive Role
  /-- It has a value of its own. -/
  | defined
  /-- It stands for itself, and its type may say more of what is made from it. -/
  | typed
  /-- It stands for itself, and nothing made from it by eliminations has a known type. -/
  | inert
deriving DecidableEq, Repr

/-- The role of a variable whose type has the given form. -/
def Role.ofType (form : Form) : Role :=
  if form.isTakenApart then .typed else .inert

/-- Whether the term is a chain of eliminations of an inert variable. -/
def Term.isInert (roles : List Role) : Term → Bool
  | .var index => Index.get? roles index == some .inert
  | .app function _ => function.isInert roles
  | .pathApp p _ => p.isInert roles
  | _ => false

/-! ## Settled dimensions, faces and terms -/

/-- Whether the dimension is an end or one of `count` interval variables. -/
def Dim.inScope (count : Nat) : Dim → Bool
  | .zero => true
  | .one => true
  | .var index => Index.inScope count index
  | .missing => false

def Dim.isVar : Dim → Bool
  | .var _ => true
  | _ => false

/-- The interval variables `count - 1` to `0`, each standing for itself. -/
def IntervalEnv.generic : Nat → IntervalEnv
  | 0 => []
  | count + 1 => .var count :: generic count

/-- Generic interval variables are counted down. -/
theorem IntervalEnv.generic_eq_countdown : ∀ count, generic count = Index.countdown .var count
  | 0 => rfl
  | count + 1 => by rw [generic, generic_eq_countdown count, Index.countdown]

/-- Whether the formula holds on some face but not everywhere, and is written as faces are read
back. -/
def Face.isSettled (count : Nat) (φ : Face) : Bool :=
  match φ.cofibration (.generic count) with
  | .ok c => !c.isTrue && !c.isFalse &&
    match c.toFace count with
    | .ok ψ => ψ == φ
    | .error _ => false
  | .error _ => false

namespace Term

/-- Whether the term is a variable or eliminates something. -/
def isElimination : Term → Bool
  | .var _ => true
  | .app _ _ => true
  | .pathApp _ _ => true
  | .comp _ _ _ _ _ => true
  | .coe _ _ _ _ => true
  | _ => false

mutual

/-- Whether the term is normal in shape, under so many term and interval variables: it applies
only eliminations and takes points only of eliminations, and what it mentions is in scope. -/
def isNormal : Nat → Nat → Term → Bool
  | _, _, .univ _ => true
  | depth, _, .var index => Index.inScope depth index
  | depth, count, .pi _ domain codomain =>
    domain.isNormal depth count && codomain.isNormal (depth + 1) count
  | depth, count, .lam _ body => body.isNormal (depth + 1) count
  | depth, count, .app function argument =>
    function.isElimination && function.isNormal depth count && argument.isNormal depth count
  | depth, count, .path ty left right =>
    ty.isNormal depth count && left.isNormal depth count && right.isNormal depth count
  | depth, count, .pathLam _ body => body.isNormal depth (count + 1)
  | depth, count, .pathApp p dim =>
    p.isElimination && p.isNormal depth count && dim.inScope count
  | depth, count, .smoothPath _ ty left right =>
    ty.isNormal depth count && left.isNormal depth count && right.isNormal depth count
  | depth, count, .comp source target family faces base =>
    source.inScope count && target.inScope count && family.isNormal depth (count + 1) &&
      normalBranches depth count faces && base.isNormal depth count
  | depth, count, .coe source target family base =>
    source.inScope count && target.inScope count && family.isNormal depth (count + 1) &&
      base.isNormal depth count
  | _, _, .hcomp _ _ _ => false
  | _, _, .missing => false

def normalBranches : Nat → Nat → List (Face × Term) → Bool
  | _, _, [] => true
  | depth, count, (_, body) :: rest =>
    body.isNormal depth (count + 1) && normalBranches depth count rest

end

/-- Whether eliminations of the term are stuck even if it is an idle coercion. -/
def isFirm : Term → Bool
  | .coe _ _ family base => !family.ignoresDirection || base.dropIdle.form == .stuck
  | _ => true

mutual

/-- Whether nothing is left to compute in a term that is normal in shape, but for idle coercions:
no definition stands in it, ends are taken only of what is inert, and each Kan operation goes
somewhere along a family that no rule takes apart. With `typeFree`, no type of a part has to be
computed for that either. -/
def isQuiet (typeFree : Bool) : List Role → Nat → Term → Bool
  | _, _, .univ _ => true
  | roles, _, .var index => Index.get? roles index != some .defined
  | roles, count, .pi _ domain codomain =>
    domain.isQuiet typeFree roles count &&
      codomain.isQuiet typeFree (.ofType domain.dropIdle.form :: roles) count
  | roles, count, .lam _ body => body.isQuiet typeFree (.inert :: roles) count
  | roles, count, .app function argument =>
    function.isQuiet typeFree roles count && argument.isQuiet typeFree roles count &&
      function.isFirm && (!typeFree || function.dropIdle.isInert roles)
  | roles, count, .path ty left right =>
    ty.isQuiet typeFree roles count && left.isQuiet typeFree roles count &&
      right.isQuiet typeFree roles count
  | roles, count, .pathLam _ body => body.isQuiet typeFree roles (count + 1)
  | roles, count, .pathApp p dim =>
    p.isQuiet typeFree roles count && p.isFirm && (dim.isVar || p.dropIdle.isInert roles)
  | roles, count, .smoothPath _ ty left right =>
    ty.isQuiet typeFree roles count && left.isQuiet typeFree roles count &&
      right.isQuiet typeFree roles count
  | roles, count, .comp source target family faces base =>
    !typeFree && source != target && family.isQuiet typeFree roles (count + 1) &&
      !family.dropIdle.form.isTakenApart && quietBranches typeFree roles count faces &&
      base.isQuiet typeFree roles count
  | roles, count, .coe source target family base =>
    base.isQuiet typeFree roles count &&
      (family.ignoresDirection ||
        !typeFree && source != target && family.isQuiet typeFree roles (count + 1) &&
          !family.dropIdle.form.isTakenApart && family.dropIdle.form != .univ)
  | _, _, .hcomp _ _ _ => false
  | _, _, .missing => false

def quietBranches (typeFree : Bool) : List Role → Nat → List (Face × Term) → Bool
  | _, _, [] => true
  | roles, count, (φ, body) :: rest =>
    φ.isSettled count && body.isQuiet typeFree roles (count + 1) &&
      quietBranches typeFree roles count rest

end

/-- Whether the term is normal in shape and nothing in it is left to compute but idle
coercions. -/
def isSettled (typeFree : Bool) (roles : List Role) (count : Nat) (t : Term) : Bool :=
  t.isNormal roles.length count && t.isQuiet typeFree roles count

def settledBranches (typeFree : Bool) (roles : List Role) (count : Nat)
    (fs : List (Face × Term)) : Bool :=
  normalBranches roles.length count fs && quietBranches typeFree roles count fs

end Term

/-! ## The parts of settled terms -/

namespace Term

variable {typeFree : Bool} {roles : List Role} {count : Nat}

/-- A firm elimination is stuck in form once its idle coercions are dropped. -/
theorem form_dropIdle_of_isElimination {t : Term} (h : t.isElimination = true)
    (hfirm : t.isFirm = true) : t.dropIdle.form = .stuck := by
  cases t with
  | coe d d' a b =>
    unfold dropIdle
    split
    · rename_i idle
      simpa [isFirm, idle] using hfirm
    · rfl
  | univ | pi | lam | path | pathLam | smoothPath | hcomp | missing => cases h
  | var | app | pathApp | comp => rfl

/-- A settled variable is in scope and not defined. -/
theorem isSettled_var {i : Int} (h : (Term.var i).isSettled typeFree roles count = true) :
    ∃ role, Index.get? roles i = some role ∧ role ≠ .defined := by
  simp only [isSettled, isNormal, isQuiet, Bool.and_eq_true, bne_iff_ne] at h
  obtain ⟨role, hrole⟩ := Index.get?_of_inScope h.1
  exact ⟨role, hrole, fun hdef => h.2 (by rw [hrole, hdef])⟩

/-- The parts of a settled function type are settled, the codomain under a variable of its domain.
-/
theorem isSettled_pi {x : String} {a b : Term}
    (h : (Term.pi x a b).isSettled typeFree roles count = true) :
    a.isSettled typeFree roles count = true ∧
      b.isSettled typeFree (.ofType a.dropIdle.form :: roles) count = true := by
  simp only [isSettled, isNormal, isQuiet, Bool.and_eq_true, List.length_cons] at h ⊢
  exact ⟨⟨h.1.1, h.2.1⟩, h.1.2, h.2.2⟩

/-- The body of a settled abstraction is settled under a variable without a type. -/
theorem isSettled_lam {x : String} {b : Term}
    (h : (Term.lam x b).isSettled typeFree roles count = true) :
    b.isSettled typeFree (.inert :: roles) count = true := h

/-- The parts of a settled application are settled, and its function is stuck. -/
theorem isSettled_app {f a : Term} (h : (Term.app f a).isSettled typeFree roles count = true) :
    f.isSettled typeFree roles count = true ∧ a.isSettled typeFree roles count = true ∧
      f.dropIdle.form = .stuck ∧ (typeFree = true → f.dropIdle.isInert roles = true) := by
  simp only [isSettled, isNormal, isQuiet, Bool.and_eq_true, Bool.or_eq_true] at h ⊢
  obtain ⟨⟨⟨helim, hf⟩, ha⟩, ⟨⟨hf', ha'⟩, hfirm⟩, hfree⟩ := h
  refine ⟨⟨hf, hf'⟩, ⟨ha, ha'⟩, form_dropIdle_of_isElimination helim hfirm, fun total => ?_⟩
  simpa [total] using hfree

/-- The parts of a settled path type are settled. -/
theorem isSettled_path {a l r : Term}
    (h : (Term.path a l r).isSettled typeFree roles count = true) :
    a.isSettled typeFree roles count = true ∧ l.isSettled typeFree roles count = true ∧
      r.isSettled typeFree roles count = true := by
  simp only [isSettled, isNormal, isQuiet, Bool.and_eq_true] at h ⊢
  obtain ⟨⟨⟨ha, hl⟩, hr⟩, ⟨ha', hl'⟩, hr'⟩ := h
  exact ⟨⟨ha, ha'⟩, ⟨hl, hl'⟩, hr, hr'⟩

/-- The parts of a settled smooth path type are settled. -/
theorem isSettled_smoothPath {k : Int} {a l r : Term}
    (h : (Term.smoothPath k a l r).isSettled typeFree roles count = true) :
    a.isSettled typeFree roles count = true ∧ l.isSettled typeFree roles count = true ∧
      r.isSettled typeFree roles count = true := isSettled_path h

/-- The path of a settled application to a point is settled and stuck, and it is no end of a path
whose type is in sight. -/
theorem isSettled_pathApp {p : Term} {d : Dim}
    (h : (Term.pathApp p d).isSettled typeFree roles count = true) :
    p.isSettled typeFree roles count = true ∧ p.dropIdle.form = .stuck ∧
      d.inScope count = true ∧ (d.isVar = true ∨ p.dropIdle.isInert roles = true) := by
  simp only [isSettled, isNormal, isQuiet, Bool.and_eq_true, Bool.or_eq_true] at h ⊢
  obtain ⟨⟨⟨helim, hp⟩, hd⟩, ⟨hp', hfirm⟩, hends⟩ := h
  exact ⟨⟨hp, hp'⟩, form_dropIdle_of_isElimination helim hfirm, hd, hends⟩

/-- The parts of a settled composition are settled, it goes somewhere, and no rule takes its family
apart. -/
theorem isSettled_comp {d d' : Dim} {a b : Term} {fs : List (Face × Term)}
    (h : (Term.comp d d' a fs b).isSettled typeFree roles count = true) :
    typeFree = false ∧ d.inScope count = true ∧ d'.inScope count = true ∧ d ≠ d' ∧
      a.isSettled typeFree roles (count + 1) = true ∧
      a.dropIdle.form.isTakenApart = false ∧ settledBranches typeFree roles count fs = true ∧
      b.isSettled typeFree roles count = true := by
  simp only [isSettled, isNormal, isQuiet, settledBranches, Bool.and_eq_true,
    Bool.not_eq_true', bne_iff_ne] at h ⊢
  obtain ⟨⟨⟨⟨⟨hd, hd'⟩, ha⟩, hfs⟩, hb⟩, ⟨⟨⟨⟨hfree, hne⟩, ha'⟩, hform⟩, hfs'⟩, hb'⟩ := h
  exact ⟨hfree, hd, hd', hne, ⟨ha, ha'⟩, hform, ⟨hfs, hfs'⟩, hb, hb'⟩

/-- The parts of a settled coercion are settled, and it is idle or goes somewhere along a family
that no rule takes apart. -/
theorem isSettled_coe {d d' : Dim} {a b : Term}
    (h : (Term.coe d d' a b).isSettled typeFree roles count = true) :
    d.inScope count = true ∧ d'.inScope count = true ∧ b.isSettled typeFree roles count = true ∧
      (a.ignoresDirection = true ∨ typeFree = false ∧ d ≠ d' ∧
        a.isSettled typeFree roles (count + 1) = true ∧
        a.dropIdle.form.isTakenApart = false ∧ a.dropIdle.form ≠ .univ) := by
  simp only [isSettled, isNormal, isQuiet, Bool.and_eq_true, Bool.or_eq_true,
    Bool.not_eq_true', bne_iff_ne] at h ⊢
  obtain ⟨⟨⟨⟨hd, hd'⟩, ha⟩, hb⟩, hb', hmoves⟩ := h
  refine ⟨hd, hd', ⟨hb, hb'⟩, hmoves.imp id ?_⟩
  rintro ⟨⟨⟨⟨hfree, hne⟩, ha'⟩, hform⟩, huniv⟩
  exact ⟨hfree, hne, ⟨ha, ha'⟩, hform, huniv⟩

/-- Of a settled system the first formula, the first body and the rest are settled. -/
theorem settledBranches_cons {φ : Face} {u : Term} {fs : List (Face × Term)}
    (h : settledBranches typeFree roles count ((φ, u) :: fs) = true) :
    φ.isSettled count = true ∧ u.isSettled typeFree roles (count + 1) = true ∧
      settledBranches typeFree roles count fs = true := by
  simp only [settledBranches, normalBranches, quietBranches, isSettled,
    Bool.and_eq_true] at h ⊢
  obtain ⟨⟨hu, hfs⟩, ⟨hφ, hu'⟩, hfs'⟩ := h
  exact ⟨hφ, ⟨hu, hu'⟩, hfs, hfs'⟩

end Term

/-! ## Faces at interval variables -/

namespace Cofibration

/-- Only the empty clause makes a cofibration true, and no clause is lost to it. -/
theorem isTrue_ofClauses (cs : List Clause) : (ofClauses cs).isTrue = true ↔ [] ∈ cs := by
  have consistent : [] ∈ cs.filter Clause.isConsistent ↔ [] ∈ cs := by
    simp [Clause.isConsistent]
  unfold ofClauses
  dsimp only
  split
  · rename_i h
    simpa [isTrue, top] using consistent.1 (by simpa using h)
  · rename_i h
    have absent : [] ∉ cs.filter Clause.isConsistent := by simpa using h
    have absent' : [] ∉ OrderedSet.ofList (OrderedSet.compareLists Constraint.cmp)
        (cs.filter Clause.isConsistent) :=
      fun h => absent (OrderedSet.mem_of_mem_ofList _ h)
    simpa [isTrue, absent'] using fun h => absent (consistent.2 h)

/-- A meet is the whole cube if and only if both cofibrations are. -/
theorem isTrue_meet (φ ψ : Cofibration) : (φ.meet ψ).isTrue = (φ.isTrue && ψ.isTrue) := by
  rw [Bool.eq_iff_iff]
  unfold meet
  rw [isTrue_ofClauses]
  simp [isTrue, Clause.meet, OrderedSet.union_eq_nil_iff]

/-- A join is the whole cube if and only if one of the cofibrations is. -/
theorem isTrue_join (φ ψ : Cofibration) : (φ.join ψ).isTrue = (φ.isTrue || ψ.isTrue) := by
  rw [Bool.eq_iff_iff]
  unfold join
  rw [isTrue_ofClauses]
  simp [isTrue]

end Cofibration

/-- All interval variables stand for interval variables. -/
def IntervalEnv.IsGeneric (dims : IntervalEnv) : Prop :=
  ∀ r ∈ dims, ∃ level, r = .var level

/-- Among generic interval variables, an index of a face formula stands for an interval variable. -/
theorem Face.point_isVar {dims : IntervalEnv} (h : dims.IsGeneric) {i : Int} {r : Interval}
    (hr : Face.point dims i = .ok r) : ∃ level, r = .var level := by
  unfold Face.point at hr
  split at hr
  · unfold IntervalEnv.find at hr
    split at hr
    · rename_i r' hget
      cases hr
      exact h _ (Index.mem_of_get? hget)
    · cases hr
  · cases hr
    exact ⟨_, rfl⟩

/-- The cofibration of a conjunction is the meet of those of its parts. -/
theorem Face.cofibration_and_eq_ok {dims : IntervalEnv} {φ ψ : Face} {c : Cofibration} :
    (Face.and φ ψ).cofibration dims = .ok c ↔
      ∃ x y, φ.cofibration dims = .ok x ∧ ψ.cofibration dims = .ok y ∧ x.meet y = c := by
  rw [Face.cofibration]
  cases φ.cofibration dims <;> cases ψ.cofibration dims <;>
    simp [bind, Except.bind, pure, Except.pure]

/-- The cofibration of a disjunction is the join of those of its parts. -/
theorem Face.cofibration_or_eq_ok {dims : IntervalEnv} {φ ψ : Face} {c : Cofibration} :
    (Face.or φ ψ).cofibration dims = .ok c ↔
      ∃ x y, φ.cofibration dims = .ok x ∧ ψ.cofibration dims = .ok y ∧ x.join y = c := by
  rw [Face.cofibration]
  cases φ.cofibration dims <;> cases ψ.cofibration dims <;>
    simp [bind, Except.bind, pure, Except.pure]

/-- Whether a formula holds everywhere does not depend on which interval variables it is about. -/
theorem Face.isTrue_cofibration_eq {dims dims' : IntervalEnv} (h : dims.IsGeneric)
    (h' : dims'.IsGeneric) {φ : Face} {c c' : Cofibration} (hc : φ.cofibration dims = .ok c)
    (hc' : φ.cofibration dims' = .ok c') : c.isTrue = c'.isTrue := by
  induction φ generalizing c c' with
  | top =>
    cases hc
    cases hc'
    rfl
  | bottom =>
    cases hc
    cases hc'
    rfl
  | eq i e =>
    unfold Face.cofibration at hc hc'
    cases hr : Face.point dims i with
    | error f => simp [hr, Except.map] at hc
    | ok r =>
      cases hr' : Face.point dims' i with
      | error f => simp [hr', Except.map] at hc'
      | ok r' =>
        obtain ⟨l, rfl⟩ := Face.point_isVar h hr
        obtain ⟨l', rfl⟩ := Face.point_isVar h' hr'
        rw [hr] at hc
        rw [hr'] at hc'
        cases hc
        cases hc'
        rfl
  | and a b iha ihb =>
    obtain ⟨x, y, hx, hy, rfl⟩ := cofibration_and_eq_ok.1 hc
    obtain ⟨x', y', hx', hy', rfl⟩ := cofibration_and_eq_ok.1 hc'
    rw [Cofibration.isTrue_meet, Cofibration.isTrue_meet, iha hx hx', ihb hy hy']
  | or a b iha ihb =>
    obtain ⟨x, y, hx, hy, rfl⟩ := cofibration_or_eq_ok.1 hc
    obtain ⟨x', y', hx', hy', rfl⟩ := cofibration_or_eq_ok.1 hc'
    rw [Cofibration.isTrue_join, Cofibration.isTrue_join, iha hx hx', ihb hy hy']
  | missing => cases hc

end SmoothCubical
