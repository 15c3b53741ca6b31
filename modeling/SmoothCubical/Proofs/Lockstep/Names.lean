import SmoothCubical.Proofs.Lockstep.Values

/-!
# Display names

Terms that are the same up to display names match if every name may stand for every other
(`Term.matches_of_same`), and terms that match in this sense are the same up to display names
(`Term.Matches.same`). What corresponds without a difference in names does so with one, so values
that were compared before can take part in such a comparison.
-/

set_option autoImplicit false

namespace SmoothCubical

/-- Two runs that differ in display names only. -/
def Correspondence.names : Correspondence :=
  { Correspondence.same with name := fun _ _ => True, name_path := trivial }

/-! ## Terms that are the same up to names -/

namespace Term

open Correspondence

mutual

/-- Terms that are the same up to display names match if every name may stand for every other. -/
theorem matches_of_same {V D : Int → Int → Prop} (hV : ∀ i, V i i) (hD : ∀ i, D i i) :
    ∀ {t t' : Term}, t.same t' = true → Term.Matches names V D t t'
  | .univ _, .univ _, h => by
    simp only [same, beq_iff_eq] at h
    subst h
    exact .univ
  | .var _, .var _, h => by
    simp only [same, beq_iff_eq] at h
    subst h
    exact .var (hV _)
  | .pi _ _ _, .pi _ _ _, h => by
    simp only [same, Bool.and_eq_true] at h
    exact .pi trivial (matches_of_same hV hD h.1) (matches_of_same (Under.refl hV) hD h.2)
  | .lam _ _, .lam _ _, h => .lam trivial (matches_of_same (Under.refl hV) hD h)
  | .app _ _, .app _ _, h => by
    simp only [same, Bool.and_eq_true] at h
    exact .app (matches_of_same hV hD h.1) (matches_of_same hV hD h.2)
  | .path _ _ _, .path _ _ _, h => by
    simp only [same, Bool.and_eq_true] at h
    exact .path (matches_of_same hV hD h.1.1) (matches_of_same hV hD h.1.2)
      (matches_of_same hV hD h.2)
  | .pathLam _ _, .pathLam _ _, h => .pathLam trivial (matches_of_same hV (Under.refl hD) h)
  | .pathApp _ d, .pathApp _ _, h => by
    simp only [same, Bool.and_eq_true, beq_iff_eq] at h
    exact .pathApp (matches_of_same hV hD h.1) (h.2 ▸ d.matches_refl hD)
  | .smoothPath _ _ _ _, .smoothPath _ _ _ _, h => by
    simp only [same, Bool.and_eq_true, beq_iff_eq] at h
    obtain ⟨⟨⟨rfl, ha⟩, hl⟩, hr⟩ := h
    exact .smoothPath (matches_of_same hV hD ha) (matches_of_same hV hD hl)
      (matches_of_same hV hD hr)
  | .comp s t _ _ _, .comp _ _ _ _ _, h => by
    simp only [same, Bool.and_eq_true, beq_iff_eq] at h
    obtain ⟨⟨⟨⟨rfl, rfl⟩, ha⟩, hfs⟩, hb⟩ := h
    exact .comp (s.matches_refl hD) (t.matches_refl hD) (matches_of_same hV (Under.refl hD) ha)
      (branchesMatch_of_same hV hD hfs) (matches_of_same hV hD hb)
  | .coe s t _ _, .coe _ _ _ _, h => by
    simp only [same, Bool.and_eq_true, beq_iff_eq] at h
    obtain ⟨⟨⟨rfl, rfl⟩, ha⟩, hb⟩ := h
    exact .coe (s.matches_refl hD) (t.matches_refl hD) (matches_of_same hV (Under.refl hD) ha)
      (matches_of_same hV hD hb)
  | .hcomp _ _ _, .hcomp _ _ _, h => by
    simp only [same, Bool.and_eq_true] at h
    exact .hcomp (matches_of_same hV hD h.1.1) (branchesMatch_of_same hV hD h.1.2)
      (matches_of_same hV hD h.2)
  | .missing, .missing, _ => .missing

/-- Systems of partial elements that are the same up to display names match in the same sense. -/
theorem branchesMatch_of_same {V D : Int → Int → Prop} (hV : ∀ i, V i i) (hD : ∀ i, D i i) :
    ∀ {fs fs' : List (Face × Term)}, sameBranches fs fs' = true →
      Term.BranchesMatch names V D fs fs'
  | [], [], _ => .nil
  | (φ, _) :: _, (_, _) :: _, h => by
    simp only [sameBranches, Bool.and_eq_true, beq_iff_eq] at h
    obtain ⟨⟨rfl, hu⟩, hrest⟩ := h
    exact .cons (φ.matches_refl hD) (matches_of_same hV (Under.refl hD) hu)
      (branchesMatch_of_same hV hD hrest)

end

mutual

/-- Terms that match, with indices that stand for themselves only, are the same up to display names.
-/
theorem Matches.same {C : Correspondence} {V D : Int → Int → Prop} (hV : ∀ i j, V i j → i = j)
    (hD : ∀ i j, D i j → i = j) {t t' : Term} : Term.Matches C V D t t' → t.same t' = true
  | .univ => by simp [Term.same]
  | .var r => by simp [Term.same, hV _ _ r]
  | .pi _ a b => by simp [Term.same, a.same hV hD, b.same (fun _ _ => Under.eq hV) hD]
  | .lam _ b => b.same (fun _ _ => Under.eq hV) hD
  | .app f a => by simp [Term.same, f.same hV hD, a.same hV hD]
  | .path a l r => by simp [Term.same, a.same hV hD, l.same hV hD, r.same hV hD]
  | .pathLam _ b => b.same hV fun _ _ => Under.eq hD
  | .pathApp p d => by simp [Term.same, p.same hV hD, d.eq hD]
  | .smoothPath a l r => by simp [Term.same, a.same hV hD, l.same hV hD, r.same hV hD]
  | .comp s t a fs b => by
    simp [Term.same, s.eq hD, t.eq hD, a.same hV fun _ _ => Under.eq hD, fs.same hV hD,
      b.same hV hD]
  | .coe s t a b => by
    simp [Term.same, s.eq hD, t.eq hD, a.same hV fun _ _ => Under.eq hD, b.same hV hD]
  | .hcomp a fs b => by simp [Term.same, a.same hV hD, fs.same hV hD, b.same hV hD]
  | .missing => rfl

/-- Systems of partial elements that match, with indices that stand for themselves only, are the
same up to display names. -/
theorem BranchesMatch.same {C : Correspondence} {V D : Int → Int → Prop}
    (hV : ∀ i j, V i j → i = j) (hD : ∀ i j, D i j → i = j) {fs fs' : List (Face × Term)} :
    Term.BranchesMatch C V D fs fs' → sameBranches fs fs' = true
  | .nil => rfl
  | .cons φ u rest => by
    simp [sameBranches, φ.eq hD, u.same hV fun _ _ => Under.eq hD, rest.same hV hD]

end

end Term

/-! ## More differences, more correspondences -/

/-- Whatever stands for each other in the first sense does so in the second. -/
structure Correspondence.Extends (C C' : Correspondence) : Prop where
  level : ∀ {i j : Int}, C'.level i j → C.level i j
  name : ∀ {x y : String}, C'.name x y → C.name x y
  unbound : ∀ {i j : Int}, C'.unbound i j → C.unbound i j
  argument : ∀ {id : Nat}, C'.argument id → C.argument id

/-- Two runs that differ in nothing differ at most in names. -/
theorem Correspondence.names_extends_same : Correspondence.names.Extends Correspondence.same where
  level h := h
  name _ := trivial
  unbound h := h
  argument h := h

section Extends

variable {C C' : Correspondence}

namespace Term

mutual

/-- Terms still match if more names stand for each other. -/
theorem Matches.extend (h : ∀ {x y : String}, C'.name x y → C.name x y)
    {V D : Int → Int → Prop} {t t' : Term} :
    Term.Matches C' V D t t' → Term.Matches C V D t t'
  | .univ => .univ
  | .var r => .var r
  | .pi n a b => .pi (h n) (a.extend h) (b.extend h)
  | .lam n b => .lam (h n) (b.extend h)
  | .app f a => .app (f.extend h) (a.extend h)
  | .path a l r => .path (a.extend h) (l.extend h) (r.extend h)
  | .pathLam n b => .pathLam (h n) (b.extend h)
  | .pathApp p d => .pathApp (p.extend h) d
  | .smoothPath a l r => .smoothPath (a.extend h) (l.extend h) (r.extend h)
  | .comp s t a fs b => .comp s t (a.extend h) (fs.extend h) (b.extend h)
  | .coe s t a b => .coe s t (a.extend h) (b.extend h)
  | .hcomp a fs b => .hcomp (a.extend h) (fs.extend h) (b.extend h)
  | .missing => .missing

/-- Partial elements still match if more names stand for each other. -/
theorem BranchesMatch.extend (h : ∀ {x y : String}, C'.name x y → C.name x y)
    {V D : Int → Int → Prop} {fs fs' : List (Face × Term)} :
    Term.BranchesMatch C' V D fs fs' → Term.BranchesMatch C V D fs fs'
  | .nil => .nil
  | .cons φ u rest => .cons φ (u.extend h) (rest.extend h)

end

end Term

namespace Correspondence

section Unbound

variable (h : ∀ {i j : Int}, C'.unbound i j → C.unbound i j)
include h

/-- Faults still correspond if more indices are reported for each other. -/
theorem Faults.extend {f f' : Fault} : C'.Faults f f' → C.Faults f f'
  | .unboundVariable r => .unboundVariable (h r)
  | .unboundDimension r => .unboundDimension (h r)
  | .missingTerm => .missingTerm
  | .missingDim => .missingDim
  | .missingFace => .missingFace
  | .endpointRange => .endpointRange

/-- Answers of look-ups still correspond if more indices are reported for each other. -/
theorem Answers.extend {α β : Type} {R : α → β → Prop} {x : Except Fault α}
    {y : Except Fault β} : C'.Answers R x y → C.Answers R x y
  | .ok r => .ok r
  | .error hf => .error (hf.extend h)

/-- Scopes are still bound alike if more indices are reported for each other. -/
theorem Bound.extend {V : Int → Int → Prop} {env env' : Env} (hb : C'.Bound V env env') :
    C.Bound V env env' :=
  fun i j hij => ⟨(hb i j hij).1, fun hnone => h ((hb i j hij).2 hnone)⟩

/-- Interval environments still correspond if more indices are reported for each other. -/
theorem Dims.extend {D : Int → Int → Prop} {dims dims' : IntervalEnv}
    (hd : C'.Dims D dims dims') : C.Dims D dims dims' :=
  fun i j hij => ⟨(hd i j hij).1.extend h, (hd i j hij).2.extend h⟩

end Unbound

mutual

/-- Values that correspond still do so if more may differ. -/
theorem Values.extend (h : C.Extends C') {v v' : Value} : C'.Values v v' → C.Values v v'
  | .univ => .univ
  | .pi n a b => .pi (h.name n) (a.extend h) (b.extend h)
  | .lam n b => .lam (h.name n) (b.extend h)
  | .path a l r => .path (a.extend h) (l.extend h) (r.extend h)
  | .smoothPath a l r => .smoothPath (a.extend h) (l.extend h) (r.extend h)
  | .pathLam n b => .pathLam (h.name n) (b.extend h)
  | .untyped n => .untyped (n.extend h)
  | .typed n a => .typed (n.extend h) (a.extend h)

/-- Stuck computations that correspond still do so if more may differ. -/
theorem Neutrals.extend (h : C.Extends C') {n n' : Neutral} : C'.Neutrals n n' → C.Neutrals n n'
  | .var hl => .var (h.level hl)
  | .app n v => .app (n.extend h) (v.extend h)
  | .pathApp n => .pathApp (n.extend h)
  | .comp a fs v => .comp (a.extend h) (fs.extend h) (v.extend h)
  | .coe a v => .coe (a.extend h) (v.extend h)

/-- Bodies of abstractions that correspond still do so if more may differ. -/
theorem Closures.extend (h : C.Extends C') {c c' : Closure} : C'.Closures c c' → C.Closures c c'
  | .body he hb hd ht =>
    .body (fun i j e e' hij hi hj => (he i j e e' hij hi hj).extend h) (hb.extend h.unbound)
      (hd.extend h.unbound) (ht.extend h.name)
  | .comp a fs v => .comp (a.extend h) (fs.extend h) (v.extend h)
  | .coe a v => .coe (a.extend h) (v.extend h)

/-- Bodies of interval abstractions that correspond still do so if more may differ. -/
theorem IntervalClosures.extend (h : C.Extends C') {c c' : IntervalClosure} :
    C'.IntervalClosures c c' → C.IntervalClosures c c'
  | .body he hb hd ht =>
    .body (fun i j e e' hij hi hj => (he i j e e' hij hi hj).extend h) (hb.extend h.unbound)
      (hd.extend h.unbound) (ht.extend h.name)
  | .choice u v w => .choice (u.extend h) (v.extend h) (w.extend h)
  | .domain a => .domain (a.extend h)
  | .codomain a y => .codomain (a.extend h) (y.extend h)
  | .element a => .element (a.extend h)
  | .left a => .left (a.extend h)
  | .right a => .right (a.extend h)
  | .app u y => .app (u.extend h) (y.extend h)
  | .pathApp u => .pathApp (u.extend h)
  | .comp a fs v => .comp (a.extend h) (fs.extend h) (v.extend h)

/-- Bodies that are constant in the same way still are if more may differ. -/
theorem Still.extend (h : C.Extends C') {c c' : IntervalClosure} : C'.Still c c' → C.Still c c'
  | .body he hb hd ht hm =>
    .body (fun i j e e' hij hi hj => (he i j e e' hij hi hj).extend h) (hb.extend h.unbound)
      (hd.extend h.unbound) (ht.extend h.name) hm
  | .domain a ha => .domain (a.extend h) ha
  | .codomain a ha d hd v => .codomain (a.extend h) ha (d.extend h) hd (v.extend h)
  | .element a ha => .element (a.extend h) ha

/-- Moved arguments that correspond still do so if more may differ. -/
theorem Arguments.extend (h : C.Extends C') {y y' : Carried} : C'.Arguments y y' → C.Arguments y y'
  | .mk d v => .mk (d.extend h) (v.extend h)

/-- Families that correspond still do so if more may differ. -/
theorem Lines.extend (h : C.Extends C') {a a' : Line} : C'.Lines a a' → C.Lines a a'
  | .constant a => .constant (a.extend h)
  | .moving c => .moving (c.extend h)
  | .still c => .still (c.extend h)

/-- Entries that correspond still do so if more may differ. -/
theorem Entries.extend (h : C.Extends C') {e e' : Entry} : C'.Entries e e' → C.Entries e e'
  | .value v => .value (v.extend h)
  | .thunk hid => .thunk (h.argument hid)

/-- Partial elements that correspond still do so if more may differ. -/
theorem Tubes.extend (h : C.Extends C') {fs fs' : List Tube} : C'.Tubes fs fs' → C.Tubes fs fs'
  | .nil => .nil
  | .cons u rest => .cons (u.extend h) (rest.extend h)

end

/-- Environments that correspond still do so if more may differ. -/
theorem Environments.extend (h : C.Extends C') {V : Int → Int → Prop} {env env' : Env}
    (he : C'.Environments V env env') : C.Environments V env env' where
  entries i j e e' hij hi hj := (he.entries i j e e' hij hi hj).extend h
  bound := he.bound.extend h.unbound

/-- Arguments that were put off and correspond still do so if more may differ. -/
theorem Cells.extend (h : C.Extends C') {c c' : Cell} : C'.Cells c c' → C.Cells c c'
  | .pending he hd ht => .pending (he.extend h) (hd.extend h.unbound) (ht.extend h.name)
  | .done v => .done (v.extend h)

/-- Sessions that correspond still do if no more of their arguments may be looked at. -/
theorem Sessions.extend (h : C.Extends C') (hback : ∀ {id : Nat}, C.argument id → C'.argument id)
    {s s' : Session} (hs : C'.Sessions s s') : C.Sessions s s' where
  meters := hs.meters
  sharing := hs.sharing
  size := hs.size
  later id hid := h.argument (hs.later id hid)
  cells id c c' hlooked hc hc' := (hs.cells id c c' (hback hlooked) hc hc').extend h

end Correspondence

end Extends

end SmoothCubical
