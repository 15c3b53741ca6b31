import SmoothCubical.Proofs.Cofibration.Quotation
import SmoothCubical.Proofs.Pending.Evaluation

/-!
# What is read back as pending is stuck

`Term.isBlocked` says of a term that each Kan operation in it is stuck. Values that obey the law of
an orderly session are read back as such terms (`quote_blocked`).

The family of a pending operation was looked at at a probe, and is read back at an interval
variable, in a session that has gone on. These are two runs at points that stand for each other, so
the families have one form (`Session.Found.at_variable`). Only runs of one evaluator can be
compared, which is why nothing is said about families of several evaluators.
-/

set_option autoImplicit false

namespace SmoothCubical

namespace Term

mutual

/-- Whether each Kan operation in the term is stuck, under so many interval variables: it goes
somewhere, and each face holds somewhere but not everywhere. With `families`, the family has no form
for which there is a rule, either. -/
def isBlocked (families : Bool) : Nat → Term → Bool
  | _, .univ _ => true
  | _, .var _ => true
  | count, .pi _ domain codomain =>
    domain.isBlocked families count && codomain.isBlocked families count
  | count, .lam _ body => body.isBlocked families count
  | count, .app function argument =>
    function.isBlocked families count && argument.isBlocked families count
  | count, .path ty left right =>
    ty.isBlocked families count && left.isBlocked families count && right.isBlocked families count
  | count, .pathLam _ body => body.isBlocked families (count + 1)
  | count, .pathApp p _ => p.isBlocked families count
  | count, .smoothPath _ ty left right =>
    ty.isBlocked families count && left.isBlocked families count && right.isBlocked families count
  | count, .comp source target family faces base =>
    target != source && (!families || !family.form.isTakenApart) &&
      family.isBlocked families (count + 1) && blockedBranches families count faces &&
      base.isBlocked families count
  | count, .coe source target family base =>
    source != target && (!families || !family.form.isTakenApart && family.form != .univ) &&
      family.isBlocked families (count + 1) && base.isBlocked families count
  | _, .hcomp _ _ _ => false
  | _, .missing => false

def blockedBranches (families : Bool) : Nat → List (Face × Term) → Bool
  | _, [] => true
  | count, (φ, body) :: rest =>
    φ.isSettled count && body.isBlocked families (count + 1) &&
      blockedBranches families count rest

end

end Term

/-! ## Families at a probe and at an interval variable -/

/-- The scope in which values are read back under so many interval variables. They belong to the
evaluator, if one is given. -/
structure Scope.Suits (S : Scope) (owner : Option MeterId) (count : Nat) : Prop where
  point : ∀ l, S.point l → 0 ≤ l ∧ l < count
  meter : ∀ k, S.meter k → ∀ m ∈ owner, k = m

/-- A scope that suits some interval variables suits one more with the next of them added. -/
theorem Scope.Suits.probing {S : Scope} {owner : Option MeterId} {count : Nat}
    (h : S.Suits owner count) : (S.probing (.var count)).Suits owner (count + 1) where
  point := by
    rintro l (hl | hl)
    · have := h.point l hl
      omega
    · cases hl
      omega
  meter := h.meter

/-- A scope that suits some interval variables still does with one more term variable. -/
theorem Scope.Suits.binding {S : Scope} {owner : Option MeterId} {count : Nat}
    (h : S.Suits owner count) (l : Int) : (S.binding l).Suits owner count :=
  ⟨h.point, h.meter⟩

namespace Likeness

/-- A probe in the first run stands for the next interval variable in the second. -/
def crossing (m : MeterId) (s : Session) (probe : Int) (count : Nat) (hprobe : probe < 0) :
    Likeness where
  meter := m
  origin := s.origin
  origin' := s.origin
  probes := [(probe, count)]
  injective := by simp
  fixed l := 0 ≤ l ∧ l < count
  fixed_nonneg _ hl := hl.1
  fixed_of_nonneg := nofun
  apart := by
    simp only [List.mem_singleton, forall_eq]
    omega
  loose := True
  negative h := (h trivial).elim

variable {m : MeterId} {s : Session} {probe : Int} {count : Nat} {hprobe : probe < 0}

instance : (crossing m s probe count hprobe).Faithful where
  finds h := h.elim

/-- In the first run of a crossing there are interval variables in scope and the probe. -/
theorem left_crossing (l : Int) (h : (crossing m s probe count hprobe).left l) :
    0 ≤ l ∨ l = probe := by
  obtain ⟨l', hl | hl⟩ := h
  · exact .inl hl.1.1
  · exact .inr (congrArg Prod.fst (List.mem_singleton.1 hl))

/-- In the second run of a crossing there are interval variables only. -/
theorem right_crossing (l : Int) (h : (crossing m s probe count hprobe).right l) : 0 ≤ l := by
  obtain ⟨l', hl | hl⟩ := h
  · exact hl.2 ▸ hl.1.1
  · have : l = count := congrArg Prod.snd (List.mem_singleton.1 hl)
    omega

/-- Values that are alike have one form. -/
theorem Values.form_eq {L : Likeness} {v v' : Value} (h : L.Values v v') : v.form = v'.form := by
  cases h <;> rfl

end Likeness

open Likeness in
/-- A family has the form at an interval variable that it was found to have at a probe. -/
theorem Session.Found.at_variable {m : MeterId} {s s' : Session} {a : Line} {P : Form → Prop}
    (h : s.Found m a P) (hs : s.Orderly (some m)) {S : Scope} {count : Nat}
    (hS : S.Suits (some m) count) (ha : a.In (S.during s)) {frames : Nat} {ty : Value}
    (hrun : Eval.lineAt (Eval.run frames) m a (.var count) s = .ok ty s')
    (hend : s.Precedes m s') : P ty.form := by
  obtain ⟨frames', b, e, shape, hopened, hb, hlook, he, hshape⟩ := h
  have hprobe : Run.probeBase - (b.meter m).probes < 0 := by
    simp only [Run.probeBase]
    omega
  let L := crossing m s' (Run.probeBase - (b.meter m).probes) count hprobe
  have hholds : L.Holds (S.during s) :=
    ⟨fun hk => hS.meter _ hk m rfl, hS.point, hend.origin, hend.origin⟩
  have hfirst : b.Ready m s'.origin (0 ≤ ·) e :=
    ⟨hopened, hb, clear_of_nonneg (fun _ hl => hl) b e, fun hx => hend.origin (he.origin hx)⟩
  have hsecond : s.Ready m s'.origin (0 ≤ ·) s' :=
    ⟨hs.opened m rfl, hs.certified m rfl, clear_of_nonneg (fun _ hl => hl) s s', id⟩
  have hprecedes : (probed m b).Precedes m e := by
    have hadvances := Run.Advancing.keeps (m := m)
      (x := Eval.lineAt (Eval.run frames') m a (.var (Run.probeBase - (b.meter m).probes)))
      (probed m b)
    rw [Run.after_ok hlook] at hadvances
    exact hadvances.toPrecedes
  have hready := (ready_probed hfirst hprecedes).2
  let x := Eval.lineAt (Eval.run frames') m a (.var (Run.probeBase - (b.meter m).probes))
  let y := Eval.lineAt (Eval.run frames) m a (.var count)
  have hx : x.after (probed m b) = e := Run.after_ok hlook
  have hy : y.after s = s' := Run.after_ok hrun
  have halike : L.Alike False (e.meter m).steps L.Values x (probed m b) y s :=
    alike_lineAt (run_alike _ frames' frames) (ha.alike hholds) (.var (.inr List.mem_cons_self))
  unfold Alike at halike
  rw [hx, hy, show x (probed m b) = .ok shape e from hlook, show y s = .ok ty s' from hrun]
    at halike
  cases halike (hready.mono left_crossing) (hsecond.mono right_crossing) (Nat.le_refl _)
    False.elim with
  | ok hvalues _ => exact hvalues.form_eq ▸ hshape

/-! ## Runs that answer -/

/-- The session is sound and orderly. -/
structure Session.Neat (owner : Option MeterId) (s : Session) : Prop where
  sound : s.Sound
  orderly : s.Orderly owner

/-- A session leads to every neat one that it goes on to. -/
theorem Session.Onward.leads {owner : Option MeterId} {s s' : Session} (h : s.Onward s')
    (hs' : s'.Neat owner) : s.Leads s' :=
  ⟨h.origin, hs'.sound⟩

/-- If the run answers from the session, then it goes on to a sound and orderly one, and the answer
is as described. -/
def Run.Gives {α : Type} (owner : Option MeterId) (P : Session → α → Prop) (x : Run α)
    (s : Session) : Prop :=
  ∀ a s', x s = .ok a s' → s.Onward s' ∧ s'.Neat owner ∧ P s' a

namespace Run

variable {α β : Type} {owner : Option MeterId} {P : Session → α → Prop} {Q : Session → β → Prop}
  {s : Session}

/-- To answer at once gives the answer, in a neat session. -/
theorem gives_pure (hs : s.Neat owner) {a : α} (h : P s a) :
    Gives owner P (pure a : Run α) s := by
  rintro b s' hb
  cases hb
  exact ⟨Session.Chain.refl s, hs, h⟩

/-- To fail at once gives no answer. -/
theorem gives_throw (e : Failure) : Gives owner P (throw e : Run α) s :=
  nofun

/-- What gives answers can be sequenced, the second from any neat session that the first goes on to.
-/
theorem Gives.bind {x : Run α} {f : α → Run β} (hx : Gives owner P x s)
    (hf : ∀ a s', s.Onward s' → s'.Neat owner → P s' a → Gives owner Q (f a) s') :
    Gives owner Q (x >>= f) s := by
  intro b s₂ hb
  obtain ⟨a, s₁, ha, hb⟩ := bind_eq_ok.1 hb
  obtain ⟨hon₁, hs₁, ha⟩ := hx a s₁ ha
  obtain ⟨hon₂, hs₂, hb⟩ := hf a s₁ hon₁ hs₁ ha b s₂ hb
  exact ⟨Session.Chain.trans hon₁ hon₂, hs₂, hb⟩

/-- An answer of the syntax is given as it is. -/
theorem gives_ofFault (hs : s.Neat owner) (x : Except Fault α) :
    Gives owner (fun s' a => s = s' ∧ x = .ok a) (ofFault x) s := by
  cases x with
  | ok a => exact gives_pure hs ⟨rfl, rfl⟩
  | error f => exact gives_throw _

end Run

namespace Eval

open Run

variable {owner : Option MeterId} {S : Scope} {s : Session} {m : MeterId}

/-- The value is in scope, and obeys the law of the session. -/
def Placed (S : Scope) (owner : Option MeterId) (s : Session) (v : Value) : Prop :=
  v.In (S.during s) ∧ v.Obeys (s.law owner)

/-- Evaluation, in a neat session, gives values in scope that obey the law. -/
theorem gives_run (f : Nat) (hs : s.Neat owner) (hm : S.meter m) (hk : ∀ k ∈ owner, m = k)
    {d : Demand} (hd : d.In (S.during s)) (hobeys : d.Obeys (s.law owner)) :
    Gives owner (Placed S owner) (run f m d) s := by
  intro v s' hv
  obtain ⟨hleads, hin⟩ := (run_safe f hs.sound hm hd).ok hv
  obtain ⟨hon, horderly, hv⟩ := (run_tidy owner f hs.orderly hk hobeys).ok hv
  exact ⟨hon, ⟨hleads.sound, horderly⟩, hin, hv⟩

/-- A family in scope that obeys the law is at a point in scope a value that does. -/
theorem gives_lineAt (f : Nat) (hs : s.Neat owner) (hm : S.meter m) (hk : ∀ k ∈ owner, m = k)
    {a : Line} (ha : a.In (S.during s)) (hobeys : a.Obeys (s.law owner)) {r : Interval}
    (hr : r.On S.point) : Gives owner (Placed S owner) (lineAt (run f) m a r) s := by
  cases hobeys with
  | constant hv =>
    cases ha with
    | constant hin => exact gives_pure hs ⟨hin, hv⟩
  | varying hc =>
    cases ha with
    | varying hin => exact gives_run f hs hm hk (.instantiateAt hin hr) (.instantiateAt hc)

end Eval

namespace Readback

open Run Eval

/-- Two points that are read back to the same dimension are the same. -/
theorem dim_injective {count : Int} {r r' : Interval} {d : Dim} (h : dim count r = .ok d)
    (h' : dim count r' = .ok d) : r = r' := by
  unfold dim at h h'
  have hflip {l l' : Int} (heq : Index.flip count l = Index.flip count l') : l = l' := by
    rw [← Index.flip_flip count l, heq, Index.flip_flip]
  grind

/-- Values in scope that obey the law are read back as terms in which what is pending is stuck. -/
def ReadsBlocked (owner : Option MeterId) (m : MeterId) (read : Reader) : Prop :=
  ∀ {S : Scope} {s : Session} {depth count : Nat} {v : Value}, s.Neat owner →
    S.meter m → S.Suits owner count → v.In (S.during s) → v.Obeys (s.law owner) →
    Gives owner (fun _ t => t.isBlocked owner.isSome count = true ∧ t.form = v.form)
      (read depth count v) s

section Rules

variable {owner : Option MeterId} {m : MeterId} {f : Nat} {read : Reader}
  (hread : ReadsBlocked owner m read) {S : Scope} {s : Session} {depth count : Nat}
  (hs : s.Neat owner) (hm : S.meter m) (hS : S.Suits owner count)

include hread hs hm hS

/-- A family is read back with the form that it was found to have. -/
theorem gives_line {a : Line} (ha : a.In (S.during s)) (hobeys : a.Obeys (s.law owner)) :
    Gives owner (fun _ t => t.isBlocked owner.isSome (count + 1) = true ∧
      ∀ P, (∀ k ∈ owner, s.Found k a P) → owner.isSome = true → P t.form)
      (line (run f) read m depth count a) s := by
  have hk := hS.meter m hm
  have hin : a.In ((S.probing (.var count)).during s) := ha.mono ((S.during s).le_probing _)
  intro t s₂ ht
  obtain ⟨ty, s₁, hty, ht⟩ := bind_eq_ok.1 ht
  obtain ⟨hon₁, hs₁, hplaced⟩ := gives_lineAt (S := S.probing (.var count)) f hs hm hk hin hobeys
    (S.on_probing _) ty s₁ hty
  obtain ⟨hon₂, hs₂, hblocked, hform⟩ :=
    hread (S := S.probing (.var count)) hs₁ hm hS.probing hplaced.1 hplaced.2 t s₂ ht
  refine ⟨Session.Chain.trans hon₁ hon₂, hs₂, hblocked, fun P hfound hsome => ?_⟩
  obtain ⟨k, rfl⟩ := Option.isSome_iff_exists.1 hsome
  obtain rfl : m = k := hk k rfl
  rw [hform]
  exact (hfound m rfl).at_variable hs.orderly hS ha hty (hon₁ m).toPrecedes

/-- Partial elements on proper faces are read back to a system in which what is pending is stuck. -/
theorem gives_tubes {faces : List Tube} (hfaces : (S.during s).Tubes faces)
    (hproper : ∀ face ∈ faces, face.1.IsProper)
    (hbodies : ∀ face ∈ faces, face.2.Obeys (s.law owner)) :
    Gives owner (fun _ ts => Term.blockedBranches owner.isSome count ts = true)
      (tubes (run f) read m depth count faces) s := by
  have hk := hS.meter m hm
  induction faces generalizing s with
  | nil => exact gives_pure hs rfl
  | cons face rest ih =>
    obtain ⟨φ, u⟩ := face
    obtain ⟨hcovers, hu⟩ := hfaces (φ, u) List.mem_cons_self
    have hφ := hproper (φ, u) List.mem_cons_self
    have hlevels : φ.On fun l => l < count := by
      refine Cofibration.On.mono (fun l hl => ?_) hcovers
      rcases hl with hl | ⟨_, hl⟩
      · exact (hS.point l hl).2
      · omega
    apply (gives_ofFault hs _).bind
    rintro ψ _ - - ⟨rfl, hψ⟩
    have hsettled := hφ.canonical.isSettled_toFace hlevels hφ.partly hφ.somewhere hψ
    apply (gives_run (S := S.probing (.var count)) f hs hm hk
      (.instantiateAt (hu.mono ((S.during s).le_probing _)) (S.on_probing _))
      (.instantiateAt (hbodies (φ, u) List.mem_cons_self))).bind
    intro v s₁ hon₁ hs₁ hv
    apply (hread (S := S.probing (.var count)) hs₁ hm hS.probing hv.1 hv.2).bind
    intro t s₂ hon₂ hs₂ ht
    have hon : s.Onward s₂ := Session.Chain.trans hon₁ hon₂
    apply (ih hs₂
      (fun g hg => (hfaces.mono ((hon.leads hs₂).le S)) g (List.mem_cons_of_mem _ hg))
      (fun g hg => hproper g (List.mem_cons_of_mem _ hg))
      (fun g hg => (hbodies g (List.mem_cons_of_mem _ hg)).mono (hon.law_le owner))).bind
    intro ts s₃ _ hs₃ hts
    exact gives_pure hs₃ (by simp only [Term.blockedBranches, hsettled, ht.1, hts, Bool.and_self])

/-- A stuck computation is read back to a stuck term in which what is pending is stuck. -/
theorem gives_neutral {n : Neutral} (hn : n.In (S.during s)) (hobeys : n.Obeys (s.law owner)) :
    Gives owner (fun _ t => t.isBlocked owner.isSome count = true ∧ t.form = .stuck)
      (neutral (run f) read m depth count n) s := by
  cases hobeys with
  | var =>
    apply (gives_ofFault hs _).bind
    intro i s₁ _ hs₁ _
    exact gives_pure hs₁ ⟨rfl, rfl⟩
  | app hn' hv' =>
    cases hn with
    | app hn hv =>
      apply (hread hs hm hS (.untyped hn) (.untyped hn')).bind
      intro g s₁ hon₁ hs₁ hg
      apply (hread hs₁ hm hS (hv.mono ((hon₁.leads hs₁).le S))
        (hv'.mono (hon₁.law_le owner))).bind
      intro v s₂ _ hs₂ hv
      exact gives_pure hs₂ ⟨by simp only [Term.isBlocked, hg.1, hv.1, Bool.and_self], rfl⟩
  | pathApp hn' =>
    cases hn with
    | pathApp hn _ =>
      apply (hread hs hm hS (.untyped hn) (.untyped hn')).bind
      intro p s₁ _ hs₁ hp
      apply (gives_ofFault hs₁ _).bind
      intro d s₂ _ hs₂ _
      exact gives_pure hs₂ ⟨by simp only [Term.isBlocked, hp.1], rfl⟩
  | comp hmoves hstuck ha' hproper hbodies hv' =>
    cases hn with
    | comp _ _ ha hφs hus hv =>
      apply (gives_line hread hs hm hS ha ha').bind
      intro a s₁ hon₁ hs₁ ha
      apply (hread hs₁ hm hS (hv.mono ((hon₁.leads hs₁).le S))
        (hv'.mono (hon₁.law_le owner))).bind
      intro b s₂ hon₂ hs₂ hb
      have hon : s.Onward s₂ := Session.Chain.trans hon₁ hon₂
      have hfaces : (S.during s).Tubes _ := fun face hface => ⟨hφs face hface, hus face hface⟩
      apply (gives_tubes hread hs₂ hm hS (hfaces.mono ((hon.leads hs₂).le S)) hproper
        fun face hface => (hbodies face hface).mono (hon.law_le owner)).bind
      intro fs s₃ _ hs₃ hfs
      apply (gives_ofFault hs₃ _).bind
      rintro d' _ - hs₄ ⟨rfl, hd'⟩
      apply (gives_ofFault hs₄ _).bind
      rintro d _ - hs₅ ⟨rfl, hd⟩
      have hne : (d' != d) = true := bne_iff_ne.2 fun heq =>
        hmoves (dim_injective hd' (heq ▸ hd))
      have hfamily : (!owner.isSome || !a.form.isTakenApart) = true := by
        cases hsome : owner.isSome with
        | false => rfl
        | true => simp [ha.2 _ hstuck hsome]
      refine gives_pure hs₅ ⟨?_, rfl⟩
      simp only [Term.isBlocked, hne, hfamily, ha.1, hfs, hb.1, Bool.and_self]
  | coe hmoves hstuck ha' hv' =>
    cases hn with
    | coe _ _ ha hv =>
      apply (gives_line hread hs hm hS ha ha').bind
      intro a s₁ hon₁ hs₁ ha
      apply (gives_ofFault hs₁ _).bind
      rintro d _ - hs₂ ⟨rfl, hd⟩
      apply (gives_ofFault hs₂ _).bind
      rintro d' _ - hs₃ ⟨rfl, hd'⟩
      apply (hread hs₃ hm hS (hv.mono ((hon₁.leads hs₃).le S))
        (hv'.mono (hon₁.law_le owner))).bind
      intro b s₄ _ hs₄ hb
      have hne : (d != d') = true := bne_iff_ne.2 fun heq =>
        hmoves (dim_injective hd (heq ▸ hd'))
      have hfamily :
          (!owner.isSome || !a.form.isTakenApart && a.form != .univ) = true := by
        cases hsome : owner.isSome with
        | false => rfl
        | true =>
          obtain ⟨hapart, huniv⟩ := ha.2 _ hstuck hsome
          simp [hapart, huniv]
      refine gives_pure hs₄ ⟨?_, rfl⟩
      simp only [Term.isBlocked, hne, hfamily, ha.1, hb.1, Bool.and_self]

/-- Path types of both kinds are read back part by part. -/
theorem gives_endpoints {a l r : Value} (ha : a.In (S.during s)) (ha' : a.Obeys (s.law owner))
    (hl : l.In (S.during s)) (hl' : l.Obeys (s.law owner)) (hr : r.In (S.during s))
    (hr' : r.Obeys (s.law owner)) {type : Term → Term → Term → Term}
    (hparts : ∀ a l r, (type a l r).isBlocked owner.isSome count =
      (a.isBlocked owner.isSome count && l.isBlocked owner.isSome count &&
        r.isBlocked owner.isSome count))
    (hform : ∀ a l r, (type a l r).form = .path) :
    Gives owner (fun _ t => t.isBlocked owner.isSome count = true ∧ t.form = .path) (do
      let a ← read depth count a
      let l ← read depth count l
      return type a l (← read depth count r)) s := by
  apply (hread hs hm hS ha ha').bind
  intro a s₁ hon₁ hs₁ ha
  apply (hread hs₁ hm hS (hl.mono ((hon₁.leads hs₁).le S)) (hl'.mono (hon₁.law_le owner))).bind
  intro l s₂ hon₂ hs₂ hl
  have hon : s.Onward s₂ := Session.Chain.trans hon₁ hon₂
  apply (hread hs₂ hm hS (hr.mono ((hon.leads hs₂).le S)) (hr'.mono (hon.law_le owner))).bind
  intro r s₃ _ hs₃ hr
  exact gives_pure hs₃ ⟨by simp only [hparts, ha.1, hl.1, hr.1, Bool.and_self], hform a l r⟩

/-- One layer of reading back gives terms in which what is pending is stuck, of the form of the
value. -/
theorem gives_value {v : Value} (hv : v.In (S.during s)) (hobeys : v.Obeys (s.law owner)) :
    Gives owner (fun _ t => t.isBlocked owner.isSome count = true ∧ t.form = v.form)
      (value (run f) read m depth count v) s := by
  have hk := hS.meter m hm
  have fresh : (S.binding depth).level depth := .inr rfl
  have hbind := (S.during s).le_binding depth
  cases hobeys with
  | univ => exact gives_pure hs ⟨rfl, rfl⟩
  | pi ha' hb' =>
    cases hv with
    | pi ha hb =>
      have hy : Entry.In ((S.binding depth).during s) (.value (.generic depth (some _))) :=
        .value (.typed (.var fresh) (ha.mono hbind))
      apply (gives_run (S := S.binding depth) f hs hm hk (.instantiate (hb.mono hbind) hy)
        (.instantiate hb' (.value (.typed .var ha')))).bind
      intro b s₁ hon₁ hs₁ hb
      apply (hread hs₁ hm hS (ha.mono ((hon₁.leads hs₁).le S))
        (ha'.mono (hon₁.law_le owner))).bind
      intro a s₂ hon₂ hs₂ ha
      apply (hread (S := S.binding depth) hs₂ hm (hS.binding depth)
        (hb.1.mono ((hon₂.leads hs₂).le _)) (hb.2.mono (hon₂.law_le owner))).bind
      intro b s₃ _ hs₃ hb
      exact gives_pure hs₃ ⟨by simp only [Term.isBlocked, ha.1, hb.1, Bool.and_self], rfl⟩
  | lam hb' =>
    cases hv with
    | lam hb =>
      have hy : Entry.In ((S.binding depth).during s) (.value (.generic depth none)) :=
        .value (.untyped (.var fresh))
      apply (gives_run (S := S.binding depth) f hs hm hk (.instantiate (hb.mono hbind) hy)
        (.instantiate hb' (.value (.untyped .var)))).bind
      intro b s₁ _ hs₁ hb
      apply (hread (S := S.binding depth) hs₁ hm (hS.binding depth) hb.1 hb.2).bind
      intro b s₂ _ hs₂ hb
      exact gives_pure hs₂ ⟨by simp only [Term.isBlocked, hb.1], rfl⟩
  | path ha' hl' hr' =>
    cases hv with
    | path ha hl hr =>
      exact gives_endpoints hread hs hm hS ha ha' hl hl' hr hr' (fun _ _ _ => rfl) fun _ _ _ => rfl
  | smoothPath ha' hl' hr' =>
    cases hv with
    | smoothPath ha hl hr =>
      exact gives_endpoints hread hs hm hS ha ha' hl hl' hr hr' (fun _ _ _ => rfl) fun _ _ _ => rfl
  | pathLam hb' =>
    cases hv with
    | pathLam hb =>
      apply (gives_run (S := S.probing (.var count)) f hs hm hk
        (.instantiateAt (hb.mono ((S.during s).le_probing _)) (S.on_probing _))
        (.instantiateAt hb')).bind
      intro b s₁ _ hs₁ hb
      apply (hread (S := S.probing (.var count)) hs₁ hm hS.probing hb.1 hb.2).bind
      intro b s₂ _ hs₂ hb
      exact gives_pure hs₂ ⟨by simp only [Term.isBlocked, hb.1], rfl⟩
  | untyped hn' =>
    cases hv with
    | untyped hn => exact gives_neutral hread hs hm hS hn hn'
  | typed hn' _ =>
    cases hv with
    | typed hn _ => exact gives_neutral hread hs hm hS hn hn'

end Rules

/-- Values that obey the law are read back as terms in which what is pending is stuck, however many
calls may nest. -/
theorem quote_blocked (owner : Option MeterId) (m : MeterId) :
    ∀ frames, ReadsBlocked owner m (quote frames m)
  | 0 => fun _ _ _ _ _ => gives_throw _
  | frames + 1 => fun hs hm hS hv hobeys =>
    gives_value (quote_blocked owner m frames) hs hm hS hv hobeys

end Readback

end SmoothCubical
