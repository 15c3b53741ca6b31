import SmoothCubical.Proofs.Lockstep.Typing
import SmoothCubical.Proofs.Relaxation.Conservative

/-!
# Subsumption is a preorder

Whether a type may stand for another shows in their normal forms (`Term.Subsumes`): they are the
same, or universes of which the second is no smaller, if universes are cumulative, or smooth path
types of which the second asks for no more. On normal forms this is a preorder, and types that may
stand for each other have the same normal form.

A type that belongs to the evaluator has one normal form, whatever the evaluator has done before it
is read back (`Reads.again`). So the comparison of such types accepts exactly what their normal
forms allow, unless a guard cuts it off, and is a preorder, too (`subsumption_preorder`). With parts
of other evaluators in it, a type may read back differently each time, and then it may not even
stand for itself (`subsumption_not_reflexive`).
-/

set_option autoImplicit false

namespace SmoothCubical

/-! ## Normal forms of types that may stand for others -/

namespace Term

/-- The first type may stand for the second, by their normal forms. -/
inductive Subsumes (cumulative : Bool) : Term → Term → Prop
  | same {n n' : Term} : n.same n' = true → Subsumes cumulative n n'
  | univ {i j : Int} : cumulative = true → i ≤ j → Subsumes cumulative (.univ i) (.univ j)
  | smoothPath {order order' : Int} {a l r a' l' r' : Term} :
      order' ≤ order → a.same a' = true → l.same l' = true → r.same r' = true →
        Subsumes cumulative (.smoothPath order a l r) (.smoothPath order' a' l' r')

/-- Only a universe is the same as it up to display names. -/
theorem same_univ_iff {n : Term} {i : Int} : n.same (.univ i) = true ↔ n = .univ i := by
  cases n <;> simp [same]

/-- Only a smooth path type of the same order, with the same parts, is the same as it up to display
names. -/
theorem same_smoothPath_iff {n : Term} {order : Int} {a l r : Term} :
    n.same (.smoothPath order a l r) = true ↔ ∃ a' l' r', n = .smoothPath order a' l' r' ∧
      a'.same a = true ∧ l'.same l = true ∧ r'.same r = true := by
  cases n <;> simp [same, and_assoc]

namespace Subsumes

variable {cumulative : Bool} {n n' n'' : Term}

/-- A normal form may stand for itself. -/
theorem refl (n : Term) : Subsumes cumulative n n :=
  .same n.same_refl

/-- What may stand for a normal form may stand for whatever that may stand for. -/
theorem trans (h : Subsumes cumulative n n') (h' : Subsumes cumulative n' n'') :
    Subsumes cumulative n n'' := by
  cases h with
  | same hsame =>
    cases h' with
    | same hsame' => exact .same (same_trans hsame hsame')
    | univ hrule hij =>
      obtain rfl := same_univ_iff.1 hsame
      exact .univ hrule hij
    | smoothPath hk ha hl hr =>
      obtain ⟨a, l, r, rfl, ha', hl', hr'⟩ := same_smoothPath_iff.1 hsame
      exact .smoothPath hk (same_trans ha' ha) (same_trans hl' hl) (same_trans hr' hr)
  | univ hrule hij =>
    cases h' with
    | same hsame' =>
      obtain rfl := same_univ_iff.1 (same_symm hsame')
      exact .univ hrule hij
    | univ _ hjk => exact .univ hrule (Int.le_trans hij hjk)
  | smoothPath hk ha hl hr =>
    cases h' with
    | same hsame' =>
      obtain ⟨a, l, r, rfl, ha', hl', hr'⟩ := same_smoothPath_iff.1 (same_symm hsame')
      exact .smoothPath hk (same_trans ha (same_symm ha')) (same_trans hl (same_symm hl'))
        (same_trans hr (same_symm hr'))
    | smoothPath hk' ha' hl' hr' =>
      exact .smoothPath (Int.le_trans hk' hk) (same_trans ha ha') (same_trans hl hl')
        (same_trans hr hr')

/-- Types that may stand for each other are the same. -/
theorem antisymm (h : Subsumes cumulative n n') (h' : Subsumes cumulative n' n) :
    n.same n' = true := by
  cases h with
  | same hsame => exact hsame
  | univ _ hij =>
    cases h' with
    | same hsame' => exact same_symm hsame'
    | univ _ hji =>
      obtain rfl := Int.le_antisymm hij hji
      exact same_refl _
  | smoothPath hk ha hl hr =>
    cases h' with
    | same hsame' => exact same_symm hsame'
    | smoothPath hk' _ _ _ =>
      obtain rfl := Int.le_antisymm hk hk'
      exact same_smoothPath_iff.2 ⟨_, _, _, rfl, ha, hl, hr⟩

end Subsumes

end Term

/-! ## What is kept in reading back -/

/-- In what a type may stand for another that it does not convert with. -/
inductive Rank
  /-- The level of a universe. -/
  | level (i : Int)
  /-- The order of a smooth path type. -/
  | order (k : Int)
  | plain

def Value.rank : Value → Rank
  | .univ i => .level i
  | .smoothPath k _ _ _ => .order k
  | _ => .plain

def Term.rank : Term → Rank
  | .univ i => .level i
  | .smoothPath k _ _ _ => .order k
  | _ => .plain

/-- A normal form with the rank of a universe is that universe. -/
theorem Term.eq_univ_of_rank {n : Term} {i : Int} (h : n.rank = .level i) : n = .univ i := by
  cases n <;> cases h
  rfl

/-- A value with the rank of a universe is that universe. -/
theorem Value.eq_univ_of_rank {v : Value} {i : Int} (h : v.rank = .level i) : v = .univ i := by
  cases v <;> cases h
  rfl

/-- A value with the rank of an order is a smooth path type of that order. -/
theorem Value.eq_smoothPath_of_rank {v : Value} {k : Int} (h : v.rank = .order k) :
    ∃ ty left right, v = .smoothPath k ty left right := by
  cases v <;> cases h
  exact ⟨_, _, _, rfl⟩

/-- Whatever the run answers is as described. -/
def Run.Answers {α : Type} (P : α → Prop) (x : Run α) : Prop :=
  ∀ (s t : Session) (a : α), x s = .ok a t → P a

namespace Run

variable {α β : Type} {P : β → Prop}

/-- To answer at once as described is to answer so. -/
theorem answers_pure {b : β} (h : P b) : Answers P (pure b : Run β) := by
  intro s t a heq
  cases heq
  exact h

/-- A sequence answers as described if its second part does. -/
theorem answers_bind {x : Run α} {f : α → Run β} (hf : ∀ a, Answers P (f a)) :
    Answers P (x >>= f) := by
  intro s t b heq
  obtain ⟨a, s₁, _, hb⟩ := bind_eq_ok.1 heq
  exact hf a s₁ t b hb

end Run

namespace Readback

open Run

variable {call : Call} {read : Reader} {m : MeterId} {d e : Int}

/-- Stuck computations have no rank when they are read back. -/
theorem answers_neutral_rank (n : Neutral) :
    Answers (fun t => t.rank = .plain) (neutral call read m d e n) := by
  cases n with
  | var level => exact answers_bind fun _ => answers_pure rfl
  | app f v => exact answers_bind fun _ => answers_bind fun _ => answers_pure rfl
  | pathApp p r => exact answers_bind fun _ => answers_bind fun _ => answers_pure rfl
  | comp r r' a fs v =>
    refine answers_bind fun _ => answers_bind fun _ => answers_bind fun _ => ?_
    exact answers_bind fun _ => answers_bind fun _ => answers_pure rfl
  | coe r r' a v =>
    refine answers_bind fun _ => answers_bind fun _ => ?_
    exact answers_bind fun _ => answers_bind fun _ => answers_pure rfl

/-- A universe is read back with its level and a smooth path type with its order, and nothing else
is read back to one of them. -/
theorem answers_rank (v : Value) :
    Answers (fun t => t.rank = v.rank) (value call read m d e v) := by
  cases v with
  | univ i => exact answers_pure rfl
  | pi x a c =>
    exact answers_bind fun _ => answers_bind fun _ => answers_bind fun _ => answers_pure rfl
  | lam x c => exact answers_bind fun _ => answers_bind fun _ => answers_pure rfl
  | path a l r =>
    exact answers_bind fun _ => answers_bind fun _ => answers_bind fun _ => answers_pure rfl
  | smoothPath k a l r =>
    exact answers_bind fun _ => answers_bind fun _ => answers_bind fun _ => answers_pure rfl
  | pathLam x c => exact answers_bind fun _ => answers_bind fun _ => answers_pure rfl
  | stuck n ty => exact answers_neutral_rank n

end Readback

/-! ## Types with one normal form -/

/-- In some session of the evaluator, the value reads back to the term. -/
def Reads (m : MeterId) (s₀ : Session) (d e : Nat) (v : Value) (n : Term) : Prop :=
  ∃ (frames : Nat) (s r : Session), s₀.Attends m s ∧ Readback.quote frames m d e v s = .ok n r

section Reading

open Likeness

variable {m : MeterId} {s₀ s : Session} {d e : Nat} {v : Value} {n : Term}

/-- What belongs to the evaluator reads back to the same term again, unless a guard cuts it off. -/
theorem Reads.again (h : Reads m s₀ d e v n) (hv : v.In ((Scope.owned m).during s₀))
    (hs : s₀.Attends m s) (frames : Nat) :
    UnlessCutOff False (fun n' r => n' = n ∧ s₀.Attends m r) (Readback.quote frames m d e v s) := by
  obtain ⟨frames₁, s₁, r₁, hs₁, hread⟩ := h
  have hsafe := Readback.quote_safe (S := .owned m) m frames hs.serves.sound rfl
    (.inl trivial : (Scope.owned m).Fits d e) (hv.mono (hs.leads.le _))
  apply (unlessCutOff_again (R := fun _ n n' => n = n') hs₁ hs hsafe ?_ hread).mono
  · rintro _ r ⟨rfl, hagain⟩
    exact ⟨rfl, hs.quote hv hagain⟩
  · rintro L _ rfl hL hholds limit
    exact quote_readers hL (False.elim : False → frames = frames₁) limit d e v v s₁ s
      (Int.natCast_nonneg e) (hv.alike hholds)

/-- A type of the evaluator has at most one normal form. -/
theorem Reads.unique {n' : Term} (h : Reads m s₀ d e v n) (h' : Reads m s₀ d e v n')
    (hv : v.In ((Scope.owned m).during s₀)) : n' = n := by
  obtain ⟨frames, s, r, hs, hread⟩ := h'
  have hagain := h.again hv hs frames
  rw [hread] at hagain
  cases hagain with
  | ok heq => exact heq.1

/-- A smooth path type reads back to one of the same order, whatever the order is. -/
theorem Reads.smoothPath_iff {order : Int} {ty left right : Value} :
    Reads m s₀ d e (.smoothPath order ty left right) n ↔ ∃ a l r, n = .smoothPath order a l r ∧
      ∀ k, Reads m s₀ d e (.smoothPath k ty left right) (.smoothPath k a l r) := by
  constructor
  · rintro ⟨_ | frames, s, r, hs, hread⟩
    · cases hread
    · obtain ⟨a, s₁, ha, hrest⟩ := Run.bind_eq_ok.1 hread
      obtain ⟨b, s₂, hb, hrest⟩ := Run.bind_eq_ok.1 hrest
      obtain ⟨c, s₃, hc, hn⟩ := Run.bind_eq_ok.1 hrest
      refine ⟨a, b, c, ?_, fun k => ⟨frames + 1, s, s₃, hs, ?_⟩⟩
      · cases hn
        rfl
      · refine Run.bind_eq_ok.2 ⟨a, s₁, ha, ?_⟩
        exact Run.bind_eq_ok.2 ⟨b, s₂, hb, Run.bind_eq_ok.2 ⟨c, s₃, hc, rfl⟩⟩
  · rintro ⟨a, l, r, rfl, h⟩
    exact h order

/-- A type and its normal form have one rank. -/
theorem Reads.rank_eq (h : Reads m s₀ d e v n) : n.rank = v.rank := by
  obtain ⟨_ | frames, s, r, _, hread⟩ := h
  · cases hread
  · exact Readback.answers_rank v s r n hread

end Reading

/-! ## Comparisons of types -/

namespace Typing

variable {m : MeterId} {s₀ s r : Session} {σ : Settings} {ctx : Context} {frames : Nat}
  {v w : Value} (hv : v.In ((Scope.owned m).during s₀)) (hw : w.In ((Scope.owned m).during s₀))

/-- In some session of the evaluator, the value reads back to the term in the context. -/
abbrev ReadsIn (m : MeterId) (s₀ : Session) (ctx : Context) : Value → Term → Prop :=
  Reads m s₀ ctx.bindings.length ctx.dims.length

include hv hw

/-- Conversion compares normal forms, unless a guard cuts it off. -/
theorem unlessCutOff_conv {n n' : Term} (hn : ReadsIn m s₀ ctx v n) (hn' : ReadsIn m s₀ ctx w n')
    (hs : s₀.Attends m s) :
    UnlessCutOff False (fun b r => b = n.same n' ∧ s₀.Attends m r)
      (conv ⟨frames, m, σ⟩ ctx v w s) := by
  apply (hn.again hv hs frames).bind
  rintro _ s₁ - ⟨rfl, hs₁⟩
  apply (hn'.again hw hs₁ frames).bind
  rintro _ s₂ - ⟨rfl, hs₂⟩
  exact .ok ⟨rfl, hs₂⟩

/-- If conversion has answered, both types have normal forms, and it has compared them. -/
theorem reads_of_conv (hs : s₀.Attends m s) {b : Bool}
    (hrun : conv ⟨frames, m, σ⟩ ctx v w s = .ok b r) :
    s₀.Attends m r ∧ ∃ n n', ReadsIn m s₀ ctx v n ∧ ReadsIn m s₀ ctx w n' ∧ b = n.same n' := by
  obtain ⟨n, s₁, hn, hrest⟩ := Run.bind_eq_ok.1 hrun
  obtain ⟨n', s₂, hn', hb⟩ := Run.bind_eq_ok.1 hrest
  have hs₁ : s₀.Attends m s₁ := hs.quote hv hn
  have hs₂ : s₀.Attends m s₂ := hs₁.quote hw hn'
  cases hb
  exact ⟨hs₂, n, n', ⟨frames, s, s₁, hs, hn⟩, ⟨frames, s₁, _, hs₁, hn'⟩, rfl⟩

/-- Types that do not convert are compared as their normal forms allow it. -/
theorem unlessCutOff_weakens {n n' : Term} (hn : ReadsIn m s₀ ctx v n)
    (hn' : ReadsIn m s₀ ctx w n') (h : Term.Subsumes σ.cumulative n n')
    (hsame : n.same n' = false) (hs : s₀.Attends m s) :
    UnlessCutOff False (fun b _ => b = true) (weakens ⟨frames, m, σ⟩ ctx v w s) := by
  cases h with
  | same h => exact absurd (hsame.symm.trans h) nofun
  | univ hrule hij =>
    obtain rfl := Value.eq_univ_of_rank hn.rank_eq.symm
    obtain rfl := Value.eq_univ_of_rank hn'.rank_eq.symm
    exact .ok (by simp [hrule, hij])
  | @smoothPath order order' a l r a' l' r' hk ha hl hr =>
    obtain ⟨ty, left, right, rfl⟩ := Value.eq_smoothPath_of_rank hn.rank_eq.symm
    obtain ⟨ty', left', right', rfl⟩ := Value.eq_smoothPath_of_rank hn'.rank_eq.symm
    obtain ⟨_, _, _, heq, hreads⟩ := Reads.smoothPath_iff.1 hn
    cases heq
    have hlowered : Value.In ((Scope.owned m).during s₀) (.smoothPath order' ty left right) := by
      cases hv with
      | smoothPath hty hleft hright => exact .smoothPath hty hleft hright
    have hsmooth : (Value.smoothPath order ty left right).isSmooth order' = true :=
      decide_eq_true hk
    rw [weakens, if_pos hsmooth]
    apply (unlessCutOff_conv hlowered hw (hreads order') hn' hs).mono
    rintro b r ⟨rfl, _⟩
    exact Term.same_smoothPath_iff.2 ⟨_, _, _, rfl, ha, hl, hr⟩

/-- A type is accepted for another if their normal forms allow it. -/
theorem unlessCutOff_convert {n n' : Term} (hn : ReadsIn m s₀ ctx v n)
    (hn' : ReadsIn m s₀ ctx w n') (h : Term.Subsumes σ.cumulative n n') (hs : s₀.Attends m s) :
    UnlessCutOff False (fun _ _ => True) (convert ⟨frames, m, σ⟩ ctx v w s) := by
  apply (unlessCutOff_conv hv hw hn hn' hs).bind
  rintro b s₁ - ⟨hb, hs₁⟩
  cases b with
  | true => exact .ok trivial
  | false =>
    apply (unlessCutOff_weakens hv hw hn hn' h hb.symm hs₁).bind
    rintro b s₂ - rfl
    exact .ok trivial

/-- What is compared successfully without converting has normal forms that allow it. -/
theorem subsumes_of_weakens (hs : s₀.Attends m s) {n n' : Term} (hn : ReadsIn m s₀ ctx v n)
    (hn' : ReadsIn m s₀ ctx w n') (hrun : weakens ⟨frames, m, σ⟩ ctx v w s = .ok true r) :
    Term.Subsumes σ.cumulative n n' := by
  unfold weakens at hrun
  split at hrun
  · rename_i i j
    obtain rfl := Term.eq_univ_of_rank hn.rank_eq
    obtain rfl := Term.eq_univ_of_rank hn'.rank_eq
    have hrule : (σ.cumulative && decide (i ≤ j)) = true := (EStateM.Result.ok.inj hrun).1
    obtain ⟨hcumulative, hij⟩ := Bool.and_eq_true_iff.1 hrule
    exact .univ hcumulative (of_decide_eq_true hij)
  · rename_i order ty left right order' ty' left' right'
    split at hrun
    · rename_i hsmooth
      have hlowered : Value.In ((Scope.owned m).during s₀) (.smoothPath order' ty left right) := by
        cases hv with
        | smoothPath hty hleft hright => exact .smoothPath hty hleft hright
      obtain ⟨_, k, k', hk, hk', hsame⟩ := reads_of_conv hlowered hw hs hrun
      obtain ⟨a, l, r, rfl, hreads⟩ := Reads.smoothPath_iff.1 hn
      obtain rfl := (hreads order').unique hk hlowered
      obtain rfl := hn'.unique hk' hw
      obtain ⟨a', l', r', rfl, ha, hl, hr⟩ :=
        Term.same_smoothPath_iff.1 (Term.same_symm hsame.symm)
      exact .smoothPath (of_decide_eq_true hsmooth) (Term.same_symm ha) (Term.same_symm hl)
        (Term.same_symm hr)
    · cases hrun
  · cases hrun

/-- A type is accepted for another only if their normal forms allow it. -/
theorem subsumes_of_convert (hs : s₀.Attends m s)
    (hrun : convert ⟨frames, m, σ⟩ ctx v w s = .ok () r) :
    ∃ n n', ReadsIn m s₀ ctx v n ∧ ReadsIn m s₀ ctx w n' ∧ Term.Subsumes σ.cumulative n n' := by
  obtain ⟨b, s₁, hconv, hrest⟩ := Run.bind_eq_ok.1 hrun
  obtain ⟨hs₁, n, n', hn, hn', hb⟩ := reads_of_conv hv hw hs hconv
  refine ⟨n, n', hn, hn', ?_⟩
  cases b with
  | true => exact .same hb.symm
  | false =>
    obtain ⟨b, s₂, hweakens, hrest⟩ := Run.bind_eq_ok.1 hrest
    cases b with
    | true => exact subsumes_of_weakens hv hw hs₁ hn hn' hweakens
    | false =>
      obtain ⟨_, s₃, _, hrest⟩ := Run.bind_eq_ok.1 hrest
      obtain ⟨_, s₄, _, hrest⟩ := Run.bind_eq_ok.1 hrest
      obtain ⟨_, s₅, _, hrest⟩ := Run.bind_eq_ok.1 hrest
      cases hrest

end Typing

/-- In some session of the evaluator, the first type is accepted for the second. -/
def Accepted (m : MeterId) (s₀ : Session) (σ : Settings) (ctx : Context) (v w : Value) : Prop :=
  ∃ (frames : Nat) (s r : Session), s₀.Attends m s ∧
    Typing.convert ⟨frames, m, σ⟩ ctx v w s = .ok () r

/-- A type that is accepted in place of another may stand for it by their normal forms. -/
theorem Accepted.subsumes {m : MeterId} {s₀ : Session} {σ : Settings} {ctx : Context}
    {v w : Value} (h : Accepted m s₀ σ ctx v w) (hv : v.In ((Scope.owned m).during s₀))
    (hw : w.In ((Scope.owned m).during s₀)) :
    ∃ n n', Typing.ReadsIn m s₀ ctx v n ∧ Typing.ReadsIn m s₀ ctx w n' ∧
      Term.Subsumes σ.cumulative n n' := by
  obtain ⟨frames, s, r, hs, hrun⟩ := h
  exact Typing.subsumes_of_convert hv hw hs hrun

/-- Subsumption is a preorder. Among types that belong to the evaluator, and whatever the evaluator
has done before each comparison: a type that can be read back is accepted for itself; a type that is
accepted for a second, which is accepted for a third, is accepted for the third; and types that are
accepted for each other convert, and read back to the same term. All that is so under either rule
for universes, and unless a guard cuts the comparison off. -/
theorem subsumption_preorder {m : MeterId} {s₀ s : Session} (hs : s₀.Attends m s)
    (σ : Settings) (ctx : Context) (frames : Nat) {v₁ v₂ v₃ : Value}
    (h₁ : v₁.In ((Scope.owned m).during s₀)) (h₂ : v₂.In ((Scope.owned m).during s₀))
    (h₃ : v₃.In ((Scope.owned m).during s₀)) :
    (∀ n, Typing.ReadsIn m s₀ ctx v₁ n →
      UnlessCutOff False (fun _ _ => True) (Typing.convert ⟨frames, m, σ⟩ ctx v₁ v₁ s)) ∧
    (Accepted m s₀ σ ctx v₁ v₂ → Accepted m s₀ σ ctx v₂ v₃ →
      UnlessCutOff False (fun _ _ => True) (Typing.convert ⟨frames, m, σ⟩ ctx v₁ v₃ s)) ∧
    (Accepted m s₀ σ ctx v₁ v₂ → Accepted m s₀ σ ctx v₂ v₁ →
      UnlessCutOff False (fun b _ => b = true) (Typing.conv ⟨frames, m, σ⟩ ctx v₁ v₂ s) ∧
      ∀ n₁ n₂, Typing.ReadsIn m s₀ ctx v₁ n₁ → Typing.ReadsIn m s₀ ctx v₂ n₂ →
        n₁.same n₂ = true) := by
  refine ⟨fun n hn => ?_, fun h₁₂ h₂₃ => ?_, fun h₁₂ h₂₁ => ?_⟩
  · exact Typing.unlessCutOff_convert h₁ h₁ hn hn (.refl n) hs
  · obtain ⟨n₁, n₂, hn₁, hn₂, hsub⟩ := h₁₂.subsumes h₁ h₂
    obtain ⟨_, n₃, hn₂', hn₃, hsub'⟩ := h₂₃.subsumes h₂ h₃
    obtain rfl := hn₂.unique hn₂' h₂
    exact Typing.unlessCutOff_convert h₁ h₃ hn₁ hn₃ (hsub.trans hsub') hs
  · obtain ⟨n₁, n₂, hn₁, hn₂, hsub⟩ := h₁₂.subsumes h₁ h₂
    obtain ⟨_, _, hn₂', hn₁', hsub'⟩ := h₂₁.subsumes h₂ h₁
    obtain rfl := hn₁.unique hn₁' h₁
    obtain rfl := hn₂.unique hn₂' h₂
    have hsame := hsub.antisymm hsub'
    refine ⟨(Typing.unlessCutOff_conv h₁ h₂ hn₁ hn₂ hs).mono ?_, fun n n' hn hn' => ?_⟩
    · rintro b r ⟨rfl, _⟩
      exact hsame
    · obtain rfl := hn₁.unique hn h₁
      obtain rfl := hn₂.unique hn' h₂
      exact hsame

/-- Function types into path types, between types that are moved along `P` and along `f`. -/
def movedPaths : Term :=
  .pi "_" (.univ 0) (.path (movedAlong 2 (movedAlong 2 (.univ 0)))
    (.coe .zero .one probedTwice (.univ 5)) (movedAlong 2 (.univ 0)))

/-- A context of one evaluator, with three types of smooth paths: of order two, of order one, and of
order one with a redex in it. -/
def smoothTypes : Run (Context × Value × Value × Value) := do
  let ctx ← declareOn 200 .default [movingPath, movedConstant]
  let value (order : Int) (ty : Term) : Run Value :=
    Eval.evaluate 200 0 (.smoothPath order ty (.univ 0) (.univ 0)) ctx.env ctx.dims
  let v₁ ← value 2 movedPaths
  let v₂ ← value 1 movedPaths
  let v₃ ← value 1 (.app (.lam "x" (.var 0)) movedPaths)
  return (ctx, v₁, v₂, v₃)

/-- The types of the example belong to their evaluator. -/
theorem owned_of_smoothTypes {ctx : Context} {v₁ v₂ v₃ : Value} {s : Session}
    (h : smoothTypes {} = .ok (ctx, v₁, v₂, v₃) s) :
    s.Serves 0 ∧ v₁.In ((Scope.owned 0).during s) ∧ v₂.In ((Scope.owned 0).during s) ∧
      v₃.In ((Scope.owned 0).during s) := by
  obtain ⟨ctx, s₀, hctx, hrest⟩ := Run.bind_eq_ok.1 h
  obtain ⟨v₁, s₁, hv₁, hrest⟩ := Run.bind_eq_ok.1 hrest
  obtain ⟨v₂, s₂, hv₂, hrest⟩ := Run.bind_eq_ok.1 hrest
  obtain ⟨v₃, s₃, hv₃, hrest⟩ := Run.bind_eq_ok.1 hrest
  cases hrest
  obtain ⟨hs₀, howned⟩ := fullyOwned_of_declareOn hctx
  obtain ⟨hs₁, _, howned, hin₁⟩ := howned.evaluate hs₀ hv₁
  obtain ⟨hs₂, hlead₂, howned, hin₂⟩ := howned.evaluate hs₁ hv₂
  obtain ⟨hs₃, hlead₃, _, hin₃⟩ := howned.evaluate hs₂ hv₃
  exact ⟨hs₃, hin₁.mono ((hlead₂.trans hlead₃).le _), hin₂.mono (hlead₃.le _), hin₃⟩

/-- The first of three types is accepted for itself and for the third, since it is for the second
and that is for the third. And the last two convert, since they are accepted for each other. -/
theorem subsumption_preorder_smoothTypes :
    ∃ (ctx : Context) (v₁ v₂ v₃ : Value) (s : Session),
      smoothTypes {} = .ok (ctx, v₁, v₂, v₃) s ∧
      UnlessCutOff False (fun _ _ => True) (Typing.convert ⟨200, 0, .default⟩ ctx v₁ v₁ s) ∧
      UnlessCutOff False (fun _ _ => True) (Typing.convert ⟨200, 0, .default⟩ ctx v₁ v₃ s) ∧
      UnlessCutOff False (fun b _ => b = true) (Typing.conv ⟨200, 0, .default⟩ ctx v₂ v₃ s) := by
  have hone : answer? (do
      let (ctx, v₁, v₂, _) ← smoothTypes
      Typing.convert ⟨200, 0, .default⟩ ctx v₁ v₂) = some () := by
    decide +kernel
  have htwo : answer? (do
      let (ctx, _, v₂, v₃) ← smoothTypes
      Typing.convert ⟨200, 0, .default⟩ ctx v₂ v₃) = some () := by
    decide +kernel
  have hback : answer? (do
      let (ctx, _, v₂, v₃) ← smoothTypes
      Typing.convert ⟨200, 0, .default⟩ ctx v₃ v₂) = some () := by
    decide +kernel
  obtain ⟨r, hone⟩ := answer?_eq_some hone
  obtain ⟨r', htwo⟩ := answer?_eq_some htwo
  obtain ⟨r'', hback⟩ := answer?_eq_some hback
  obtain ⟨⟨ctx, v₁, v₂, v₃⟩, s, htypes, hone⟩ := Run.bind_eq_ok.1 hone
  rw [Run.bind_ok htypes] at htwo hback
  obtain ⟨hserves, h₁, h₂, h₃⟩ := owned_of_smoothTypes htypes
  have hs : s.Attends 0 s := ⟨hserves, hserves.sound.refl⟩
  have accepted {v w : Value} {r : Session}
      (h : Typing.convert ⟨200, 0, .default⟩ ctx v w s = .ok () r) :
      Accepted 0 s .default ctx v w :=
    ⟨200, s, r, hs, h⟩
  obtain ⟨n, _, hn, _⟩ := (accepted hone).subsumes h₁ h₂
  obtain ⟨hrefl, htrans, _⟩ := subsumption_preorder hs .default ctx 200 h₁ h₂ h₃
  obtain ⟨_, _, hanti⟩ := subsumption_preorder hs .default ctx 200 h₂ h₃ h₁
  exact ⟨ctx, v₁, v₂, v₃, s, htypes, hrefl n hn, htrans (accepted hone) (accepted htwo),
    (hanti (accepted htwo) (accepted hback)).1⟩

/-! ## Types of several evaluators -/

/-- A type with parts of several evaluators may be refused for itself, though it reads back to the
same term on two new evaluators. -/
theorem subsumption_not_reflexive :
    answer? (do
      let ctx ← Declaration.addAll 200 .default
        [movingPath, movedConstant, .definition "T" (.univ 9) movedPaths] .empty
      let ty ← Kernel.evaluate 200 .default (.var 0) ctx.env ctx.dims
      let d ← Kernel.derivation 200 .default
      let verdict ← failureKind? (Typing.convert d ctx ty ty)
      let n ← Kernel.quote 200 .default ctx.depth ctx.dimDepth ty
      let n' ← Kernel.quote 200 .default ctx.depth ctx.dimDepth ty
      return (verdict, n.same n')) = some (some .typeMismatch, true) := by
  decide +kernel

end SmoothCubical
