import SmoothCubical.Proofs.Index
import SmoothCubical.Proofs.Termination.Runs

/-!
# Evaluation finishes

Every demand about regular values finishes (`run_ends`), by induction on the steps that are left
and, where no step was charged, on the weight of the demand. What is shown of a demand besides is
that it is paid for: either a step was charged, or the answer is no larger than the bound of the
demand. An abstraction that is run at an argument, and the evaluation of a term, have no such
bound: they always take a step.

The rules are looked at under the assumption that demands with fewer steps left, or with as many
and a smaller weight, finish (`Serves`).
-/

set_option autoImplicit false

namespace SmoothCubical.Eval

open Run

/-- The answer is regular, and fewer than `L` steps are left or its size is at most `n`. -/
def Paid (k L n : Nat) (v : Value) (s : Session) : Prop :=
  v.Regular k ∧ (s.left < L ∨ v.size ≤ n)

/-- Demands finish where fewer than `L` steps are left, or no more than `L` and the weight of the
demand is below `K`; and a step is taken before calls nest `K` deep. -/
def Serves (k L K : Nat) (call : Nat → Call) : Prop :=
  ∀ {m : MeterId} {d : Demand} {s : Session}, m < k → s.Regular k → d.Regular k →
    (s.left < L ∨ s.left ≤ L ∧ d.weight < K) →
      Ends k (Prompt L K) (Paid k s.left d.bound) (fun n => call n m d) s

/-- What is paid for within some bounds is so within larger ones. -/
theorem Paid.mono {k L L' n n' : Nat} {v : Value} {s : Session} (h : Paid k L n v s)
    (hL : L ≤ L') (hn : n ≤ n') : Paid k L' n' v s :=
  ⟨h.1, by have := h.2; omega⟩

/-- What is paid for stays so while no step is counted. -/
theorem Paid.congr {k L n : Nat} {v : Value} {s s' : Session} (h : Paid k L n v s)
    (hleft : s'.left = s.left) : Paid k L n v s' :=
  ⟨h.1, by have := h.2; omega⟩

/-- What has no size was paid for. -/
theorem Paid.left_lt {k L : Nat} {v : Value} {s : Session} (h : Paid k L 0 v s) : s.left < L := by
  have hpos := v.size_pos
  have := h.2
  omega

/-- What a stuck path is at a point is larger than the path by one at most. -/
theorem paid_stuckPathAt {k L : Nat} {n : Neutral} {a l r : Value} (hn : n.Regular k)
    (ha : a.Regular k) (hl : l.Regular k) (hr : r.Regular k) {point : Interval} {s : Session} :
    Paid k L (1 + (1 + max n.size (1 + max a.size (max l.size r.size))))
      (stuckPathAt n a l r point) s := by
  cases point with
  | zero => exact ⟨hl, .inr (by simp only [stuckPathAt]; omega)⟩
  | one => exact ⟨hr, .inr (by simp only [stuckPathAt]; omega)⟩
  | var i =>
    refine ⟨.typed (.pathApp hn) ha, .inr ?_⟩
    simp only [stuckPathAt, Value.size, Neutral.size]
    omega

section Rules

variable {k L K : Nat} {call : Nat → Call} (hcall : Serves k L K call) {m : MeterId} {s : Session}
  (hs : s.Regular k)

include hcall hs

/-! ## Entries, families and eliminations -/

/-- To force a regular entry ends, if calls serve demands that cost a step at once. -/
theorem ends_force {e : Entry} (he : e.Regular k) (hlt : s.left < L ∨ s.left ≤ L ∧ 0 < K) :
    Ends k (Prompt L K) (fun v _ => v.Regular k) (fun n => force (call n) e) s := by
  cases he with
  | value hv => exact .pure hs hv
  | @thunk id =>
    refine (ends_get hs).bind fun a s' _ _ h => ?_
    obtain ⟨rfl, rfl⟩ := h
    cases hc : s'.cells[id]? with
    | none => exact .throw hs rfl
    | some c =>
      obtain ⟨x, value⟩ := c
      cases value with
      | some v => exact .pure hs (hs.value id x v hc)
      | none =>
        have hx : x.demand.Regular k := .evaluate (hs.env id _ hc)
        refine (hcall (hs.meter id _ hc) hs hx hlt).bind fun v s₁ hs₁ _ hv => ?_
        exact (ends_settle hs₁ id hv.1).bind fun _ s₂ hs₂ _ _ => .pure hs₂ hv.1

/-- To look a variable up in a regular environment ends, if calls serve demands that cost a step at
once. -/
theorem ends_lookup {env : Env} (henv : ∀ e ∈ env, e.Regular k) (i : Int)
    (hlt : s.left < L ∨ s.left ≤ L ∧ 0 < K) :
    Ends k (Prompt L K) (fun v _ => v.Regular k) (fun n => lookup (call n) env i) s := by
  have hfind : Ends k (Prompt L K) (fun e _ => e.Regular k)
      (fun _ => ofFault (findEntry env i)) s := by
    refine .ofFault hs fun e he => ?_
    unfold findEntry at he
    split at he
    · rename_i hget
      cases he
      exact henv _ (Index.mem_of_get? hget)
    · cases he
  refine hfind.bind fun e s₁ hs₁ hle he => ?_
  exact ends_force hcall hs₁ he (by omega)

/-- To look a regular family up at a point ends, and the answer is no larger than the reach of the
family unless a step was taken. -/
theorem ends_lineAt (hm : m < k) {a : Line} (ha : a.Regular k) (r : Interval)
    (hlt : s.left < L ∨ s.left ≤ L ∧ a.time < K) :
    Ends k (Prompt L K) (Paid k s.left a.reach) (fun n => lineAt (call n) m a r) s := by
  cases ha with
  | constant hv => exact .pure hs ⟨hv, .inr (Nat.le_refl _)⟩
  | varying hc => exact hcall hm hs (.instantiateAt hc) hlt

/-- To apply a regular function ends, and the answer is no larger than its parts allow unless a step
was taken. -/
theorem ends_apply (hm : m < k) {f v : Value} (hf : f.Regular k) (hv : v.Regular k)
    (hlt : s.left < L ∨ s.left ≤ L ∧ f.size < K) :
    Ends k (Prompt L K) (Paid k s.left (2 + max f.size v.size))
      (fun n => apply (call n) m f v) s := by
  have hpos := f.size_pos
  cases hf with
  | lam hc =>
    refine (hcall hm hs (.instantiate hc (.value hv)) hlt).mono fun w s₁ _ hw => ?_
    exact hw.mono (Nat.le_refl _) (Nat.zero_le _)
  | @untyped n hn =>
    refine .pure hs ⟨.untyped (.app hn hv), .inr ?_⟩
    simp only [Value.size, Neutral.size]
    omega
  | @typed n ty hn hty =>
    have hplain : Paid k s.left (2 + max (Value.stuck n (some ty)).size v.size)
        (.stuck (.app n v) none) s := by
      refine ⟨.untyped (.app hn hv), .inr ?_⟩
      simp only [Value.size, Neutral.size]
      omega
    cases hty with
    | pi _ henv =>
      have hcod : s.left < L ∨ s.left ≤ L ∧ 1 + 0 < K := by omega
      refine (hcall hm hs (.instantiate (.body henv) (.value hv)) hcod).bind ?_
      intro w s₁ hs₁ hle hw
      exact .pure hs₁ ⟨.typed (.app hn hv) hw.1, .inl hw.left_lt⟩
    | _ => exact .pure hs hplain
  | _ => exact .throw hs rfl

/-- To take a regular path at a point ends, and the answer is no larger than the path allows unless
a step was taken. -/
theorem ends_pathApply (hm : m < k) {p : Value} (hp : p.Regular k) (r : Interval)
    (hlt : s.left < L ∨ s.left ≤ L ∧ p.size < K) :
    Ends k (Prompt L K) (Paid k s.left (1 + p.size)) (fun n => pathApply (call n) m p r) s := by
  cases hp with
  | @pathLam x c hc =>
    have hsize : (Value.pathLam x c).size = 1 + max c.reach c.time := rfl
    have hbody : s.left < L ∨ s.left ≤ L ∧ 1 + c.time < K := by omega
    refine (hcall hm hs (.instantiateAt hc) hbody).mono fun w s₁ _ hw => ?_
    refine hw.mono (Nat.le_refl _) ?_
    simp only [Demand.bound]
    omega
  | @untyped n hn =>
    refine .pure hs ⟨.untyped (.pathApp hn), .inr ?_⟩
    simp only [Value.size, Neutral.size]
    omega
  | @typed n ty hn hty =>
    have hplain : Paid k s.left (1 + (Value.stuck n (some ty)).size) (.stuck (.pathApp n r) none)
        s := by
      refine ⟨.untyped (.pathApp hn), .inr ?_⟩
      simp only [Value.size, Neutral.size]
      omega
    cases hty with
    | path ha hl hr => exact .pure hs (paid_stuckPathAt hn ha hl hr)
    | smoothPath ha hl hr => exact .pure hs (paid_stuckPathAt hn ha hl hr)
    | _ => exact .pure hs hplain
  | _ => exact .throw hs rfl

/-! ## Kan operations -/

/-- A family of function types gives a domain, which is smaller than its reach, and a codomain that
is a term. -/
theorem ends_piAt (hm : m < k) {a : Line} (ha : a.Regular k) (r : Interval)
    (hlt : s.left < L ∨ s.left ≤ L ∧ a.time < K) :
    Ends k (Prompt L K) (fun p s' => Paid k s.left (a.reach - 1) p.1 s' ∧
        ∃ env dims t, p.2 = .body env dims t ∧ ∀ e ∈ env, e.Regular k)
      (fun n => piAt (call n) m a r) s := by
  refine (ends_lineAt hcall hs hm ha r hlt).bind fun ty s₁ hs₁ _ hty => ?_
  obtain ⟨hregular, hpaid⟩ := hty
  cases hregular with
  | @pi x dom env dims t hdom henv =>
    have hsize : s₁.left < s.left ∨ dom.size ≤ a.reach - 1 := by
      simp only [Value.size] at hpaid
      omega
    exact .pure hs₁ ⟨⟨hdom, hsize⟩, env, dims, t, rfl, henv⟩
  | _ => exact .throw hs₁ rfl

/-- A family of path types gives a type and two ends, which are smaller than its reach. -/
theorem ends_pathTypeAt (hm : m < k) {a : Line} (ha : a.Regular k) (r : Interval)
    (hlt : s.left < L ∨ s.left ≤ L ∧ a.time < K) :
    Ends k (Prompt L K) (fun p s' => Paid k s.left (a.reach - 1) p.1 s' ∧
        Paid k s.left (a.reach - 1) p.2.1 s' ∧ Paid k s.left (a.reach - 1) p.2.2 s')
      (fun n => pathTypeAt (call n) m a r) s := by
  refine (ends_lineAt hcall hs hm ha r hlt).bind fun ty s₁ hs₁ _ hty => ?_
  obtain ⟨hregular, hpaid⟩ := hty
  have parts {b l r : Value} (hb : b.Regular k) (hl : l.Regular k) (hr : r.Regular k)
      (hsize : s₁.left < s.left ∨ 1 + max b.size (max l.size r.size) ≤ a.reach) :
      Paid k s.left (a.reach - 1) b s₁ ∧ Paid k s.left (a.reach - 1) l s₁ ∧
        Paid k s.left (a.reach - 1) r s₁ :=
    ⟨⟨hb, by omega⟩, ⟨hl, by omega⟩, hr, by omega⟩
  cases hregular with
  | path hb hl hr => exact .pure hs₁ (parts hb hl hr hpaid)
  | smoothPath hb hl hr => exact .pure hs₁ (parts hb hl hr hpaid)
  | _ => exact .throw hs₁ rfl

/-- To find a regular moved argument at a point ends, and it is no larger than its reach unless a
step was taken. -/
theorem ends_carriedAt (hm : m < k) {y : Carried} (hy : y.Regular k) (r : Interval)
    (hlt : s.left < L ∨ s.left ≤ L ∧ 1 + y.time < K) :
    Ends k (Prompt L K) (Paid k s.left y.reach) (fun n => carriedAt (call n) m y r) s := by
  cases hy with
  | @mk d start v hd hv =>
    refine (hcall hm hs (.coe (s := start) (t := r) hd hv) hlt).mono fun w s₁ _ hw => ?_
    refine hw.mono (Nat.le_refl _) ?_
    simp only [Demand.bound, Line.kanBound, Carried.reach, kanSize]
    split
    · omega
    · split <;> omega

omit hcall hs in
/-- What a Kan operation is, if its family has a shape. -/
theorem paid_kan {a : Line} {shape : Value} {L' tubes base : Nat} {s₁ : Session}
    (hshape : s₁.left < L' ∨ shape.size ≤ a.reach) {v : Value} (hv : v.Regular k)
    (hsize : v.size ≤ 1 + kanSize a.reach a.time tubes base) :
    Paid k L' (a.kanBound tubes base) v s₁ := by
  have hpos := shape.size_pos
  refine ⟨hv, ?_⟩
  rcases hshape with hpaid | hfree
  · exact .inl hpaid
  · refine .inr ?_
    rw [Line.kanBound, if_neg (by omega)]
    exact hsize

/-- An operation in a family that no rule takes apart is about as large as its parts. -/
theorem ends_pending (hm : m < k) {a : Line} (ha : a.Regular k) (r : Interval) {shape : Value}
    {L' tubes base : Nat} (hle : s.left ≤ L') (hshape : s.left < L' ∨ shape.size ≤ a.reach)
    {n : Neutral} (hn : n.Regular k) (hsize : n.size ≤ kanSize a.reach a.time tubes base)
    (event : Event) (hlt : s.left < L ∨ s.left ≤ L ∧ a.time < K) :
    Ends k (Prompt L K) (Paid k L' (a.kanBound tubes base))
      (fun frames => do
        record event
        let ty ← lineAt (call frames) m a r
        return .stuck n (some ty)) s := by
  refine (ends_record hs event).bind fun _ s₁ hs₁ _ hs₁left => ?_
  rw [← hs₁left] at hle hshape hlt
  refine (ends_lineAt hcall hs₁ hm ha r hlt).bind fun ty s₂ hs₂ hle' hty => .pure hs₂ ?_
  have hregular : (Value.stuck n (some ty)).Regular k := .typed hn hty.1
  rcases hty.2 with hpaid | hfree
  · exact ⟨hregular, .inl (by omega)⟩
  · have hshape' : s₂.left < L' ∨ shape.size ≤ a.reach := by omega
    refine paid_kan hshape' hregular ?_
    simp only [Value.size, kanSize] at hsize ⊢
    omega

/-- The shape of a family is looked at before anything else. -/
theorem ends_shape (hm : m < k) {a : Line} (ha : a.Regular k) (hleft : s.left ≤ L)
    (hK : a.time < K) {Q : Value → Session → Prop} {f : Nat → Value → Run Value}
    (hf : ∀ shape s', s'.Regular k → s'.left ≤ s.left → shape.Regular k →
      (s'.left < s.left ∨ shape.size ≤ a.reach) → Ends k (Prompt L K) Q (fun n => f n shape) s') :
    Ends k (Prompt L K) Q (fun n => do f n (← lineAt (call n) m a (← probe m))) s := by
  refine (ends_probe hs m).bind fun x s₁ hs₁ _ hs₁left => ?_
  have hlt : s₁.left < L ∨ s₁.left ≤ L ∧ a.time < K := by omega
  refine (ends_lineAt hcall hs₁ hm ha x hlt).bind fun shape s₂ hs₂ hle hshape => ?_
  rw [hs₁left] at hle hshape
  exact hf shape s₂ hs₂ hle hshape.1 hshape.2

/-- To compose regular values ends, and the answer is no larger than the bound of the demand unless
a step was taken. -/
theorem ends_comp (hm : m < k) {r r' : Interval} {a : Line} (ha : a.Regular k)
    {faces : List Tube} (hfaces : ∀ face ∈ faces, face.2.Regular k) {v : Value}
    (hv : v.Regular k) (hleft : s.left ≤ L) (hK : (Demand.comp r r' a faces v).weight ≤ K) :
    Ends k (Prompt L K) (Paid k s.left (Demand.comp r r' a faces v).bound)
      (fun n => comp (call n) m r r' a faces v) s := by
  unfold comp Demand.bound
  unfold Demand.weight at hK
  cases hfirst : firstTrue? faces with
  | some u =>
    obtain ⟨φ, hmem⟩ := firstTrue?_mem hfirst
    simp only [hfirst] at hK ⊢
    refine hcall hm hs (.instantiateAt (hfaces _ hmem)) (.inr ⟨hleft, ?_⟩)
    simp only [Demand.weight]
    omega
  | none =>
    simp only [hfirst] at hK ⊢
    by_cases heq : r' = r
    · simp only [heq, if_true]
      exact .pure hs ⟨hv, .inr (Nat.le_refl _)⟩
    simp only [heq, if_false]
    have hpossible : ∀ face ∈ possible faces, face.2.Regular k :=
      fun face hface => hfaces face (List.mem_filter.1 hface).1
    have hnone := firstTrue?_possible hfirst
    have hsize := tubesSize_possible faces
    apply ends_shape hcall hs hm ha hleft (by omega)
    intro shape s₁ hs₁ hle hshape hpaid
    have hpath : Paid k s.left (a.kanBound (tubesSize faces) v.size)
        (.pathLam "k" (.comp m r r' a (possible faces) v)) s₁ := by
      refine paid_kan hpaid (.pathLam (.comp hm ha hpossible hv)) ?_
      simp only [Value.size, IntervalClosure.reach, IntervalClosure.time, kanSize]
      omega
    cases hshape with
    | pi hdom henv =>
      refine .pure hs₁ (paid_kan hpaid (.lam (.comp hm (Ne.symm heq) hnone ha hpossible hv)) ?_)
      simp only [Value.size, Closure.time, kanSize]
      omega
    | path => exact .pure hs₁ hpath
    | smoothPath => exact .pure hs₁ hpath
    | _ =>
      refine ends_pending hcall hs₁ hm ha r' hle hpaid (.comp ha hpossible hv) ?_ _ (by omega)
      simp only [Neutral.size, kanSize]
      omega

/-- To coerce a regular value ends, and the answer is no larger than the bound of the demand unless
a step was taken. -/
theorem ends_coe (hm : m < k) {r r' : Interval} {a : Line} (ha : a.Regular k) {v : Value}
    (hv : v.Regular k) (hleft : s.left ≤ L) (hK : (Demand.coe r r' a v).weight ≤ K) :
    Ends k (Prompt L K) (Paid k s.left (Demand.coe r r' a v).bound)
      (fun n => coe (call n) m r r' a v) s := by
  simp only [Demand.weight] at hK
  unfold coe
  simp only [Demand.bound]
  by_cases heq : r = r'
  · simp only [heq, true_or, if_true]
    exact .pure hs ⟨hv, .inr (Nat.le_refl _)⟩
  by_cases hconstant : a.isConstant = true
  · simp only [heq, hconstant, or_true, if_true, if_false]
    exact .pure hs ⟨hv, .inr (Nat.le_refl _)⟩
  simp only [heq, hconstant, if_false]
  apply ends_shape hcall hs hm ha hleft (by omega)
  intro shape s₁ hs₁ hle hshape hpaid
  have hpath : Paid k s.left (a.kanBound 0 v.size) (.pathLam "k" (.comp m r r' a [] v)) s₁ := by
    refine paid_kan hpaid (.pathLam (.comp hm ha (by simp) hv)) ?_
    simp only [Value.size, IntervalClosure.reach, IntervalClosure.time, kanSize, tubesSize]
    omega
  cases hshape with
  | univ =>
    refine .pure hs₁ (paid_kan hpaid hv ?_)
    simp only [kanSize]
    omega
  | pi =>
    refine .pure hs₁ (paid_kan hpaid (.lam (.coe hm heq ha hv)) ?_)
    simp only [Value.size, Closure.time, kanSize]
    omega
  | path => exact .pure hs₁ hpath
  | smoothPath => exact .pure hs₁ hpath
  | _ =>
    refine ends_pending hcall hs₁ hm ha r' hle hpaid (.coe ha hv) ?_ _ (by omega)
    simp only [Neutral.size, kanSize]
    omega

/-! ## Kan operations at an argument and at a point -/

omit hcall hs in
/-- A regular argument stays regular when it is moved along the domains of a regular family. -/
theorem regular_carry (hm : m < k) {a : Line} (ha : a.Regular k) (flag : Bool) (r : Interval)
    {y : Value} (hy : y.Regular k) : (carry m a flag r y).Regular k :=
  .mk (.varying (.domain hm ha)) hy

/-- The values of functions are composed along codomains, which are terms: that takes a step. -/
theorem ends_compFunctionAt (hm : m < k) {r r' : Interval} (hne : r ≠ r') {a : Line}
    (ha : a.Regular k) {faces : List Tube} (hnone : firstTrue? faces = none)
    (hfaces : ∀ face ∈ faces, face.2.Regular k) {v y : Value} (hv : v.Regular k)
    (hy : y.Regular k) (hlt : s.left < L ∨ s.left ≤ L ∧ 6 + max a.time v.size < K) :
    Ends k (Prompt L K) (Paid k s.left 0)
      (fun n => compFunctionAt (call n) m r r' a faces v y) s := by
  have harg := regular_carry hm ha a.isConstant r' hy
  have htime : (carry m a a.isConstant r' y).time = 1 + (1 + a.time) := rfl
  refine (ends_carriedAt hcall hs hm harg r (by omega)).bind fun w s₁ hs₁ hle hw => ?_
  refine (ends_apply hcall hs₁ hm hv hw.1 (by omega)).bind fun start s₂ hs₂ hle' hstart => ?_
  -- The family of codomains never has a shape at no charge, so its reach and the bound are `0`.
  have hnone' := firstTrue?_map (fun u => .app m u (carry m a a.isConstant r' y)) hnone
  have htubes : ∀ face ∈ faces.map fun face =>
      (face.1, IntervalClosure.app m face.2 (carry m a a.isConstant r' y)),
      face.2.Regular k := by
    intro face hface
    obtain ⟨face', hmem, rfl⟩ := List.mem_map.1 hface
    exact .app hm (hfaces face' hmem) harg
  refine (hcall hm hs₂ (.comp (.varying (.codomain hm ha harg)) htubes hstart.1) ?_).mono ?_
  · simp only [Demand.weight, hnone', Line.time, IntervalClosure.time]
    omega
  · intro w s₃ _ hw
    refine hw.mono (by omega) ?_
    simp [Demand.bound, hnone', Ne.symm hne, Line.kanBound, Line.reach, IntervalClosure.reach]

/-- To apply a regular function that was moved ends, and takes a step. -/
theorem ends_coeFunctionAt (hm : m < k) {r r' : Interval} (hne : r ≠ r') {a : Line}
    (ha : a.Regular k) {v y : Value} (hv : v.Regular k) (hy : y.Regular k)
    (hlt : s.left < L ∨ s.left ≤ L ∧ 6 + max a.time v.size < K) :
    Ends k (Prompt L K) (Paid k s.left 0) (fun n => coeFunctionAt (call n) m r r' a v y) s := by
  have harg := regular_carry hm ha false r' hy
  have htime : (carry m a false r' y).time = 1 + (1 + a.time) := rfl
  refine (ends_carriedAt hcall hs hm harg r (by omega)).bind fun w s₁ hs₁ hle hw => ?_
  refine (ends_apply hcall hs₁ hm hv hw.1 (by omega)).bind fun start s₂ hs₂ hle' hstart => ?_
  refine (hcall hm hs₂ (.coe (.varying (.codomain hm ha harg)) hstart.1) ?_).mono ?_
  · simp only [Demand.weight, Line.time, IntervalClosure.time]
    omega
  · intro w s₃ _ hw
    refine hw.mono (by omega) ?_
    simp [Demand.bound, hne, Line.isConstant, Line.kanBound, Line.reach, IntervalClosure.reach]

omit hcall hs in
/-- The partial elements of a composition of paths at a point are larger by one at most. -/
theorem tubesSize_pathTubes (m : MeterId) (a : Line) (faces : List Tube) (r : Interval) :
    tubesSize (faces.map (fun face => (face.1, IntervalClosure.pathApp m face.2 r)) ++
      [(Cofibration.eq r 0, IntervalClosure.left m a),
        (Cofibration.eq r 1, IntervalClosure.right m a)]) ≤
      1 + max (tubesSize faces) (max a.reach a.time) := by
  have hle := tubesSize_le.1 (Nat.le_refl (tubesSize faces))
  refine tubesSize_le.2 fun face hface => ?_
  rcases List.mem_append.1 hface with hface | hface
  · obtain ⟨face', hmem, rfl⟩ := List.mem_map.1 hface
    have := hle face' hmem
    simp only [IntervalClosure.reach, IntervalClosure.time]
    omega
  · simp only [List.mem_cons, List.not_mem_nil, or_false] at hface
    rcases hface with rfl | rfl <;> simp only [IntervalClosure.reach, IntervalClosure.time] <;>
      omega

/-- A composition of paths at a point is one in the elements of the family, which reach less far. -/
theorem ends_compPathAt (hm : m < k) {r r' : Interval} {a : Line} (ha : a.Regular k)
    {faces : List Tube} (hfaces : ∀ face ∈ faces, face.2.Regular k) {v : Value}
    (hv : v.Regular k) (point : Interval)
    (hlt : s.left < L ∨ s.left ≤ L ∧ kanSize a.reach a.time (tubesSize faces) v.size < K) :
    Ends k (Prompt L K) (Paid k s.left (kanSize a.reach a.time (tubesSize faces) v.size))
      (fun n => compPathAt (call n) m r r' a faces v point) s := by
  have hkan : kanSize a.reach a.time (tubesSize faces) v.size =
      max (max a.reach a.time) (max (tubesSize faces) v.size) + 3 * a.reach + 9 := rfl
  refine (ends_pathApply hcall hs hm hv point (by omega)).bind fun start s₁ hs₁ hle hstart => ?_
  have hsize := tubesSize_pathTubes m a faces point
  have htubes : ∀ face ∈ faces.map (fun face => (face.1, IntervalClosure.pathApp m face.2 point)) ++
      [(Cofibration.eq point 0, IntervalClosure.left m a),
        (Cofibration.eq point 1, IntervalClosure.right m a)], face.2.Regular k := by
    intro face hface
    rcases List.mem_append.1 hface with hface | hface
    · obtain ⟨face', hmem, rfl⟩ := List.mem_map.1 hface
      exact .pathApp hm (hfaces face' hmem)
    · simp only [List.mem_cons, List.not_mem_nil, or_false] at hface
      rcases hface with rfl | rfl
      · exact .left hm ha
      · exact .right hm ha
  dsimp only
  generalize faces.map (fun face => (face.1, IntervalClosure.pathApp m face.2 point)) ++
    [(Cofibration.eq point 0, IntervalClosure.left m a),
      (Cofibration.eq point 1, IntervalClosure.right m a)] = tubes at hsize htubes ⊢
  refine (hcall hm hs₁ (.comp (.varying (.element hm ha)) htubes hstart.1) ?_).mono ?_
  · have hweight := Demand.weight_comp_le r r' (.varying (.element m a) a.isConstant) tubes start
    simp only [Line.time, IntervalClosure.time] at hweight
    omega
  · intro w s₂ _ hw
    -- If the path at the point took a step there is nothing left to bound.
    rcases hstart.2 with hpaid | hfree
    · exact ⟨hw.1, .inl (by omega)⟩
    · have hbound := Demand.bound_comp_le r r' (.varying (.element m a) a.isConstant) tubes start
      have helement := a.kanBound_element_le m a.isConstant hsize hfree
      exact hw.mono hle (by omega)

/-- An abstraction that is run at an argument takes a step. -/
theorem ends_instantiate (hm : m < k) {c : Closure} (hc : c.Regular k) {e : Entry}
    (he : e.Regular k) (hleft : s.left ≤ L) (hK : c.time < K) :
    Ends k (Prompt L K) (Paid k s.left 0) (fun n => instantiate (call n) m c e) s := by
  have hforce := ends_force hcall hs he (by omega)
  cases hc with
  | body henv =>
    have henv' := List.forall_mem_cons.2 ⟨he, henv⟩
    exact hcall hm hs (.evaluate henv') (.inr ⟨hleft, Nat.zero_lt_of_lt hK⟩)
  | comp hm hne hnone ha hfaces hv =>
    simp only [Closure.time] at hK
    refine hforce.bind fun y s₁ hs₁ hle hy => ?_
    refine (ends_compFunctionAt hcall hs₁ hm hne ha hnone hfaces hv hy (by omega)).mono ?_
    exact fun w s₂ _ hw => hw.mono hle (Nat.le_refl 0)
  | coe hm hne ha hv =>
    simp only [Closure.time] at hK
    refine hforce.bind fun y s₁ hs₁ hle hy => ?_
    refine (ends_coeFunctionAt hcall hs₁ hm hne ha hv hy (by omega)).mono ?_
    exact fun w s₂ _ hw => hw.mono hle (Nat.le_refl 0)

/-- To instantiate a regular interval abstraction ends, and the answer is no larger than its reach
unless a step was taken. -/
theorem ends_instantiateAt (hm : m < k) {c : IntervalClosure} (hc : c.Regular k)
    (r : Interval) (hleft : s.left ≤ L) (hK : c.time < K) :
    Ends k (Prompt L K) (Paid k s.left c.reach) (fun n => instantiateAt (call n) m c r) s := by
  cases hc with
  | body henv => exact hcall hm hs (.evaluate henv) (.inr ⟨hleft, hK⟩)
  | choice hu hv hw =>
    simp only [IntervalClosure.reach]
    cases r with
    | zero => exact .pure hs ⟨hu, .inr (by omega)⟩
    | one => exact .pure hs ⟨hv, .inr (by omega)⟩
    | var i => exact .pure hs ⟨hw, .inr (by omega)⟩
  -- A closure of a Kan rule runs at the expense of its own meter, which hides `m` from here on.
  | domain hm ha =>
    simp only [IntervalClosure.time] at hK
    refine (ends_piAt hcall hs hm ha r (by omega)).bind fun p s₁ hs₁ _ hp => ?_
    exact .pure hs₁ hp.1
  | codomain hm ha hy =>
    simp only [IntervalClosure.time] at hK
    refine (ends_piAt hcall hs hm ha r (by omega)).bind fun p s₁ hs₁ hle hp => ?_
    obtain ⟨env, dims, t, hbody, henv⟩ := hp.2
    refine (ends_carriedAt hcall hs₁ hm hy r (by omega)).bind fun y s₂ hs₂ hle' hy => ?_
    rw [hbody]
    have hlt : s₂.left < L ∨ s₂.left ≤ L ∧ 1 + 0 < K := by omega
    refine (hcall hm hs₂ (.instantiate (.body henv) (.value hy.1)) hlt).mono fun w s₃ _ hw => ?_
    exact hw.mono (Nat.le_trans hle' hle) (Nat.zero_le _)
  | element hm ha =>
    simp only [IntervalClosure.time] at hK
    refine (ends_pathTypeAt hcall hs hm ha r (by omega)).bind fun p s₁ hs₁ _ hp => ?_
    exact .pure hs₁ hp.1
  | left hm ha =>
    simp only [IntervalClosure.time] at hK
    refine (ends_pathTypeAt hcall hs hm ha r (by omega)).bind fun p s₁ hs₁ _ hp => ?_
    exact .pure hs₁ hp.2.1
  | right hm ha =>
    simp only [IntervalClosure.time] at hK
    refine (ends_pathTypeAt hcall hs hm ha r (by omega)).bind fun p s₁ hs₁ _ hp => ?_
    exact .pure hs₁ hp.2.2
  | @app m u arg hm hu harg =>
    simp only [IntervalClosure.time] at hK
    have hlt : s.left < L ∨ s.left ≤ L ∧ 1 + u.time < K := by omega
    refine (hcall hm hs (.instantiateAt hu) hlt).bind fun f s₁ hs₁ hle hf => ?_
    have hfree : s₁.left < s.left ∨ f.size ≤ u.reach := hf.2
    refine (ends_carriedAt hcall hs₁ hm harg r (by omega)).bind fun y s₂ hs₂ hle' hy => ?_
    have hfree' : s₂.left < s₁.left ∨ y.size ≤ arg.reach := hy.2
    refine (ends_apply hcall hs₂ hm hf.1 hy.1 (by omega)).mono fun w s₃ _ hw => ⟨hw.1, ?_⟩
    have := hw.2
    simp only [IntervalClosure.reach]
    omega
  | @pathApp m u point hm hu =>
    simp only [IntervalClosure.time] at hK
    have hlt : s.left < L ∨ s.left ≤ L ∧ 1 + u.time < K := by omega
    refine (hcall hm hs (.instantiateAt hu) hlt).bind fun p s₁ hs₁ hle hp => ?_
    have hfree : s₁.left < s.left ∨ p.size ≤ u.reach := hp.2
    refine (ends_pathApply hcall hs₁ hm hp.1 point (by omega)).mono fun w s₂ _ hw => ⟨hw.1, ?_⟩
    have := hw.2
    simp only [IntervalClosure.reach]
    omega
  | comp hm ha hfaces hv => exact ends_compPathAt hcall hs hm ha hfaces hv r (.inr ⟨hleft, hK⟩)

/-! ## Terms -/

omit hcall in
/-- To close a family over a regular environment ends. -/
theorem ends_closeFamily {C : Nat → Session → Prop} (t : Term) {env : Env}
    (henv : ∀ e ∈ env, e.Regular k) (dims : IntervalEnv) :
    Ends k C (fun a _ => a.Regular k) (fun _ => closeFamily t env dims) s := by
  exact (ends_ofFault hs _).bind fun _ s₁ hs₁ _ _ => .pure hs₁ (.varying (.body henv))

omit hcall in
/-- To close a system over a regular environment ends. -/
theorem ends_closeTubes (faces : List (Face × Term)) {env : Env}
    (henv : ∀ e ∈ env, e.Regular k) (dims : IntervalEnv) :
    Ends k (Prompt L K) (fun tubes _ => ∀ face ∈ tubes, face.2.Regular k)
      (fun _ => closeTubes env dims faces) s := by
  induction faces generalizing s with
  | nil => exact .pure hs (by simp)
  | cons face rest ih =>
    have htube : Ends k (Prompt L K) (fun tube _ => tube.2.Regular k)
        (fun _ => closeTube env dims face) s :=
      (ends_ofFault hs _).bind fun _ s₁ hs₁ _ _ => .pure hs₁ (.body henv)
    refine htube.bind fun tube s₁ hs₁ _ htube => ?_
    refine (ih hs₁).bind fun tubes s₂ hs₂ _ htubes => ?_
    exact .pure hs₂ (List.forall_mem_cons.2 ⟨htube, htubes⟩)

/-- A step that was charged can be taken. -/
theorem ends_step (hm : m < k) (t : Term) {env : Env} (henv : ∀ e ∈ env, e.Regular k)
    (dims : IntervalEnv) (hlt : s.left < L) :
    Ends k (Prompt L K) (fun v _ => v.Regular k) (fun n => step (call n) m t env dims) s := by
  have meets {d : Demand} {s' : Session} (hs' : s'.Regular k) (hd : d.Regular k)
      (hle : s'.left ≤ s.left) :
      Ends k (Prompt L K) (fun v _ => v.Regular k) (fun n => call n m d) s' :=
    (hcall hm hs' hd (.inl (by omega))).mono fun _ _ _ hv => hv.1
  have value (t : Term) {s' : Session} (hs' : s'.Regular k) (hle : s'.left ≤ s.left) :
      Ends k (Prompt L K) (fun v _ => v.Regular k)
        (fun n => call n m (.evaluate true t env dims)) s' :=
    meets hs' (.evaluate henv) hle
  cases t with
  | univ level => exact .pure hs .univ
  | var i => exact ends_lookup hcall hs henv i (.inl hlt)
  | pi x a b =>
    exact (value a hs (by omega)).bind fun a s₁ hs₁ _ ha => .pure hs₁ (.pi ha henv)
  | lam x b => exact .pure hs (.lam (.body henv))
  | app f a =>
    refine (value f hs (by omega)).bind fun f s₁ hs₁ hle hf => ?_
    have applied : Ends k (Prompt L K) (fun v _ => v.Regular k) (fun n => do
        apply (call n) m f (← call n m (.evaluate true a env dims))) s₁ := by
      refine (value a hs₁ (by omega)).bind fun a s₂ hs₂ hle' ha => ?_
      exact (ends_apply hcall hs₂ hm hf ha (.inl (by omega))).mono fun _ _ _ hw => hw.1
    cases hf with
    | lam hc =>
      refine (ends_suspend hs₁ hm henv).bind fun e s₂ hs₂ hle' he => ?_
      exact meets hs₂ (.instantiate hc he.1) (by omega)
    | _ => exact applied
  | path a l r =>
    refine (value a hs (by omega)).bind fun a s₁ hs₁ hle₁ ha => ?_
    refine (value l hs₁ (by omega)).bind fun l s₂ hs₂ hle₂ hl => ?_
    exact (value r hs₂ (by omega)).bind fun r s₃ hs₃ _ hr => .pure hs₃ (.path ha hl hr)
  | pathLam x b => exact .pure hs (.pathLam (.body henv))
  | pathApp p r =>
    refine (value p hs (by omega)).bind fun p s₁ hs₁ hle hp => ?_
    refine (ends_ofFault hs₁ _).bind fun r s₂ hs₂ hle' _ => ?_
    exact (ends_pathApply hcall hs₂ hm hp r (.inl (by omega))).mono fun _ _ _ hw => hw.1
  | smoothPath order a l r =>
    refine (value a hs (by omega)).bind fun a s₁ hs₁ hle₁ ha => ?_
    refine (value l hs₁ (by omega)).bind fun l s₂ hs₂ hle₂ hl => ?_
    exact (value r hs₂ (by omega)).bind fun r s₃ hs₃ _ hr => .pure hs₃ (.smoothPath ha hl hr)
  | comp r r' a faces v =>
    refine (ends_closeFamily hs a henv dims).bind fun a s₁ hs₁ hle₁ ha => ?_
    refine (value v hs₁ (by omega)).bind fun v s₂ hs₂ hle₂ hv => ?_
    refine (ends_closeTubes hs₂ faces henv dims).bind fun tubes s₃ hs₃ hle₃ htubes => ?_
    refine (ends_ofFault hs₃ _).bind fun r' s₄ hs₄ hle₄ _ => ?_
    refine (ends_ofFault hs₄ _).bind fun r s₅ hs₅ hle₅ _ => ?_
    exact meets hs₅ (.comp ha htubes hv) (by omega)
  | coe r r' a v =>
    refine (ends_closeFamily hs a henv dims).bind fun a s₁ hs₁ hle₁ ha => ?_
    refine (ends_ofFault hs₁ _).bind fun r s₂ hs₂ hle₂ _ => ?_
    refine (ends_ofFault hs₂ _).bind fun r' s₃ hs₃ hle₃ _ => ?_
    refine (value v hs₃ (by omega)).bind fun v s₄ hs₄ hle₄ hv => ?_
    exact meets hs₄ (.coe ha hv) (by omega)
  | hcomp a faces v =>
    refine (value a hs (by omega)).bind fun a s₁ hs₁ hle₁ ha => ?_
    refine (value v hs₁ (by omega)).bind fun v s₂ hs₂ hle₂ hv => ?_
    refine (ends_closeTubes hs₂ faces henv dims).bind fun tubes s₃ hs₃ hle₃ htubes => ?_
    exact meets hs₃ (.comp (.constant ha) htubes hv) (by omega)
  | missing => exact .throw hs rfl

/-- The evaluation of a term charges a step, and takes it with fewer left. -/
theorem ends_chargedStep (hm : m < k) (t : Term) {env : Env} (henv : ∀ e ∈ env, e.Regular k)
    (dims : IntervalEnv) (hleft : s.left ≤ L) :
    Ends k (Prompt L K) (Paid k s.left 0) (fun n => chargedStep (call n) m t env dims) s := by
  refine (ends_charge hs hm).bind fun _ s₁ hs₁ _ hless => ?_
  refine (ends_step hcall hs₁ hm t henv dims (by omega)).mono fun v s₂ hle hv => ?_
  exact ⟨hv, .inl (by omega)⟩

/-- A demand is met by one rule. -/
theorem ends_answer (hm : m < k) {d : Demand} (hd : d.Regular k) (hleft : s.left ≤ L)
    (hK : d.weight ≤ K) :
    Ends k (Prompt L K) (Paid k s.left d.bound) (fun n => answer (call n) m d) s := by
  cases hd with
  | @evaluate nests t env dims henv =>
    cases nests with
    | false => exact ends_chargedStep hcall hs hm t henv dims hleft
    | true =>
      have hdown : (s.modifyMeter m fun a => { a with depth := a.depth + 1 }).left = s.left :=
        Session.left_modifyMeter_eq m fun _ => rfl
      refine Ends.nest ?_ (fun n s' s'' heq h hn => heq ▸ h hn) fun v s' s'' heq hv => hv.congr heq
      refine (ends_checkDepth (hs.modifyMeter m _) m t).bind fun _ s₁ hs₁ _ hs₁left => ?_
      refine (ends_chargedStep hcall hs₁ hm t henv dims (by omega)).mono fun v s₂ _ hv => ?_
      exact hv.mono (by omega) (Nat.le_refl 0)
  | instantiate hc he =>
    simp only [Demand.weight] at hK
    exact ends_instantiate hcall hs hm hc he hleft (by omega)
  | instantiateAt hc =>
    simp only [Demand.weight] at hK
    exact ends_instantiateAt hcall hs hm hc _ hleft (by omega)
  | comp ha hfaces hv => exact ends_comp hcall hs hm ha hfaces hv hleft hK
  | coe ha hv => exact ends_coe hcall hs hm ha hv hleft hK

end Rules

/-- Every demand about regular values finishes, and calls do not nest deeper than the weight of the
demand before a step is taken. -/
theorem run_ends {k : Nat} {m : MeterId} (hm : m < k) {d : Demand} (hd : d.Regular k)
    {s : Session} (hs : s.Regular k) :
    Ends k (Prompt s.left (d.weight + 1)) (Paid k s.left d.bound) (fun n => run n m d) s := by
  -- A call that a rule makes has fewer steps left, or as many and a smaller weight.
  have hcall : Serves k s.left d.weight run := by
    intro m' d' s' hm' hs' hd' hlt
    exact (run_ends hm' hd' hs').promptly hlt
  have hanswer := ends_answer hcall hs hm hd (Nat.le_refl _) (Nat.le_refl _)
  have hnext : Ends k (fun n => Prompt s.left (d.weight + 1) (n + 1)) (Paid k s.left d.bound)
      (fun n => run (n + 1) m d) s :=
    hanswer.relax fun n s' _ hprompt hn => hprompt (Nat.le_of_succ_le_succ hn)
  exact hnext.succ ⟨hs, Nat.le_refl _, fun _ hn => absurd hn (by omega)⟩
termination_by (s.left, d.weight)
decreasing_by
  exact Prod.lex_def.2 (by omega)

/-- Evaluation serves demands of every weight, by induction on the steps that are left and on the
weight. -/
theorem serves_run (k L K : Nat) : Serves k L K run :=
  fun hm hs hd hlt => (run_ends hm hd hs).promptly hlt

/-- To meet a regular demand finishes. -/
theorem run_finishes {k : Nat} {m : MeterId} (hm : m < k) {d : Demand} (hd : d.Regular k)
    {s : Session} (hs : s.Regular k) :
    Finishes k (fun v _ => v.Regular k) (fun n => run n m d) s :=
  (run_ends hm hd hs).finishes.mono fun _ _ _ hv => hv.1

end SmoothCubical.Eval
