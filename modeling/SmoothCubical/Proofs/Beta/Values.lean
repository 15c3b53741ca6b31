import SmoothCubical.Proofs.Beta.Terms
import SmoothCubical.Proofs.Growth

/-!
# What values stand for

A value stands for a skeleton if what waits in its closures is pure (`Value.Denotes`). A closure
stands for the abstraction of its body. An argument that was put off stands for what is said to be
its meaning: a `Meaning` says so for the arguments of a session, for as many as have one. The types
that stuck values carry may be any. No path is taken at an end, so no value depends on them.

A session bears a meaning out if each argument that has one would compute that (`Session.Means`),
and if it was looked at before, its value is what the meaning reduces to. Runs may put more
arguments off, and say what these mean, but they never change what an argument means
(`Session.Follows`).
-/

set_option autoImplicit false

namespace SmoothCubical

open Skeleton

/-- What the arguments of a session stand for, by their numbers. -/
abbrev Meaning := Nat → Option Skeleton

/-- The second meaning says all that the first does. -/
def Meaning.Le (M M' : Meaning) : Prop :=
  ∀ id u, M id = some u → M' id = some u

/-- A meaning says all that it does. -/
theorem Meaning.Le.refl (M : Meaning) : M.Le M :=
  fun _ _ => id

/-- What says all that another does says all that it says of a third. -/
theorem Meaning.Le.trans {M M' M'' : Meaning} (h : M.Le M') (h' : M'.Le M'') : M.Le M'' :=
  fun id u hid => h' id u (h id u hid)

/-- What a point of the interval stands for. The ends stand for nothing. -/
def Interval.skeleton : Interval → Skeleton
  | .var level => .var (.point level)
  | _ => .const none

/-- What interval variables stand for. -/
def IntervalEnv.skeletons (dims : IntervalEnv) : List Skeleton :=
  dims.map Interval.skeleton

/-! ## Values -/

mutual

/-- The value stands for the skeleton. -/
inductive Value.Denotes (M : Meaning) : Value → Skeleton → Prop
  | univ {level : Int} : Value.Denotes M (.univ level) (.const (some level))
  | pi {x : String} {a : Value} {c : Closure} {u w : Skeleton} :
      Value.Denotes M a u → Closure.Denotes M c w →
        Value.Denotes M (.pi x a c) (.type .pi u w (.const none))
  | lam {x : String} {c : Closure} {w : Skeleton} :
      Closure.Denotes M c w → Value.Denotes M (.lam x c) w
  | path {a l r : Value} {u v w : Skeleton} :
      Value.Denotes M a u → Value.Denotes M l v → Value.Denotes M r w →
        Value.Denotes M (.path a l r) (.type .path u v w)
  | smoothPath {order : Int} {a l r : Value} {u v w : Skeleton} :
      Value.Denotes M a u → Value.Denotes M l v → Value.Denotes M r w →
        Value.Denotes M (.smoothPath order a l r) (.type (.smoothPath order) u v w)
  | pathLam {x : String} {c : IntervalClosure} {w : Skeleton} :
      IntervalClosure.Denotes M c w → Value.Denotes M (.pathLam x c) w
  | stuck {n : Neutral} {ty : Option Value} {u : Skeleton} :
      Neutral.Denotes M n u → Value.Denotes M (.stuck n ty) u

/-- The stuck computation stands for the skeleton. -/
inductive Neutral.Denotes (M : Meaning) : Neutral → Skeleton → Prop
  | var {level : Int} : Neutral.Denotes M (.var level) (.var (.level level))
  | app {n : Neutral} {v : Value} {u w : Skeleton} :
      Neutral.Denotes M n u → Value.Denotes M v w →
        Neutral.Denotes M (.app n v) (.app .function u w)
  | pathApp {n : Neutral} {u : Skeleton} {level : Int} :
      Neutral.Denotes M n u →
        Neutral.Denotes M (.pathApp n (.var level)) (.app .path u (.var (.point level)))

/-- The closure stands for the abstraction of its body. -/
inductive Closure.Denotes (M : Meaning) : Closure → Skeleton → Prop
  | body {env : Env} {dims : IntervalEnv} {t : Term} {σ : List Skeleton} :
      (∀ i e, Index.get? env i = some e → Entry.Denotes M e (find σ i)) → dims.IsGeneric →
        t.isPure = true →
        Closure.Denotes M (.body env dims t)
          (.lam .function (t.skeleton (under σ) (raised dims.skeletons)))

/-- The closure over the interval stands for the abstraction of its body. -/
inductive IntervalClosure.Denotes (M : Meaning) : IntervalClosure → Skeleton → Prop
  | body {env : Env} {dims : IntervalEnv} {t : Term} {σ : List Skeleton} :
      (∀ i e, Index.get? env i = some e → Entry.Denotes M e (find σ i)) → dims.IsGeneric →
        t.isPure = true →
        IntervalClosure.Denotes M (.body env dims t)
          (.lam .path (t.skeleton (raised σ) (under dims.skeletons)))

/-- The entry stands for the skeleton. -/
inductive Entry.Denotes (M : Meaning) : Entry → Skeleton → Prop
  | value {v : Value} {u : Skeleton} : Value.Denotes M v u → Entry.Denotes M (.value v) u
  | thunk {id : Nat} {u : Skeleton} : M id = some u → Entry.Denotes M (.thunk id) u

end

/-- The entries of an environment stand for the skeletons. -/
def Env.Denotes (M : Meaning) (env : Env) (σ : List Skeleton) : Prop :=
  ∀ i e, Index.get? env i = some e → e.Denotes M (find σ i)

mutual

/-- What a value stands for stays if more arguments get a meaning. -/
theorem Value.Denotes.mono {M M' : Meaning} (hM : M.Le M') :
    ∀ {v : Value} {u : Skeleton}, v.Denotes M u → v.Denotes M' u
  | _, _, .univ => .univ
  | _, _, .pi ha hc => .pi (ha.mono hM) (hc.mono hM)
  | _, _, .lam hc => .lam (hc.mono hM)
  | _, _, .path ha hl hr => .path (ha.mono hM) (hl.mono hM) (hr.mono hM)
  | _, _, .smoothPath ha hl hr => .smoothPath (ha.mono hM) (hl.mono hM) (hr.mono hM)
  | _, _, .pathLam hc => .pathLam (hc.mono hM)
  | _, _, .stuck hn => .stuck (hn.mono hM)

/-- So does what a stuck computation stands for. -/
theorem Neutral.Denotes.mono {M M' : Meaning} (hM : M.Le M') :
    ∀ {n : Neutral} {u : Skeleton}, n.Denotes M u → n.Denotes M' u
  | _, _, .var => .var
  | _, _, .app hn hv => .app (hn.mono hM) (hv.mono hM)
  | _, _, .pathApp hn => .pathApp (hn.mono hM)

/-- So does what a closure stands for. -/
theorem Closure.Denotes.mono {M M' : Meaning} (hM : M.Le M') :
    ∀ {c : Closure} {u : Skeleton}, c.Denotes M u → c.Denotes M' u
  | _, _, .body henv hdims ht => .body (fun i e he => (henv i e he).mono hM) hdims ht

/-- So does what a closure over the interval stands for. -/
theorem IntervalClosure.Denotes.mono {M M' : Meaning} (hM : M.Le M') :
    ∀ {c : IntervalClosure} {u : Skeleton}, c.Denotes M u → c.Denotes M' u
  | _, _, .body henv hdims ht => .body (fun i e he => (henv i e he).mono hM) hdims ht

/-- So does what an entry stands for. -/
theorem Entry.Denotes.mono {M M' : Meaning} (hM : M.Le M') :
    ∀ {e : Entry} {u : Skeleton}, e.Denotes M u → e.Denotes M' u
  | _, _, .value hv => .value (hv.mono hM)
  | _, _, .thunk hid => .thunk (hM _ _ hid)

end

namespace Env.Denotes

variable {M M' : Meaning} {env : Env} {σ : List Skeleton}

/-- What an environment stands for stays if more arguments get a meaning. -/
theorem mono (h : Env.Denotes M env σ) (hM : M.Le M') : Env.Denotes M' env σ :=
  fun i e he => (h i e he).mono hM

/-- An entry more stands for a skeleton more. -/
theorem cons (h : Env.Denotes M env σ) {e : Entry} {u : Skeleton} (he : e.Denotes M u) :
    Env.Denotes M (e :: env) (u :: σ) := by
  intro i e' hi
  obtain ⟨rfl, rfl⟩ | ⟨j, hj, rfl, hget⟩ := Index.get?_cons_eq_some hi
  · rwa [find_of_get? (Index.get?_cons_zero u σ)]
  · have hfind : find (u :: σ) (j + 1) = find σ j := by
      unfold find
      rw [Index.get?_cons_succ _ _ hj]
    rw [hfind]
    exact h j e' hget

end Env.Denotes

/-! ## Demands -/

/-- What is demanded stands for the skeleton. -/
inductive Demand.Denotes (M : Meaning) : Demand → Skeleton → Prop
  | evaluate {nests : Bool} {t : Term} {env : Env} {dims : IntervalEnv} {σ : List Skeleton} :
      Env.Denotes M env σ → dims.IsGeneric → t.isPure = true →
        Demand.Denotes M (.evaluate nests t env dims) (t.skeleton σ dims.skeletons)
  | instantiate {c : Closure} {e : Entry} {b u : Skeleton} :
      c.Denotes M (.lam .function b) → e.Denotes M u →
        Demand.Denotes M (.instantiate c e) (b.inst u)
  | instantiateAt {c : IntervalClosure} {b : Skeleton} {level : Int} :
      c.Denotes M (.lam .path b) →
        Demand.Denotes M (.instantiateAt c (.var level)) (b.inst (.var (.point level)))

/-- What is demanded stands for the same if more arguments get a meaning. -/
theorem Demand.Denotes.mono {M M' : Meaning} {d : Demand} {u : Skeleton} (h : d.Denotes M u)
    (hM : M.Le M') : d.Denotes M' u := by
  cases h with
  | evaluate henv hdims ht => exact .evaluate (henv.mono hM) hdims ht
  | instantiate hc he => exact .instantiate (hc.mono hM) (he.mono hM)
  | instantiateAt hc => exact .instantiateAt (hc.mono hM)

/-- The value stands for something that the skeleton reduces to. -/
def Value.Computes (M : Meaning) (v : Value) (u : Skeleton) : Prop :=
  ∃ u', Reduces u u' ∧ v.Denotes M u'

/-- A value computes what it stands for. -/
theorem Value.Denotes.computes {M : Meaning} {v : Value} {u : Skeleton} (h : v.Denotes M u) :
    v.Computes M u :=
  ⟨u, .refl u, h⟩

namespace Value.Computes

variable {M M' : Meaning} {v : Value} {u u' : Skeleton}

/-- What a value computes stays if more arguments get a meaning. -/
theorem mono (h : v.Computes M u) (hM : M.Le M') : v.Computes M' u := by
  obtain ⟨w, hu, hv⟩ := h
  exact ⟨w, hu, hv.mono hM⟩

/-- What a skeleton reduces to is computed only if the skeleton is. -/
theorem before (h : v.Computes M u') (hu : Reduces u u') : v.Computes M u := by
  obtain ⟨w, hw, hv⟩ := h
  exact ⟨w, hu.trans hw, hv⟩

end Value.Computes

/-! ## Sessions -/

/-- The argument stands for the skeleton: it would compute this, and its value is a reduct if it
was looked at. -/
structure Cell.Means (M : Meaning) (c : Cell) (u : Skeleton) : Prop where
  demand : c.suspension.demand.Denotes M u
  value : ∀ v, c.value = some v → v.Computes M u

/-- The session bears the meaning out. -/
def Session.Means (s : Session) (M : Meaning) : Prop :=
  ∀ id u, M id = some u → ∃ c, s.cells[id]? = some c ∧ c.Means M u

/-- The second session bears a meaning out that says of the arguments of the first what was said
before. -/
structure Session.Follows (s : Session) (M : Meaning) (s' : Session) (M' : Meaning) : Prop where
  size : s.cells.size ≤ s'.cells.size
  agree : ∀ id < s.cells.size, M' id = M id
  means : s'.Means M'

/-- An argument stands for what it did if more arguments get a meaning. -/
theorem Cell.Means.mono {M M' : Meaning} {c : Cell} {u : Skeleton} (h : c.Means M u)
    (hM : M.Le M') : c.Means M' u where
  demand := h.demand.mono hM
  value v hv := (h.value v hv).mono hM

namespace Session

variable {s s' s'' : Session} {M M' M'' : Meaning}

/-- Only arguments of the session have a meaning. -/
theorem Means.lt_size (h : s.Means M) {id : Nat} {u : Skeleton} (hid : M id = some u) :
    id < s.cells.size := by
  obtain ⟨c, hc, -⟩ := h id u hid
  exact (Array.getElem?_eq_some_iff.1 hc).1

/-- A session bears out what another with the same arguments does. -/
theorem Means.of_cells (h : s.Means M) (hcells : s'.cells = s.cells) : s'.Means M := by
  intro id u hid
  rw [hcells]
  exact h id u hid

namespace Follows

/-- A session with the same arguments follows. -/
theorem of_cells (h : s.Means M) (hcells : s'.cells = s.cells) : s.Follows M s' M where
  size := Nat.le_of_eq (by rw [hcells])
  agree _ _ := rfl
  means := h.of_cells hcells

/-- A session follows itself. -/
theorem refl (h : s.Means M) : s.Follows M s M :=
  .of_cells h rfl

/-- What follows a session that follows another follows that one. -/
theorem trans (h : s.Follows M s' M') (h' : s'.Follows M' s'' M'') : s.Follows M s'' M'' where
  size := Nat.le_trans h.size h'.size
  agree id hid := (h'.agree id (Nat.lt_of_lt_of_le hid h.size)).trans (h.agree id hid)
  means := h'.means

/-- All that had a meaning keeps it. -/
theorem le (h : s.Follows M s' M') (hs : s.Means M) : M.Le M' := by
  intro id u hid
  rw [h.agree id (hs.lt_size hid), hid]

end Follows

/-- To keep the value of an argument bears the meaning out if the argument has no meaning, or has
one that the value computes. -/
theorem Means.settle (h : s.Means M) (id : Nat) (v : Value)
    (hv : ∀ u, M id = some u → v.Computes M u) :
    s.Follows M ((Run.settle id v).after s) M := by
  have hkept : s.Follows M
      { s with cells := s.cells.modify id fun c => { c with value := some v } } M := by
    refine ⟨by simp, fun _ _ => rfl, fun k u hk => ?_⟩
    obtain ⟨c, hc, hmeans⟩ := h k u hk
    by_cases hkid : id = k
    · subst hkid
      refine ⟨{ c with value := some v }, by simp [Array.getElem?_modify, hc], hmeans.demand, ?_⟩
      rintro _ ⟨⟩
      exact hv u hk
    · exact ⟨c, by simp [Array.getElem?_modify, hkid, hc], hmeans⟩
  obtain ⟨meters, cells, events, sharing⟩ := s
  cases sharing with
  | byNeed => exact hkept
  | byName => exact .refl h

/-- The cells of a session stay when an argument is put off. -/
theorem getElem?_push_of_means (h : s.Means M) (x : Suspension) {id : Nat} {u : Skeleton}
    (hid : M id = some u) :
    ∃ c, (s.cells.push { suspension := x })[id]? = some c ∧ c.Means M u := by
  obtain ⟨c, hc, hmeans⟩ := h id u hid
  have hlt := h.lt_size hid
  refine ⟨c, ?_, hmeans⟩
  rw [Array.getElem?_push, if_neg (by omega), hc]

/-- An argument may be put off without a meaning. -/
theorem Means.suspend_any (h : s.Means M) (x : Suspension) :
    s.Follows M { s with cells := s.cells.push { suspension := x } } M where
  size := by simp
  agree _ _ := rfl
  means _ _ hid := getElem?_push_of_means h x hid

/-- An argument may be put off with the meaning that it would compute. -/
theorem Means.suspend (h : s.Means M) {x : Suspension} {u : Skeleton}
    (hx : x.demand.Denotes M u) :
    ∃ M', s.Follows M { s with cells := s.cells.push { suspension := x } } M' ∧
      M' s.cells.size = some u := by
  let M' : Meaning := fun id => if id = s.cells.size then some u else M id
  have hold {id : Nat} (hid : id < s.cells.size) : M' id = M id := if_neg (by omega)
  have hle : M.Le M' := fun id w hid => (hold (h.lt_size hid)).trans hid
  refine ⟨M', ⟨by simp, fun _ => hold, fun id w hid => ?_⟩, if_pos rfl⟩
  by_cases hnew : id = s.cells.size
  · obtain rfl : u = w := Option.some.inj ((if_pos hnew).symm.trans hid)
    refine ⟨{ suspension := x }, by simp [hnew], hx.mono hle, nofun⟩
  · have hid : M id = some w := (if_neg hnew).symm.trans hid
    obtain ⟨c, hc, hmeans⟩ := getElem?_push_of_means h x hid
    exact ⟨c, hc, hmeans.mono hle⟩

end Session

end SmoothCubical
