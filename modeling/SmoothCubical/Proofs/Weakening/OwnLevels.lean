import SmoothCubical.Proofs.Lockstep.Typing
import SmoothCubical.Proofs.Scope.Safety

/-!
# Own levels

The entries and types of a declared context hold no other levels than those of the context
(`Context.Declared.holdsOwn`). That is not so for all of the session: to normalize a term, or to
judge one, puts off arguments at fresh variables, and these stay behind. But nothing that the
context holds refers to them.

Two things are known of what a declared context holds. It is in scope of the context, with all the
arguments that it refers to (`Context.SoundlyIn`), and it corresponds to itself, as all does that
evaluation builds (`Context.BuiltIn`). From both follows that it corresponds to itself already if
only the levels in scope stand for themselves, and only these arguments are looked at
(`Correspondence.Values.within`).
-/

set_option autoImplicit false

namespace SmoothCubical

/-! ## Correspondence within a scope -/

namespace Correspondence

/-- As before, but with no other levels and no other arguments than those in scope. -/
def within (C : Correspondence) (S : Scope) : Correspondence :=
  { C with
    level := fun l l' => C.level l l' ∧ S.level l
    argument := fun id => C.argument id ∧ Entry.In S (.thunk id) }

variable {C : Correspondence} {S : Scope}

/-- Scopes that are bound alike are so within any scope. -/
theorem Bound.within {V : Int → Int → Prop} {env env' : Env} (h : C.Bound V env env') :
    (C.within S).Bound V env env' :=
  h

/-- Interval environments that correspond do so within any scope. -/
theorem Dims.within {D : Int → Int → Prop} {dims dims' : IntervalEnv} (h : C.Dims D dims dims') :
    (C.within S).Dims D dims dims' := by
  have hunbound {i j : Int} (hij : C.unbound i j) : (C.within S).unbound i j := hij
  exact h.extend hunbound

/-- Terms that match do so within any scope. -/
theorem matches_within {V D : Int → Int → Prop} {t t' : Term} (h : Term.Matches C V D t t') :
    Term.Matches (C.within S) V D t t' := by
  have hname {x y : String} (hxy : C.name x y) : (C.within S).name x y := hxy
  exact h.extend hname

mutual

/-- Values that correspond do so within a scope that the first is in. -/
theorem Values.within {v v' : Value} : C.Values v v' → v.In S → (C.within S).Values v v'
  | .univ, _ => .univ
  | .pi n a b, .pi ha hb => .pi n (a.within ha) (b.within hb)
  | .lam n b, .lam hb => .lam n (b.within hb)
  | .path a l r, .path ha hl hr => .path (a.within ha) (l.within hl) (r.within hr)
  | .smoothPath a l r, .smoothPath ha hl hr =>
    .smoothPath (a.within ha) (l.within hl) (r.within hr)
  | .pathLam n b, .pathLam hb => .pathLam n (b.within hb)
  | .untyped n, .untyped hn => .untyped (n.within hn)
  | .typed n a, .typed hn ha => .typed (n.within hn) (a.within ha)

/-- Stuck computations that correspond do so within a scope that the first is in. -/
theorem Neutrals.within {n n' : Neutral} :
    C.Neutrals n n' → n.In S → (C.within S).Neutrals n n'
  | .var hl, .var hs => .var ⟨hl, hs⟩
  | .app n v, .app hn hv => .app (n.within hn) (v.within hv)
  | .pathApp n, .pathApp hn _ => .pathApp (n.within hn)
  | .comp a fs v, .comp _ _ ha _ hfs hv => .comp (a.within ha) (fs.within hfs) (v.within hv)
  | .coe a v, .coe _ _ ha hv => .coe (a.within ha) (v.within hv)

/-- Bodies that correspond do so within a scope that the first is in. -/
theorem Closures.within {c c' : Closure} : C.Closures c c' → c.In S → (C.within S).Closures c c'
  | .body he hb hd ht, .body hes _ _ =>
    .body (fun i j e e' hij hi hj => (he i j e e' hij hi hj).within (hes e (Index.mem_of_get? hi)))
      hb.within hd.within (matches_within ht)
  | .comp a fs v, .comp _ _ _ ha _ hfs hv => .comp (a.within ha) (fs.within hfs) (v.within hv)
  | .coe a v, .coe _ _ _ ha hv => .coe (a.within ha) (v.within hv)

/-- Bodies of interval abstractions that correspond do so within a scope that the first is in. -/
theorem IntervalClosures.within {c c' : IntervalClosure} :
    C.IntervalClosures c c' → c.In S → (C.within S).IntervalClosures c c'
  | .body he hb hd ht, .body hes _ _ =>
    .body (fun i j e e' hij hi hj => (he i j e e' hij hi hj).within (hes e (Index.mem_of_get? hi)))
      hb.within hd.within (matches_within ht)
  | .choice u v w, .choice hu hv hw => .choice (u.within hu) (v.within hv) (w.within hw)
  | .domain a, .domain _ ha => .domain (a.within ha)
  | .codomain a y, .codomain _ ha hy => .codomain (a.within ha) (y.within hy)
  | .element a, .element _ ha => .element (a.within ha)
  | .left a, .left _ ha => .left (a.within ha)
  | .right a, .right _ ha => .right (a.within ha)
  | .app u y, .app _ hu hy => .app (u.within hu) (y.within hy)
  | .pathApp u, .pathApp _ hu _ => .pathApp (u.within hu)
  | .comp a fs v, .comp _ _ _ ha _ hfs hv => .comp (a.within ha) (fs.within hfs) (v.within hv)

/-- Bodies that do not depend on the point correspond within a scope that the first is in. -/
theorem Still.within {c c' : IntervalClosure} : C.Still c c' → c.In S → (C.within S).Still c c'
  | .body he hb hd ht hm, .body hes _ _ =>
    .body (fun i j e e' hij hi hj => (he i j e e' hij hi hj).within (hes e (Index.mem_of_get? hi)))
      hb.within hd.within (matches_within ht) hm
  | .domain a hc, .domain _ ha => .domain (a.within ha) hc
  | .codomain a hc d hc' v, .codomain _ ha (.mk hd _ hv) =>
    .codomain (a.within ha) hc (d.within hd) hc' (v.within hv)
  | .element a hc, .element _ ha => .element (a.within ha) hc

/-- Moved arguments that correspond do so within a scope that the first is in. -/
theorem Arguments.within {y y' : Carried} :
    C.Arguments y y' → y.In S → (C.within S).Arguments y y'
  | .mk d v, .mk hd _ hv => .mk (d.within hd) (v.within hv)

/-- Families that correspond do so within a scope that the first is in. -/
theorem Lines.within {a a' : Line} : C.Lines a a' → a.In S → (C.within S).Lines a a'
  | .constant a, .constant ha => .constant (a.within ha)
  | .moving c, .varying hc => .moving (c.within hc)
  | .still c, .varying hc => .still (c.within hc)

/-- Entries that correspond do so within a scope that the first is in. -/
theorem Entries.within {e e' : Entry} : C.Entries e e' → e.In S → (C.within S).Entries e e'
  | .value v, .value hv => .value (v.within hv)
  | .thunk hid, he => .thunk ⟨hid, he⟩

/-- Partial elements that correspond do so within a scope that the first are in. -/
theorem Tubes.within {fs fs' : List Tube} :
    C.Tubes fs fs' → (∀ face ∈ fs, face.2.In S) → (C.within S).Tubes fs fs'
  | .nil, _ => .nil
  | .cons u rest, hfs =>
    .cons (u.within (hfs _ List.mem_cons_self))
      (rest.within fun face hface => hfs face (List.mem_cons_of_mem _ hface))

end

/-- Environments that correspond do so within a scope that the entries of the first are in. -/
theorem Environments.within {V : Int → Int → Prop} {env env' : Env}
    (h : C.Environments V env env') (hin : ∀ e ∈ env, e.In S) :
    (C.within S).Environments V env env' where
  entries i j e e' hij hi hj := (h.entries i j e e' hij hi hj).within (hin e (Index.mem_of_get? hi))
  bound := h.bound.within

end Correspondence

/-! ## Contexts that correspond to themselves -/

namespace Correspondence

/-- If two runs differ in nothing, a level stands for itself only. -/
theorem same_level (l l' : Int) : same.level l l' ↔ l = l' :=
  Iff.rfl

/-- If two runs differ in nothing, every level stands for one other only. -/
theorem same_biUnique : Relator.BiUnique same.level :=
  ⟨fun _ _ _ h h' => Eq.trans h h'.symm, fun _ _ _ h h' => Eq.trans h.symm h'⟩

/-- A run that agrees with itself leaves a session that corresponds to itself, and gives an answer
that is related to itself. -/
theorem Agrees.self {C : Correspondence} {α : Type} {R : α → α → Prop} {x : Run α}
    (h : C.Agrees R x x) {s : Session} (hs : C.Sessions s s) :
    C.Sessions (x.after s) (x.after s) ∧ ∀ a s', x s = .ok a s' → R a a := by
  have hout := h s s hs
  unfold Run.after
  cases hx : x s with
  | ok a s' =>
    rw [hx] at hout
    cases hout with
    | ok hR hs =>
      refine ⟨hs, fun b t heq => ?_⟩
      cases heq
      exact hR
  | error e s' =>
    rw [hx] at hout
    cases hout with
    | error _ hs => exact ⟨hs, nofun⟩

end Correspondence

open Correspondence

/-- The context corresponds to itself, and so does the session: all that they hold is what
evaluation builds. -/
structure Context.BuiltIn (ctx : Context) (s : Session) : Prop where
  context : same.Contexts (· = ·) ctx ctx
  session : same.Sessions s s

namespace Context.BuiltIn

variable {ctx ctx' : Context} {s s' : Session} {evaluate : Term → Run Value}

/-- The empty context, before anything was asked. -/
theorem empty (sharing : Sharing) : Context.BuiltIn .empty { sharing } where
  context := .empty same_level
  session := .refl (fun _ _ => trivial) (by simp)

/-- A term matches itself. -/
theorem matches_self (t : Term) : Term.Matches same (· = ·) (· = ·) t t :=
  t.matches_same (fun _ => rfl) fun _ => rfl

/-- A term is evaluated in step with itself, by whichever evaluator. -/
theorem evaluate_inStep (h : ctx.BuiltIn s) {s₀ : Session}
    (hevaluates : ctx.EvaluatesBy s₀ evaluate) (t : Term) :
    same.InStep same.Values (evaluate t) (evaluate t) := by
  have hdims := Dims.refl (C := same) ctx.dims
  cases hevaluates with
  | new frames settings =>
    exact Correspondence.evaluate_inStep h.context.env hdims (matches_self t) frames settings
  | used frames _ =>
    exact run_inStep frames _ _ _ (.evaluate h.context.env hdims (matches_self t))

/-- The value of a term corresponds to itself. -/
theorem evaluate_ok (h : ctx.BuiltIn s) {s₀ : Session} (hevaluates : ctx.EvaluatesBy s₀ evaluate)
    {t : Term} {v : Value} (hrun : evaluate t s = .ok v s') :
    ctx.BuiltIn s' ∧ same.Values v v := by
  obtain ⟨hs, hv⟩ := (h.evaluate_inStep hevaluates t).agrees.self h.session
  rw [Run.after_ok hrun] at hs
  exact ⟨⟨h.context, hs⟩, hv v s' hrun⟩

/-- An entry may be added. -/
theorem entry (h : ctx.BuiltIn s) (hevaluates : ctx.EvaluatesBy s evaluate) {x : Declaration}
    (hadd : x.addBy evaluate ctx s = .ok ctx' s') : ctx'.BuiltIn s' := by
  cases Declaration.added hadd with
  | @hypothesis name _ _ _ ha =>
    obtain ⟨h₁, ha⟩ := h.evaluate_ok hevaluates ha
    exact ⟨under_eq ▸ h₁.context.extend name name ha, h₁.session⟩
  | @definition name _ _ _ _ _ _ ha hv =>
    obtain ⟨h₁, ha⟩ := h.evaluate_ok hevaluates ha
    obtain ⟨h₂, hv⟩ := h₁.evaluate_ok hevaluates hv
    exact ⟨under_eq ▸ h₂.context.define name name ha hv, h₂.session⟩
  | dimension => exact ⟨h.context.extendDim, h.session⟩

/-- Whatever is asked is answered as when it is asked again in the same session. -/
theorem request_agrees (h : ctx.BuiltIn s) (q : Request) (frames : Nat) (settings : Settings) :
    same.Agrees (fun _ _ => True) (q.run frames settings ctx) (q.run frames settings ctx) := by
  have evaluates (t : Term) : same.InStep same.Values
      (Kernel.evaluate frames settings t ctx.env ctx.dims)
      (Kernel.evaluate frames settings t ctx.env ctx.dims) :=
    h.evaluate_inStep (Context.EvaluatesBy.new (s := s) frames settings) t
  cases q with
  | evaluate t => exact (evaluates t).agrees.bind fun _ _ _ => .pure trivial
  | normalize t =>
    have hrun := normalize_inStep h.context.env (.refl ctx.dims) h.context.depth rfl
      (matches_self t) frames settings
    exact hrun.agrees.bind fun _ _ _ => .pure trivial
  | infer t =>
    have hrun := infer_agrees same_biUnique h.context (matches_self t) frames settings
    exact hrun.bind fun _ _ _ => .pure trivial
  | checkTerm t expected =>
    exact checkTerm_agrees same_biUnique h.context (matches_self t) (matches_self expected) frames
      settings
  | check t expected =>
    refine (evaluates expected).agrees.bind fun ty ty' hty => ?_
    exact check_agrees same_biUnique h.context (matches_self t) hty frames settings
  | convert t t' =>
    have hrun : same.InStep (· = ·) (convertTerms frames settings ctx t t')
        (convertTerms frames settings ctx t t') := by
      refine (evaluates t).bind fun v w hv => (evaluates t').bind fun v' w' hv' => ?_
      refine (openMeter_inStep settings).bind fun m _ hm => ?_
      subst hm
      exact convertible_inStep same_biUnique h.context.depth frames m ctx.dimDepth hv hv'
    exact hrun.agrees.bind fun _ _ _ => .pure trivial

/-- Something may be asked. -/
theorem request (h : ctx.BuiltIn s) (q : Request) (frames : Nat) (settings : Settings) :
    ctx.BuiltIn ((q.run frames settings ctx).after s) :=
  ⟨h.context, ((h.request_agrees q frames settings).self h.session).1⟩

end Context.BuiltIn

/-! ## What a context owns -/

/-- The ground of contexts that hold no other levels than their own. Nothing else is asked: points
may be any, and terms may be out of scope. -/
def Scope.ownLevels : Scope where
  level _ := False
  point _ := True
  meter _ := True
  lax := True
  origin _ := none

/-- The kernel may be asked something on that ground. -/
theorem Scope.ownLevels_isGround : ownLevels.IsGround :=
  ⟨fun _ => trivial, .inl trivial⟩

/-- Two runs that differ in nothing, know only the levels below `depth` and look only at the
arguments in `known`. -/
def Correspondence.below (depth : Int) (known : Nat → Prop) : Correspondence :=
  { Correspondence.same with
    level := fun l l' => l = l' ∧ l < depth
    argument := known }

/-- All levels that the context holds are levels of the context: those in its entries and types, and
those in the known arguments of the session, which are all that these refer to. -/
structure Context.HoldsOwn (ctx : Context) (s : Session) (known : Nat → Prop) : Prop where
  env : (below ctx.depth known).Environments (· = ·) ctx.env ctx.env
  types : ∀ i b, Index.get? ctx.bindings i = some b → (below ctx.depth known).Values b.ty b.ty
  session : (below ctx.depth known).Sessions s s

/-- All levels in the value, and in the arguments that it refers to, are levels of the context. -/
def Context.Owns (ctx : Context) (s : Session) (v : Value) : Prop :=
  ∃ known : Nat → Prop,
    (below ctx.depth known).Sessions s s ∧ (below ctx.depth known).Values v v

/-- The arguments that values in scope of the context may refer to, now or later. -/
def Context.Reaches (ctx : Context) (s : Session) (id : Nat) : Prop :=
  Entry.In ((ctx.scope .ownLevels).during s) (.thunk id) ∨ s.cells.size ≤ id

namespace Context

variable {ctx : Context} {s s' : Session}

/-- Within the scope of a context, levels are below its depth, and arguments are reached. -/
theorem below_extends_within (ctx : Context) (s : Session) :
    (below ctx.depth (ctx.Reaches s)).Extends
      (same.within ((ctx.scope .ownLevels).during s)) where
  level := by
    rintro l l' ⟨hl, hin⟩
    have hrange := hin.resolve_left id
    simp only [Index.inScope, Bool.and_eq_true, decide_eq_true_eq] at hrange
    exact ⟨hl, hrange.2⟩
  name h := h
  unbound h := h
  argument h := .inl h.2

/-- A value in scope that corresponds to itself holds levels of the context only. -/
theorem values_below {v v' : Value} (hv : same.Values v v')
    (hin : v.In ((ctx.scope .ownLevels).during s)) :
    (below ctx.depth (ctx.Reaches s)).Values v v' :=
  (hv.within hin).extend (ctx.below_extends_within s)

/-- So do environments of entries in scope. -/
theorem environments_below {V : Int → Int → Prop} {env env' : Env}
    (henv : same.Environments V env env')
    (hin : ∀ e ∈ env, e.In ((ctx.scope .ownLevels).during s)) :
    (below ctx.depth (ctx.Reaches s)).Environments V env env' :=
  (henv.within hin).extend (ctx.below_extends_within s)

/-- The arguments that values in scope of the context may refer to hold levels of the context
only. -/
theorem sessions_below (hs : s.Sound) (hbuilt : same.Sessions s s) :
    (below ctx.depth (ctx.Reaches s)).Sessions s s := by
  have hextends := ctx.below_extends_within s
  refine .refl (fun id => .inr) fun id c hid hc => ?_
  have hlt : id < s.cells.size := (Array.getElem?_eq_some_iff.1 hc).1
  obtain ⟨x, hx, hin⟩ := (hid.resolve_right (by omega)).suspension
  obtain ⟨c', hc', rfl⟩ := Option.map_eq_some_iff.1 hx
  obtain rfl : c = c' := by simpa [hc] using hc'
  cases hbuilt.cells id c c trivial hc hc with
  | pending henv hdims ht =>
    exact .pending (environments_below henv hin.entries) (hdims.within.extend hextends.unbound)
      ((matches_within ht).extend hextends.name)
  | @done y _ v _ hv => exact .done (values_below hv (hs id y v hc _ (fun h => h) hin))

/-- A context in scope of its own levels that corresponds to itself holds its own levels only. -/
theorem SoundlyIn.holdsOwn (hin : ctx.SoundlyIn .ownLevels s) (hbuilt : ctx.BuiltIn s) :
    ctx.HoldsOwn s (ctx.Reaches s) where
  env := environments_below hbuilt.context.env hin.context.entries
  types i b hb :=
    values_below (hbuilt.context.types i i b b rfl hb hb)
      (hin.context.types b (Index.mem_of_get? hb))
  session := sessions_below hin.session hbuilt.session

/-! ## Declared contexts -/

/-- A context that is declared entry by entry is in scope of its own levels. -/
theorem Declared.ownLevels (h : ctx.Declared (fun _ _ => True) Context.Requests s) :
    ctx.SoundlyIn .ownLevels s := by
  have hg := Scope.ownLevels_isGround
  induction h with
  | empty sharing => exact .empty _ sharing
  | entry x _ _ hevaluates hadd ih => exact ih.entry hg hevaluates (.inl trivial) hadd
  | meanwhile _ hrequest ih =>
    obtain ⟨frames, settings, q, rfl⟩ := hrequest
    exact ih.request hg (.inl trivial) frames settings

/-- A context that is declared entry by entry corresponds to itself. -/
theorem Declared.builtIn {admits : Context → Declaration → Prop}
    (h : ctx.Declared admits Context.Requests s) : ctx.BuiltIn s := by
  induction h with
  | empty sharing => exact .empty sharing
  | entry x _ _ hevaluates hadd ih => exact ih.entry hevaluates hadd
  | meanwhile _ hrequest ih =>
    obtain ⟨frames, settings, q, rfl⟩ := hrequest
    exact ih.request q frames settings

/-- A context that is declared entry by entry holds its own levels only, whatever was asked in
between. -/
theorem Declared.holdsOwn (h : ctx.Declared (fun _ _ => True) Context.Requests s) :
    ctx.HoldsOwn s (ctx.Reaches s) :=
  h.ownLevels.holdsOwn h.builtIn

/-- What is evaluated in a declared context is owned by it. -/
theorem Declared.owns (h : ctx.Declared (fun _ _ => True) Context.Requests s)
    {evaluate : Term → Run Value} (hevaluates : ctx.EvaluatesBy s evaluate) {t : Term} {v : Value}
    (hrun : evaluate t s = .ok v s') : ctx.Owns s' v := by
  have hin := h.ownLevels
  obtain ⟨hleads, hv⟩ := (Kernel.safe_evaluatesBy Scope.ownLevels_isGround hevaluates hin.session
    hin.context (.inl trivial)).ok hrun
  obtain ⟨hbuilt, hvalue⟩ := h.builtIn.evaluate_ok hevaluates hrun
  exact ⟨ctx.Reaches s', sessions_below hleads.sound hbuilt.session, values_below hvalue hv⟩

end Context

end SmoothCubical
