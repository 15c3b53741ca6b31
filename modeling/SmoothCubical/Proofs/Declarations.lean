import SmoothCubical.Kernel
import SmoothCubical.Proofs.Growth

/-!
# Contexts from declarations

A context is put together in a session, entry by entry. The terms of an entry are evaluated in the
context so far, by an evaluator that is opened for the purpose or by one that was used before, and
between two entries the session may be used for other things (`Context.Declared`).

What adding an entry can come to is said once (`Declaration.added`). Whatever holds of all declared
contexts is then shown for the empty one, for the three kinds of entries, and for what may be done
in between.
-/

set_option autoImplicit false

namespace SmoothCubical

/-- One entry of a context, as it is written. -/
inductive Declaration
  | hypothesis (name : String) (ty : Term)
  | definition (name : String) (ty value : Term)
  | dimension

namespace Declaration

/-- Fail unless a hypothesis has a type for its type, and a definition the type it is given. -/
def accept (frames : Nat) (settings : Settings) (ctx : Context) : Declaration → Run Unit
  | .hypothesis _ ty => do
    let d ← Kernel.derivation frames settings
    let _ ← Typing.inferUniverse d ctx ty
  | .definition _ ty value => Kernel.checkTerm frames settings ctx value ty
  | .dimension => pure ()

/-- Add an entry to a context, with the given way to evaluate terms. -/
def addBy (evaluate : Term → Run Value) (ctx : Context) : Declaration → Run Context
  | .hypothesis name ty => return ctx.extend name (← evaluate ty)
  | .definition name ty value => do
    let a ← evaluate ty
    return ctx.define name a (← evaluate value)
  | .dimension => return ctx.extendDim

/-- Add an entry to a context, each of its terms by an evaluator of its own. -/
def add (frames : Nat) (settings : Settings) (ctx : Context) : Declaration → Run Context :=
  addBy (fun t => Kernel.evaluate frames settings t ctx.env ctx.dims) ctx

/-- Add an entry to a context, by an evaluator that may have been used before. -/
def addOn (frames : Nat) (m : MeterId) (ctx : Context) : Declaration → Run Context :=
  addBy (fun t => Eval.evaluate frames m t ctx.env ctx.dims) ctx

/-- Add entries one after the other. -/
def addAll (frames : Nat) (settings : Settings) : List Declaration → Context → Run Context
  | [], ctx => pure ctx
  | x :: rest, ctx => do addAll frames settings rest (← x.add frames settings ctx)

/-- What it comes to that an entry was added: the values of its terms, one after the other, and the
context with the entry. -/
inductive Added (evaluate : Term → Run Value) (ctx : Context) (s : Session) :
    Declaration → Context → Session → Prop
  | hypothesis {name : String} {ty : Term} {a : Value} {s' : Session} :
      evaluate ty s = .ok a s' →
        Added evaluate ctx s (.hypothesis name ty) (ctx.extend name a) s'
  | definition {name : String} {ty value : Term} {a v : Value} {s₁ s' : Session} :
      evaluate ty s = .ok a s₁ → evaluate value s₁ = .ok v s' →
        Added evaluate ctx s (.definition name ty value) (ctx.define name a v) s'
  | dimension : Added evaluate ctx s .dimension ctx.extendDim s

/-- An entry is added in one of three ways. -/
theorem added {evaluate : Term → Run Value} {ctx ctx' : Context} {s s' : Session}
    {x : Declaration} (hadd : x.addBy evaluate ctx s = .ok ctx' s') :
    x.Added evaluate ctx s ctx' s' := by
  cases x with
  | hypothesis name ty =>
    obtain ⟨a, s₁, ha, hctx⟩ := Run.bind_eq_ok.1 hadd
    cases hctx
    exact .hypothesis ha
  | definition name ty value =>
    obtain ⟨a, s₁, ha, hrest⟩ := Run.bind_eq_ok.1 hadd
    obtain ⟨v, s₂, hv, hctx⟩ := Run.bind_eq_ok.1 hrest
    cases hctx
    exact .definition ha hv
  | dimension =>
    cases hadd
    exact .dimension

end Declaration

/-- The context of a list of declarations, each accepted before it is added. -/
def declare (frames : Nat) (settings : Settings) :
    List Declaration → Context → Run Context
  | [], ctx => pure ctx
  | x :: rest, ctx => do
    x.accept frames settings ctx
    declare frames settings rest (← x.add frames settings ctx)

/-! ## What can be asked -/

/-- Whether two terms of a context are convertible. -/
def convertTerms (frames : Nat) (settings : Settings) (ctx : Context) (t t' : Term) :
    Run Bool := do
  let v ← Kernel.evaluate frames settings t ctx.env ctx.dims
  let v' ← Kernel.evaluate frames settings t' ctx.env ctx.dims
  Kernel.convertible frames settings ctx v v'

/-- What can be asked about terms of a context. -/
inductive Request
  | evaluate (term : Term)
  | normalize (term : Term)
  | infer (term : Term)
  /-- Is the second term a type, and is the first of it? -/
  | checkTerm (term expected : Term)
  /-- Is the first term of the type that the second is worth? -/
  | check (term expected : Term)
  | convert (left right : Term)

/-- Ask, with new evaluators, and leave the answer. -/
def Request.run (frames : Nat) (settings : Settings) (ctx : Context) : Request → Run Unit
  | .evaluate t => do
    let _ ← Kernel.evaluate frames settings t ctx.env ctx.dims
  | .normalize t => do
    let _ ← Kernel.normalize frames settings ctx t
  | .infer t => do
    let _ ← Kernel.infer frames settings ctx t
  | .checkTerm t expected => Kernel.checkTerm frames settings ctx t expected
  | .check t expected => do
    let ty ← Kernel.evaluate frames settings expected ctx.env ctx.dims
    Kernel.check frames settings ctx t ty
  | .convert t t' => do
    let _ ← convertTerms frames settings ctx t t'

/-- Something was asked about terms of the context, in scope or not. It may have failed. -/
def Context.Requests (ctx : Context) (s s' : Session) : Prop :=
  ∃ (frames : Nat) (settings : Settings) (q : Request), s' = (q.run frames settings ctx).after s

namespace Context.Requests

variable {ctx : Context} {t t' n : Term} {same : Bool} {frames : Nat} {settings : Settings}
  {s s' : Session}

/-- To normalize a term is something that can be asked. -/
theorem normalize (h : Kernel.normalize frames settings ctx t s = .ok n s') : ctx.Requests s s' :=
  ⟨frames, settings, .normalize t, (Run.after_bind_ok (f := fun _ => pure ()) h).symm⟩

/-- Whether two terms convert is something that can be asked. -/
theorem convert (h : convertTerms frames settings ctx t t' s = .ok same s') : ctx.Requests s s' :=
  ⟨frames, settings, .convert t t', (Run.after_bind_ok (f := fun _ => pure ()) h).symm⟩

end Context.Requests

/-- A request to evaluate a term does what evaluation does. -/
theorem Request.after_evaluate (frames : Nat) (settings : Settings) (ctx : Context) (t : Term)
    (s : Session) :
    ((evaluate t).run frames settings ctx).after s =
      (Kernel.evaluate frames settings t ctx.env ctx.dims).after s := by
  cases hrun : Kernel.evaluate frames settings t ctx.env ctx.dims s with
  | ok v s' =>
    rw [Run.after_ok hrun]
    exact Run.after_bind_ok hrun
  | error e s' =>
    rw [Run.after_error hrun]
    exact Run.after_bind_error hrun

/-! ## Contexts that are put together entry by entry -/

/-- The ways to evaluate terms of the context in the session: by a new evaluator each time, or by
one that may have been used before. -/
inductive Context.EvaluatesBy (ctx : Context) (s : Session) : (Term → Run Value) → Prop
  | new (frames : Nat) (settings : Settings) :
      EvaluatesBy ctx s fun t => Kernel.evaluate frames settings t ctx.env ctx.dims
  | used (frames : Nat) {m : MeterId} :
      m < s.meters.size → EvaluatesBy ctx s fun t => Eval.evaluate frames m t ctx.env ctx.dims

/-- A context that was put together in the session entry by entry, from entries that are admitted.
Each entry was evaluated by new evaluators or by one that was used before. What `between` allows may
have been done in between. -/
inductive Context.Declared (admits : Context → Declaration → Prop)
    (between : Context → Session → Session → Prop) : Context → Session → Prop
  | empty (sharing : Sharing) : Declared admits between .empty { sharing }
  | entry {ctx ctx' : Context} {s s' : Session} {evaluate : Term → Run Value} (x : Declaration) :
      Declared admits between ctx s → admits ctx x → ctx.EvaluatesBy s evaluate →
        x.addBy evaluate ctx s = .ok ctx' s' → Declared admits between ctx' s'
  | meanwhile {ctx : Context} {s s' : Session} :
      Declared admits between ctx s → between ctx s s' → Declared admits between ctx s'

namespace Context.Declared

variable {admits : Context → Declaration → Prop} {between : Context → Session → Session → Prop}
  {ctx ctx' : Context} {s s' : Session} {frames : Nat} {settings : Settings}

/-- One entry more, by new evaluators. -/
theorem add (h : ctx.Declared admits between s) {x : Declaration} (hx : admits ctx x)
    (hadd : x.add frames settings ctx s = .ok ctx' s') : ctx'.Declared admits between s' :=
  h.entry x hx (.new frames settings) hadd

/-- One entry more, by an evaluator of the session. -/
theorem addOn (h : ctx.Declared admits between s) {x : Declaration} (hx : admits ctx x)
    {m : MeterId} (hm : m < s.meters.size) (hadd : x.addOn frames m ctx s = .ok ctx' s') :
    ctx'.Declared admits between s' :=
  h.entry x hx (.used frames hm) hadd

/-- Several entries more, if all of them are admitted anywhere. -/
theorem addAll : ∀ {xs : List Declaration} {ctx : Context} {s : Session},
    ctx.Declared admits between s → (∀ ctx, ∀ x ∈ xs, admits ctx x) →
      Declaration.addAll frames settings xs ctx s = .ok ctx' s' → ctx'.Declared admits between s'
  | [], _, _, h, _, hrun => by
    cases hrun
    exact h
  | x :: xs, ctx, _, h, hx, hrun => by
    obtain ⟨ctx₁, s₁, hadd, hrest⟩ := Run.bind_eq_ok.1 hrun
    have hctx₁ := h.add (hx ctx x (List.mem_cons_self ..)) hadd
    exact hctx₁.addAll (fun ctx y hy => hx ctx y (List.mem_cons_of_mem x hy)) hrest

/-- What may be done in between may be replaced by what allows more. -/
theorem mono {between' : Context → Session → Session → Prop} (h : ctx.Declared admits between s)
    (hbetween : ∀ {ctx s s'}, between ctx s s' → between' ctx s s') :
    ctx.Declared admits between' s := by
  induction h with
  | empty sharing => exact .empty sharing
  | entry x _ hx hevaluates hadd ih => exact .entry x ih hx hevaluates hadd
  | meanwhile _ hdone ih => exact .meanwhile ih (hbetween hdone)

end Context.Declared

/-! ## Runs on fixed inputs -/

/-- What a run answers in a session of its own. -/
def answer? {α : Type} (x : Run α) : Option α :=
  match x {} with
  | .ok a _ => some a
  | .error _ _ => none

/-- An answer is one of the run in a session of its own. -/
theorem answer?_eq_some {α : Type} {x : Run α} {a : α} (h : answer? x = some a) :
    ∃ s, x {} = .ok a s := by
  unfold answer? at h
  cases hx : x {} with
  | ok b s =>
    rw [hx] at h
    exact ⟨s, by rw [Option.some.inj h]⟩
  | error e s =>
    rw [hx] at h
    cases h

/-- The kind of failure that a run ends with, if it fails. -/
def failureKind? {α : Type} (x : Run α) : Run (Option FailureKind) := fun s =>
  match x s with
  | .ok _ s => .ok none s
  | .error e s => .ok (some e.kind) s

end SmoothCubical
