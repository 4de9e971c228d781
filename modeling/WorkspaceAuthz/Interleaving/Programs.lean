import Mathlib.Data.Set.Defs

/-! # Programs over atomic operations

A program performs operations of a signature and goes on with their replies.
What a program does is described relative to its trace, the exchanges that it has
made so far: a protocol says which operations may be performed after a trace and
on which replies one relies for that. Programs that keep to a protocol are put
together like programs with postconditions.
-/
namespace WorkspaceAuthz.Interleaving

/-- Programs over the operations in `Op`, to which there are replies in `Reply`. -/
inductive Prog (Op : Type) (Reply : Op → Type) (α : Type) where
  | pure (a : α)
  | call (op : Op) (next : Reply op → Prog Op Reply α)

/-- The exchanges of a program, the latest first. -/
abbrev Trace (Op : Type) (Reply : Op → Type) := List (Σ op : Op, Reply op)

/-- What may be done after a trace, and which replies are relied upon. -/
structure Protocol (Op : Type) (Reply : Op → Type) where
  issues : Trace Op Reply → Op → Prop
  relies : Trace Op Reply → (op : Op) → Reply op → Prop := fun _ _ _ => True

variable {Op : Type} {Reply : Op → Type} {α β : Type}

namespace Prog

def bind : Prog Op Reply α → (α → Prog Op Reply β) → Prog Op Reply β
  | .pure a, f => f a
  | .call op next, f => .call op fun r => (next r).bind f

instance : Monad (Prog Op Reply) where
  pure := .pure
  bind := bind

def perform (op : Op) : Prog Op Reply (Reply op) := .call op .pure

/-- The result of a program that has come to its end. -/
def result? : Prog Op Reply α → Option α
  | .pure a => some a
  | .call _ _ => none

/-- From a trace on, a program keeps to a protocol, and `Q` holds when it returns. -/
def Keeps (P : Protocol Op Reply) (Q : Trace Op Reply → α → Prop) :
    Trace Op Reply → Prog Op Reply α → Prop
  | trace, .pure a => Q trace a
  | trace, .call op next => P.issues trace op ∧
      ∀ r, P.relies trace op r → (next r).Keeps P Q (⟨op, r⟩ :: trace)

section Keeps

variable {P : Protocol Op Reply} {Q Q' : Trace Op Reply → α → Prop} {trace : Trace Op Reply}

@[simp] theorem keeps_pure {a : α} :
    (Pure.pure a : Prog Op Reply α).Keeps P Q trace ↔ Q trace a := Iff.rfl

@[simp] theorem keeps_perform {op : Op} {Q : Trace Op Reply → Reply op → Prop} :
    (perform op).Keeps P Q trace ↔
      P.issues trace op ∧ ∀ r, P.relies trace op r → Q (⟨op, r⟩ :: trace) r := Iff.rfl

@[simp] theorem keeps_bind {Q : Trace Op Reply → β → Prop} {x : Prog Op Reply α}
    {f : α → Prog Op Reply β} :
    (x >>= f).Keeps P Q trace ↔ x.Keeps P (fun t a => (f a).Keeps P Q t) trace := by
  induction x generalizing trace with
  | pure a => rfl
  | call op next ih => exact and_congr_right fun _ => forall₂_congr fun r _ => ih r

theorem Keeps.mono {x : Prog Op Reply α} (h : x.Keeps P Q trace) (hQ : ∀ t a, Q t a → Q' t a) :
    x.Keeps P Q' trace := by
  induction x generalizing trace with
  | pure a => exact hQ trace a h
  | call op next ih => exact ⟨h.1, fun r hr => ih r (h.2 r hr)⟩

/-- A protocol that admits more and relies on more is kept as well. -/
theorem Keeps.weaken {P' : Protocol Op Reply} {x : Prog Op Reply α} (h : x.Keeps P Q trace)
    (hissues : ∀ t op, P.issues t op → P'.issues t op)
    (hrelies : ∀ t op r, P'.relies t op r → P.relies t op r) : x.Keeps P' Q trace := by
  induction x generalizing trace with
  | pure a => exact h
  | call op next ih =>
    exact ⟨hissues trace op h.1, fun r hr => ih r (h.2 r (hrelies trace op r hr))⟩

theorem keeps_of_forall (hissues : ∀ t op, P.issues t op) (hQ : ∀ t a, Q t a)
    (x : Prog Op Reply α) : x.Keeps P Q trace := by
  induction x generalizing trace with
  | pure a => exact hQ trace a
  | call op next ih => exact ⟨hissues trace op, fun r _ => ih r⟩

end Keeps

end Prog

/-! ## Operations that may fail -/

section Attempts

variable {ε : Type} {Value : Op → Type}

/-- Programs that break off at an error, over operations that may fail. -/
abbrev Attempts (Op : Type) (ε : Type) (Value : Op → Type) :=
  ExceptT ε (Prog Op fun op => Except ε (Value op))

/-- Perform an operation and break off if it fails. -/
def attempt (op : Op) : Attempts Op ε Value (Value op) := ExceptT.mk (Prog.perform op)

/-- Perform an operation and go on whether or not it fails. -/
def observe (op : Op) : Attempts Op ε Value (Except ε (Value op)) :=
  ExceptT.lift (Prog.perform op)

/-- A result that is there without an operation. -/
def settled (r : Except ε α) : Attempts Op ε Value α := ExceptT.mk (Pure.pure r)

variable {P : Protocol Op fun op => Except ε (Value op)}
  {trace : Trace Op fun op => Except ε (Value op)}

@[simp] theorem keeps_settled {r : Except ε α}
    {Q : Trace Op (fun op => Except ε (Value op)) → Except ε α → Prop} :
    (settled r : Attempts Op ε Value α).run.Keeps P Q trace ↔ Q trace r := Iff.rfl

@[simp] theorem keeps_attempt {op : Op}
    {Q : Trace Op (fun op => Except ε (Value op)) → Except ε (Value op) → Prop} :
    (attempt op : Attempts Op ε Value _).run.Keeps P Q trace ↔
      P.issues trace op ∧ ∀ r, P.relies trace op r → Q (⟨op, r⟩ :: trace) r := Iff.rfl

@[simp] theorem keeps_observe {op : Op}
    {Q : Trace Op (fun op => Except ε (Value op)) → Except ε (Except ε (Value op)) → Prop} :
    (observe op : Attempts Op ε Value _).run.Keeps P Q trace ↔
      P.issues trace op ∧ ∀ r, P.relies trace op r → Q (⟨op, r⟩ :: trace) (.ok r) := Iff.rfl

@[simp] theorem keeps_throw {e : ε}
    {Q : Trace Op (fun op => Except ε (Value op)) → Except ε α → Prop} :
    (throw e : Attempts Op ε Value α).run.Keeps P Q trace ↔ Q trace (.error e) := Iff.rfl

@[simp] theorem keeps_return {a : α}
    {Q : Trace Op (fun op => Except ε (Value op)) → Except ε α → Prop} :
    (pure a : Attempts Op ε Value α).run.Keeps P Q trace ↔ Q trace (.ok a) := Iff.rfl

/-- A sequence keeps to a protocol if what follows does whenever the first part succeeds. -/
@[simp] theorem keeps_sequence {x : Attempts Op ε Value α} {f : α → Attempts Op ε Value β}
    {Q : Trace Op (fun op => Except ε (Value op)) → Except ε β → Prop} :
    (x >>= f).run.Keeps P Q trace ↔ x.run.Keeps P (fun t r => match r with
      | .ok a => (f a).run.Keeps P Q t
      | .error e => Q t (.error e)) trace := by
  rw [ExceptT.run_bind, Prog.keeps_bind]
  constructor
  · refine fun h => h.mono fun t r hr => ?_
    cases r <;> exact hr
  · refine fun h => h.mono fun t r hr => ?_
    cases r <;> exact hr

/-- Where everything is admitted and nothing is asked of failures, only what follows counts. -/
theorem keeps_sequence_of_forall {x : Attempts Op ε Value α} {f : α → Attempts Op ε Value β}
    {Q : Trace Op (fun op => Except ε (Value op)) → Except ε β → Prop}
    (hissues : ∀ t op, P.issues t op) (herror : ∀ t e, Q t (.error e))
    (hf : ∀ a t, (f a).run.Keeps P Q t) : (x >>= f).run.Keeps P Q trace := by
  rw [keeps_sequence]
  refine Prog.keeps_of_forall hissues (fun t r => ?_) x.run
  cases r with
  | ok a => exact hf a t
  | error e => exact herror t e

theorem keeps_tryCatch {x : Attempts Op ε Value α} {handle : ε → Attempts Op ε Value α}
    {Q : Trace Op (fun op => Except ε (Value op)) → Except ε α → Prop} :
    (tryCatch x handle).run.Keeps P Q trace ↔ x.run.Keeps P (fun t r => match r with
      | .ok a => Q t (.ok a)
      | .error e => (handle e).run.Keeps P Q t) trace := by
  have hrun : (tryCatch x handle).run = (x.run >>= fun r => match r with
    | .ok a => Pure.pure (Except.ok a)
    | .error e => (handle e).run) :=
    congrArg (x.run >>= ·) (funext fun r => by cases r <;> rfl)
  rw [hrun, Prog.keeps_bind]
  constructor
  · refine fun h => h.mono fun t r hr => ?_
    cases r <;> exact hr
  · refine fun h => h.mono fun t r hr => ?_
    cases r <;> exact hr

theorem keeps_then_return {x : Attempts Op ε Value α} {f : α → β}
    {Q : Trace Op (fun op => Except ε (Value op)) → Prop}
    (h : x.run.Keeps P (fun t _ => Q t) trace) :
    (x >>= fun a => pure (f a)).run.Keeps P (fun t _ => Q t) trace := by
  rw [keeps_sequence]
  refine h.mono fun t r ht => ?_
  cases r <;> exact ht

theorem keeps_ite {c : Prop} [Decidable c] {x y : Attempts Op ε Value α}
    {Q : Trace Op (fun op => Except ε (Value op)) → Except ε α → Prop}
    (hpos : c → x.run.Keeps P Q trace) (hneg : ¬ c → y.run.Keeps P Q trace) :
    (if c then x else y).run.Keeps P Q trace := by
  by_cases h : c
  · rw [if_pos h]
    exact hpos h
  · rw [if_neg h]
    exact hneg h

theorem keeps_attempt_then {op : Op} {f : Value op → Attempts Op ε Value β}
    {Q : Trace Op (fun op => Except ε (Value op)) → Except ε β → Prop} (hissues : P.issues trace op)
    (herror : ∀ e, P.relies trace op (.error e) → Q (⟨op, .error e⟩ :: trace) (.error e))
    (hok : ∀ v, P.relies trace op (.ok v) → (f v).run.Keeps P Q (⟨op, .ok v⟩ :: trace)) :
    (attempt op >>= f).run.Keeps P Q trace := by
  rw [keeps_sequence, keeps_attempt]
  refine ⟨hissues, fun r hr => ?_⟩
  cases r with
  | ok v => exact hok v hr
  | error e => exact herror e hr

theorem keeps_observe_then {op : Op} {f : Except ε (Value op) → Attempts Op ε Value β}
    {Q : Trace Op (fun op => Except ε (Value op)) → Except ε β → Prop} (hissues : P.issues trace op)
    (h : ∀ r, P.relies trace op r → (f r).run.Keeps P Q (⟨op, r⟩ :: trace)) :
    (observe op >>= f).run.Keeps P Q trace := by
  rw [keeps_sequence, keeps_observe]
  exact ⟨hissues, h⟩

/-! ### Conditions on traces that persist -/

/-- From a trace that satisfies a condition on, a program keeps to a protocol, and the
condition holds when it returns. -/
def Conforms (P : Protocol Op fun op => Except ε (Value op))
    (I : Trace Op (fun op => Except ε (Value op)) → Prop) (x : Attempts Op ε Value α) : Prop :=
  ∀ trace, I trace → x.run.Keeps P (fun t _ => I t) trace

namespace Conforms

variable {I : Trace Op (fun op => Except ε (Value op)) → Prop}

theorem pure {a : α} : Conforms P I (pure a) := fun _ h => h

theorem throw {e : ε} : Conforms P I (throw e : Attempts Op ε Value α) := fun _ h => h

theorem settled {r : Except ε α} : Conforms P I (settled r) := fun _ h => h

theorem attempt {op : Op} (hissues : ∀ t, I t → P.issues t op)
    (hI : ∀ t r, I t → I (⟨op, r⟩ :: t)) : Conforms P I (attempt op) :=
  fun t h => ⟨hissues t h, fun r _ => hI t r h⟩

theorem bind {x : Attempts Op ε Value α} {f : α → Attempts Op ε Value β} (hx : Conforms P I x)
    (hf : ∀ a, Conforms P I (f a)) : Conforms P I (x >>= f) := by
  intro trace htrace
  rw [keeps_sequence]
  refine (hx trace htrace).mono fun t r ht => ?_
  cases r with
  | ok a => exact hf a t ht
  | error e => exact ht

theorem observe {op : Op} {f : Except ε (Value op) → Attempts Op ε Value β}
    (hissues : ∀ t, I t → P.issues t op) (hI : ∀ t r, I t → I (⟨op, r⟩ :: t))
    (hf : ∀ r, (∃ t, P.relies t op r) → Conforms P I (f r)) : Conforms P I (observe op >>= f) :=
  fun t h => keeps_observe_then (hissues t h) fun r hr => hf r ⟨t, hr⟩ _ (hI t r h)

theorem settled_then {a : α} {f : α → Attempts Op ε Value β} (hf : Conforms P I (f a)) :
    Conforms P I (Interleaving.settled (.ok a) >>= f) := hf

theorem ite {c : Prop} [Decidable c] {x y : Attempts Op ε Value α} (hx : c → Conforms P I x)
    (hy : ¬ c → Conforms P I y) : Conforms P I (if c then x else y) :=
  fun t h => keeps_ite (fun hc => hx hc t h) fun hc => hy hc t h

theorem tryCatch {x : Attempts Op ε Value α} {handle : ε → Attempts Op ε Value α}
    (hx : Conforms P I x) (hhandle : ∀ e, Conforms P I (handle e)) :
    Conforms P I (tryCatch x handle) := by
  intro trace htrace
  rw [keeps_tryCatch]
  refine (hx trace htrace).mono fun t r ht => ?_
  cases r with
  | ok a => exact ht
  | error e => exact hhandle e t ht

theorem step {op : Op} (hissues : ∀ t, P.issues t op) :
    Conforms P (fun _ => True) (Interleaving.attempt op) :=
  attempt (fun t _ => hissues t) fun _ _ _ => trivial

theorem look {op : Op} {f : Except ε (Value op) → Attempts Op ε Value β}
    (hissues : ∀ t, P.issues t op)
    (hf : ∀ r, (∃ t, P.relies t op r) → Conforms P (fun _ => True) (f r)) :
    Conforms P (fun _ => True) (Interleaving.observe op >>= f) :=
  observe (fun t _ => hissues t) (fun _ _ _ => trivial) hf

end Conforms

end Attempts

end WorkspaceAuthz.Interleaving
