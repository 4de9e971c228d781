import WorkspaceAuthz.Interleaving.Runs

/-! # Programs one after the other

A program that runs alone reads what it has left itself, so that more can be said
of it than of one among others: a postcondition is pulled through the program, for
all environments, one operation after the other.
-/
namespace WorkspaceAuthz.Interleaving

variable {Op : Type} {Reply : Op → Type} {α β σ ω : Type}

section Programs

variable (exec : ω → (op : Op) → σ → Reply op × σ)

/-- A run of a program alone, with an environment for every operation. -/
inductive Runs : Prog Op Reply α → σ → α → σ → Prop
  | pure (a : α) (s : σ) : Runs (.pure a) s a s
  | call {op : Op} {next : Reply op → Prog Op Reply α} {s s' : σ} {a : α} (env : ω) :
      Runs (next (exec env op s).1) (exec env op s).2 a s' → Runs (.call op next) s a s'

/-- From a state on, `Q` holds at the end of every run. -/
def Prog.Ensures (Q : α → σ → Prop) : Prog Op Reply α → σ → Prop
  | .pure a, s => Q a s
  | .call op next, s => ∀ env, (next (exec env op s).1).Ensures Q (exec env op s).2

/-- Result and state at the end, in an environment that stays the same. -/
def Prog.outcome (env : ω) : Prog Op Reply α → σ → α × σ
  | .pure a, s => (a, s)
  | .call op next, s => (next (exec env op s).1).outcome env (exec env op s).2

variable {exec} {x : Prog Op Reply α} {Q Q' : α → σ → Prop} {s s' : σ} {a : α}

theorem Runs.of_ensures (h : Runs exec x s a s') (hQ : x.Ensures exec Q s) : Q a s' := by
  induction h with
  | pure => exact hQ
  | call env _ ih => exact ih (hQ env)

theorem Prog.Ensures.outcome {env : ω} (h : x.Ensures (fun _ : Unit => exec env) Q s) :
    Q (x.outcome exec env s).1 (x.outcome exec env s).2 := by
  induction x generalizing s with
  | pure a => exact h
  | call op next ih => exact ih _ (h ())

theorem runs_outcome (env : ω) (x : Prog Op Reply α) (s : σ) :
    Runs exec x s (x.outcome exec env s).1 (x.outcome exec env s).2 := by
  induction x generalizing s with
  | pure a => exact .pure a s
  | call op next ih => exact .call env (ih _ _)

/-- What a program does alone it does as the only process. -/
theorem Runs.reaches (h : Runs exec x s a s') (trace : Trace Op Reply) :
    ∃ t, Reaches exec (fun _ _ _ _ => True) ⟨s, [⟨trace, x⟩]⟩ ⟨s', [⟨t, .pure a⟩]⟩ := by
  induction h generalizing trace with
  | pure a s => exact ⟨trace, .refl⟩
  | @call op next s s' a env _ ih =>
    obtain ⟨t, ht⟩ := ih (⟨op, (exec env op s).1⟩ :: trace)
    have hstep : Step exec (fun _ _ _ _ => True) ⟨s, [] ++ [⟨trace, .call op next⟩]⟩
        ⟨(exec env op s).2, [] ++ [⟨⟨op, (exec env op s).1⟩ :: trace, next (exec env op s).1⟩]⟩ :=
      .perform env trivial
    exact ⟨t, .head hstep ht⟩

namespace Prog

theorem ensures_call_of_eq {op : Op} {next : Reply op → Prog Op Reply α} {r : Reply op}
    (h : ∀ env, exec env op s = (r, s')) (hnext : (next r).Ensures exec Q s') :
    (Prog.call op next).Ensures exec Q s := by
  intro env
  rw [h env]
  exact hnext

@[simp] theorem ensures_bind {f : α → Prog Op Reply β} {Q : β → σ → Prop} :
    (x >>= f).Ensures exec Q s ↔ x.Ensures exec (fun a s' => (f a).Ensures exec Q s') s := by
  induction x generalizing s with
  | pure a => rfl
  | call op next ih => exact forall_congr' fun env => ih _

theorem Ensures.mono (h : x.Ensures exec Q s) (hQ : ∀ a s', Q a s' → Q' a s') :
    x.Ensures exec Q' s := by
  induction x generalizing s with
  | pure a => exact hQ a s h
  | call op next ih => exact fun env => ih _ (h env)

/-- What the operations preserve that a protocol admits, a program preserves that keeps to it. -/
theorem Keeps.ensures {P : Protocol Op Reply} {R : Trace Op Reply → α → Prop}
    {Inv : σ → Trace Op Reply → Prop} {trace : Trace Op Reply}
    (hstep : ∀ env s trace op, Inv s trace → P.issues trace op →
      P.relies trace op (exec env op s).1 ∧
        Inv (exec env op s).2 (⟨op, (exec env op s).1⟩ :: trace))
    (h : x.Keeps P R trace) (hs : Inv s trace) :
    x.Ensures exec (fun a s' => ∃ t, Inv s' t ∧ R t a) s := by
  induction x generalizing s trace with
  | pure a => exact ⟨trace, hs, h⟩
  | call op next ih =>
    intro env
    obtain ⟨hrelies, hinv⟩ := hstep env s trace op hs h.1
    exact ih _ (h.2 _ hrelies) hinv

theorem Keeps.preserves {P : Protocol Op Reply} {R : Trace Op Reply → α → Prop} {Inv : σ → Prop}
    {trace : Trace Op Reply}
    (hstep : ∀ env s trace op, Inv s → P.issues trace op →
      P.relies trace op (exec env op s).1 ∧ Inv (exec env op s).2)
    (h : x.Keeps P R trace) (hs : Inv s) : x.Ensures exec (fun _ s' => Inv s') s := by
  have hall : x.Ensures exec (fun a s' => ∃ t, Inv s' ∧ R t a) s := h.ensures hstep hs
  refine hall.mono fun a s' hs' => ?_
  obtain ⟨-, hinv, -⟩ := hs'
  exact hinv

end Prog

variable (exec) in
/-- Some programs of a class run one after the other. -/
def Sequence (programs : Prog Op Reply α → Prop) : σ → σ → Prop :=
  Relation.ReflTransGen fun s s' => ∃ x a, programs x ∧ Runs exec x s a s'

theorem Sequence.preserves {programs : Prog Op Reply α → Prop} {Inv : σ → Prop}
    (h : Sequence exec programs s s')
    (hprograms : ∀ x s, programs x → Inv s → x.Ensures exec (fun _ s' => Inv s') s)
    (hs : Inv s) : Inv s' := by
  induction h with
  | refl => exact hs
  | tail _ hlast ih =>
    obtain ⟨x, a, hx, hrun⟩ := hlast
    exact hrun.of_ensures (hprograms x _ hx ih)

end Programs

/-! ## Operations that may fail -/

section Attempts

variable {ε : Type} {Value : Op → Type}
  {exec : ω → (op : Op) → σ → Except ε (Value op) × σ} {s : σ}

@[simp] theorem ensures_sequence {x : Attempts Op ε Value α} {f : α → Attempts Op ε Value β}
    {Q : Except ε β → σ → Prop} :
    (x >>= f).run.Ensures exec Q s ↔ x.run.Ensures exec (fun r s' => match r with
      | .ok a => (f a).run.Ensures exec Q s'
      | .error e => Q (.error e) s') s := by
  rw [ExceptT.run_bind, Prog.ensures_bind]
  constructor
  · refine fun h => h.mono fun r s' hr => ?_
    cases r <;> exact hr
  · refine fun h => h.mono fun r s' hr => ?_
    cases r <;> exact hr

theorem ensures_tryCatch {x : Attempts Op ε Value α} {handle : ε → Attempts Op ε Value α}
    {Q : Except ε α → σ → Prop} :
    (tryCatch x handle).run.Ensures exec Q s ↔ x.run.Ensures exec (fun r s' => match r with
      | .ok a => Q (.ok a) s'
      | .error e => (handle e).run.Ensures exec Q s') s := by
  have hrun : (tryCatch x handle).run = (x.run >>= fun r => match r with
    | .ok a => Pure.pure (Except.ok a)
    | .error e => (handle e).run) :=
    congrArg (x.run >>= ·) (funext fun r => by cases r <;> rfl)
  rw [hrun, Prog.ensures_bind]
  constructor
  · refine fun h => h.mono fun r s' hr => ?_
    cases r <;> exact hr
  · refine fun h => h.mono fun r s' hr => ?_
    cases r <;> exact hr

theorem ensures_ite {c : Prop} [Decidable c] {x y : Attempts Op ε Value α}
    {Q : Except ε α → σ → Prop} (hpos : c → x.run.Ensures exec Q s)
    (hneg : ¬ c → y.run.Ensures exec Q s) : (if c then x else y).run.Ensures exec Q s := by
  by_cases h : c
  · rw [if_pos h]
    exact hpos h
  · rw [if_neg h]
    exact hneg h

theorem ensures_attempt_then {op : Op} {f : Value op → Attempts Op ε Value β}
    {Q : Except ε β → σ → Prop}
    (herror : ∀ env e, (exec env op s).1 = .error e → Q (.error e) (exec env op s).2)
    (hok : ∀ env v, (exec env op s).1 = .ok v → (f v).run.Ensures exec Q (exec env op s).2) :
    (attempt op >>= f).run.Ensures exec Q s := by
  rw [ensures_sequence]
  intro env
  change Prog.Ensures exec _ (.pure (exec env op s).1) (exec env op s).2
  cases hr : (exec env op s).1 with
  | ok v => exact hok env v hr
  | error e => exact herror env e hr

theorem ensures_attempt_of_eq {op : Op} {f : Value op → Attempts Op ε Value β}
    {Q : Except ε β → σ → Prop} {v : Value op} {s' : σ} (heq : ∀ env, exec env op s = (.ok v, s'))
    (h : (f v).run.Ensures exec Q s') : (attempt op >>= f).run.Ensures exec Q s := by
  refine ensures_attempt_then (fun env e he => ?_) fun env v' hv => ?_
  · rw [heq env] at he
    cases he
  · rw [heq env] at hv ⊢
    cases hv
    exact h

theorem ensures_attempt_of_error {op : Op} {f : Value op → Attempts Op ε Value β}
    {Q : Except ε β → σ → Prop} {e : ε} {s' : σ} (heq : ∀ env, exec env op s = (.error e, s'))
    (h : Q (.error e) s') : (attempt op >>= f).run.Ensures exec Q s := by
  refine ensures_attempt_then (fun env e' he => ?_) fun env v hv => ?_
  · rw [heq env] at he ⊢
    cases he
    exact h
  · rw [heq env] at hv
    cases hv

theorem ensures_observe_then {op : Op} {f : Except ε (Value op) → Attempts Op ε Value β}
    {Q : Except ε β → σ → Prop}
    (h : ∀ env, (f (exec env op s).1).run.Ensures exec Q (exec env op s).2) :
    (observe op >>= f).run.Ensures exec Q s := by
  rw [ensures_sequence]
  exact h

end Attempts

/-! ## Two ways to serve operations -/

/-- The exchanges of operations that are performed one after the other, and the state that is
left. -/
def performAll (exec : (op : Op) → σ → Reply op × σ) : List Op → σ → Trace Op Reply × σ
  | [], s => ([], s)
  | op :: ops, s =>
    let rest := performAll exec ops (exec op s).2
    (⟨op, (exec op s).1⟩ :: rest.1, rest.2)

/-- Where every operation gets the same reply in related states and leaves related states, so does
a sequence of operations. -/
theorem performAll_simulates {τ : Type} {exec : (op : Op) → σ → Reply op × σ}
    {exec' : (op : Op) → τ → Reply op × τ} {R : σ → τ → Prop} {ops : List Op} {s : σ} {t : τ}
    (hstep : ∀ op ∈ ops, ∀ s t, R s t →
      (exec' op t).1 = (exec op s).1 ∧ R (exec op s).2 (exec' op t).2)
    (h : R s t) : (performAll exec' ops t).1 = (performAll exec ops s).1 ∧
      R (performAll exec ops s).2 (performAll exec' ops t).2 := by
  induction ops generalizing s t with
  | nil => exact ⟨rfl, h⟩
  | cons op ops ih =>
    obtain ⟨hreply, hnext⟩ := hstep op List.mem_cons_self s t h
    obtain ⟨hreplies, hend⟩ := ih (fun op' hop' => hstep op' (List.mem_cons_of_mem op hop')) hnext
    refine ⟨?_, hend⟩
    rw [performAll, performAll, hreply, hreplies]

end WorkspaceAuthz.Interleaving
