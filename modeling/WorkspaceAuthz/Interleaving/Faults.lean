import WorkspaceAuthz.Interleaving.Programs

/-! # Operations that go wrong

An operation may fail without effect, it may take effect and be reported as failed,
and the process may stop after it. An invariant that relates the state to the trace
of a program is preserved by a run with such faults if it is by each operation,
whichever of the faults that are admitted befalls it.
-/
namespace WorkspaceAuthz.Interleaving

inductive Fault (ε : Type) where
  | none
  /-- The operation fails and changes nothing. -/
  | refused (e : ε)
  /-- The operation takes effect and is reported as failed. -/
  | misreported (e : ε)
  /-- The process stops after the operation. -/
  | stops

variable {Op ε α σ ω : Type} {Value : Op → Type}

section Definitions

variable (exec : ω → (op : Op) → σ → Except ε (Value op) × σ)

/-- The reply to an operation that a fault befalls, if the process sees one, and the state. -/
def strike (env : ω) (op : Op) (s : σ) : Fault ε → Option (Except ε (Value op)) × σ
  | .none => (some (exec env op s).1, (exec env op s).2)
  | .refused e => (some (.error e), s)
  | .misreported e => (some (.error e), (exec env op s).2)
  | .stops => (none, (exec env op s).2)

/-- A run with faults that are admitted, and its result if the process does not stop. -/
inductive FaultyRuns (admits : Op → Fault ε → Prop) :
    Prog Op (fun op => Except ε (Value op)) α → σ → Option α → σ → Prop
  | pure (a : α) (s : σ) : FaultyRuns admits (.pure a) s (some a) s
  | reply {op next s r s' a s''} (env : ω) (f : Fault ε) : admits op f →
      strike exec env op s f = (some r, s') → FaultyRuns admits (next r) s' a s'' →
      FaultyRuns admits (.call op next) s a s''
  | stop {op next s s'} (env : ω) (f : Fault ε) : admits op f →
      strike exec env op s f = (none, s') → FaultyRuns admits (.call op next) s none s'

/-- Result and state in an environment that stays the same, with a fault for each of the first
operations. -/
def Prog.suffer (env : ω) :
    List (Fault ε) → Prog Op (fun op => Except ε (Value op)) α → σ → Option α × σ
  | _, .pure a, s => (some a, s)
  | faults, .call op next, s =>
    match strike exec env op s (faults.headD .none) with
    | (some r, s') => (next r).suffer env faults.tail s'
    | (none, s') => (none, s')

end Definitions

section Runs

variable {exec : ω → (op : Op) → σ → Except ε (Value op) × σ} {admits : Op → Fault ε → Prop}
  {x : Prog Op (fun op => Except ε (Value op)) α} {s s' : σ} {a : Option α}

theorem faultyRuns_suffer (env : ω) (faults : List (Fault ε)) (s : σ)
    (hnone : ∀ op, admits op .none) (hfaults : ∀ op, ∀ f ∈ faults, admits op f) :
    FaultyRuns exec admits x s (x.suffer exec env faults s).1 (x.suffer exec env faults s).2 := by
  induction x generalizing faults s with
  | pure a => exact .pure a s
  | call op next ih =>
    have hadmits : admits op (faults.headD .none) := by
      cases faults with
      | nil => exact hnone op
      | cons f faults => exact hfaults op f List.mem_cons_self
    have htail : ∀ op, ∀ f ∈ faults.tail, admits op f := fun op f hf =>
      hfaults op f (List.mem_of_mem_tail hf)
    rw [Prog.suffer]
    cases hstrike : strike exec env op s (faults.headD .none) with
    | mk r s' =>
      cases r with
      | some r => exact .reply env _ hadmits hstrike (ih r faults.tail s' htail)
      | none => exact .stop env _ hadmits hstrike

/-- What each operation preserves under the faults admitted, a program that keeps to a protocol
preserves. -/
theorem FaultyRuns.of_keeps {P : Protocol Op fun op => Except ε (Value op)}
    {Q : Trace Op (fun op => Except ε (Value op)) → α → Prop}
    {Inv : σ → Trace Op (fun op => Except ε (Value op)) → Prop} {Stopped : σ → Prop}
    {trace : Trace Op fun op => Except ε (Value op)}
    (hreply : ∀ env f s trace op r s', Inv s trace → P.issues trace op → admits op f →
      strike exec env op s f = (some r, s') → P.relies trace op r ∧ Inv s' (⟨op, r⟩ :: trace))
    (hstop : ∀ env f s trace op s', Inv s trace → P.issues trace op → admits op f →
      strike exec env op s f = (none, s') → Stopped s')
    (h : FaultyRuns exec admits x s a s') (hx : x.Keeps P Q trace) (hs : Inv s trace) :
    (∀ b, a = some b → ∃ t, Inv s' t ∧ Q t b) ∧ (a = none → Stopped s') := by
  induction h generalizing trace with
  | pure b s =>
    refine ⟨?_, nofun⟩
    rintro _ ⟨⟩
    exact ⟨trace, hs, hx⟩
  | reply env f hf hstrike _ ih =>
    obtain ⟨hrelies, hinv⟩ := hreply env f _ trace _ _ _ hs hx.1 hf hstrike
    exact ih (hx.2 _ hrelies) hinv
  | stop env f hf hstrike =>
    exact ⟨nofun, fun _ => hstop env f _ trace _ _ hs hx.1 hf hstrike⟩

end Runs

end WorkspaceAuthz.Interleaving
