import WorkspaceAuthz.Interleaving.Programs
import Mathlib.Data.List.Forall2
import Mathlib.Data.Nat.Notation
import Mathlib.Logic.Relation

/-! # Interleaved runs

Any number of processes run programs against one shared state; every operation
is atomic, and a process may stay where it is forever. An invariant of all runs
relates the state to the traces of the processes; it has to be preserved by the
operations that the protocol admits.
-/
namespace WorkspaceAuthz.Interleaving

variable {Op : Type} {Reply : Op → Type} {α σ ω : Type}

/-- What remains to be run, after a trace. -/
structure Process (Op : Type) (Reply : Op → Type) (α : Type) where
  trace : Trace Op Reply := []
  prog : Prog Op Reply α

structure Config (σ : Type) (Op : Type) (Reply : Op → Type) (α : Type) where
  state : σ
  processes : List (Process Op Reply α)

namespace Config

/-- All programs are about to begin. -/
def start (state : σ) (programs : List (Prog Op Reply α)) : Config σ Op Reply α :=
  ⟨state, programs.map fun prog => { prog }⟩

def spawn (c : Config σ Op Reply α) (programs : List (Prog Op Reply α)) : Config σ Op Reply α :=
  ⟨c.state, c.processes ++ (start c.state programs).processes⟩

def traces (c : Config σ Op Reply α) : List (Trace Op Reply) := c.processes.map (·.trace)

def Finished (c : Config σ Op Reply α) : Prop := ∀ p ∈ c.processes, p.prog.result?.isSome

instance (c : Config σ Op Reply α) : Decidable c.Finished :=
  inferInstanceAs (Decidable (∀ p ∈ c.processes, p.prog.result?.isSome))

/-- What the process at `i` has returned. -/
def result? (c : Config σ Op Reply α) (i : ℕ) : Option α := c.processes[i]?.bind (·.prog.result?)

theorem Finished.result?_isSome {c : Config σ Op Reply α} (h : c.Finished) {i : ℕ}
    (hi : i < c.processes.length) : (c.result? i).isSome := by
  rw [result?, List.getElem?_eq_getElem hi, Option.bind_some]
  exact h _ (List.getElem_mem hi)

end Config

section Steps

variable (exec : ω → (op : Op) → σ → Reply op × σ)

/-- A condition on the operation that a process is about to perform: on the state, on the
traces of the other processes, on its own trace and on the operation. -/
abbrev Guard (σ : Type) (Op : Type) (Reply : Op → Type) :=
  σ → List (Trace Op Reply) → Trace Op Reply → Op → Prop

/-- One process performs its next operation, which meets `guard`; the environment may
have a say in the reply. -/
inductive Step (guard : Guard σ Op Reply) : Config σ Op Reply α → Config σ Op Reply α → Prop
  | perform {s before trace op next after} (env : ω) :
      guard s ((before ++ after).map (·.trace)) trace op →
      Step guard ⟨s, before ++ ⟨trace, .call op next⟩ :: after⟩
        ⟨(exec env op s).2, before ++
          ⟨⟨op, (exec env op s).1⟩ :: trace, next (exec env op s).1⟩ :: after⟩

/-- Some run whose steps all meet `guard` leads from one configuration to the other. -/
def Reaches (guard : Guard σ Op Reply) : Config σ Op Reply α → Config σ Op Reply α → Prop :=
  Relation.ReflTransGen (Step exec guard)

end Steps

section Invariants

variable {exec : ω → (op : Op) → σ → Reply op × σ} {guard : Guard σ Op Reply} {ι : Type}
  {P : ι → Protocol Op Reply} {Q : ι → Trace Op Reply → α → Prop} {labels : List ι}
  {c c' : Config σ Op Reply α}

/-- An invariant, with every process keeping to the protocol of its label. -/
structure Config.Upholds (P : ι → Protocol Op Reply) (Q : ι → Trace Op Reply → α → Prop)
    (Inv : σ → List (ι × Trace Op Reply) → Prop) (labels : List ι)
    (c : Config σ Op Reply α) : Prop where
  inv : Inv c.state (labels.zip c.traces)
  keeps : List.Forall₂ (fun i p => p.prog.Keeps (P i) (Q i) p.trace) labels c.processes

/-- What the operations preserve that the protocols admit, all runs preserve. -/
theorem Reaches.upholds {Inv : σ → List (ι × Trace Op Reply) → Prop}
    (hstep : ∀ env s before i trace after op, Inv s (before ++ (i, trace) :: after) →
      (P i).issues trace op → guard s ((before ++ after).map Prod.snd) trace op →
        (P i).relies trace op (exec env op s).1 ∧
        Inv (exec env op s).2 (before ++ (i, ⟨op, (exec env op s).1⟩ :: trace) :: after))
    (h : Reaches exec guard c c') (hc : c.Upholds P Q Inv labels) : c'.Upholds P Q Inv labels := by
  induction h with
  | refl => exact hc
  | tail _ hlast ih =>
    cases hlast with
    | @perform s before trace op next after env hguard =>
      obtain ⟨hinv, hkeeps⟩ := ih
      obtain ⟨is, js, rfl, his, hjs⟩ : ∃ is js, labels = is ++ js ∧
          List.Forall₂ (fun i p => p.prog.Keeps (P i) (Q i) p.trace) is before ∧
          List.Forall₂ (fun i p => p.prog.Keeps (P i) (Q i) p.trace) js
            (⟨trace, .call op next⟩ :: after) :=
        ⟨_, _, (List.take_append_drop before.length labels).symm,
          List.forall₂_take_append _ _ _ hkeeps, List.forall₂_drop_append _ _ _ hkeeps⟩
      cases hjs with
      | @cons i _ is' _ hi hafter =>
        have hbefore : is.length = (before.map (·.trace)).length := by simp [his.length_eq]
        have hlen : is'.length = (after.map (·.trace)).length := by simp [hafter.length_eq]
        simp only [Config.traces, List.map_append, List.map_cons, List.zip_append hbefore,
          List.zip_cons_cons] at hinv
        have hothers : (is.zip (before.map (·.trace)) ++ is'.zip (after.map (·.trace))).map Prod.snd
            = (before ++ after).map (·.trace) := by
          rw [List.map_append, List.map_append, List.map_snd_zip (Nat.le_of_eq hbefore.symm),
            List.map_snd_zip (Nat.le_of_eq hlen.symm)]
        obtain ⟨hrelies, hinv'⟩ := hstep env s _ i trace _ op hinv hi.1 (hothers ▸ hguard)
        refine ⟨?_, List.rel_append his (.cons (hi.2 _ hrelies) hafter)⟩
        simpa only [Config.traces, List.map_append, List.map_cons, List.zip_append hbefore,
          List.zip_cons_cons] using hinv'

/-- What every operation preserves, whoever performs it, all runs preserve. -/
theorem Reaches.invariant {Inv : σ → Prop}
    (hstep : ∀ env s op, Inv s → Inv (exec env op s).2) (h : Reaches exec guard c c')
    (hc : Inv c.state) : Inv c'.state := by
  induction h with
  | refl => exact hc
  | tail _ hlast ih =>
    cases hlast with
    | perform env _ => exact hstep env _ _ ih

theorem Config.zip_traces_start (s : σ) (program : ι → Prog Op Reply α) (labels : List ι) :
    labels.zip (Config.start s (labels.map program)).traces = labels.map fun i => (i, []) := by
  induction labels with
  | nil => rfl
  | cons i labels ih => exact congrArg _ ih

theorem Config.upholds_start_of_labels {Inv : σ → List (ι × Trace Op Reply) → Prop} {s : σ}
    {program : ι → Prog Op Reply α} (hinv : Inv s (labels.map fun i => (i, [])))
    (hkeeps : ∀ i ∈ labels, (program i).Keeps (P i) (Q i) []) :
    (Config.start s (labels.map program)).Upholds P Q Inv labels := by
  refine ⟨Config.zip_traces_start s program labels ▸ hinv, ?_⟩
  simp only [Config.start, List.map_map, List.forall₂_map_right_iff]
  exact List.forall₂_same.mpr hkeeps

theorem Config.upholds_start {Inv : σ → List (ι × Trace Op Reply) → Prop} {s : σ}
    {program : ι → Prog Op Reply α} (hinv : ∀ ts, (∀ t ∈ ts, t.2 = []) → Inv s ts)
    (hkeeps : ∀ i ∈ labels, (program i).Keeps (P i) (Q i) []) :
    (Config.start s (labels.map program)).Upholds P Q Inv labels := by
  refine Config.upholds_start_of_labels (hinv _ fun t ht => ?_) hkeeps
  obtain ⟨i, -, rfl⟩ := List.mem_map.mp ht
  rfl

theorem Config.Upholds.spawn {Inv Inv' : σ → List (ι × Trace Op Reply) → Prop} {labels' : List ι}
    {program : ι → Prog Op Reply α} (h : c.Upholds P Q Inv labels)
    (hinv : Inv' c.state (labels.zip c.traces ++ labels'.map fun i => (i, [])))
    (hkeeps : ∀ i ∈ labels', (program i).Keeps (P i) (Q i) []) :
    (c.spawn (labels'.map program)).Upholds P Q Inv' (labels ++ labels') := by
  have hlen : labels.length = c.traces.length := by simp [Config.traces, h.keeps.length_eq]
  have hstart : labels'.zip (Config.start c.state (labels'.map program)).traces = _ :=
    Config.zip_traces_start c.state program labels'
  constructor
  · have htraces : (c.spawn (labels'.map program)).traces =
        c.traces ++ (Config.start c.state (labels'.map program)).traces := List.map_append
    rw [htraces, List.zip_append hlen, hstart]
    exact hinv
  · refine List.rel_append h.keeps ?_
    simp only [Config.start, List.map_map, List.forall₂_map_right_iff]
    exact List.forall₂_same.mpr hkeeps

theorem Reaches.trans {c₁ c₂ c₃ : Config σ Op Reply α} (h : Reaches exec guard c₁ c₂)
    (h' : Reaches exec guard c₂ c₃) : Reaches exec guard c₁ c₃ :=
  Relation.ReflTransGen.trans h h'

theorem Config.Upholds.map_snd_zip {Inv : σ → List (ι × Trace Op Reply) → Prop}
    (h : c.Upholds P Q Inv labels) : (labels.zip c.traces).map Prod.snd = c.traces := by
  apply List.map_snd_zip
  simp [Config.traces, h.keeps.length_eq]

theorem Config.Upholds.of_finished {Inv : σ → List (ι × Trace Op Reply) → Prop}
    (h : c.Upholds P Q Inv labels) (hfinished : c.Finished) {i : ι} {t : Trace Op Reply}
    (ht : (i, t) ∈ labels.zip c.traces) : ∃ a, Q i t a := by
  rw [Config.traces, List.zip_map_right, List.mem_map] at ht
  obtain ⟨⟨i, ⟨trace, prog⟩⟩, hp, heq⟩ := ht
  cases heq
  have hkeeps := (List.forall₂_iff_zip.mp h.keeps).2 hp
  have hsome := hfinished _ (List.of_mem_zip hp).2
  cases prog with
  | pure a => exact ⟨a, hkeeps⟩
  | call op next => cases hsome

theorem Config.Upholds.of_result {Inv : σ → List (ι × Trace Op Reply) → Prop}
    (h : c.Upholds P Q Inv labels) {n : ℕ} {i : ι} {a : α} (hi : labels[n]? = some i)
    (ha : c.result? n = some a) : ∃ t, (i, t) ∈ labels.zip c.traces ∧ Q i t a := by
  obtain ⟨⟨trace, prog⟩, hp, hprog⟩ := Option.bind_eq_some_iff.mp ha
  have hmem : (i, ⟨trace, prog⟩) ∈ labels.zip c.processes :=
    List.mem_of_getElem? (List.getElem?_zip_eq_some.mpr ⟨hi, hp⟩)
  have hkeeps := (List.forall₂_iff_zip.mp h.keeps).2 hmem
  refine ⟨trace, ?_, ?_⟩
  · rw [Config.traces, List.zip_map_right]
    exact List.mem_map.mpr ⟨_, hmem, rfl⟩
  · cases prog with
    | pure b =>
      obtain rfl := Option.some.inj hprog
      exact hkeeps
    | call op next => cases hprog

/-- What a program returns that begins in a state with an invariant which no operation breaks,
whatever the others do. -/
theorem Reaches.result_of_spawn {R : Protocol Op Reply} {Q : α → Prop} {Inv : σ → Prop}
    {x : Prog Op Reply α} {others : List (Prog Op Reply α)} {a : α}
    (hstep : ∀ env s trace op, Inv s →
      R.relies trace op (exec env op s).1 ∧ Inv (exec env op s).2)
    (hc : Inv c.state) (hx : x.Keeps R (fun _ => Q) [])
    (h : Reaches exec guard (c.spawn (x :: others)) c')
    (ha : c'.result? c.processes.length = some a) : Q a := by
  let P (one : Bool) : Protocol Op Reply := if one then R else ⟨fun _ _ => True, fun _ _ _ => True⟩
  have hany : ∀ l : List (Process Op Reply α), List.Forall₂ (fun one p => p.prog.Keeps (P one)
      (fun _ a => one → Q a) p.trace) (l.map fun _ => false) l := by
    intro l
    rw [List.forall₂_map_left_iff]
    refine List.forall₂_same.mpr fun p _ => ?_
    exact Prog.keeps_of_forall (fun _ _ => trivial) (fun _ _ => nofun) p.prog
  have hstart : (c.spawn (x :: others)).Upholds P (fun one _ a => one → Q a) (fun s _ => Inv s)
      (c.processes.map (fun _ => false) ++
        true :: (Config.start c.state others).processes.map fun _ => false) :=
    ⟨hc, List.rel_append (hany _) (.cons (hx.mono fun _ _ hQ _ => hQ) (hany _))⟩
  have hend := h.upholds (fun env s before one trace after op hinv _ _ => by
    obtain ⟨hrelies, hnext⟩ := hstep env s trace op hinv
    cases one with
    | true => exact ⟨hrelies, hnext⟩
    | false => exact ⟨trivial, hnext⟩) hstart
  obtain ⟨t, -, hQ⟩ := hend.of_result (i := true) (by simp) ha
  exact hQ rfl

/-- What holds of all holds again after one has made a step, if it does of the one and of the
others. -/
theorem forall_mem_of_step {ι Tr : Type} {before after : List (ι × Tr)} {i : ι} {t' : Tr}
    {J : ι × Tr → Prop} (hone : J (i, t')) (hothers : ∀ y ∈ before ++ after, J y) :
    ∀ x ∈ before ++ (i, t') :: after, J x := by
  intro x hx
  rcases List.mem_append.mp hx with hx | hx
  · exact hothers x (List.mem_append_left _ hx)
  · rcases List.mem_cons.mp hx with rfl | hx
    · exact hone
    · exact hothers x (List.mem_append_right _ hx)

theorem mem_of_mem_others {ι Tr : Type} {before after : List (ι × Tr)} {x y : ι × Tr}
    (hy : y ∈ before ++ after) : y ∈ before ++ x :: after := by
  rcases List.mem_append.mp hy with hy | hy <;> simp [hy]

/-- An exchange of some process after a step is the new one or was there before. -/
theorem exists_exchange_iff {before after : List (ι × Trace Op Reply)} {i : ι}
    {trace : Trace Op Reply} {x : Σ op, Reply op} {D : (Σ op, Reply op) → Prop} :
    (∃ t ∈ before ++ (i, x :: trace) :: after, ∃ y ∈ t.2, D y) ↔
      D x ∨ ∃ t ∈ before ++ (i, trace) :: after, ∃ y ∈ t.2, D y := by
  simp only [List.mem_append, List.mem_cons]
  grind

end Invariants

/-! ## Schedules -/

section Schedules

variable (exec : ω → (op : Op) → σ → Reply op × σ)

/-- The process at `i` performs its next operation, if it has one. -/
def Config.advance (c : Config σ Op Reply α) (i : ℕ) (env : ω) : Config σ Op Reply α :=
  match c.processes[i]? with
  | some ⟨trace, .call op next⟩ =>
    ⟨(exec env op c.state).2,
      c.processes.set i ⟨⟨op, (exec env op c.state).1⟩ :: trace, next (exec env op c.state).1⟩⟩
  | _ => c

/-- Run the processes in the order of a schedule. -/
def Config.run (c : Config σ Op Reply α) (schedule : List (ℕ × ω)) : Config σ Op Reply α :=
  schedule.foldl (fun c step => c.advance exec step.1 step.2) c

/-- The next operation of a process meets `guard`, if there is one. -/
def Process.Admits (guard : Guard σ Op Reply) (s : σ) (others : List (Trace Op Reply)) :
    Process Op Reply α → Prop
  | ⟨trace, .call op _⟩ => guard s others trace op
  | ⟨_, .pure _⟩ => True

/-- Every operation that a schedule performs meets `guard`. -/
def Config.AdmitsAll (guard : Guard σ Op Reply) :
    Config σ Op Reply α → List (ℕ × ω) → Prop
  | _, [] => True
  | c, (i, env) :: schedule =>
    (∀ p ∈ c.processes[i]?, p.Admits guard c.state ((c.processes.eraseIdx i).map (·.trace))) ∧
      (c.advance exec i env).AdmitsAll guard schedule

section Decidable

variable (guard : Guard σ Op Reply) [∀ s others t op, Decidable (guard s others t op)]

instance (s : σ) (others : List (Trace Op Reply)) : (p : Process Op Reply α) →
    Decidable (p.Admits guard s others)
  | ⟨trace, .call op _⟩ => inferInstanceAs (Decidable (guard s others trace op))
  | ⟨_, .pure _⟩ => inferInstanceAs (Decidable True)

instance decidableAdmitsAll : (c : Config σ Op Reply α) → (schedule : List (ℕ × ω)) →
    Decidable (c.AdmitsAll exec guard schedule)
  | _, [] => inferInstanceAs (Decidable True)
  | c, (i, env) :: schedule =>
    have := decidableAdmitsAll (c.advance exec i env) schedule
    inferInstanceAs (Decidable (_ ∧ _))

end Decidable

variable {guard : Guard σ Op Reply}

theorem reaches_advance (c : Config σ Op Reply α) (i : ℕ) (env : ω)
    (h : ∀ p ∈ c.processes[i]?,
      p.Admits guard c.state ((c.processes.eraseIdx i).map (·.trace))) :
    Reaches exec guard c (c.advance exec i env) := by
  unfold Config.advance
  split
  · rename_i trace op next hi
    obtain ⟨hlt, hget⟩ := List.getElem?_eq_some_iff.mp hi
    have hsplit : c.processes = c.processes.take i ++ ⟨trace, .call op next⟩ ::
        c.processes.drop (i + 1) := by
      rw [← hget, ← List.drop_eq_getElem_cons hlt, List.take_append_drop]
    have hguard : guard c.state ((c.processes.take i ++ c.processes.drop (i + 1)).map (·.trace))
        trace op := by
      rw [← List.eraseIdx_eq_take_drop_succ]
      exact h _ hi
    have hstep : Step exec guard ⟨c.state, c.processes.take i ++ ⟨trace, .call op next⟩ ::
        c.processes.drop (i + 1)⟩ ⟨(exec env op c.state).2, c.processes.take i ++
          ⟨⟨op, (exec env op c.state).1⟩ :: trace, next (exec env op c.state).1⟩ ::
            c.processes.drop (i + 1)⟩ := .perform env hguard
    rw [← hsplit] at hstep
    rw [List.set_eq_take_append_cons_drop, if_pos hlt]
    exact .single hstep
  · exact .refl

theorem reaches_run (c : Config σ Op Reply α) (schedule : List (ℕ × ω))
    (h : c.AdmitsAll exec guard schedule) : Reaches exec guard c (c.run exec schedule) := by
  induction schedule generalizing c with
  | nil => exact .refl
  | cons step schedule ih => exact (reaches_advance exec c step.1 step.2 h.1).trans (ih _ h.2)

theorem Config.admitsAll_true (c : Config σ Op Reply α) (schedule : List (ℕ × ω)) :
    c.AdmitsAll exec (fun _ _ _ _ => True) schedule := by
  induction schedule generalizing c with
  | nil => trivial
  | cons step schedule ih =>
    refine ⟨fun p _ => ?_, ih _⟩
    rcases p with ⟨trace, _ | _⟩ <;> trivial

end Schedules

end WorkspaceAuthz.Interleaving
