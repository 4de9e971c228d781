import Mathlib.Algebra.BigOperators.Group.Finset.Basic
import Mathlib.Data.Fintype.BigOperators
import Mathlib.Logic.Relation
import WorkspaceAuthz.Go.Channels
import WorkspaceAuthz.Go.Data

/-! # The asynchronous audit logger

Callers put records into a bounded channel and never wait; a goroutine drains the
channel to the log until it is told to quit and finds the channel empty. What is
emitted is in the order in which each caller logged it. That every record is
emitted or counted as dropped depends on the callers: one that comes to its select
after `Close` has closed `quit` may leave without a trace.
-/
namespace WorkspaceAuthz.Service
open Go

/-- A record on its way, with the caller and the number of the call that logged it. -/
structure Logged (n : ℕ) (Event : Type) where
  caller : Fin n
  number : ℕ
  event : Event
deriving DecidableEq, Repr

/-- A caller, with the records still to be logged; `counting` between the choice of
`default` and `dropped.Add(1)`. -/
structure Caller (Event : Type) where
  pending : List Event
  made : ℕ := 0
  counting : Bool := false

/-- Where `run` is: at one of its selects, the inner one after `quit`, or in `emit`. -/
inductive Drain (n : ℕ) (Event : Type) where
  | select (quitting : Bool)
  | emit (quitting : Bool) (r : Logged n Event)
  | returned

inductive Closer where
  | ready
  | waiting
  | returned
deriving DecidableEq, Repr

/-- The logger with its goroutines; a channel that is only ever closed is a flag. -/
structure Logging (n : ℕ) (Event : Type) where
  ch : Chan (Logged n Event)
  quit : Bool := false
  done : Bool := false
  dropped : ℕ := 0
  emitted : List (Logged n Event) := []
  run : Drain n Event := .select false
  callers : Fin n → Caller Event
  closer : Closer := .ready

def defaultBufferSize : ℕ := 4096

variable {n : ℕ} {Event : Type}

/-- `NewZap`, with callers that are about to log their records. -/
def newZap (bufSize : ℤ) (calls : Fin n → List Event) : Logging n Event where
  ch := .make (if bufSize ≤ 0 then defaultBufferSize else bufSize.toNat)
  callers i := { pending := calls i }

def Logging.setCaller (s : Logging n Event) (i : Fin n) (c : Caller Event) : Logging n Event :=
  { s with callers := Function.update s.callers i c }

/-- Who takes a step: a caller at the select of `enqueue`, or anybody anywhere else. -/
inductive Actor (n : ℕ) where
  | enqueue (i : Fin n)
  | other

/-- The steps; a select takes any case that is ready, and `default` if none is. -/
inductive Step : Logging n Event → Actor n → Logging n Event → Prop
  | send {s : Logging n Event} {i : Fin n} {e : Event} {rest : List Event} {made : ℕ}
      {ch : Chan (Logged n Event)} (hcall : s.callers i = ⟨e :: rest, made, false⟩)
      (hsend : s.ch.send? ⟨i, made, e⟩ = some ch) :
      Step s (.enqueue i) ({ s with ch := ch }.setCaller i ⟨rest, made + 1, false⟩)
  | quit {s : Logging n Event} {i : Fin n} {e : Event} {rest : List Event} {made : ℕ}
      (hcall : s.callers i = ⟨e :: rest, made, false⟩) (hquit : s.quit = true) :
      Step s (.enqueue i) (s.setCaller i ⟨rest, made + 1, false⟩)
  | default {s : Logging n Event} {i : Fin n} {e : Event} {rest : List Event} {made : ℕ}
      (hcall : s.callers i = ⟨e :: rest, made, false⟩)
      (hsend : s.ch.send? ⟨i, made, e⟩ = none) (hquit : s.quit = false) :
      Step s (.enqueue i) (s.setCaller i ⟨rest, made + 1, true⟩)
  | count {s : Logging n Event} {i : Fin n} {rest : List Event} {made : ℕ}
      (hcall : s.callers i = ⟨rest, made, true⟩) :
      Step s .other ({ s with dropped := s.dropped + 1 }.setCaller i ⟨rest, made, false⟩)
  | receive {s : Logging n Event} {quitting : Bool} {r : Logged n Event}
      {ch : Chan (Logged n Event)} (hrun : s.run = .select quitting)
      (hreceive : s.ch.receive? = some (r, ch)) :
      Step s .other { s with ch := ch, run := .emit quitting r }
  | emit {s : Logging n Event} {quitting : Bool} {r : Logged n Event}
      (hrun : s.run = .emit quitting r) :
      Step s .other { s with emitted := s.emitted ++ [r], run := .select quitting }
  | told {s : Logging n Event} (hrun : s.run = .select false) (hquit : s.quit = true) :
      Step s .other { s with run := .select true }
  | drained {s : Logging n Event} (hrun : s.run = .select true) (hreceive : s.ch.receive? = none) :
      Step s .other { s with run := .returned, done := true }
  | close {s : Logging n Event} (hclose : s.closer = .ready) :
      Step s .other { s with quit := true, closer := .waiting }
  | wait {s : Logging n Event} (hclose : s.closer = .waiting) (hdone : s.done = true) :
      Step s .other { s with closer := .returned }

def LogRun (guard : Logging n Event → Actor n → Prop) : Logging n Event → Logging n Event → Prop :=
  Relation.ReflTransGen fun s s' => ∃ actor, guard s actor ∧ Step s actor s'

/-- `Close` and all calls have returned. -/
def Logging.Finished (s : Logging n Event) : Prop :=
  s.closer = .returned ∧ ∀ i, (s.callers i).pending = [] ∧ (s.callers i).counting = false

/-- A caller comes to its select only while `quit` is open. -/
def BeforeClose (s : Logging n Event) : Actor n → Prop
  | .enqueue _ => s.quit = false
  | .other => True

def Drain.held : Drain n Event → List (Logged n Event)
  | .emit _ r => [r]
  | _ => []

/-- All records that were accepted, the oldest first. -/
def Logging.accepted (s : Logging n Event) : List (Logged n Event) :=
  s.emitted ++ s.run.held ++ s.ch.buffer

section Steps

variable {s s' : Logging n Event} {actor : Actor n}

theorem accepted_of_receive {quitting : Bool} {r : Logged n Event} {ch : Chan (Logged n Event)}
    (hrun : s.run = .select quitting) (hreceive : s.ch.receive? = some (r, ch)) :
    { s with ch := ch, run := .emit quitting r : Logging n Event }.accepted = s.accepted := by
  simp [Logging.accepted, Drain.held, hrun, Chan.buffer_of_receive hreceive]

theorem accepted_of_emit {quitting : Bool} {r : Logged n Event}
    (hrun : s.run = .emit quitting r) :
    { s with emitted := s.emitted ++ [r], run := .select quitting : Logging n Event }.accepted =
      s.accepted := by
  simp [Logging.accepted, Drain.held, hrun]

/-- What a step does to the records that were accepted and to the callers. -/
theorem Step.accepted_cases (h : Step s actor s') :
    (∃ i e rest made, s.callers i = ⟨e :: rest, made, false⟩ ∧
      s'.accepted = s.accepted ++ [⟨i, made, e⟩] ∧ s'.dropped = s.dropped ∧
      s'.callers = Function.update s.callers i ⟨rest, made + 1, false⟩) ∨
    (∃ i e rest made counting, s.callers i = ⟨e :: rest, made, false⟩ ∧
      (counting = false → actor = .enqueue i ∧ s.quit = true) ∧
      s'.accepted = s.accepted ∧ s'.dropped = s.dropped ∧
      s'.callers = Function.update s.callers i ⟨rest, made + 1, counting⟩) ∨
    (∃ i rest made, s.callers i = ⟨rest, made, true⟩ ∧
      s'.accepted = s.accepted ∧ s'.dropped = s.dropped + 1 ∧
      s'.callers = Function.update s.callers i ⟨rest, made, false⟩) ∨
    (s'.accepted = s.accepted ∧ s'.dropped = s.dropped ∧ s'.callers = s.callers) := by
  cases h with
  | send hcall hsend =>
    refine .inl ⟨_, _, _, _, hcall, ?_, rfl, rfl⟩
    simp [Logging.accepted, Logging.setCaller, Chan.buffer_of_send hsend]
  | quit hcall hquit =>
    exact .inr (.inl ⟨_, _, _, _, _, hcall, fun _ => ⟨rfl, hquit⟩, rfl, rfl, rfl⟩)
  | default hcall hsend hquit =>
    exact .inr (.inl ⟨_, _, _, _, _, hcall, by simp, rfl, rfl, rfl⟩)
  | count hcall => exact .inr (.inr (.inl ⟨_, _, _, hcall, rfl, rfl, rfl⟩))
  | receive hrun hreceive => exact .inr (.inr (.inr ⟨accepted_of_receive hrun hreceive, rfl, rfl⟩))
  | emit hrun => exact .inr (.inr (.inr ⟨accepted_of_emit hrun, rfl, rfl⟩))
  | told hrun hquit =>
    refine .inr (.inr (.inr ⟨?_, rfl, rfl⟩))
    simp [Logging.accepted, Drain.held, hrun]
  | drained hrun hreceive =>
    refine .inr (.inr (.inr ⟨?_, rfl, rfl⟩))
    simp [Logging.accepted, Drain.held, hrun]
  | close hclose => exact .inr (.inr (.inr ⟨rfl, rfl, rfl⟩))
  | wait hclose hdone => exact .inr (.inr (.inr ⟨rfl, rfl, rfl⟩))

end Steps

/-! ## Order -/

/-- One of two records of the same caller was logged before the other. -/
def Logged.Before (r r' : Logged n Event) : Prop := r.caller = r'.caller → r.number < r'.number

/-- How far a caller has come with the records to be logged. -/
structure Caller.Of (calls : List Event) (c : Caller Event) : Prop where
  pending : c.pending = calls.drop c.made
  made_le : c.made ≤ calls.length

/-- The records that were accepted are records of calls, and in the order of these. -/
structure Logging.Ordered (calls : Fin n → List Event) (s : Logging n Event) : Prop where
  progress : ∀ i, (s.callers i).Of (calls i)
  ordered : s.accepted.Pairwise Logged.Before
  logged : ∀ r ∈ s.accepted, r.number < (s.callers r.caller).made ∧
    (calls r.caller)[r.number]? = some r.event

section Order

variable {calls : Fin n → List Event} {s s' : Logging n Event} {actor : Actor n}

theorem Caller.Of.getElem? {l rest : List Event} {e : Event} {made : ℕ} {counting : Bool}
    (h : Caller.Of l ⟨e :: rest, made, counting⟩) : l[made]? = some e := by
  have hhead : (l.drop made)[0]? = some e := by
    rw [← h.pending]
    rfl
  rwa [List.getElem?_drop] at hhead

theorem Caller.Of.next {l rest : List Event} {e : Event} {made : ℕ} {counting : Bool}
    (h : Caller.Of l ⟨e :: rest, made, counting⟩) (counting' : Bool) :
    Caller.Of l ⟨rest, made + 1, counting'⟩ := by
  constructor
  · rw [← List.tail_drop, ← h.pending]
    rfl
  · exact (List.getElem?_eq_some_iff.mp h.getElem?).1

/-- The invariant, when a caller has gone on and nothing was accepted. -/
theorem Logging.Ordered.setCaller (h : s.Ordered calls) {i : Fin n} {c : Caller Event}
    (hc : c.Of (calls i)) (hmade : (s.callers i).made ≤ c.made)
    (haccepted : s'.accepted = s.accepted) (hcallers : s'.callers = Function.update s.callers i c) :
    s'.Ordered calls := by
  refine ⟨?_, haccepted ▸ h.ordered, fun r hr => ?_⟩
  · rw [hcallers, Function.forall_update_iff s.callers fun i c => c.Of (calls i)]
    exact ⟨hc, fun j _ => h.progress j⟩
  · rw [haccepted] at hr
    obtain ⟨hlt, hevent⟩ := h.logged r hr
    refine ⟨hlt.trans_le ?_, hevent⟩
    rw [hcallers, Function.update_apply]
    split_ifs with hi
    · rwa [hi]
    · exact le_rfl

theorem Logging.Ordered.step (h : s.Ordered calls) (hstep : Step s actor s') :
    s'.Ordered calls := by
  obtain ⟨i, e, rest, made, hcall, haccepted, -, hcallers⟩ |
    ⟨i, e, rest, made, counting, hcall, -, haccepted, -, hcallers⟩ |
    ⟨i, rest, made, hcall, haccepted, -, hcallers⟩ | ⟨haccepted, -, hcallers⟩ :=
    hstep.accepted_cases
  · have hi := h.progress i
    rw [hcall] at hi
    have hold : ∀ r ∈ s.accepted, r.number < (s'.callers r.caller).made ∧
        (calls r.caller)[r.number]? = some r.event := by
      intro r hr
      obtain ⟨hlt, hevent⟩ := h.logged r hr
      refine ⟨hlt.trans_le ?_, hevent⟩
      rw [hcallers, Function.update_apply]
      split_ifs with hri
      · simp [hri, hcall]
      · exact le_rfl
    refine ⟨?_, ?_, ?_⟩
    · rw [hcallers, Function.forall_update_iff s.callers fun i c => c.Of (calls i)]
      exact ⟨hi.next false, fun j _ => h.progress j⟩
    · rw [haccepted, List.pairwise_append]
      refine ⟨h.ordered, List.pairwise_singleton _ _, fun r hr r' hr' hcaller => ?_⟩
      rw [List.mem_singleton.mp hr'] at hcaller ⊢
      have hlt := (h.logged r hr).1
      rwa [hcaller, hcall] at hlt
    · rw [haccepted]
      intro r hr
      rcases List.mem_append.mp hr with hr | hr
      · exact hold r hr
      · rw [List.mem_singleton.mp hr, hcallers]
        exact ⟨by simp, hi.getElem?⟩
  · have hi := h.progress i
    rw [hcall] at hi
    exact h.setCaller (hi.next counting) (by simp [hcall]) haccepted hcallers
  · have hi := h.progress i
    rw [hcall] at hi
    have hcounted : Caller.Of (calls i) ⟨rest, made, false⟩ := ⟨hi.pending, hi.made_le⟩
    exact h.setCaller hcounted (by simp [hcall]) haccepted hcallers
  · refine ⟨fun i => ?_, haccepted ▸ h.ordered, ?_⟩
    · rw [hcallers]
      exact h.progress i
    · rw [haccepted, hcallers]
      exact h.logged

theorem ordered_newZap (bufSize : ℤ) (calls : Fin n → List Event) :
    (newZap bufSize calls).Ordered calls :=
  ⟨fun i => ⟨rfl, Nat.zero_le _⟩, .nil, by rintro _ ⟨⟩⟩

theorem LogRun.ordered {guard : Logging n Event → Actor n → Prop} {bufSize : ℤ}
    (h : LogRun guard (newZap bufSize calls) s) : s.Ordered calls := by
  induction h with
  | refl => exact ordered_newZap bufSize calls
  | tail _ hstep ih =>
    obtain ⟨actor, -, hstep⟩ := hstep
    exact ih.step hstep

/-- What was emitted is the beginning of what was accepted. -/
theorem Logging.Ordered.emitted (h : s.Ordered calls) : s.emitted.Pairwise Logged.Before := by
  have hsub : s.emitted.Sublist s.accepted :=
    (List.sublist_append_left _ _).trans (List.sublist_append_left _ _)
  exact h.ordered.sublist hsub

end Order

/-! ## Balance -/

/-- The goroutine has been told to quit. -/
def Drain.quitting : Drain n Event → Bool
  | .select quitting => quitting
  | .emit quitting _ => quitting
  | .returned => true

/-- Nothing is lost as long as nobody logs after `quit`. -/
structure Logging.Balanced (s : Logging n Event) : Prop where
  total : s.accepted.length + s.dropped + ∑ i, (s.callers i).counting.toNat =
    ∑ i, (s.callers i).made
  quitting : s.run.quitting = true → s.quit = true
  returned : s.run = .returned → s.ch.buffer = []
  done : s.done = true → s.run = .returned
  closed : s.closer = .returned → s.done = true

section Balance

variable {calls : Fin n → List Event} {s s' : Logging n Event} {actor : Actor n}

theorem sum_update (g : Caller Event → ℕ) (callers : Fin n → Caller Event) (i : Fin n)
    (c : Caller Event) :
    (∑ j, g (Function.update callers i c j)) + g (callers i) = (∑ j, g (callers j)) + g c := by
  rw [← Finset.add_sum_erase Finset.univ _ (Finset.mem_univ i),
    ← Finset.add_sum_erase Finset.univ (fun j => g (callers j)) (Finset.mem_univ i),
    Function.update_self]
  have hrest : ∑ j ∈ Finset.univ.erase i, g (Function.update callers i c j) =
      ∑ j ∈ Finset.univ.erase i, g (callers j) := by
    apply Finset.sum_congr rfl
    intro j hj
    rw [Function.update_of_ne (Finset.ne_of_mem_erase hj)]
  omega

theorem Logging.Balanced.total_step (h : s.Balanced) (hstep : Step s actor s')
    (hguard : BeforeClose s actor) :
    s'.accepted.length + s'.dropped + ∑ i, (s'.callers i).counting.toNat =
      ∑ i, (s'.callers i).made := by
  have htotal := h.total
  obtain ⟨i, e, rest, made, hcall, haccepted, hdropped, hcallers⟩ |
    ⟨i, e, rest, made, counting, hcall, hquit, haccepted, hdropped, hcallers⟩ |
    ⟨i, rest, made, hcall, haccepted, hdropped, hcallers⟩ | ⟨haccepted, hdropped, hcallers⟩ :=
    hstep.accepted_cases
  · have hmade := sum_update Caller.made s.callers i ⟨rest, made + 1, false⟩
    have hcount := sum_update (·.counting.toNat) s.callers i ⟨rest, made + 1, false⟩
    rw [hcall] at hmade hcount
    rw [haccepted, List.length_append, List.length_singleton, hdropped, hcallers]
    dsimp only at hmade hcount
    omega
  · cases counting with
    | false =>
      obtain ⟨rfl, hclosed⟩ := hquit rfl
      have hopen : s.quit = false := hguard
      rw [hopen] at hclosed
      cases hclosed
    | true =>
      have hmade := sum_update Caller.made s.callers i ⟨rest, made + 1, true⟩
      have hcount := sum_update (·.counting.toNat) s.callers i ⟨rest, made + 1, true⟩
      rw [hcall] at hmade hcount
      rw [haccepted, hdropped, hcallers]
      simp only [Bool.toNat_true, Bool.toNat_false] at hmade hcount
      omega
  · have hmade := sum_update Caller.made s.callers i ⟨rest, made, false⟩
    have hcount := sum_update (·.counting.toNat) s.callers i ⟨rest, made, false⟩
    rw [hcall] at hmade hcount
    rw [haccepted, hdropped, hcallers]
    simp only [Bool.toNat_true, Bool.toNat_false] at hmade hcount
    omega
  · rw [haccepted, hdropped, hcallers]
    exact htotal

theorem Logging.Balanced.step (h : s.Balanced) (hstep : Step s actor s')
    (hguard : BeforeClose s actor) : s'.Balanced := by
  refine ⟨h.total_step hstep hguard, ?_, ?_, ?_, ?_⟩
  · have hquitting := h.quitting
    cases hstep with
    | receive hrun | emit hrun | drained hrun =>
      rw [hrun] at hquitting
      exact hquitting
    | told hrun hquit => exact fun _ => hquit
    | close => exact fun _ => rfl
    | _ => exact hquitting
  · have hreturned := h.returned
    cases hstep with
    | send hcall hsend =>
      -- the goroutine returns after `quit`, when no caller comes to its select any more
      intro hrun
      have hquitting : s.run.quitting = true := by
        rw [show s.run = .returned from hrun]
        rfl
      have hquit : s.quit = true := h.quitting hquitting
      have hopen : s.quit = false := hguard
      rw [hopen] at hquit
      cases hquit
    | receive hrun | emit hrun | told hrun => rintro ⟨⟩
    | drained hrun hreceive => exact fun _ => Chan.buffer_of_receive_none hreceive
    | _ => exact hreturned
  · have hdone := h.done
    cases hstep with
    | receive hrun | emit hrun | told hrun =>
      intro hd
      cases hrun.symm.trans (hdone hd)
    | drained => exact fun _ => rfl
    | _ => exact hdone
  · have hclosed := h.closed
    cases hstep with
    | drained => exact fun _ => rfl
    | close => rintro ⟨⟩
    | wait _ hdone => exact fun _ => hdone
    | _ => exact hclosed

theorem balanced_newZap (bufSize : ℤ) (calls : Fin n → List Event) :
    (newZap bufSize calls).Balanced where
  total := by simp [Logging.accepted, newZap, Drain.held, Chan.make]
  quitting := by rintro ⟨⟩
  returned := by rintro ⟨⟩
  done := by rintro ⟨⟩
  closed := by rintro ⟨⟩

theorem LogRun.balanced {bufSize : ℤ} (h : LogRun BeforeClose (newZap bufSize calls) s) :
    s.Balanced := by
  induction h with
  | refl => exact balanced_newZap bufSize calls
  | tail _ hstep ih =>
    obtain ⟨actor, hguard, hstep⟩ := hstep
    exact ih.step hstep hguard

/-- When all is over, the channel is empty and all calls were made. -/
theorem Logging.Balanced.finished (h : s.Balanced) (hordered : s.Ordered calls)
    (hfinished : s.Finished) : s.emitted.length + s.dropped = ∑ i, (calls i).length := by
  obtain ⟨hcloser, hcallers⟩ := hfinished
  have hrun : s.run = .returned := h.done (h.closed hcloser)
  have haccepted : s.accepted = s.emitted := by
    simp [Logging.accepted, hrun, Drain.held, h.returned hrun]
  have hcounting : ∑ i, (s.callers i).counting.toNat = 0 := by
    apply Finset.sum_eq_zero
    intro i _
    rw [(hcallers i).2]
    rfl
  have hmade : ∑ i, (s.callers i).made = ∑ i, (calls i).length := by
    apply Finset.sum_congr rfl
    intro i _
    obtain ⟨hpending, hle⟩ := hordered.progress i
    rw [(hcallers i).1, eq_comm, List.drop_eq_nil_iff] at hpending
    exact hle.antisymm hpending
  have htotal := h.total
  rw [haccepted, hcounting, hmade] at htotal
  exact htotal

end Balance

/-- Records are emitted at most once and in the order of their callers in all runs. In runs
in which nobody comes to log a record after `quit` was closed, all records have been emitted
or counted when `Close` and the calls have returned. -/
theorem audit_records_accounted (bufSize : ℤ) (calls : Fin n → List Event) :
    (∀ s, LogRun (fun _ _ => True) (newZap bufSize calls) s →
      s.emitted.Nodup ∧
      (∀ r ∈ s.emitted, (calls r.caller)[r.number]? = some r.event) ∧
      s.emitted.Pairwise fun r r' => r.caller = r'.caller → r.number < r'.number) ∧
    (∀ s, LogRun BeforeClose (newZap bufSize calls) s → s.Finished →
      s.emitted.length + s.dropped = ∑ i, (calls i).length) := by
  constructor
  · intro s h
    have hordered := h.ordered.emitted
    refine ⟨hordered.imp ?_, fun r hr => (h.ordered.logged r ?_).2, hordered⟩
    · rintro r r' hbefore rfl
      exact absurd (hbefore rfl) (lt_irrefl _)
    · simp [Logging.accepted, hr]
  · intro s h hfinished
    exact h.balanced.finished h.ordered hfinished

def oneCall : Fin 1 → List GoString := fun _ => [str "grant"]

theorem logged_before_close : ∃ s, LogRun BeforeClose (newZap 1 oneCall) s ∧ s.Finished ∧
    s.emitted.length + s.dropped = 1 := by
  have hfinished : ∃ s, LogRun BeforeClose (newZap 1 oneCall) s ∧ s.Finished := by
    refine ⟨_, ((((((Relation.ReflTransGen.refl
      |>.tail ⟨.enqueue 0, rfl, .send rfl rfl⟩)
      |>.tail ⟨.other, trivial, .receive rfl rfl⟩)
      |>.tail ⟨.other, trivial, .emit rfl⟩)
      |>.tail ⟨.other, trivial, .close rfl⟩)
      |>.tail ⟨.other, trivial, .told rfl rfl⟩)
      |>.tail ⟨.other, trivial, .drained rfl rfl⟩)
      |>.tail ⟨.other, trivial, .wait rfl rfl⟩, rfl, ?_⟩
    simp [Logging.setCaller]
  obtain ⟨s, hrun, hs⟩ := hfinished
  exact ⟨s, hrun, hs, (audit_records_accounted 1 oneCall).2 s hrun hs⟩

/-- A record that is logged after `Close` has closed `quit` is neither emitted nor counted,
be it that `enqueue` sees `quit` or that the goroutine has returned already. -/
theorem logged_after_close_lost :
    (∃ s, LogRun (fun _ _ => True) (newZap 1 oneCall) s ∧ s.Finished ∧
      s.ch.buffer = [] ∧ s.emitted.length + s.dropped = 0) ∧
    (∃ s, LogRun (fun _ _ => True) (newZap 1 oneCall) s ∧ s.Finished ∧
      s.ch.buffer = [⟨0, 0, str "grant"⟩] ∧ s.emitted.length + s.dropped = 0) := by
  constructor
  · refine ⟨_, ((((Relation.ReflTransGen.refl
      |>.tail ⟨.other, trivial, .close rfl⟩)
      |>.tail ⟨.enqueue 0, trivial, .quit rfl rfl⟩)
      |>.tail ⟨.other, trivial, .told rfl rfl⟩)
      |>.tail ⟨.other, trivial, .drained rfl rfl⟩)
      |>.tail ⟨.other, trivial, .wait rfl rfl⟩, ⟨rfl, ?_⟩, rfl, rfl⟩
    simp [Logging.setCaller]
  · refine ⟨_, ((((Relation.ReflTransGen.refl
      |>.tail ⟨.other, trivial, .close rfl⟩)
      |>.tail ⟨.other, trivial, .told rfl rfl⟩)
      |>.tail ⟨.other, trivial, .drained rfl rfl⟩)
      |>.tail ⟨.enqueue 0, trivial, .send rfl rfl⟩)
      |>.tail ⟨.other, trivial, .wait rfl rfl⟩, ⟨rfl, ?_⟩, rfl, rfl⟩
    simp [Logging.setCaller]

end WorkspaceAuthz.Service
