import WorkspaceAuthz.RecursiveFormula.Denial

/-! # Read budgets

A budget does two things only: it stops a search before it reads once too often,
and it lets every other search through as if there were no budget. Both are said of
single steps and hold of whatever is put together from them. Counters that another
search has left behind make no difference either: what is remembered depends on how
far they are raised, not on where they stand.
-/
namespace WorkspaceAuthz.RecursiveFormula

variable {ν κ μ ε α β : Type}

namespace SearchState

/-- No more reads are charged than the budget has room for, and these were made. -/
structure WithinBudget (st : SearchState κ μ) : Prop where
  reads_le : 0 < st.maxReads → (st.reads : ℤ) ≤ st.maxReads
  calls_eq : st.calls = st.reads

/-- `st'` has more room for reads than `st`, and `shift` guards fewer have answered. -/
structure Roomier (shift : ℕ) (st st' : SearchState κ μ) : Prop where
  visited : st'.visited = st.visited
  memo : st'.memo = st.memo
  cyclesSeen : st.cyclesSeen = st'.cyclesSeen + shift
  reads : st'.reads ≤ st.reads
  maxReads : st'.maxReads ≤ 0 ∨ 0 < st.maxReads ∧ st.maxReads ≤ st'.maxReads

namespace Roomier

variable {shift : ℕ} {st st' : SearchState κ μ} (h : st.Roomier shift st')
include h

theorem enter [DecidableEq κ] (key : κ) : (st.enter key).Roomier shift (st'.enter key) :=
  ⟨congrArg (insert key) h.visited, h.memo, h.cyclesSeen, h.reads, h.maxReads⟩

theorem leave [DecidableEq κ] (key : κ) : (st.leave key).Roomier shift (st'.leave key) :=
  ⟨congrArg (Finset.erase · key) h.visited, h.memo, h.cyclesSeen, h.reads, h.maxReads⟩

theorem recalled (K : Keying ν κ μ) (x : ν) (neg : Bool) :
    st'.recalled K x neg = st.recalled K x neg := by
  rw [SearchState.recalled, SearchState.recalled, h.memo]

end Roomier

end SearchState

open SearchState

/-- A run ends within its budget. One that breaks off may have been charged for a read too many,
but has not made it. -/
def EndsWithin (maxReads : ℤ) : EStateM.Result ε (SearchState κ μ) α → Prop
  | .ok _ s => s.maxReads = maxReads ∧ s.WithinBudget
  | .error _ s => 0 < maxReads → (s.calls : ℤ) ≤ maxReads

/-- A run with more room ends in the same way, unless this one breaks off for lack of it. -/
def EndsAlike (exceeded : ε) (shift : ℕ) :
    EStateM.Result ε (SearchState κ μ) α → EStateM.Result ε (SearchState κ μ) α → Prop
  | .ok a s, y => ∃ s', y = .ok a s' ∧ s.Roomier shift s'
  | .error e _, y => e = exceeded ∨ ∃ s', y = .error e s'

/-- The budget is a cap on the reads and makes no other difference. -/
structure Budgeted (exceeded : ε) (x : SearchM κ μ ε α) : Prop where
  capped : ∀ st, st.WithinBudget → EndsWithin st.maxReads (x st)
  alike : ∀ shift st st', st.Roomier shift st' → EndsAlike exceeded shift (x st) (x st')

section Programs

variable {exceeded : ε}

theorem budgeted_pure (a : α) : Budgeted exceeded (pure a : SearchM κ μ ε α) :=
  ⟨fun _ h => ⟨rfl, h⟩, fun _ _ st' h => ⟨st', rfl, h⟩⟩

theorem SearchState.WithinBudget.calls_le_maxReads {st : SearchState κ μ} (h : st.WithinBudget)
    (hpos : 0 < st.maxReads) : (st.calls : ℤ) ≤ st.maxReads := by
  rw [h.calls_eq]
  exact h.reads_le hpos

theorem budgeted_throw {e : ε} : Budgeted exceeded (throw e : SearchM κ μ ε α) :=
  ⟨fun _ h => h.calls_le_maxReads, fun _ _ st' _ => .inr ⟨st', rfl⟩⟩

theorem Budgeted.bind {x : SearchM κ μ ε α} {f : α → SearchM κ μ ε β} (hx : Budgeted exceeded x)
    (hf : ∀ a, Budgeted exceeded (f a)) : Budgeted exceeded (x >>= f) := by
  constructor
  · intro st hst
    have hend := hx.capped st hst
    change EndsWithin st.maxReads (EStateM.bind x f st)
    unfold EStateM.bind
    cases heq : x st with
    | error e s =>
      rw [heq] at hend
      exact hend
    | ok a s =>
      rw [heq] at hend
      obtain ⟨hmax, hs⟩ := hend
      rw [← hmax]
      exact (hf a).capped s hs
  · intro shift st st' hroom
    have hend := hx.alike shift st st' hroom
    change EndsAlike exceeded shift (EStateM.bind x f st) (EStateM.bind x f st')
    unfold EStateM.bind
    cases heq : x st with
    | error e s =>
      rw [heq] at hend
      refine hend.imp_right fun h => ?_
      obtain ⟨s', heq'⟩ := h
      exact ⟨s', by rw [heq']⟩
    | ok a s =>
      rw [heq] at hend
      obtain ⟨s', heq', hroom'⟩ := hend
      rw [heq']
      exact (hf a).alike shift s s' hroom'

theorem budgeted_fetch : Budgeted exceeded (fetch exceeded : SearchM κ μ ε Unit) := by
  constructor
  · intro st hst
    by_cases h : 0 < st.maxReads ∧ st.maxReads < (st.reads + 1 : ℕ)
    · rw [fetch_refused h]
      exact hst.calls_le_maxReads
    · rw [fetch_granted h]
      refine ⟨rfl, fun hpos => ?_, congrArg (· + 1) hst.calls_eq⟩
      change (0 : ℤ) < st.maxReads at hpos
      change ((st.reads + 1 : ℕ) : ℤ) ≤ st.maxReads
      omega
  · intro shift st st' hroom
    by_cases h : 0 < st.maxReads ∧ st.maxReads < (st.reads + 1 : ℕ)
    · rw [fetch_refused h]
      exact .inl rfl
    · have h' : ¬ (0 < st'.maxReads ∧ st'.maxReads < (st'.reads + 1 : ℕ)) := by
        have hreads := hroom.reads
        have hmax := hroom.maxReads
        omega
      rw [fetch_granted h, fetch_granted h']
      exact ⟨_, rfl, hroom.visited, hroom.memo, hroom.cyclesSeen, Nat.succ_le_succ hroom.reads,
        hroom.maxReads⟩

/-- A change that neither reads nor touches counters, and is the same for states that only
differ in these. -/
theorem budgeted_modify {f : SearchState κ μ → SearchState κ μ}
    (hmax : ∀ st, (f st).maxReads = st.maxReads)
    (hreads : ∀ st, (f st).reads = st.reads ∧ (f st).calls = st.calls)
    (hroom : ∀ shift st st', st.Roomier shift st' → (f st).Roomier shift (f st')) :
    Budgeted exceeded (modify f : SearchM κ μ ε PUnit) := by
  constructor
  · intro st hst
    refine ⟨hmax st, ?_, ?_⟩
    · rw [hmax st, (hreads st).1]
      exact hst.reads_le
    · rw [(hreads st).1, (hreads st).2]
      exact hst.calls_eq
  · intro shift st st' h
    exact ⟨f st', rfl, hroom shift st st' h⟩

theorem budgeted_eval {visit : ν → Bool → SearchM κ μ ε Bool}
    (hvisit : ∀ x neg, Budgeted exceeded (visit x neg)) (f : Formula ν ε) (neg : Bool) :
    Budgeted exceeded (f.eval exceeded visit neg) := by
  induction f generalizing neg with
  | const b => exact budgeted_pure b
  | ref x => exact hvisit x neg
  | or f g ihf ihg =>
    refine (ihf neg).bind fun ok => ?_
    cases ok with
    | true => exact budgeted_pure true
    | false => exact ihg neg
  | and f g ihf ihg =>
    refine (ihf neg).bind fun ok => ?_
    cases ok with
    | true => exact ihg neg
    | false => exact budgeted_pure false
  | not f ih => exact (ih !neg).bind fun ok => budgeted_pure _
  | read f ih => exact budgeted_fetch.bind fun _ => ih neg
  | fail e => exact budgeted_throw

variable [DecidableEq μ] {K : Keying ν κ μ}

theorem SearchState.Roomier.remember {shift before : ℕ} {st st' : SearchState κ μ}
    (h : st.Roomier shift st') (x : ν) (neg res : Bool) :
    (st.remember K x neg (before + shift) res).Roomier shift (st'.remember K x neg before res) := by
  have hclean : st.cyclesSeen = before + shift ↔ st'.cyclesSeen = before := by
    rw [h.cyclesSeen]
    omega
  unfold SearchState.remember
  rw [if_congr hclean rfl rfl]
  split_ifs
  · cases K.memoKey (K.visitKey x) neg with
    | none => exact h
    | some m => exact ⟨h.visited, by rw [h.memo], h.cyclesSeen, h.reads, h.maxReads⟩
  · exact h

theorem SearchState.WithinBudget.remember {st : SearchState κ μ} (h : st.WithinBudget) (x : ν)
    (neg res : Bool) (before : ℕ) : (st.remember K x neg before res).WithinBudget := by
  obtain ⟨hmax, hreads, hcalls⟩ := reads_remember (K := K) st x neg res before
  constructor
  · rw [hmax, hreads]
    exact h.reads_le
  · rw [hreads, hcalls]
    exact h.calls_eq

variable [DecidableEq κ]

theorem guarded_endsWithin {x : ν} {neg : Bool} {body : Option (SearchM κ μ ε Bool)}
    (hbody : ∀ run ∈ body, Budgeted exceeded run) {st : SearchState κ μ} (hst : st.WithinBudget) :
    EndsWithin st.maxReads (guarded K x neg body st) := by
  unfold guarded
  split_ifs
  · exact ⟨rfl, hst.reads_le, hst.calls_eq⟩
  cases body with
  | none => exact ⟨rfl, hst.reads_le, hst.calls_eq⟩
  | some run =>
    cases st.recalled K x neg with
    | some r => exact ⟨rfl, hst⟩
    | none =>
      have hentered : (st.enter (K.visitKey x)).WithinBudget := ⟨hst.reads_le, hst.calls_eq⟩
      have hend := (hbody run rfl).capped _ hentered
      dsimp only
      cases heq : run (st.enter (K.visitKey x)) with
      | error e s =>
        rw [heq] at hend
        exact hend
      | ok b s =>
        rw [heq] at hend
        obtain ⟨hmax, hs⟩ := hend
        have hleft : (s.leave (K.visitKey x)).WithinBudget := ⟨hs.reads_le, hs.calls_eq⟩
        exact ⟨(reads_remember _ x neg b _).1.trans hmax, hleft.remember x neg b _⟩

theorem guarded_endsAlike {x : ν} {neg : Bool} {body : Option (SearchM κ μ ε Bool)}
    (hbody : ∀ run ∈ body, Budgeted exceeded run) {shift : ℕ} {st st' : SearchState κ μ}
    (hroom : st.Roomier shift st') :
    EndsAlike exceeded shift (guarded K x neg body st) (guarded K x neg body st') := by
  have hcycles := hroom.cyclesSeen
  unfold guarded
  rw [hroom.visited]
  split_ifs
  · refine ⟨_, rfl, hroom.visited, hroom.memo, ?_, hroom.reads, hroom.maxReads⟩
    simp only [cycleHit]
    omega
  cases body with
  | none =>
    refine ⟨_, rfl, hroom.visited, hroom.memo, ?_, hroom.reads, hroom.maxReads⟩
    simp only [depthHit]
    omega
  | some run =>
    dsimp only
    rw [hroom.recalled K x neg]
    cases st.recalled K x neg with
    | some r => exact ⟨st', rfl, hroom⟩
    | none =>
      have hend := (hbody run rfl).alike shift _ _ (hroom.enter (K.visitKey x))
      dsimp only
      cases heq : run (st.enter (K.visitKey x)) with
      | error e s =>
        rw [heq] at hend
        refine hend.imp_right fun h => ?_
        obtain ⟨s', heq'⟩ := h
        exact ⟨_, by rw [heq']⟩
      | ok b s =>
        rw [heq] at hend
        obtain ⟨s', heq', hroom'⟩ := hend
        rw [heq', hcycles]
        exact ⟨_, rfl, (hroom'.leave (K.visitKey x)).remember x neg b⟩

theorem budgeted_guarded {x : ν} {neg : Bool} {body : Option (SearchM κ μ ε Bool)}
    (hbody : ∀ run ∈ body, Budgeted exceeded run) : Budgeted exceeded (guarded K x neg body) :=
  ⟨fun _ hst => guarded_endsWithin hbody hst, fun _ _ _ hroom => guarded_endsAlike hbody hroom⟩

theorem budgeted_search (K : Keying ν κ μ) (sys : ν → Formula ν ε) (exceeded : ε) (left : ℕ)
    (x : ν) (neg : Bool) : Budgeted exceeded (search K sys exceeded left x neg) := by
  induction left generalizing x neg with
  | zero =>
    apply budgeted_guarded
    rintro run ⟨⟩
  | succ left ih =>
    apply budgeted_guarded
    rintro run ⟨⟩
    exact budgeted_eval ih (sys x) neg

end Programs

/-! ## Enough room -/

/-- A run for which the budget has room ends as it would without a budget, after the same number
of reads. -/
structure Affords (exceeded : ε) (x : SearchM κ μ ε α) : Prop where
  budgeted : Budgeted exceeded x
  grows : ∀ {st a s}, x st = .ok a s → st.reads ≤ s.reads
  pays : ∀ {shift st st' a s'}, st.Roomier shift st' → x st' = .ok a s' →
    (0 < st.maxReads → ((st.reads + (s'.reads - st'.reads) : ℕ) : ℤ) ≤ st.maxReads) →
    ∃ s, x st = .ok a s ∧ s.maxReads = st.maxReads ∧ s.reads = st.reads + (s'.reads - st'.reads)

section Affords

variable {exceeded : ε}

theorem affords_pure (a : α) : Affords exceeded (pure a : SearchM κ μ ε α) where
  budgeted := budgeted_pure a
  grows := by
    rintro st _ _ ⟨⟩
    exact le_rfl
  pays := by
    rintro shift st st' _ _ - ⟨⟩ -
    exact ⟨st, rfl, rfl, by simp⟩

theorem affords_throw {e : ε} : Affords exceeded (throw e : SearchM κ μ ε α) where
  budgeted := budgeted_throw
  grows := by rintro _ _ _ ⟨⟩
  pays := by rintro _ _ _ _ _ - ⟨⟩

theorem Affords.bind {x : SearchM κ μ ε α} {f : α → SearchM κ μ ε β} (hx : Affords exceeded x)
    (hf : ∀ a, Affords exceeded (f a)) : Affords exceeded (x >>= f) where
  budgeted := hx.budgeted.bind fun a => (hf a).budgeted
  grows h := by
    obtain ⟨a, s, hs, hb⟩ := bind_ok.mp h
    exact (hx.grows hs).trans ((hf a).grows hb)
  pays := by
    intro shift st st' b s' hroom h hbudget
    obtain ⟨a, s₁', hrun', hrest'⟩ := bind_ok.mp h
    have hle := hx.grows hrun'
    have hle' := (hf a).grows hrest'
    obtain ⟨s₁, hrun, hmax, hreads⟩ := hx.pays hroom hrun' fun hpos => by
      have := hbudget hpos
      omega
    have halike := hx.budgeted.alike shift st st' hroom
    rw [hrun] at halike
    obtain ⟨_, heq, hroom₁⟩ := halike
    rw [hrun'] at heq
    cases heq
    -- what is left of the budget is enough for the rest
    obtain ⟨s, hrest, hmax', hreads'⟩ := (hf a).pays hroom₁ hrest' fun hpos => by
      rw [hmax] at hpos ⊢
      have := hbudget hpos
      omega
    exact ⟨s, bind_ok.mpr ⟨a, s₁, hrun, hrest⟩, hmax'.trans hmax, by omega⟩

theorem affords_fetch : Affords exceeded (fetch exceeded : SearchM κ μ ε Unit) where
  budgeted := budgeted_fetch
  grows h := by
    rw [fetch_ok h]
    exact Nat.le_succ _
  pays := by
    intro shift st st' _ s' _ h hbudget
    obtain rfl := fetch_ok h
    have hone : (st'.fetched 1).reads - st'.reads = 1 := Nat.add_sub_cancel_left _ _
    rw [hone] at hbudget ⊢
    refine ⟨st.fetched 1, fetch_granted fun hlt => ?_, rfl, rfl⟩
    have := hbudget hlt.1
    omega

theorem affords_eval {visit : ν → Bool → SearchM κ μ ε Bool}
    (hvisit : ∀ x neg, Affords exceeded (visit x neg)) (f : Formula ν ε) (neg : Bool) :
    Affords exceeded (f.eval exceeded visit neg) := by
  induction f generalizing neg with
  | const b => exact affords_pure b
  | ref x => exact hvisit x neg
  | or f g ihf ihg =>
    refine (ihf neg).bind fun ok => ?_
    cases ok with
    | true => exact affords_pure true
    | false => exact ihg neg
  | and f g ihf ihg =>
    refine (ihf neg).bind fun ok => ?_
    cases ok with
    | true => exact ihg neg
    | false => exact affords_pure false
  | not f ih => exact (ih !neg).bind fun ok => affords_pure _
  | read f ih => exact affords_fetch.bind fun _ => ih neg
  | fail e => exact affords_throw

variable [DecidableEq κ] [DecidableEq μ] {K : Keying ν κ μ}

theorem affords_guarded {x : ν} {neg : Bool} {body : Option (SearchM κ μ ε Bool)}
    (hbody : ∀ run ∈ body, Affords exceeded run) : Affords exceeded (guarded K x neg body) where
  budgeted := budgeted_guarded fun run hrun => (hbody run hrun).budgeted
  grows {st b s'} h := by
    rcases guarded_cases h with ⟨-, -, rfl⟩ | ⟨-, -, -, rfl⟩ | ⟨-, -, rfl, -⟩ |
      ⟨-, -, run, s, hsome, hrun, rfl⟩
    · exact le_rfl
    · exact le_rfl
    · exact le_rfl
    · rw [(reads_remember _ x neg b st.cyclesSeen).2.1]
      have hle : (st.enter (K.visitKey x)).reads ≤ s.reads := (hbody run hsome).grows hrun
      exact hle
  pays := by
    intro shift st st' b s' hroom h hbudget
    have hrecalled := (hroom.recalled K x neg).symm
    have hkept : st.reads = st.reads + (st'.reads - st'.reads) := by omega
    rcases guarded_cases h with ⟨hv, rfl, rfl⟩ | ⟨hv, rfl, rfl, rfl⟩ | ⟨hv, hr, rfl, hsome⟩ |
      ⟨hv, hr, run, s, rfl, hrun, rfl⟩ <;> rw [hroom.visited] at hv
    · exact ⟨st.cycleHit, by simp only [guarded, if_pos hv], rfl, hkept⟩
    · exact ⟨st.depthHit, by simp only [guarded, if_neg hv], rfl, hkept⟩
    · obtain ⟨run, rfl⟩ := Option.ne_none_iff_exists'.mp hsome
      exact ⟨st, by simp only [guarded, if_neg hv, hrecalled, hr], rfl, hkept⟩
    · rw [(reads_remember _ x neg b st'.cyclesSeen).2.1] at hbudget ⊢
      obtain ⟨s₁, hrun₁, hmax, hreads⟩ :=
        (hbody run rfl).pays (hroom.enter (K.visitKey x)) hrun hbudget
      obtain ⟨hmax', hreads', -⟩ :=
        reads_remember (K := K) (s₁.leave (K.visitKey x)) x neg b st.cyclesSeen
      exact ⟨_, by simp only [guarded, if_neg hv, hrecalled, hr, hrun₁], hmax'.trans hmax,
        hreads'.trans hreads⟩

theorem affords_search (K : Keying ν κ μ) (sys : ν → Formula ν ε) (exceeded : ε) (left : ℕ)
    (x : ν) (neg : Bool) : Affords exceeded (search K sys exceeded left x neg) := by
  induction left generalizing x neg with
  | zero =>
    apply affords_guarded
    rintro run ⟨⟩
  | succ left ih =>
    apply affords_guarded
    rintro run ⟨⟩
    exact affords_eval ih (sys x) neg

end Affords

end WorkspaceAuthz.RecursiveFormula
