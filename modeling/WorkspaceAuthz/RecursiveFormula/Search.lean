import WorkspaceAuthz.RecursiveFormula.Derivation
import Mathlib.Data.Finset.Basic
import Mathlib.Tactic

/-! # Guarded, memoised search through a recursive system

The search evaluates a name by evaluating its formula, left to right and with
short circuits. Three guards keep it finite and cheap: a name that is already
in progress, or that lies too deep, is answered by a default that depends on
the negations above it; a result whose evaluation met neither guard is
remembered. Reads are counted against a budget.
-/
namespace WorkspaceAuthz.RecursiveFormula

/-- How the search tells names apart: the key under which a name is in
progress, and the key under which its result is remembered, if it is at all. -/
structure Keying (ν κ μ : Type) where
  visitKey : ν → κ
  memoKey : κ → Bool → Option μ
  memoKey_inj : ∀ {k k' n n' m}, memoKey k n = some m → memoKey k' n' = some m → k = k' ∧ n = n'

/-- How often each guard answered in place of an evaluation. -/
structure Backstops where
  depth : ℕ := 0
  cycle : ℕ := 0
  budget : ℕ := 0
deriving DecidableEq, Repr

/-- The scratch state of one search. A non-positive `maxReads` is unbounded. The reads that
are charged are counted in `reads`, those that are made in `calls`, which no step looks at. -/
structure SearchState (κ μ : Type) where
  visited : Finset κ
  memo : μ → Option Bool
  cyclesSeen : ℕ := 0
  reads : ℕ := 0
  calls : ℕ := 0
  maxReads : ℤ
  backstops : Backstops := {}

/-- Search steps thread the state through successes and failures alike. -/
abbrev SearchM (κ μ ε : Type) := EStateM ε (SearchState κ μ)

variable {ν κ μ ε α β : Type}

theorem bind_ok {x : SearchM κ μ ε α} {f : α → SearchM κ μ ε β} {st st' : SearchState κ μ}
    {b : β} : (x >>= f) st = .ok b st' ↔ ∃ a s, x st = .ok a s ∧ f a s = .ok b st' := by
  change EStateM.bind x f st = _ ↔ _
  unfold EStateM.bind
  cases x st with
  | ok a s => simp
  | error e s => simp

namespace SearchState

def cycleHit (st : SearchState κ μ) : SearchState κ μ :=
  { st with
    cyclesSeen := st.cyclesSeen + 1
    backstops := { st.backstops with cycle := st.backstops.cycle + 1 } }

def depthHit (st : SearchState κ μ) : SearchState κ μ :=
  { st with
    cyclesSeen := st.cyclesSeen + 1
    backstops := { st.backstops with depth := st.backstops.depth + 1 } }

def budgetHit (st : SearchState κ μ) : SearchState κ μ :=
  { st with backstops := { st.backstops with budget := st.backstops.budget + 1 } }

/-- After `k` more reads, each of them charged. -/
def fetched (k : ℕ) (st : SearchState κ μ) : SearchState κ μ :=
  { st with reads := st.reads + k, calls := st.calls + k }

variable [DecidableEq κ] [DecidableEq μ]

def enter (key : κ) (st : SearchState κ μ) : SearchState κ μ :=
  { st with visited := insert key st.visited }

def leave (key : κ) (st : SearchState κ μ) : SearchState κ μ :=
  { st with visited := st.visited.erase key }

def recalled (K : Keying ν κ μ) (x : ν) (neg : Bool) (st : SearchState κ μ) : Option Bool :=
  (K.memoKey (K.visitKey x) neg).bind st.memo

/-- Record a result, unless a guard answered since the counter read `before`. -/
def remember (K : Keying ν κ μ) (x : ν) (neg : Bool) (before : ℕ) (res : Bool)
    (st : SearchState κ μ) : SearchState κ μ :=
  if st.cyclesSeen = before then
    match K.memoKey (K.visitKey x) neg with
    | some m => { st with memo := Function.update st.memo m (some res) }
    | none => st
  else st

end SearchState

/-- Charge one read; past the budget the search breaks off. -/
def charge (exceeded : ε) : SearchM κ μ ε Unit := fun st =>
  if 0 < st.maxReads ∧ st.maxReads < (st.reads + 1 : ℕ) then
    .error exceeded { st with reads := st.reads + 1 }.budgetHit
  else .ok () { st with reads := st.reads + 1 }

def fetch (exceeded : ε) : SearchM κ μ ε Unit := do
  charge exceeded
  modify fun st => { st with calls := st.calls + 1 }

theorem fetch_refused {exceeded : ε} {st : SearchState κ μ}
    (h : 0 < st.maxReads ∧ st.maxReads < (st.reads + 1 : ℕ)) :
    fetch exceeded st = .error exceeded { st with reads := st.reads + 1 }.budgetHit := by
  change EStateM.bind (charge exceeded) _ st = _
  unfold EStateM.bind charge
  rw [if_pos h]

theorem fetch_granted {exceeded : ε} {st : SearchState κ μ}
    (h : ¬ (0 < st.maxReads ∧ st.maxReads < (st.reads + 1 : ℕ))) :
    fetch exceeded st = .ok () (st.fetched 1) := by
  change EStateM.bind (charge exceeded) _ st = _
  unfold EStateM.bind charge
  rw [if_neg h]
  rfl

/-- Evaluate a formula; `visit` answers the names in it. -/
def Formula.eval (exceeded : ε) (visit : ν → Bool → SearchM κ μ ε Bool) :
    Bool → Formula ν ε → SearchM κ μ ε Bool
  | _, .const b => pure b
  | neg, .ref x => visit x neg
  | neg, .or f g => do
    let ok ← f.eval exceeded visit neg
    if ok then pure true else g.eval exceeded visit neg
  | neg, .and f g => do
    let ok ← f.eval exceeded visit neg
    if ok then g.eval exceeded visit neg else pure false
  | neg, .not f => do
    let ok ← f.eval exceeded visit (!neg)
    pure (!ok)
  | neg, .read f => do
    fetch exceeded
    f.eval exceeded visit neg
  | _, .fail e => throw e

section Guard

variable [DecidableEq κ] [DecidableEq μ]

/-- The guards around the evaluation of one name. No `body` means that the
name lies too deep to be evaluated. -/
def guarded (K : Keying ν κ μ) (x : ν) (neg : Bool) (body : Option (SearchM κ μ ε Bool)) :
    SearchM κ μ ε Bool := fun st =>
  if K.visitKey x ∈ st.visited then .ok neg st.cycleHit
  else match body with
    | none => .ok neg st.depthHit
    | some run => match st.recalled K x neg with
      | some r => .ok r st
      | none => match run (st.enter (K.visitKey x)) with
        | .ok res s => .ok res ((s.leave (K.visitKey x)).remember K x neg st.cyclesSeen res)
        | .error e s => .error e (s.leave (K.visitKey x))

/-- Search for a name with room for `left` nested names, itself included. -/
def search (K : Keying ν κ μ) (sys : ν → Formula ν ε) (exceeded : ε) :
    ℕ → ν → Bool → SearchM κ μ ε Bool
  | 0, x, neg => guarded K x neg none
  | left + 1, x, neg =>
    guarded K x neg (some ((sys x).eval exceeded (search K sys exceeded left) neg))

/-- Everything a guarded evaluation can do when it succeeds. -/
theorem guarded_cases {K : Keying ν κ μ} {x : ν} {neg b : Bool}
    {body : Option (SearchM κ μ ε Bool)} {st st' : SearchState κ μ}
    (h : guarded K x neg body st = .ok b st') :
    (K.visitKey x ∈ st.visited ∧ b = neg ∧ st' = st.cycleHit) ∨
    (K.visitKey x ∉ st.visited ∧ body = none ∧ b = neg ∧ st' = st.depthHit) ∨
    (K.visitKey x ∉ st.visited ∧ st.recalled K x neg = some b ∧ st' = st ∧ body ≠ none) ∨
    (K.visitKey x ∉ st.visited ∧ st.recalled K x neg = none ∧ ∃ run s, body = some run ∧
      run (st.enter (K.visitKey x)) = .ok b s ∧
      st' = (s.leave (K.visitKey x)).remember K x neg st.cyclesSeen b) := by
  unfold guarded at h
  by_cases hv : K.visitKey x ∈ st.visited
  · rw [if_pos hv] at h
    cases h
    exact .inl ⟨hv, rfl, rfl⟩
  rw [if_neg hv] at h
  cases body with
  | none =>
    cases h
    exact .inr (.inl ⟨hv, rfl, rfl, rfl⟩)
  | some run =>
    cases hr : st.recalled K x neg with
    | some r =>
      simp only [hr] at h
      cases h
      exact .inr (.inr (.inl ⟨hv, rfl, rfl, by simp⟩))
    | none =>
      simp only [hr] at h
      cases hrun : run (st.enter (K.visitKey x)) with
      | ok res s =>
        simp only [hrun] at h
        cases h
        exact .inr (.inr (.inr ⟨hv, rfl, run, s, rfl, hrun, rfl⟩))
      | error e s =>
        simp only [hrun] at h
        cases h

end Guard

/-- What a successful step leaves alone, and which counters it may raise. -/
structure Extends (st st' : SearchState κ μ) : Prop where
  visited : st'.visited = st.visited
  maxReads : st'.maxReads = st.maxReads
  reads : st.reads ≤ st'.reads
  cyclesSeen : st.cyclesSeen ≤ st'.cyclesSeen
  depth : st.backstops.depth ≤ st'.backstops.depth
  cycle : st.backstops.cycle ≤ st'.backstops.cycle
  hits : st'.cyclesSeen + (st.backstops.cycle + st.backstops.depth) =
    st.cyclesSeen + (st'.backstops.cycle + st'.backstops.depth)

namespace Extends

theorem refl (st : SearchState κ μ) : Extends st st :=
  ⟨rfl, rfl, le_rfl, le_rfl, le_rfl, le_rfl, rfl⟩

theorem trans {a b c : SearchState κ μ} (hab : Extends a b) (hbc : Extends b c) : Extends a c where
  visited := hbc.visited.trans hab.visited
  maxReads := hbc.maxReads.trans hab.maxReads
  reads := hab.reads.trans hbc.reads
  cyclesSeen := hab.cyclesSeen.trans hbc.cyclesSeen
  depth := hab.depth.trans hbc.depth
  cycle := hab.cycle.trans hbc.cycle
  hits := by
    have h₁ := hab.hits
    have h₂ := hbc.hits
    omega

theorem cycleHit (st : SearchState κ μ) : Extends st st.cycleHit where
  visited := rfl
  maxReads := rfl
  reads := le_rfl
  cyclesSeen := Nat.le_succ _
  depth := le_rfl
  cycle := Nat.le_succ _
  hits := by simp only [SearchState.cycleHit]; omega

theorem depthHit (st : SearchState κ μ) : Extends st st.depthHit where
  visited := rfl
  maxReads := rfl
  reads := le_rfl
  cyclesSeen := Nat.le_succ _
  depth := Nat.le_succ _
  cycle := le_rfl
  hits := by simp only [SearchState.depthHit]; omega

end Extends

theorem fetch_ok {exceeded : ε} {st st' : SearchState κ μ} {u : Unit}
    (h : fetch exceeded st = .ok u st') : st' = st.fetched 1 := by
  by_cases hlt : 0 < st.maxReads ∧ st.maxReads < (st.reads + 1 : ℕ)
  · rw [fetch_refused hlt] at h
    cases h
  · rw [fetch_granted hlt] at h
    cases h
    rfl

theorem fetch_memo {exceeded : ε} {st st' : SearchState κ μ} {u : Unit}
    (h : fetch exceeded st = .ok u st') : st'.memo = st.memo := by
  rw [fetch_ok h]
  rfl

theorem fetch_extends {exceeded : ε} {st st' : SearchState κ μ} {u : Unit}
    (h : fetch exceeded st = .ok u st') : Extends st st' := by
  rw [fetch_ok h]
  exact ⟨rfl, rfl, Nat.le_succ _, le_rfl, le_rfl, le_rfl, rfl⟩

theorem eval_extends {exceeded : ε} {visit : ν → Bool → SearchM κ μ ε Bool}
    (hvisit : ∀ x neg s s' r, visit x neg s = .ok r s' → Extends s s') (f : Formula ν ε)
    (neg b : Bool) (st st' : SearchState κ μ) (h : f.eval exceeded visit neg st = .ok b st') :
    Extends st st' := by
  induction f generalizing neg b st st' with
  | const c => cases h; exact .refl st
  | ref x => exact hvisit x neg st st' b h
  | or f g ihf ihg =>
    obtain ⟨ok, s, hf, hg⟩ := bind_ok.mp h
    cases ok with
    | true => cases hg; exact ihf _ _ _ _ hf
    | false => exact (ihf _ _ _ _ hf).trans (ihg _ _ _ _ hg)
  | and f g ihf ihg =>
    obtain ⟨ok, s, hf, hg⟩ := bind_ok.mp h
    cases ok with
    | true => exact (ihf _ _ _ _ hf).trans (ihg _ _ _ _ hg)
    | false => cases hg; exact ihf _ _ _ _ hf
  | not f ih =>
    obtain ⟨ok, s, hf, hb⟩ := bind_ok.mp h
    cases hb
    exact ih _ _ _ _ hf
  | read f ih =>
    obtain ⟨u, s, hc, hf⟩ := bind_ok.mp h
    exact (fetch_extends hc).trans (ih _ _ _ _ hf)
  | fail e => cases h

theorem fetch_unbounded {exceeded : ε} {st : SearchState κ μ} (h : st.maxReads ≤ 0) :
    fetch exceeded st = .ok () (st.fetched 1) :=
  fetch_granted fun hlt => by omega

theorem eval_succeeds (exceeded : ε) {visit : ν → Bool → SearchM κ μ ε Bool}
    (hvisit : ∀ x neg s, s.maxReads ≤ 0 → ∃ r s', visit x neg s = .ok r s' ∧ s'.maxReads ≤ 0)
    (f : Formula ν ε) (hf : f.Total) (neg : Bool) (st : SearchState κ μ) (hst : st.maxReads ≤ 0) :
    ∃ b st', f.eval exceeded visit neg st = .ok b st' ∧ st'.maxReads ≤ 0 := by
  induction f generalizing neg st with
  | const c => exact ⟨c, st, rfl, hst⟩
  | ref x => exact hvisit x neg st hst
  | or f g ihf ihg =>
    obtain ⟨ok, s, hs, hmax⟩ := ihf hf.1 neg st hst
    cases ok with
    | true => exact ⟨true, s, bind_ok.mpr ⟨true, s, hs, rfl⟩, hmax⟩
    | false =>
      obtain ⟨b, s', hs', hmax'⟩ := ihg hf.2 neg s hmax
      exact ⟨b, s', bind_ok.mpr ⟨false, s, hs, hs'⟩, hmax'⟩
  | and f g ihf ihg =>
    obtain ⟨ok, s, hs, hmax⟩ := ihf hf.1 neg st hst
    cases ok with
    | true =>
      obtain ⟨b, s', hs', hmax'⟩ := ihg hf.2 neg s hmax
      exact ⟨b, s', bind_ok.mpr ⟨true, s, hs, hs'⟩, hmax'⟩
    | false => exact ⟨false, s, bind_ok.mpr ⟨false, s, hs, rfl⟩, hmax⟩
  | not f ih =>
    obtain ⟨ok, s, hs, hmax⟩ := ih hf (!neg) st hst
    exact ⟨!ok, s, bind_ok.mpr ⟨ok, s, hs, rfl⟩, hmax⟩
  | read f ih =>
    obtain ⟨b, s, hs, hmax⟩ := ih hf neg (st.fetched 1) hst
    exact ⟨b, s, bind_ok.mpr ⟨(), _, fetch_unbounded hst, hs⟩, hmax⟩
  | fail e => exact hf.elim

/-! ## The memo -/

section Memo

variable [DecidableEq μ]

@[simp] theorem remember_visited (K : Keying ν κ μ) (x : ν) (neg : Bool) (before : ℕ) (res : Bool)
    (st : SearchState κ μ) : (st.remember K x neg before res).visited = st.visited := by
  unfold SearchState.remember
  split_ifs
  · split <;> rfl
  · rfl

theorem reads_remember {K : Keying ν κ μ} (st : SearchState κ μ) (x : ν) (neg res : Bool)
    (before : ℕ) :
    (st.remember K x neg before res).maxReads = st.maxReads ∧
      (st.remember K x neg before res).reads = st.reads ∧
      (st.remember K x neg before res).calls = st.calls := by
  unfold SearchState.remember
  split_ifs
  · cases K.memoKey (K.visitKey x) neg <;> exact ⟨rfl, rfl, rfl⟩
  · exact ⟨rfl, rfl, rfl⟩

theorem remember_cyclesSeen (K : Keying ν κ μ) (x : ν) (neg : Bool) (before : ℕ) (res : Bool)
    (st : SearchState κ μ) : (st.remember K x neg before res).cyclesSeen = st.cyclesSeen := by
  unfold SearchState.remember
  split_ifs
  · split <;> rfl
  · rfl

theorem remember_extends (K : Keying ν κ μ) (x : ν) (neg : Bool) (before : ℕ) (res : Bool)
    (st : SearchState κ μ) : Extends st (st.remember K x neg before res) := by
  unfold SearchState.remember
  split_ifs
  · split
    · exact ⟨rfl, rfl, le_rfl, le_rfl, le_rfl, le_rfl, rfl⟩
    · exact .refl st
  · exact .refl st

/-- A keying that remembers every name. -/
def Keying.Remembers (K : Keying ν κ μ) : Prop :=
  ∀ k neg, ∃ m, K.memoKey k neg = some m

theorem recalled_remember_self {K : Keying ν κ μ} (hK : K.Remembers) {x : ν} {neg res : Bool}
    {before : ℕ} {st : SearchState κ μ} (h : st.cyclesSeen = before) :
    (st.remember K x neg before res).recalled K x neg = some res := by
  obtain ⟨m, hm⟩ := hK (K.visitKey x) neg
  simp [SearchState.remember, SearchState.recalled, h, hm]

theorem recalled_remember_of_ne {K : Keying ν κ μ} {x y : ν} {neg neg' res : Bool}
    {before : ℕ} {st : SearchState κ μ}
    (h : ¬ (st.cyclesSeen = before ∧ K.visitKey y = K.visitKey x ∧ neg' = neg)) :
    (st.remember K x neg before res).recalled K y neg' = st.recalled K y neg' := by
  unfold SearchState.remember
  split_ifs with hclean
  · cases hm : K.memoKey (K.visitKey x) neg with
    | none => rfl
    | some m =>
      simp only [SearchState.recalled]
      cases hm' : K.memoKey (K.visitKey y) neg' with
      | none => rfl
      | some m' =>
        have hne : m' ≠ m := by
          rintro rfl
          exact h ⟨hclean, K.memoKey_inj hm' hm⟩
        exact Function.update_of_ne hne _ _
  · rfl

end Memo

/-! ## Guarded searches -/

variable [DecidableEq κ]

theorem leave_extends {key : κ} {st s : SearchState κ μ} (hkey : key ∉ st.visited)
    (h : Extends (st.enter key) s) : Extends st (s.leave key) where
  visited := by
    change s.visited.erase key = st.visited
    rw [h.visited]
    exact Finset.erase_insert hkey
  maxReads := h.maxReads
  reads := h.reads
  cyclesSeen := h.cyclesSeen
  depth := h.depth
  cycle := h.cycle
  hits := h.hits

variable [DecidableEq μ]

theorem guarded_extends {K : Keying ν κ μ} {x : ν} {neg b : Bool}
    {body : Option (SearchM κ μ ε Bool)} {st st' : SearchState κ μ}
    (hbody : ∀ run, body = some run → ∀ s s' r, run s = .ok r s' → Extends s s')
    (h : guarded K x neg body st = .ok b st') : Extends st st' := by
  rcases guarded_cases h with ⟨-, -, rfl⟩ | ⟨-, -, -, rfl⟩ | ⟨-, -, rfl, -⟩ |
    ⟨hv, -, run, s, hrun, hs, rfl⟩
  · exact .cycleHit st
  · exact .depthHit st
  · exact .refl _
  · exact (leave_extends hv (hbody run hrun _ _ _ hs)).trans (remember_extends K x neg _ b _)

theorem search_extends (K : Keying ν κ μ) (sys : ν → Formula ν ε) (exceeded : ε) (left : ℕ)
    (x : ν) (neg : Bool) (st st' : SearchState κ μ) (b : Bool)
    (h : search K sys exceeded left x neg st = .ok b st') : Extends st st' := by
  induction left generalizing x neg st st' b with
  | zero =>
    refine guarded_extends ?_ h
    rintro run ⟨⟩
  | succ left ih =>
    refine guarded_extends ?_ h
    rintro run ⟨⟩
    intro s s' r hr
    exact eval_extends (fun x neg s s' r => ih x neg s s' r) _ _ _ _ _ hr

theorem search_of_recalled {K : Keying ν κ μ} {sys : ν → Formula ν ε} {exceeded : ε} {left : ℕ}
    {x : ν} {neg b : Bool} {st : SearchState κ μ} (hv : K.visitKey x ∉ st.visited)
    (hr : st.recalled K x neg = some b) :
    search K sys exceeded (left + 1) x neg st = .ok b st := by
  simp only [search, guarded, if_neg hv, hr]

theorem search_of_eval {K : Keying ν κ μ} {sys : ν → Formula ν ε} {exceeded : ε} {left : ℕ}
    {x : ν} {neg b : Bool} {st s : SearchState κ μ} (hv : K.visitKey x ∉ st.visited)
    (hr : st.recalled K x neg = none)
    (h : (sys x).eval exceeded (search K sys exceeded left) neg (st.enter (K.visitKey x)) =
      .ok b s) :
    search K sys exceeded (left + 1) x neg st =
      .ok b ((s.leave (K.visitKey x)).remember K x neg st.cyclesSeen b) := by
  simp only [search, guarded, if_neg hv, hr, h]

/-! ## Searches that cannot break off -/

/-- Without a budget, and with reads that do not fail, the search always answers. -/
theorem search_succeeds (K : Keying ν κ μ) {sys : ν → Formula ν ε} (htotal : ∀ x, (sys x).Total)
    (exceeded : ε) (left : ℕ) (x : ν) (neg : Bool) (st : SearchState κ μ)
    (hst : st.maxReads ≤ 0) :
    ∃ b st', search K sys exceeded left x neg st = .ok b st' ∧ st'.maxReads ≤ 0 := by
  induction left generalizing x neg st with
  | zero =>
    unfold search guarded
    split_ifs
    · exact ⟨neg, _, rfl, hst⟩
    · exact ⟨neg, _, rfl, hst⟩
  | succ left ih =>
    have hrun := eval_succeeds exceeded (fun x neg s => ih x neg s) (sys x)
      (htotal x) neg (st.enter (K.visitKey x)) hst
    obtain ⟨r, s, hs, hmax⟩ := hrun
    unfold search guarded
    split_ifs
    · exact ⟨neg, _, rfl, hst⟩
    · cases hr : st.recalled K x neg with
      | some r => exact ⟨r, st, rfl, hst⟩
      | none =>
        simp only [hs]
        refine ⟨r, _, rfl, ?_⟩
        rw [(remember_extends K x neg st.cyclesSeen r (s.leave (K.visitKey x))).maxReads]
        exact hmax

end WorkspaceAuthz.RecursiveFormula
