import WorkspaceAuthz.RecursiveFormula.Search

/-! # Searches that find nothing

A search denies a name if it answers negatively, whatever its state, as long as
the budget has room for some reads and nothing positive is remembered. The guards
deny what is asked under an even number of negations, so that denials are put
together from those of the parts, without a look at cycles or depth. Where reads may
fail as well, a search at least never answers positively.
-/
namespace WorkspaceAuthz.RecursiveFormula

variable {ν κ μ ε : Type}

/-- No positive result is remembered. -/
def SearchState.Negative (st : SearchState κ μ) : Prop := ∀ m, st.memo m ≠ some true

/-- With room for `cost` reads the answer is negative, and so is what is remembered. -/
def Denies (cost : ℕ) (x : SearchM κ μ ε Bool) : Prop :=
  ∀ st : SearchState κ μ, st.Negative →
    (0 < st.maxReads → ((st.reads + cost : ℕ) : ℤ) ≤ st.maxReads) →
    ∃ st', x st = .ok false st' ∧ st'.Negative ∧ st'.maxReads = st.maxReads ∧
      st'.reads ≤ st.reads + cost

theorem denies_pure : Denies 0 (pure false : SearchM κ μ ε Bool) :=
  fun st hst _ => ⟨st, rfl, hst, rfl, le_rfl⟩

theorem Denies.mono {cost cost' : ℕ} {x : SearchM κ μ ε Bool} (h : Denies cost x)
    (hle : cost ≤ cost') : Denies cost' x := by
  intro st hst hbudget
  obtain ⟨st', heq, hst', hmax, hreads⟩ := h st hst fun hpos => by have := hbudget hpos; omega
  exact ⟨st', heq, hst', hmax, by omega⟩

theorem Denies.orElse {cost cost' : ℕ} {x y : SearchM κ μ ε Bool} (hx : Denies cost x)
    (hy : Denies cost' y) :
    Denies (cost + cost') (do
      let ok ← x
      if ok then pure true else y) := by
  intro st hst hbudget
  obtain ⟨st₁, heq₁, hst₁, hmax₁, hreads₁⟩ := hx st hst fun hpos => by
    have := hbudget hpos; omega
  obtain ⟨st₂, heq₂, hst₂, hmax₂, hreads₂⟩ := hy st₁ hst₁ fun hpos => by
    rw [hmax₁] at hpos ⊢
    have := hbudget hpos
    omega
  exact ⟨st₂, bind_ok.mpr ⟨false, st₁, heq₁, heq₂⟩, hst₂, hmax₂.trans hmax₁, by omega⟩

theorem denies_fetch {cost : ℕ} {exceeded : ε} {x : SearchM κ μ ε Bool} (hx : Denies cost x) :
    Denies (cost + 1) (do
      fetch exceeded
      x) := by
  intro st hst hbudget
  have hfetch : (fetch exceeded : SearchM κ μ ε Unit) st = .ok () (st.fetched 1) := by
    refine fetch_granted fun hexceeded => ?_
    have := hbudget hexceeded.1
    omega
  obtain ⟨st', heq, hst', hmax, hreads⟩ := hx (st.fetched 1) hst fun hpos => by
    have := hbudget hpos
    change ((st.reads + 1 + cost : ℕ) : ℤ) ≤ st.maxReads
    omega
  refine ⟨st', bind_ok.mpr ⟨(), _, hfetch, heq⟩, hst', hmax, ?_⟩
  change st'.reads ≤ st.reads + 1 + cost at hreads
  omega

/-! ## Formulas without anything that holds -/

/-- An answer, if there is one, is negative, and so is what is remembered. -/
def Withholds (x : SearchM κ μ ε Bool) : Prop :=
  ∀ st b st', st.Negative → x st = .ok b st' → b = false ∧ st'.Negative

/-- A formula that does not hold for want of anything that does, outside of `S`. -/
def Formula.Barren (S : Set ν) : Formula ν ε → Prop
  | .const b => b = false
  | .ref x => x ∈ S
  | .or f g => f.Barren S ∧ g.Barren S
  | .and f _ => f.Barren S
  | .not _ => False
  | .read f => f.Barren S
  | .fail _ => True

theorem Formula.barren_any {S : Set ν} {fs : List (Formula ν ε)} (h : ∀ f ∈ fs, f.Barren S) :
    (Formula.any fs).Barren S := by
  induction fs with
  | nil => rfl
  | cons f fs ih =>
    rw [List.forall_mem_cons] at h
    exact ⟨h.1, ih h.2⟩

theorem Formula.barren_all {S : Set ν} {fs : List (Formula ν ε)} (hne : fs ≠ [])
    (h : ∀ f ∈ fs, f.Barren S) : (Formula.all fs).Barren S := by
  cases fs with
  | nil => exact absurd rfl hne
  | cons f fs => exact h f List.mem_cons_self

theorem withholds_eval {exceeded : ε} {visit : ν → Bool → SearchM κ μ ε Bool} {S : Set ν}
    (hvisit : ∀ x ∈ S, Withholds (visit x false)) {f : Formula ν ε} (hf : f.Barren S) :
    Withholds (f.eval exceeded visit false) := by
  induction f with
  | const b =>
    rintro st _ _ hst ⟨⟩
    exact ⟨hf, hst⟩
  | ref x => exact hvisit x hf
  | or f g ihf ihg =>
    intro st b st' hst h
    obtain ⟨ok, s, hok, h⟩ := bind_ok.mp h
    obtain ⟨rfl, hs⟩ := ihf hf.1 st ok s hst hok
    exact ihg hf.2 s b st' hs h
  | and f g ihf _ =>
    intro st b st' hst h
    obtain ⟨ok, s, hok, h⟩ := bind_ok.mp h
    obtain ⟨rfl, hs⟩ := ihf hf st ok s hst hok
    cases h
    exact ⟨rfl, hs⟩
  | not f => exact hf.elim
  | read f ih =>
    intro st b st' hst h
    obtain ⟨_, s, hfetch, h⟩ := bind_ok.mp h
    rw [fetch_ok hfetch] at h
    exact ih hf (st.fetched 1) b st' hst h
  | fail e =>
    intro st b st' _ h
    cases h

/-! ## Searches -/

variable [DecidableEq μ] {K : Keying ν κ μ}

theorem SearchState.Negative.remember {st : SearchState κ μ} (h : st.Negative) (x : ν) (neg : Bool)
    (before : ℕ) : (st.remember K x neg before false).Negative := by
  unfold SearchState.remember
  split_ifs
  · cases K.memoKey (K.visitKey x) neg with
    | none => exact h
    | some key =>
      intro m
      by_cases hm : m = key
      · simp [hm]
      · simpa [hm] using h m
  · exact h

variable [DecidableEq κ]

theorem denies_guarded {cost : ℕ} {x : ν} {body : Option (SearchM κ μ ε Bool)}
    (h : ∀ run ∈ body, Denies cost run) : Denies cost (guarded K x false body) := by
  intro st hst hbudget
  unfold guarded
  by_cases hvisited : K.visitKey x ∈ st.visited
  · rw [if_pos hvisited]
    exact ⟨st.cycleHit, rfl, hst, rfl, Nat.le_add_right _ _⟩
  rw [if_neg hvisited]
  cases body with
  | none => exact ⟨st.depthHit, rfl, hst, rfl, Nat.le_add_right _ _⟩
  | some run =>
    cases hrecalled : st.recalled K x false with
    | some b =>
      obtain ⟨m, -, hm⟩ := Option.bind_eq_some_iff.mp hrecalled
      cases b with
      | false => exact ⟨st, rfl, hst, rfl, Nat.le_add_right _ _⟩
      | true => exact absurd hm (hst m)
    | none =>
      obtain ⟨st', heq, hst', hmax, hreads⟩ := h run rfl (st.enter (K.visitKey x)) hst hbudget
      have hleft : (st'.leave (K.visitKey x)).Negative := hst'
      obtain ⟨hmax', hreads', -⟩ :=
        reads_remember (K := K) (st'.leave (K.visitKey x)) x false false st.cyclesSeen
      simp only [heq]
      exact ⟨_, rfl, hleft.remember x false st.cyclesSeen, hmax'.trans hmax,
        hreads'.trans_le hreads⟩

/-- Among formulas without anything that holds, nothing is found. -/
theorem withholds_search {sys : ν → Formula ν ε} {exceeded : ε} {S : Set ν}
    (hS : ∀ x ∈ S, (sys x).Barren S) (left : ℕ) {x : ν} (hx : x ∈ S) :
    Withholds (search K sys exceeded left x false) := by
  induction left generalizing x with
  | zero =>
    intro st b st' hst h
    obtain ⟨-, rfl, rfl⟩ | ⟨-, -, rfl, rfl⟩ | ⟨-, -, -, hbody⟩ | ⟨-, -, run, s, hbody, -⟩ :=
      guarded_cases h
    · exact ⟨rfl, hst⟩
    · exact ⟨rfl, hst⟩
    · exact absurd rfl hbody
    · cases hbody
  | succ left ih =>
    intro st b st' hst h
    obtain ⟨-, rfl, rfl⟩ | ⟨-, -, rfl, rfl⟩ | ⟨-, hrecalled, rfl, -⟩ |
      ⟨-, -, run, s, ⟨⟩, hrun, rfl⟩ :=
      guarded_cases h
    · exact ⟨rfl, hst⟩
    · exact ⟨rfl, hst⟩
    · obtain ⟨m, -, hm⟩ := Option.bind_eq_some_iff.mp hrecalled
      cases b with
      | false => exact ⟨rfl, hst⟩
      | true => exact absurd hm (hst m)
    · obtain ⟨rfl, hs⟩ := withholds_eval (fun y hy => ih hy) (hS x hx) (st.enter _) b s hst hrun
      have hleft : (s.leave (K.visitKey x)).Negative := hs
      exact ⟨rfl, hleft.remember x false st.cyclesSeen⟩

end WorkspaceAuthz.RecursiveFormula
