import WorkspaceAuthz.RecursiveFormula.Search

/-! # Searches that meet nothing twice

Along a chain of names with different keys, and before anything is remembered, the
guards do nothing but let the evaluation through. The answer is then that of the
formulas, as long as the budget has room for their reads.
-/
namespace WorkspaceAuthz.RecursiveFormula

variable {ν κ μ ε : Type}

/-- Nothing is remembered, and none of `keys` is in progress. -/
structure SearchState.Fresh (keys : List κ) (st : SearchState κ μ) : Prop where
  memo : ∀ m, st.memo m = none
  visited : ∀ key ∈ keys, key ∉ st.visited

/-- With room for `cost` reads the answer is `b`, where `keys` are not in progress. -/
def Settles (b : Bool) (cost : ℕ) (keys : List κ) (x : SearchM κ μ ε Bool) : Prop :=
  ∀ st : SearchState κ μ, st.Fresh keys →
    (0 < st.maxReads → ((st.reads + cost : ℕ) : ℤ) ≤ st.maxReads) → ∃ st', x st = .ok b st'

theorem settles_pure (b : Bool) (cost : ℕ) (keys : List κ) :
    Settles b cost keys (pure b : SearchM κ μ ε Bool) :=
  fun st _ _ => ⟨st, rfl⟩

theorem settles_fetch {b : Bool} {cost : ℕ} {keys : List κ} {exceeded : ε}
    {x : SearchM κ μ ε Bool} (hx : Settles b cost keys x) :
    Settles b (cost + 1) keys (do
      fetch exceeded
      x) := by
  intro st hfresh hbudget
  have hfetch : (fetch exceeded : SearchM κ μ ε Unit) st = .ok () (st.fetched 1) := by
    refine fetch_granted fun hexceeded => ?_
    have := hbudget hexceeded.1
    omega
  obtain ⟨st', heq⟩ := hx (st.fetched 1) ⟨hfresh.memo, hfresh.visited⟩
    fun hpos => by
      have := hbudget hpos
      change ((st.reads + 1 + cost : ℕ) : ℤ) ≤ st.maxReads
      omega
  exact ⟨st', bind_ok.mpr ⟨(), _, hfetch, heq⟩⟩

variable [DecidableEq κ] [DecidableEq μ] {K : Keying ν κ μ}

theorem settles_guarded {b : Bool} {cost : ℕ} {keys : List κ} {x : ν} {neg : Bool}
    {run : SearchM κ μ ε Bool} (hkey : K.visitKey x ∉ keys) (h : Settles b cost keys run) :
    Settles b cost (K.visitKey x :: keys) (guarded K x neg (some run)) := by
  intro st hfresh hbudget
  have hentered : (st.enter (K.visitKey x)).Fresh keys := by
    refine ⟨hfresh.memo, fun key hmem hvisited => ?_⟩
    rcases Finset.mem_insert.mp hvisited with rfl | hvisited
    · exact hkey hmem
    · exact hfresh.visited key (List.mem_cons_of_mem _ hmem) hvisited
  have hrecalled : st.recalled K x neg = none := by
    rw [SearchState.recalled, Option.bind_eq_none_iff]
    exact fun m _ => hfresh.memo m
  obtain ⟨st', heq⟩ := h _ hentered hbudget
  unfold guarded
  rw [if_neg (hfresh.visited _ List.mem_cons_self)]
  simp only [hrecalled, heq]
  exact ⟨_, rfl⟩

end WorkspaceAuthz.RecursiveFormula
