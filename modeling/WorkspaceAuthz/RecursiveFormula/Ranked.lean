import WorkspaceAuthz.RecursiveFormula.Justification

/-! # Systems without loops

When every reference leads to a key of lower rank, no name is met while it is in
progress, and a search with room for the rank of its name meets no guard.
-/
namespace WorkspaceAuthz.RecursiveFormula

variable {ν κ μ ε : Type} {K : Keying ν κ μ} {sys : ν → Formula ν ε} {N : Set ν}

/-- Every reference from a name in `N` leads to a name in `N` whose key ranks lower. -/
def Ranked (K : Keying ν κ μ) (sys : ν → Formula ν ε) (N : Set ν) (rank : κ → ℕ) : Prop :=
  ∀ x ∈ N, ∀ p ∈ (sys x).refs, p.2 ∈ N ∧ rank (K.visitKey p.2) < rank (K.visitKey x)

theorem eval_quiet {exceeded : ε} {visit : ν → Bool → SearchM κ μ ε Bool}
    (hext : ∀ x neg s s' r, visit x neg s = .ok r s' → Extends s s') (V : Finset κ)
    (f : Formula ν ε)
    (hvisit : ∀ p ∈ f.refs, ∀ neg s b s', s.visited = V → visit p.2 neg s = .ok b s' →
      s'.cyclesSeen = s.cyclesSeen)
    (neg b : Bool) (st st' : SearchState κ μ) (hst : st.visited = V)
    (h : f.eval exceeded visit neg st = .ok b st') : st'.cyclesSeen = st.cyclesSeen := by
  induction f generalizing neg b st st' with
  | const c => cases h; rfl
  | ref x => exact hvisit (false, x) rfl neg st b st' hst h
  | or f g ihf ihg =>
    obtain ⟨ok, s, hf, hg⟩ := bind_ok.mp h
    have hs := ihf (fun p hp => hvisit p (.inl hp)) neg ok st s hst hf
    have hvs := (eval_extends hext f neg ok st s hf).visited.trans hst
    cases ok with
    | true => cases hg; exact hs
    | false => exact (ihg (fun p hp => hvisit p (.inr hp)) neg b s st' hvs hg).trans hs
  | and f g ihf ihg =>
    obtain ⟨ok, s, hf, hg⟩ := bind_ok.mp h
    have hs := ihf (fun p hp => hvisit p (.inl hp)) neg ok st s hst hf
    have hvs := (eval_extends hext f neg ok st s hf).visited.trans hst
    cases ok with
    | true => exact (ihg (fun p hp => hvisit p (.inr hp)) neg b s st' hvs hg).trans hs
    | false => cases hg; exact hs
  | not f ih =>
    obtain ⟨ok, s, hf, hb⟩ := bind_ok.mp h
    cases hb
    exact ih (fun p hp => hvisit (!p.1, p.2) (by simpa [Formula.refs] using hp)) (!neg) ok st _
      hst hf
  | read f ih =>
    obtain ⟨u, s, hc, hf⟩ := bind_ok.mp h
    obtain rfl := fetch_ok hc
    exact ih hvisit neg b (st.fetched 1) st' hst hf
  | fail e => cases h

variable [DecidableEq κ] [DecidableEq μ]

/-- A search with room for the rank of its name speaks through no guard. -/
theorem search_quiet {rank : κ → ℕ} (hrank : Ranked K sys N rank) {exceeded : ε} {left : ℕ}
    {x : ν} (hx : x ∈ N) {neg b : Bool} {st st' : SearchState κ μ}
    (hleft : rank (K.visitKey x) < left)
    (hvisited : ∀ k ∈ st.visited, rank (K.visitKey x) < rank k)
    (h : search K sys exceeded left x neg st = .ok b st') : st'.cyclesSeen = st.cyclesSeen := by
  induction left generalizing x neg b st st' with
  | zero => exact absurd hleft (Nat.not_lt_zero _)
  | succ left ih =>
    rcases guarded_cases h with ⟨hv, -, -⟩ | ⟨-, hbody, -, -⟩ | ⟨-, -, rfl, -⟩ |
      ⟨-, -, run, s, hrun, hs, rfl⟩
    · exact absurd (hvisited _ hv) (lt_irrefl _)
    · cases hbody
    · rfl
    · cases hrun
      have hquiet : s.cyclesSeen = st.cyclesSeen := by
        refine eval_quiet (fun x neg s s' r => search_extends K sys exceeded left x neg s s' r)
          (insert (K.visitKey x) st.visited) (sys x) ?_ neg b (st.enter (K.visitKey x)) s rfl hs
        intro p hp neg' s b' s' hs' hrun
        obtain ⟨hN, hlt⟩ := hrank x hx p hp
        refine ih hN (by omega) (fun k hk => ?_) hrun
        rw [hs'] at hk
        rcases Finset.mem_insert.mp hk with rfl | hk
        · exact hlt
        · exact hlt.trans (hvisited k hk)
      unfold SearchState.remember
      split_ifs
      · split <;> exact hquiet
      · exact hquiet

end WorkspaceAuthz.RecursiveFormula
