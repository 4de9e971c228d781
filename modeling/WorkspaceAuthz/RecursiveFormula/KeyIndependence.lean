import WorkspaceAuthz.RecursiveFormula.Justification

/-! # The search does not depend on how names are keyed

Two searches of one system that differ only in their keys go through the same
answers and the same failures, as long as both keyings tell the names apart
that the search can meet.
-/
namespace WorkspaceAuthz.RecursiveFormula

variable {ν κ₁ μ₁ κ₂ μ₂ ε α β : Type}

/-- The second result repeats the first, in a related state. -/
def Simulates {σ₁ σ₂ : Type} (R : σ₁ → σ₂ → Prop) (r₁ : EStateM.Result ε σ₁ α)
    (r₂ : EStateM.Result ε σ₂ α) : Prop :=
  match r₁ with
  | .ok a s => ∃ s', r₂ = .ok a s' ∧ R s s'
  | .error e _ => ∃ s', r₂ = .error e s'

theorem bind_simulates {R : SearchState κ₁ μ₁ → SearchState κ₂ μ₂ → Prop}
    {x₁ : SearchM κ₁ μ₁ ε α} {x₂ : SearchM κ₂ μ₂ ε α} {f₁ : α → SearchM κ₁ μ₁ ε β}
    {f₂ : α → SearchM κ₂ μ₂ ε β} {s₁ : SearchState κ₁ μ₁} {s₂ : SearchState κ₂ μ₂}
    (hx : Simulates R (x₁ s₁) (x₂ s₂))
    (hf : ∀ a s s', R s s' → Simulates R (f₁ a s) (f₂ a s')) :
    Simulates R ((x₁ >>= f₁) s₁) ((x₂ >>= f₂) s₂) := by
  change Simulates R (EStateM.bind x₁ f₁ s₁) (EStateM.bind x₂ f₂ s₂)
  unfold EStateM.bind
  cases h : x₁ s₁ with
  | ok a s =>
    rw [h] at hx
    obtain ⟨s', hx₂, hR⟩ := hx
    simp only [hx₂]
    exact hf a s s' hR
  | error e s =>
    rw [h] at hx
    obtain ⟨s', hx₂⟩ := hx
    simp only [hx₂]
    exact ⟨s', rfl⟩

theorem eval_simulates {R : SearchState κ₁ μ₁ → SearchState κ₂ μ₂ → Prop} {exceeded : ε}
    {visit₁ : ν → Bool → SearchM κ₁ μ₁ ε Bool} {visit₂ : ν → Bool → SearchM κ₂ μ₂ ε Bool}
    (hfetch : ∀ s₁ s₂, R s₁ s₂ → Simulates R (fetch exceeded s₁) (fetch exceeded s₂))
    (f : Formula ν ε)
    (hvisit : ∀ p ∈ f.refs, ∀ neg s₁ s₂, R s₁ s₂ →
      Simulates R (visit₁ p.2 neg s₁) (visit₂ p.2 neg s₂))
    (neg : Bool) (s₁ : SearchState κ₁ μ₁) (s₂ : SearchState κ₂ μ₂) (hR : R s₁ s₂) :
    Simulates R (f.eval exceeded visit₁ neg s₁) (f.eval exceeded visit₂ neg s₂) := by
  induction f generalizing neg s₁ s₂ with
  | const c => exact ⟨s₂, rfl, hR⟩
  | ref x => exact hvisit (false, x) rfl neg s₁ s₂ hR
  | or f g ihf ihg =>
    refine bind_simulates (ihf (fun p hp => hvisit p (.inl hp)) neg s₁ s₂ hR) ?_
    intro ok s s' hs
    cases ok with
    | true => exact ⟨s', rfl, hs⟩
    | false => exact ihg (fun p hp => hvisit p (.inr hp)) neg s s' hs
  | and f g ihf ihg =>
    refine bind_simulates (ihf (fun p hp => hvisit p (.inl hp)) neg s₁ s₂ hR) ?_
    intro ok s s' hs
    cases ok with
    | true => exact ihg (fun p hp => hvisit p (.inr hp)) neg s s' hs
    | false => exact ⟨s', rfl, hs⟩
  | not f ih =>
    have hrefs : ∀ p ∈ f.refs, ∀ neg s₁ s₂, R s₁ s₂ →
        Simulates R (visit₁ p.2 neg s₁) (visit₂ p.2 neg s₂) := fun p hp =>
      hvisit (!p.1, p.2) (by simpa [Formula.refs] using hp)
    refine bind_simulates (ih hrefs (!neg) s₁ s₂ hR) ?_
    intro ok s s' hs
    exact ⟨s', rfl, hs⟩
  | read f ih =>
    refine bind_simulates (hfetch s₁ s₂ hR) ?_
    intro _ s s' hs
    exact ih hvisit neg s s' hs
  | fail e => exact ⟨s₂, rfl⟩

/-- The states of two searches that differ only in their keys. -/
structure Matches (K₁ : Keying ν κ₁ μ₁) (K₂ : Keying ν κ₂ μ₂) (N : Set ν)
    (s₁ : SearchState κ₁ μ₁) (s₂ : SearchState κ₂ μ₂) : Prop where
  visited : ∀ x ∈ N, K₁.visitKey x ∈ s₁.visited ↔ K₂.visitKey x ∈ s₂.visited
  memo : ∀ x ∈ N, ∀ neg, s₁.recalled K₁ x neg = s₂.recalled K₂ x neg
  cyclesSeen : s₁.cyclesSeen = s₂.cyclesSeen
  reads : s₁.reads = s₂.reads
  maxReads : s₁.maxReads = s₂.maxReads
  backstops : s₁.backstops = s₂.backstops

variable {K₁ : Keying ν κ₁ μ₁} {K₂ : Keying ν κ₂ μ₂} {N : Set ν} {sys : ν → Formula ν ε}
  {s₁ : SearchState κ₁ μ₁} {s₂ : SearchState κ₂ μ₂}

namespace Matches

theorem cycleHit (h : Matches K₁ K₂ N s₁ s₂) : Matches K₁ K₂ N s₁.cycleHit s₂.cycleHit where
  visited := h.visited
  memo := h.memo
  cyclesSeen := congrArg (· + 1) h.cyclesSeen
  reads := h.reads
  maxReads := h.maxReads
  backstops := by simp only [SearchState.cycleHit, h.backstops]

theorem depthHit (h : Matches K₁ K₂ N s₁ s₂) : Matches K₁ K₂ N s₁.depthHit s₂.depthHit where
  visited := h.visited
  memo := h.memo
  cyclesSeen := congrArg (· + 1) h.cyclesSeen
  reads := h.reads
  maxReads := h.maxReads
  backstops := by simp only [SearchState.depthHit, h.backstops]

theorem fetch (exceeded : ε) (h : Matches K₁ K₂ N s₁ s₂) :
    Simulates (Matches K₁ K₂ N) (RecursiveFormula.fetch exceeded s₁)
      (RecursiveFormula.fetch exceeded s₂) := by
  have hcond : (0 < s₁.maxReads ∧ s₁.maxReads < (s₁.reads + 1 : ℕ)) ↔
      (0 < s₂.maxReads ∧ s₂.maxReads < (s₂.reads + 1 : ℕ)) := by rw [h.maxReads, h.reads]
  by_cases hc : 0 < s₁.maxReads ∧ s₁.maxReads < (s₁.reads + 1 : ℕ)
  · rw [fetch_refused hc, fetch_refused (hcond.mp hc)]
    exact ⟨_, rfl⟩
  · rw [fetch_granted hc, fetch_granted (mt hcond.mpr hc)]
    exact ⟨_, rfl, h.visited, h.memo, h.cyclesSeen, congrArg (· + 1) h.reads, h.maxReads,
      h.backstops⟩

theorem enter [DecidableEq κ₁] [DecidableEq κ₂] (h : Matches K₁ K₂ N s₁ s₂)
    (h₁ : K₁.Separates N) (h₂ : K₂.Separates N) {x : ν} (hx : x ∈ N) :
    Matches K₁ K₂ N (s₁.enter (K₁.visitKey x)) (s₂.enter (K₂.visitKey x)) where
  visited y hy := by
    simp only [SearchState.enter, Finset.mem_insert, h.visited y hy]
    constructor
    · rintro (hk | hv)
      · exact .inl (congrArg K₂.visitKey (h₁ hy hx hk))
      · exact .inr hv
    · rintro (hk | hv)
      · exact .inl (congrArg K₁.visitKey (h₂ hy hx hk))
      · exact .inr hv
  memo := h.memo
  cyclesSeen := h.cyclesSeen
  reads := h.reads
  maxReads := h.maxReads
  backstops := h.backstops

theorem remember [DecidableEq μ₁] [DecidableEq μ₂] {t₁ : SearchState κ₁ μ₁}
    {t₂ : SearchState κ₂ μ₂} (h : Matches K₁ K₂ N t₁ t₂)
    (h₁ : K₁.Separates N) (h₂ : K₂.Separates N) (hr₁ : K₁.Remembers) (hr₂ : K₂.Remembers)
    {x : ν} (hx : x ∈ N) {neg res : Bool} {before : ℕ} :
    Matches K₁ K₂ N (t₁.remember K₁ x neg before res) (t₂.remember K₂ x neg before res) where
  visited y hy := by
    rw [remember_visited, remember_visited]
    exact h.visited y hy
  memo y hy neg' := by
    by_cases hself : t₁.cyclesSeen = before ∧ y = x ∧ neg' = neg
    · obtain ⟨hclean, rfl, rfl⟩ := hself
      rw [recalled_remember_self hr₁ hclean,
        recalled_remember_self hr₂ (h.cyclesSeen.symm.trans hclean)]
    · rw [recalled_remember_of_ne, recalled_remember_of_ne, h.memo y hy neg']
      · rintro ⟨hclean, hkey, hneg⟩
        exact hself ⟨h.cyclesSeen.trans hclean, h₂ hy hx hkey, hneg⟩
      · rintro ⟨hclean, hkey, hneg⟩
        exact hself ⟨hclean, h₁ hy hx hkey, hneg⟩
  cyclesSeen := by
    unfold SearchState.remember
    split_ifs <;> (try split) <;> (try split) <;> exact h.cyclesSeen
  reads := by
    unfold SearchState.remember
    split_ifs <;> (try split) <;> (try split) <;> exact h.reads
  maxReads := by
    rw [(remember_extends K₁ x neg before res t₁).maxReads,
      (remember_extends K₂ x neg before res t₂).maxReads]
    exact h.maxReads
  backstops := by
    unfold SearchState.remember
    split_ifs <;> (try split) <;> (try split) <;> exact h.backstops

end Matches

variable [DecidableEq κ₁] [DecidableEq μ₁] [DecidableEq κ₂] [DecidableEq μ₂]

theorem search_simulates (h₁ : K₁.Separates N) (h₂ : K₂.Separates N) (hr₁ : K₁.Remembers)
    (hr₂ : K₂.Remembers) (hN : Closed sys N) (exceeded : ε) (left : ℕ) (x : ν) (hx : x ∈ N)
    (neg : Bool) (s₁ : SearchState κ₁ μ₁) (s₂ : SearchState κ₂ μ₂) (h : Matches K₁ K₂ N s₁ s₂) :
    Simulates (Matches K₁ K₂ N) (search K₁ sys exceeded left x neg s₁)
      (search K₂ sys exceeded left x neg s₂) := by
  induction left generalizing x neg s₁ s₂ with
  | zero =>
    unfold search guarded
    by_cases hv : K₁.visitKey x ∈ s₁.visited
    · rw [if_pos hv, if_pos ((h.visited x hx).mp hv)]
      exact ⟨_, rfl, h.cycleHit⟩
    · rw [if_neg hv, if_neg (fun hv' => hv ((h.visited x hx).mpr hv'))]
      exact ⟨_, rfl, h.depthHit⟩
  | succ left ih =>
    have hrun := eval_simulates (fun s₁ s₂ hs => hs.fetch exceeded) (sys x)
      (fun p hp => ih p.2 (hN x hx p hp)) neg _ _ (h.enter h₁ h₂ hx)
    unfold search guarded
    by_cases hv : K₁.visitKey x ∈ s₁.visited
    · rw [if_pos hv, if_pos ((h.visited x hx).mp hv)]
      exact ⟨_, rfl, h.cycleHit⟩
    have hv₂ : K₂.visitKey x ∉ s₂.visited := fun hv' => hv ((h.visited x hx).mpr hv')
    rw [if_neg hv, if_neg hv₂]
    simp only [← h.memo x hx neg]
    cases s₁.recalled K₁ x neg with
    | some r => exact ⟨s₂, rfl, h⟩
    | none =>
      simp only
      cases he : (sys x).eval exceeded (search K₁ sys exceeded left) neg
          (s₁.enter (K₁.visitKey x)) with
      | error e t₁ =>
        rw [he] at hrun
        obtain ⟨t₂, ht₂⟩ := hrun
        simp only [ht₂]
        exact ⟨_, rfl⟩
      | ok res t₁ =>
        rw [he] at hrun
        obtain ⟨t₂, ht₂, ht⟩ := hrun
        simp only [ht₂]
        have hx₁ := leave_extends hv
          (eval_extends (search_extends K₁ sys exceeded left) _ _ _ _ _ he)
        have hx₂ := leave_extends hv₂
          (eval_extends (search_extends K₂ sys exceeded left) _ _ _ _ _ ht₂)
        have hleft : Matches K₁ K₂ N (t₁.leave (K₁.visitKey x)) (t₂.leave (K₂.visitKey x)) := by
          refine ⟨?_, ht.memo, ht.cyclesSeen, ht.reads, ht.maxReads, ht.backstops⟩
          rw [hx₁.visited, hx₂.visited]
          exact h.visited
        refine ⟨_, rfl, ?_⟩
        rw [← h.cyclesSeen]
        exact hleft.remember h₁ h₂ hr₁ hr₂ hx

end WorkspaceAuthz.RecursiveFormula
