import WorkspaceAuthz.RecursiveFormula.Justification

/-! # The guarded search finds every shallow derivation

The in-progress guard never hides a derivation that is needed. A shortest
derivation of a name does not use the name itself, and the names in progress
above it are in progress because the search has not yet reached derivations
that are shorter still. So a verdict with few enough nested references is found,
whatever the search tried before; also a deeper one, if the depth guard is
silent.
-/
namespace WorkspaceAuthz.RecursiveFormula

variable {ν κ μ ε : Type}

/-- No name in progress has a verdict within `k` nested references. -/
def Unblocked (K : Keying ν κ μ) (sys : ν → Formula ν ε) (N : Set ν) (k : ℕ)
    (st : SearchState κ μ) : Prop :=
  ∀ y ∈ N, K.visitKey y ∈ st.visited → ∀ w, ¬ DerivesIn sys k w (sys y)

/-- Either `k` references fit below the depth bound, or the depth guard was silent. -/
def Fits (left k : ℕ) (st st' : SearchState κ μ) : Prop :=
  k ≤ left ∨ st'.backstops.depth = st.backstops.depth

variable {K : Keying ν κ μ} {sys : ν → Formula ν ε} {N : Set ν}

theorem Unblocked.anti {k l : ℕ} {st : SearchState κ μ} (h : Unblocked K sys N l st)
    (hkl : k ≤ l) : Unblocked K sys N k st :=
  fun y hy hv w hd => h y hy hv w (hd.mono hkl)

theorem Unblocked.of_visited_eq {k : ℕ} {st st' : SearchState κ μ} (h : Unblocked K sys N k st)
    (hv : st'.visited = st.visited) : Unblocked K sys N k st' := by
  intro y hy hmem
  rw [hv] at hmem
  exact h y hy hmem

theorem Fits.first {left k : ℕ} {a b c : SearchState κ μ} (h : Fits left k a c)
    (hab : Extends a b) (hbc : Extends b c) : Fits left k a b := by
  rcases h with h | h
  · exact .inl h
  · right
    have h₁ := hab.depth
    have h₂ := hbc.depth
    omega

theorem Fits.second {left k : ℕ} {a b c : SearchState κ μ} (h : Fits left k a c)
    (hab : Extends a b) (hbc : Extends b c) : Fits left k b c := by
  rcases h with h | h
  · exact .inl h
  · right
    have h₁ := hab.depth
    have h₂ := hbc.depth
    omega

/-- `visit` finds the derivations that nest fewer than `left` references. -/
def Completes (K : Keying ν κ μ) (sys : ν → Formula ν ε) (N : Set ν)
    (visit : ν → Bool → SearchM κ μ ε Bool) (left : ℕ) : Prop :=
  ∀ x ∈ N, ∀ k v st b st', DerivesIn sys k v (sys x) → MemoSound K sys N st →
    Unblocked K sys N k st → visit x (!v) st = .ok b st' → Fits left (k + 1) st st' → b = v

theorem eval_complete {exceeded : ε} {visit : ν → Bool → SearchM κ μ ε Bool} {left : ℕ}
    (hext : ∀ x neg s s' r, visit x neg s = .ok r s' → Extends s s')
    (hjust : ∀ x ∈ N, Justifies K sys N visit x) (hvisit : Completes K sys N visit left)
    (f : Formula ν ε) (hf : ∀ p ∈ f.refs, p.2 ∈ N) (k : ℕ) (v : Bool) (st : SearchState κ μ)
    (b : Bool) (st' : SearchState κ μ) (hd : DerivesIn sys k v f) (hmemo : MemoSound K sys N st)
    (hfree : ∀ j < k, Unblocked K sys N j st) (h : f.eval exceeded visit (!v) st = .ok b st')
    (hfit : Fits left k st st') : b = v := by
  induction f generalizing k v st b st' with
  | const c =>
    cases h
    cases hd
    rfl
  | ref x =>
    cases hd with
    | @ref j _ _ hd =>
      exact hvisit x (hf _ rfl) j v st b st' hd hmemo (hfree j (Nat.lt_succ_self j)) h hfit
  | or f g ihf ihg =>
    obtain ⟨ok, s, hfr, hgr⟩ := bind_ok.mp h
    have hff : ∀ p ∈ f.refs, p.2 ∈ N := fun p hp => hf p (.inl hp)
    have hgf : ∀ p ∈ g.refs, p.2 ∈ N := fun p hp => hf p (.inr hp)
    have hfx := eval_extends hext f _ ok st s hfr
    have hs := (eval_justified exceeded hext f (fun p hp => hjust p.2 (hff p hp)) _ st ok s
      hmemo hfr).1
    have hfree' : ∀ j < k, Unblocked K sys N j s :=
      fun j hj => (hfree j hj).of_visited_eq hfx.visited
    cases ok with
    | true =>
      cases hgr
      cases hd with
      | orLeft _ => rfl
      | orRight _ => rfl
      | orNeither hdf _ => exact ihf hff k false st true _ hdf hmemo hfree hfr hfit
    | false =>
      have hgx := eval_extends hext g _ b s st' hgr
      cases hd with
      | orLeft hdf =>
        have := ihf hff k true st false s hdf hmemo hfree hfr (hfit.first hfx hgx)
        cases this
      | orRight hdg => exact ihg hgf k true s b st' hdg hs hfree' hgr (hfit.second hfx hgx)
      | orNeither _ hdg => exact ihg hgf k false s b st' hdg hs hfree' hgr (hfit.second hfx hgx)
  | and f g ihf ihg =>
    obtain ⟨ok, s, hfr, hgr⟩ := bind_ok.mp h
    have hff : ∀ p ∈ f.refs, p.2 ∈ N := fun p hp => hf p (.inl hp)
    have hgf : ∀ p ∈ g.refs, p.2 ∈ N := fun p hp => hf p (.inr hp)
    have hfx := eval_extends hext f _ ok st s hfr
    have hs := (eval_justified exceeded hext f (fun p hp => hjust p.2 (hff p hp)) _ st ok s
      hmemo hfr).1
    have hfree' : ∀ j < k, Unblocked K sys N j s :=
      fun j hj => (hfree j hj).of_visited_eq hfx.visited
    cases ok with
    | true =>
      have hgx := eval_extends hext g _ b s st' hgr
      cases hd with
      | andBoth _ hdg => exact ihg hgf k true s b st' hdg hs hfree' hgr (hfit.second hfx hgx)
      | andLeft hdf =>
        have := ihf hff k false st true s hdf hmemo hfree hfr (hfit.first hfx hgx)
        cases this
      | andRight hdg => exact ihg hgf k false s b st' hdg hs hfree' hgr (hfit.second hfx hgx)
    | false =>
      cases hgr
      cases hd with
      | andBoth hdf _ => exact ihf hff k true st false _ hdf hmemo hfree hfr hfit
      | andLeft _ => rfl
      | andRight _ => rfl
  | not f ih =>
    obtain ⟨ok, s, hfr, hb⟩ := bind_ok.mp h
    cases hb
    cases hd with
    | not hd =>
      have hrefs : ∀ p ∈ f.refs, p.2 ∈ N := fun p hp =>
        hf (!p.1, p.2) (by simpa [Formula.refs] using hp)
      rw [ih hrefs k (!v) st ok _ hd hmemo hfree hfr hfit, Bool.not_not]
  | read f ih =>
    obtain ⟨u, s, hc, hfr⟩ := bind_ok.mp h
    have hcx := fetch_extends hc
    have hfx := eval_extends hext f _ b s st' hfr
    have hs : s.memo = st.memo := fetch_memo hc
    cases hd with
    | read hd =>
      exact ih hf k v s b st' hd (hmemo.of_memo_eq hs)
        (fun j hj => (hfree j hj).of_visited_eq hcx.visited) hfr (hfit.second hcx hfx)
  | fail e => cases h

variable [DecidableEq κ]

/-- A shortest derivation of `x` stays available after `x` is marked in progress. -/
theorem unblocked_enter (hK : K.Separates N) {x : ν} (hx : x ∈ N) {k l : ℕ} {v : Bool}
    {st : SearchState κ μ} (hfree : Unblocked K sys N l st) (hkl : k ≤ l)
    (hd : DerivesIn sys k v (sys x)) (hleast : ∀ j < k, ¬ DerivesIn sys j v (sys x)) (j : ℕ)
    (hj : j < k) : Unblocked K sys N j (st.enter (K.visitKey x)) := by
  intro y hy hmem w hw
  rcases Finset.mem_insert.mp hmem with hkey | hmem
  · obtain rfl := hK hy hx hkey
    obtain rfl := hw.unique hd
    exact hleast j hj hw
  · exact hfree.anti (by omega) y hy hmem w hw

variable [DecidableEq μ]

theorem search_complete (hK : K.Separates N) (hN : Closed sys N) (exceeded : ε) (left : ℕ) :
    Completes K sys N (search K sys exceeded left) left := by
  induction left with
  | zero =>
    intro x hx k v st b st' hd hmemo hfree h hfit
    rcases guarded_cases h with ⟨hv, -, -⟩ | ⟨-, -, -, rfl⟩ | ⟨-, hr, -, -⟩ | ⟨-, -, run, -, hn, -⟩
    · exact absurd hd (hfree x hx hv v)
    · simp [Fits, SearchState.depthHit] at hfit
    · exact (hmemo x hx _ b hr).unique hd.derives
    · cases hn
  | succ left ih =>
    intro x hx k v st b st' hd hmemo hfree h hfit
    rcases guarded_cases h with ⟨hv, -, -⟩ | ⟨-, hn, -, -⟩ | ⟨-, hr, -, -⟩ |
      ⟨hv, -, run, s, hn, hs, rfl⟩
    · exact absurd hd (hfree x hx hv v)
    · cases hn
    · exact (hmemo x hx _ b hr).unique hd.derives
    · cases hn
      have hext := search_extends K sys exceeded left
      -- Follow a shortest derivation of `x`, so that `x` itself is not needed below.
      classical
      have hex : ∃ j, DerivesIn sys j v (sys x) := ⟨k, hd⟩
      obtain ⟨least, hleast, hle, hmin⟩ : ∃ l, DerivesIn sys l v (sys x) ∧ l ≤ k ∧
          ∀ j < l, ¬ DerivesIn sys j v (sys x) :=
        ⟨Nat.find hex, Nat.find_spec hex, Nat.find_min' hex hd, fun j hj => Nat.find_min hex hj⟩
      refine eval_complete (fun x neg s s' r => hext x neg s s' r)
        (fun y hy => search_justified hK hN exceeded left y hy) ih (sys x) (hN x hx) least v
        (st.enter (K.visitKey x)) b s hleast (hmemo.of_memo_eq rfl)
        (unblocked_enter hK hx hfree hle hleast hmin) hs ?_
      rcases hfit with hfit | hfit
      · exact .inl (by omega)
      · right
        have hrem := (remember_extends K x (!v) st.cyclesSeen b (s.leave (K.visitKey x))).depth
        have hmono := (eval_extends (fun x neg s s' r => hext x neg s s' r) _ _ _ _ _ hs).depth
        change s.backstops.depth ≤ _ at hrem
        change st.backstops.depth ≤ s.backstops.depth at hmono
        change s.backstops.depth = st.backstops.depth
        omega

end WorkspaceAuthz.RecursiveFormula
