import WorkspaceAuthz.RecursiveFormula.Search

/-! # Answers of the guarded search are derivable

The default of a guard is the verdict of the negation parity it is asked under.
So an answer that differs from this parity cannot stem from a guard, and it has
a derivation. An answer during which no guard spoke has a derivation in either
case; these are the answers the memo keeps.
-/
namespace WorkspaceAuthz.RecursiveFormula

variable {ν κ μ ε : Type}

/-- Names in `N` are told apart by the key they are visited under. -/
def Keying.Separates (K : Keying ν κ μ) (N : Set ν) : Prop := Set.InjOn K.visitKey N

/-- A set of names that contains whatever its members refer to. -/
def Closed (sys : ν → Formula ν ε) (N : Set ν) : Prop :=
  ∀ x ∈ N, ∀ p ∈ (sys x).refs, p.2 ∈ N

/-- Every remembered verdict on a name in `N` is derivable. -/
def MemoSound (K : Keying ν κ μ) (sys : ν → Formula ν ε) (N : Set ν) (st : SearchState κ μ) :
    Prop :=
  ∀ x ∈ N, ∀ neg b, st.recalled K x neg = some b → Derives sys b (sys x)

/-- A default answer is justified only if no guard spoke. -/
def Justified (sys : ν → Formula ν ε) (f : Formula ν ε) (neg b : Bool) (st st' : SearchState κ μ) :
    Prop :=
  (b ≠ neg ∨ st'.cyclesSeen = st.cyclesSeen) → Derives sys b f

/-- The answers of `visit` on `x` are justified, and keep the memo sound. -/
def Justifies (K : Keying ν κ μ) (sys : ν → Formula ν ε) (N : Set ν)
    (visit : ν → Bool → SearchM κ μ ε Bool) (x : ν) : Prop :=
  ∀ neg st b st', MemoSound K sys N st → visit x neg st = .ok b st' →
    MemoSound K sys N st' ∧ Justified sys (sys x) neg b st st'

variable {K : Keying ν κ μ} {sys : ν → Formula ν ε} {N : Set ν}

theorem MemoSound.of_memo_eq {st st' : SearchState κ μ} (h : MemoSound K sys N st)
    (hmemo : st'.memo = st.memo) : MemoSound K sys N st' := by
  intro x hx neg b hb
  apply h x hx neg b
  rwa [SearchState.recalled, hmemo] at hb

theorem Justified.of_extends {f : Formula ν ε} {neg b : Bool} {a st st' c : SearchState κ μ}
    (h : Justified sys f neg b st st') (hst : Extends a st) (hst' : Extends st' c)
    (hrun : Extends st st') : Justified sys f neg b a c := by
  intro hb
  apply h
  rcases hb with hb | hb
  · exact .inl hb
  · right
    have h₁ := hst.cyclesSeen
    have h₂ := hst'.cyclesSeen
    have h₃ := hrun.cyclesSeen
    omega

theorem eval_justified (exceeded : ε) {visit : ν → Bool → SearchM κ μ ε Bool}
    (hext : ∀ x neg s s' r, visit x neg s = .ok r s' → Extends s s') (f : Formula ν ε)
    (hvisit : ∀ p ∈ f.refs, Justifies K sys N visit p.2) (neg : Bool) (st : SearchState κ μ)
    (b : Bool) (st' : SearchState κ μ) (hmemo : MemoSound K sys N st)
    (h : f.eval exceeded visit neg st = .ok b st') :
    MemoSound K sys N st' ∧ Justified sys f neg b st st' := by
  induction f generalizing neg st b st' with
  | const c =>
    cases h
    exact ⟨hmemo, fun _ => .const c⟩
  | ref x =>
    obtain ⟨hmemo', hj⟩ := hvisit (false, x) rfl neg st b st' hmemo h
    exact ⟨hmemo', fun hb => .ref (hj hb)⟩
  | or f g ihf ihg =>
    obtain ⟨ok, s, hf, hg⟩ := bind_ok.mp h
    have hfx := eval_extends hext f neg ok st s hf
    obtain ⟨hs, jf⟩ := ihf (fun p hp => hvisit p (.inl hp)) neg st ok s hmemo hf
    cases ok with
    | true =>
      cases hg
      exact ⟨hs, fun hb => .orLeft (jf hb)⟩
    | false =>
      have hgx := eval_extends hext g neg b s st' hg
      obtain ⟨hs', jg⟩ := ihg (fun p hp => hvisit p (.inr hp)) neg s b st' hs hg
      refine ⟨hs', fun hb => ?_⟩
      have dg := jg.of_extends hfx (.refl _) hgx hb
      cases b with
      | true => exact .orRight dg
      | false => exact .orNeither (jf.of_extends (.refl _) hgx hfx hb) dg
  | and f g ihf ihg =>
    obtain ⟨ok, s, hf, hg⟩ := bind_ok.mp h
    have hfx := eval_extends hext f neg ok st s hf
    obtain ⟨hs, jf⟩ := ihf (fun p hp => hvisit p (.inl hp)) neg st ok s hmemo hf
    cases ok with
    | true =>
      have hgx := eval_extends hext g neg b s st' hg
      obtain ⟨hs', jg⟩ := ihg (fun p hp => hvisit p (.inr hp)) neg s b st' hs hg
      refine ⟨hs', fun hb => ?_⟩
      have dg := jg.of_extends hfx (.refl _) hgx hb
      cases b with
      | true => exact .andBoth (jf.of_extends (.refl _) hgx hfx hb) dg
      | false => exact .andRight dg
    | false =>
      cases hg
      exact ⟨hs, fun hb => .andLeft (jf hb)⟩
  | not f ih =>
    obtain ⟨ok, s, hf, hb⟩ := bind_ok.mp h
    cases hb
    have hrefs : ∀ p ∈ f.refs, Justifies K sys N visit p.2 := fun p hp =>
      hvisit (!p.1, p.2) (by simpa [Formula.refs] using hp)
    obtain ⟨hs, jf⟩ := ih hrefs (!neg) st ok _ hmemo hf
    refine ⟨hs, fun hb => .not ?_⟩
    rw [Bool.not_not]
    apply jf
    rcases hb with hb | hb
    · left
      rintro rfl
      exact hb (Bool.not_not neg)
    · exact .inr hb
  | read f ih =>
    obtain ⟨u, s, hc, hf⟩ := bind_ok.mp h
    have hs : s.memo = st.memo := fetch_memo hc
    have hfx := eval_extends hext f neg b s st' hf
    obtain ⟨hs', jf⟩ := ih (fun p hp => hvisit p hp) neg s b st' (hmemo.of_memo_eq hs) hf
    exact ⟨hs', fun hb => .read (jf.of_extends (fetch_extends hc) (.refl _) hfx hb)⟩
  | fail e => cases h

variable [DecidableEq μ]

theorem recalled_remember {x y : ν} {neg neg' : Bool} {before : ℕ} {res b : Bool}
    {st : SearchState κ μ} (h : (st.remember K x neg before res).recalled K y neg' = some b) :
    st.recalled K y neg' = some b ∨
      (K.visitKey y = K.visitKey x ∧ b = res ∧ st.cyclesSeen = before) := by
  unfold SearchState.remember at h
  split_ifs at h with hclean
  · cases hm : K.memoKey (K.visitKey x) neg with
    | none =>
      simp only [hm] at h
      exact .inl h
    | some m =>
      simp only [hm, SearchState.recalled, Option.bind_eq_some_iff] at h
      obtain ⟨m', hm', hb⟩ := h
      by_cases hmm : m' = m
      · subst hmm
        rw [Function.update_self] at hb
        cases hb
        exact .inr ⟨(K.memoKey_inj hm' hm).1, rfl, hclean⟩
      · rw [Function.update_of_ne hmm] at hb
        left
        rw [SearchState.recalled, hm']
        exact hb
  · exact .inl h

variable [DecidableEq κ]

theorem guarded_justified {x : ν} {neg b : Bool} {body : Option (SearchM κ μ ε Bool)}
    {st st' : SearchState κ μ}
    (hext : ∀ run, body = some run → ∀ s s' r, run s = .ok r s' → Extends s s')
    (hrecall : ∀ r, st.recalled K x neg = some r → Derives sys r (sys x))
    (hbody : ∀ run, body = some run → ∀ s r, run (st.enter (K.visitKey x)) = .ok r s →
      Justified sys (sys x) neg r (st.enter (K.visitKey x)) s)
    (h : guarded K x neg body st = .ok b st') : Justified sys (sys x) neg b st st' := by
  rcases guarded_cases h with ⟨-, rfl, rfl⟩ | ⟨-, -, rfl, rfl⟩ | ⟨-, hr, rfl, -⟩ |
    ⟨hv, -, run, s, hrun, hs, rfl⟩
  · intro hb
    simp [SearchState.cycleHit] at hb
  · intro hb
    simp [SearchState.depthHit] at hb
  · exact fun _ => hrecall b hr
  · intro hb
    apply hbody run hrun s b hs
    rcases hb with hb | hb
    · exact .inl hb
    · right
      have hrem := (remember_extends K x neg st.cyclesSeen b (s.leave (K.visitKey x))).cyclesSeen
      have hle := (hext run hrun _ _ _ hs).cyclesSeen
      change st.cyclesSeen ≤ s.cyclesSeen at hle
      change s.cyclesSeen ≤ _ at hrem
      change s.cyclesSeen = st.cyclesSeen
      omega

/-- Every answer on a name of a closed, separated set is justified. -/
theorem search_justified (hK : K.Separates N) (hN : Closed sys N) (exceeded : ε) (left : ℕ) (x : ν)
    (hx : x ∈ N) : Justifies K sys N (search K sys exceeded left) x := by
  induction left generalizing x with
  | zero =>
    intro neg st b st' hmemo h
    have hj : Justified sys (sys x) neg b st st' := by
      refine guarded_justified ?_ (hmemo x hx neg) ?_ h
      · rintro run ⟨⟩
      · rintro run ⟨⟩
    rcases guarded_cases h with ⟨-, -, rfl⟩ | ⟨-, -, -, rfl⟩ | ⟨-, -, rfl, -⟩ |
      ⟨-, -, run, -, hn, -⟩
    · exact ⟨hmemo.of_memo_eq rfl, hj⟩
    · exact ⟨hmemo.of_memo_eq rfl, hj⟩
    · exact ⟨hmemo, hj⟩
    · cases hn
  | succ left ih =>
    intro neg st b st' hmemo h
    have hext := search_extends K sys exceeded left
    have hrefs : ∀ p ∈ (sys x).refs, Justifies K sys N (search K sys exceeded left) p.2 :=
      fun p hp => ih p.2 (hN x hx p hp)
    have hrun := fun s r => eval_justified exceeded
      (fun x neg s s' r => hext x neg s s' r) (sys x) hrefs neg (st.enter (K.visitKey x)) r s
      (hmemo.of_memo_eq rfl)
    have hj : Justified sys (sys x) neg b st st' := by
      refine guarded_justified ?_ (hmemo x hx neg) ?_ h
      · rintro run ⟨⟩ s s' r hr
        exact eval_extends (fun x neg s s' r => hext x neg s s' r) _ _ _ _ _ hr
      · rintro run ⟨⟩ s r hr
        exact (hrun s r hr).2
    rcases guarded_cases h with ⟨-, -, rfl⟩ | ⟨-, -, -, rfl⟩ | ⟨-, -, rfl, -⟩ |
      ⟨hv, -, run, s, hn, hs, rfl⟩
    · exact ⟨hmemo.of_memo_eq rfl, hj⟩
    · exact ⟨hmemo.of_memo_eq rfl, hj⟩
    · exact ⟨hmemo, hj⟩
    · cases hn
      obtain ⟨hmemo', hjs⟩ := hrun s b hs
      refine ⟨fun y hy neg' c hc => ?_, hj⟩
      rcases recalled_remember hc with hc | ⟨hkey, rfl, hclean⟩
      · exact hmemo' y hy neg' c hc
      · obtain rfl := hK hy hx hkey
        exact hjs (.inr hclean)

/-- A search that starts with an empty memo is justified even if its first name
shares a key with others: the memo is written for it only at the end. -/
theorem search_root_justified (hK : K.Separates N) (hN : Closed sys N) {exceeded : ε} {left : ℕ}
    {x : ν} (hx : ∀ p ∈ (sys x).refs, p.2 ∈ N) {neg b : Bool} {st st' : SearchState κ μ}
    (hempty : ∀ m, st.memo m = none)
    (h : search K sys exceeded left x neg st = .ok b st') :
    Justified sys (sys x) neg b st st' := by
  have hnone : ∀ y neg, st.recalled K y neg = none := by
    intro y neg
    simp [SearchState.recalled, hempty]
  have hmemo : MemoSound K sys N st := fun y _ neg b hb => by simp [hnone] at hb
  cases left with
  | zero =>
    refine guarded_justified ?_ (fun r hr => by simp [hnone] at hr) ?_ h
    · rintro run ⟨⟩
    · rintro run ⟨⟩
  | succ left =>
    have hext := search_extends K sys exceeded left
    refine guarded_justified ?_ (fun r hr => by simp [hnone] at hr) ?_ h
    · rintro run ⟨⟩ s s' r hr
      exact eval_extends (fun x neg s s' r => hext x neg s s' r) _ _ _ _ _ hr
    · rintro run ⟨⟩ s r hr
      exact (eval_justified exceeded (fun x neg s s' r => hext x neg s s' r) (sys x)
        (fun p hp => search_justified hK hN exceeded left p.2 (hx p hp)) neg
        (st.enter (K.visitKey x)) r s (hmemo.of_memo_eq rfl) hr).2

end WorkspaceAuthz.RecursiveFormula
