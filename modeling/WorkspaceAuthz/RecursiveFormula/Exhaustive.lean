import WorkspaceAuthz.RecursiveFormula.Disjunctive
import WorkspaceAuthz.RecursiveFormula.Evaluations
import WorkspaceAuthz.RecursiveFormula.Justification

/-! # Searches that deny

Where formulas only join, a search that finds nothing has gone through all of every
formula it evaluates. If no guard answered for it, it has evaluated whatever can be
reached from its name, and its reads are those of the formulas there.
-/
namespace WorkspaceAuthz.RecursiveFormula

variable {ν κ μ ε : Type} {K : Keying ν κ μ} {sys : ν → Formula ν ε} {exceeded : ε}

/-! ## Formulas -/

theorem eval_reads_eq {visit : ν → Bool → SearchM κ μ ε Bool}
    {log : ν → Bool → SearchState κ μ → List (ν × Bool)}
    (hvisit : ∀ x st st', visit x false st = .ok false st' →
      st'.reads = st.reads + logReads sys (log x false st))
    {f : Formula ν ε} (hf : f.Disjunctive) {st st' : SearchState κ μ}
    (h : f.eval exceeded visit false st = .ok false st') :
    st'.reads = st.reads + f.reads +
      logReads sys (f.evaluations exceeded visit log false st) := by
  induction f generalizing st st' with
  | const c =>
    cases h
    rfl
  | ref x => exact hvisit x st st' h
  | or f g ihf ihg =>
    obtain ⟨ok, s, hs, h⟩ := bind_ok.mp h
    cases ok with
    | true => cases h
    | false =>
      have hleft := ihf hf.1 hs
      have hright := ihg hf.2 h
      simp only [Formula.evaluations, hs, logReads_append, Formula.reads]
      omega
  | and f g => exact hf.elim
  | not f => exact hf.elim
  | read f ih =>
    obtain ⟨u, s, hc, h⟩ := bind_ok.mp h
    have hreads := ih hf h
    rw [Formula.evaluations, hc, Formula.reads]
    obtain rfl := fetch_ok hc
    rw [hreads]
    simp only [SearchState.fetched]
    omega
  | fail e => cases h

/-- Whatever a remembered name asks for is remembered. -/
def SearchState.Settled (K : Keying ν κ μ) (sys : ν → Formula ν ε) (N : Set ν)
    (st : SearchState κ μ) : Prop :=
  ∀ x ∈ N, (st.recalled K x false).isSome → ∀ p ∈ (sys x).refs, (st.recalled K p.2 false).isSome

/-- A run after which all `asked` names are remembered, and of which the log lists all names that
it has added. -/
structure Exhausts (K : Keying ν κ μ) (sys : ν → Formula ν ε) (N asked : Set ν)
    (st st' : SearchState κ μ) (log : List (ν × Bool)) : Prop where
  settled : st'.Settled K sys N
  kept : ∀ x, (st.recalled K x false).isSome → (st'.recalled K x false).isSome
  asked : ∀ x ∈ asked, (st'.recalled K x false).isSome
  logged : ∀ x ∈ N, (st'.recalled K x false).isSome →
    (st.recalled K x false).isSome ∨ (x, false) ∈ log

namespace Exhausts

variable {N A B : Set ν} {a b c : SearchState κ μ} {log log' : List (ν × Bool)}

theorem refl (h : a.Settled K sys N) (hA : ∀ x ∈ A, (a.recalled K x false).isSome) :
    Exhausts K sys N A a a [] where
  settled := h
  kept _ hx := hx
  asked := hA
  logged _ _ hx := .inl hx

theorem trans (h : Exhausts K sys N A a b log) (h' : Exhausts K sys N B b c log') :
    Exhausts K sys N (A ∪ B) a c (log ++ log') where
  settled := h'.settled
  kept x hx := h'.kept x (h.kept x hx)
  asked x hx := hx.elim (fun hx => h'.kept x (h.asked x hx)) (h'.asked x)
  logged x hN hx := by
    rcases h'.logged x hN hx with hb | hlog
    · exact (h.logged x hN hb).imp_right (List.mem_append_left log')
    · exact .inr (List.mem_append_right log hlog)

end Exhausts

variable {N : Set ν}

theorem exhausts_eval {visit : ν → Bool → SearchM κ μ ε Bool}
    {log : ν → Bool → SearchState κ μ → List (ν × Bool)}
    (hext : ∀ x neg s s' r, visit x neg s = .ok r s' → Extends s s')
    (hvisit : ∀ x ∈ N, ∀ st st', st.Settled K sys N → visit x false st = .ok false st' →
      st'.cyclesSeen = st.cyclesSeen → Exhausts K sys N {x} st st' (log x false st))
    {f : Formula ν ε} (hf : f.Disjunctive) (hN : ∀ p ∈ f.refs, p.2 ∈ N) {st st' : SearchState κ μ}
    (hst : st.Settled K sys N) (h : f.eval exceeded visit false st = .ok false st')
    (hclean : st'.cyclesSeen = st.cyclesSeen) :
    Exhausts K sys N {y | ∃ neg, (neg, y) ∈ f.refs} st st'
      (f.evaluations exceeded visit log false st) := by
  induction f generalizing st st' with
  | const c =>
    cases h
    refine .refl hst fun x hx => ?_
    obtain ⟨neg, hx⟩ := hx
    exact absurd hx (Set.notMem_empty _)
  | ref x =>
    have hx := hvisit x (hN (false, x) rfl) st st' hst h hclean
    refine ⟨hx.settled, hx.kept, fun y hy => ?_, hx.logged⟩
    obtain ⟨neg, hy⟩ := hy
    exact hx.asked y (congrArg Prod.snd hy)
  | or f g ihf ihg =>
    obtain ⟨ok, s, hs, h⟩ := bind_ok.mp h
    cases ok with
    | true => cases h
    | false =>
      have hle := (eval_extends hext f false false st s hs).cyclesSeen
      have hle' := (eval_extends hext g false false s st' h).cyclesSeen
      have hleft := ihf hf.1 (fun p hp => hN p (.inl hp)) hst hs (by omega)
      have hright := ihg hf.2 (fun p hp => hN p (.inr hp)) hleft.settled h (by omega)
      have hboth := hleft.trans hright
      rw [Formula.evaluations, hs]
      refine ⟨hboth.settled, hboth.kept, fun y hy => hboth.asked y ?_, hboth.logged⟩
      obtain ⟨neg, hy | hy⟩ := hy
      · exact .inl ⟨neg, hy⟩
      · exact .inr ⟨neg, hy⟩
  | and f g => exact hf.elim
  | not f => exact hf.elim
  | read f ih =>
    obtain ⟨u, s, hc, h⟩ := bind_ok.mp h
    rw [Formula.evaluations, hc]
    obtain rfl := fetch_ok hc
    have hfetched : (st.fetched 1).Settled K sys N := hst
    have hread := ih hf hN hfetched h hclean
    exact ⟨hread.settled, hread.kept, hread.asked, hread.logged⟩
  | fail e => cases h

/-! ## Searches -/

variable [DecidableEq κ] [DecidableEq μ]

/-- A search that denies makes all reads of the formulas that it evaluates. -/
theorem reads_eq_logReads (hsys : ∀ x, (sys x).Disjunctive) {left : ℕ} {x : ν}
    {st st' : SearchState κ μ} (h : search K sys exceeded left x false st = .ok false st') :
    st'.reads = st.reads + logReads sys (evaluations K sys exceeded left x false st) := by
  induction left generalizing x st st' with
  | zero =>
    rcases guarded_cases h with ⟨-, -, rfl⟩ | ⟨-, -, -, rfl⟩ | ⟨-, -, rfl, -⟩ |
      ⟨-, -, run, s, hbody, -⟩
    · rfl
    · rfl
    · rfl
    · cases hbody
  | succ left ih =>
    rw [evaluations]
    rcases guarded_cases h with ⟨hv, -, rfl⟩ | ⟨-, hbody, -⟩ | ⟨-, hr, rfl, -⟩ |
      ⟨hv, hr, run, s, hbody, hrun, rfl⟩
    · rw [if_pos (.inl hv)]
      rfl
    · cases hbody
    · rw [if_pos (.inr (by rw [hr]; rfl))]
      rfl
    · cases hbody
      have hreads := eval_reads_eq (fun x st st' => ih) (hsys x) hrun
      rw [if_neg (by simp [hv, hr]), logReads_cons, ← Nat.add_assoc,
        (reads_remember _ x false false st.cyclesSeen).2.1]
      exact hreads

theorem Exhausts.evaluated (hK : K.Remembers) (hsep : K.Separates N) {x : ν} (hx : x ∈ N)
    {st s : SearchState κ μ} {log : List (ν × Bool)} (hclean : s.cyclesSeen = st.cyclesSeen)
    (h : Exhausts K sys N {y | ∃ neg, (neg, y) ∈ (sys x).refs} (st.enter (K.visitKey x)) s log) :
    Exhausts K sys N {x} st ((s.leave (K.visitKey x)).remember K x false st.cyclesSeen false)
      ((x, false) :: log) := by
  set st' := (s.leave (K.visitKey x)).remember K x false st.cyclesSeen false
  have hself : st'.recalled K x false = some false := recalled_remember_self hK hclean
  -- a name with the key of `x` is `x`, and the memo is unchanged at all others
  have hother {y : ν} (hy : y ∈ N) (hne : y ≠ x) :
      st'.recalled K y false = s.recalled K y false := by
    change st'.recalled K y false = (s.leave (K.visitKey x)).recalled K y false
    exact recalled_remember_of_ne fun heq => hne (hsep hy hx heq.2.1)
  have hkept (y : ν) (hsome : (s.recalled K y false).isSome) :
      (st'.recalled K y false).isSome := by
    by_cases hkey : K.visitKey y = K.visitKey x
    · rw [SearchState.recalled, hkey, ← SearchState.recalled, hself]
      rfl
    · rw [recalled_remember_of_ne fun heq => hkey heq.2.1]
      exact hsome
  constructor
  · intro y hy hsome p hp
    by_cases hyx : y = x
    · subst hyx
      exact hkept _ (h.asked p.2 ⟨p.1, hp⟩)
    · rw [hother hy hyx] at hsome
      exact hkept _ (h.settled y hy hsome p hp)
  · exact fun y hsome => hkept y (h.kept y hsome)
  · rintro y rfl
    exact Option.isSome_of_eq_some hself
  · intro y hy hsome
    by_cases hyx : y = x
    · exact .inr (hyx ▸ List.mem_cons_self)
    · rw [hother hy hyx] at hsome
      exact (h.logged y hy hsome).imp_right (List.mem_cons_of_mem _)

theorem exhausts_search (hK : K.Remembers) (hsep : K.Separates N) (hN : Closed sys N)
    (hsys : ∀ x, (sys x).Disjunctive) {left : ℕ} {x : ν} (hx : x ∈ N) {st st' : SearchState κ μ}
    (hst : st.Settled K sys N) (h : search K sys exceeded left x false st = .ok false st')
    (hclean : st'.cyclesSeen = st.cyclesSeen) :
    Exhausts K sys N {x} st st' (evaluations K sys exceeded left x false st) := by
  induction left generalizing x st st' with
  | zero =>
    rcases guarded_cases h with ⟨-, -, rfl⟩ | ⟨-, -, -, rfl⟩ | ⟨-, -, -, hbody⟩ |
      ⟨-, -, run, s, hbody, -⟩
    · exact absurd hclean (Nat.succ_ne_self _)
    · exact absurd hclean (Nat.succ_ne_self _)
    · exact absurd rfl hbody
    · cases hbody
  | succ left ih =>
    rw [evaluations]
    rcases guarded_cases h with ⟨-, -, rfl⟩ | ⟨-, hbody, -⟩ | ⟨-, hr, rfl, -⟩ |
      ⟨hv, hr, run, s, hbody, hrun, rfl⟩
    · exact absurd hclean (Nat.succ_ne_self _)
    · cases hbody
    · rw [if_pos (.inr (by rw [hr]; rfl))]
      refine .refl hst ?_
      rintro y rfl
      exact Option.isSome_of_eq_some hr
    · cases hbody
      rw [remember_cyclesSeen] at hclean
      rw [if_neg (by simp [hv, hr])]
      refine .evaluated hK hsep hx hclean (exhausts_eval
        (fun x neg s s' r => search_extends K sys exceeded left x neg s s' r)
        (fun y hy st st' => ih hy) (hsys x) (hN x hx) ?_ hrun hclean)
      exact hst

/-- A search that denies without an answer of a guard, and starts with nothing remembered,
evaluates its name and whatever a name that it evaluates asks for. -/
theorem evaluations_closed (hK : K.Remembers) (hsep : K.Separates N) (hN : Closed sys N)
    (hsys : ∀ x, (sys x).Disjunctive) {left : ℕ} {x : ν} (hx : x ∈ N) {st st' : SearchState κ μ}
    (hempty : ∀ y, st.recalled K y false = none)
    (h : search K sys exceeded left x false st = .ok false st')
    (hclean : st'.cyclesSeen = st.cyclesSeen) :
    (x, false) ∈ evaluations K sys exceeded left x false st ∧
      ∀ y ∈ N, (y, false) ∈ evaluations K sys exceeded left x false st →
        ∀ p ∈ (sys y).refs, (p.2, false) ∈ evaluations K sys exceeded left x false st := by
  have hrun := exhausts_search hK hsep hN hsys hx
    (fun y _ hy => by rw [hempty y] at hy; cases hy) h hclean
  have hlogged (y : ν) (hy : y ∈ N) (hsome : (st'.recalled K y false).isSome) :
      (y, false) ∈ evaluations K sys exceeded left x false st := by
    refine (hrun.logged y hy hsome).resolve_left fun h => ?_
    rw [hempty y] at h
    cases h
  refine ⟨hlogged x hx (hrun.asked x rfl), fun y hy hmem p hp => ?_⟩
  have honce := ((follows_once hK sys).search left x false false st st' h).2.2 hclean
  exact hlogged p.2 (hN y hy p hp) (hrun.settled y hy (honce.remembered _ hmem) p hp)

end WorkspaceAuthz.RecursiveFormula
