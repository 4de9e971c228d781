import WorkspaceAuthz.RecursiveFormula.Search

/-! # Systems of disjunctions

Where formulas only join, the first name that holds ends the whole search. Until
then nothing but failures has been remembered, so that a search which succeeds
has found a derivation however its keys confuse names.
-/
namespace WorkspaceAuthz.RecursiveFormula

variable {ν κ μ ε : Type}

def Formula.Disjunctive : Formula ν ε → Prop
  | .const _ => True
  | .ref _ => True
  | .or f g => f.Disjunctive ∧ g.Disjunctive
  | .and _ _ => False
  | .not _ => False
  | .read f => f.Disjunctive
  | .fail _ => True

theorem Formula.any_disjunctive {fs : List (Formula ν ε)} (h : ∀ f ∈ fs, f.Disjunctive) :
    (Formula.any fs).Disjunctive := by
  induction fs with
  | nil => trivial
  | cons f fs ih =>
    rw [List.forall_mem_cons] at h
    exact ⟨h.1, ih h.2⟩

theorem Formula.Disjunctive.positive {f : Formula ν ε} (h : f.Disjunctive) :
    ∀ p ∈ f.refs, p.1 = false := by
  induction f with
  | const b => exact fun p hp => absurd hp (Set.notMem_empty p)
  | ref x => exact fun p hp => congrArg Prod.fst hp
  | or f g ihf ihg => exact fun p hp => hp.elim (ihf h.1 p) (ihg h.2 p)
  | and f g => exact h.elim
  | not f => exact h.elim
  | read f ih => exact ih h
  | fail e => exact fun p hp => absurd hp (Set.notMem_empty p)

/-- Nothing has been found to hold so far. -/
def SearchState.Undecided (st : SearchState κ μ) : Prop := ∀ m, st.memo m ≠ some true

/-- Either a derivation was found, or still nothing holds. -/
def Decides (sys : ν → Formula ν ε) (f : Formula ν ε) (b : Bool) (st : SearchState κ μ) : Prop :=
  if b then Derives sys true f else st.Undecided

variable {K : Keying ν κ μ} {sys : ν → Formula ν ε}

theorem eval_decides {exceeded : ε} {visit : ν → Bool → SearchM κ μ ε Bool}
    (hvisit : ∀ x st b st', st.Undecided → visit x false st = .ok b st' →
      Decides sys (sys x) b st')
    {f : Formula ν ε} (hf : f.Disjunctive) (st : SearchState κ μ) {st' : SearchState κ μ} {b : Bool}
    (hst : st.Undecided) (h : f.eval exceeded visit false st = .ok b st') :
    Decides sys f b st' := by
  induction f generalizing st st' b with
  | const c =>
    cases h
    cases c with
    | true => exact Derives.const true
    | false => exact hst
  | ref x =>
    have hx := hvisit x st b st' hst h
    cases b with
    | true => exact Derives.ref hx
    | false => exact hx
  | or f g ihf ihg =>
    obtain ⟨ok, s, hs, h⟩ := bind_ok.mp h
    have hok := ihf hf.1 st hst hs
    cases ok with
    | true =>
      cases h
      exact Derives.orLeft hok
    | false =>
      have hb := ihg hf.2 s hok h
      cases b with
      | true => exact Derives.orRight hb
      | false => exact hb
  | and f g => exact hf.elim
  | not f => exact hf.elim
  | read f ih =>
    obtain ⟨u, s, hc, h⟩ := bind_ok.mp h
    obtain rfl := fetch_ok hc
    have hb := ih hf (st.fetched 1) hst h
    cases b with
    | true => exact Derives.read hb
    | false => exact hb
  | fail e => cases h

variable [DecidableEq κ] [DecidableEq μ]

/-- A search through disjunctions succeeds only on a name that holds. -/
theorem search_decides (hsys : ∀ x, (sys x).Disjunctive) {exceeded : ε} {left : ℕ} {x : ν}
    {st st' : SearchState κ μ} {b : Bool} (hst : st.Undecided)
    (h : search K sys exceeded left x false st = .ok b st') : Decides sys (sys x) b st' := by
  induction left generalizing x st st' b with
  | zero =>
    rcases guarded_cases h with ⟨-, rfl, rfl⟩ | ⟨-, -, rfl, rfl⟩ | ⟨-, -, -, hbody⟩ |
      ⟨-, -, run, -, hbody, -⟩
    · exact hst
    · exact hst
    · exact absurd rfl hbody
    · cases hbody
  | succ left ih =>
    rcases guarded_cases h with ⟨-, rfl, rfl⟩ | ⟨-, hbody, -, -⟩ | ⟨-, hr, rfl, -⟩ |
      ⟨-, -, run, s, hrun, hs, rfl⟩
    · exact hst
    · cases hbody
    · cases b with
      | true =>
        obtain ⟨m, -, hm⟩ := Option.bind_eq_some_iff.mp hr
        exact absurd hm (hst m)
      | false => exact hst
    · cases hrun
      have hd := eval_decides (fun x st b st' => ih) (hsys x) (st.enter (K.visitKey x)) hst hs
      cases b with
      | true => exact hd
      | false =>
        intro m
        unfold SearchState.remember
        split_ifs
        · cases K.memoKey (K.visitKey x) false with
          | none => exact hd m
          | some m' =>
            by_cases hm : m = m'
            · subst hm
              simp
            · simpa [SearchState.leave, Function.update_of_ne hm] using hd m
        · exact hd m

end WorkspaceAuthz.RecursiveFormula
