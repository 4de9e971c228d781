import WorkspaceAuthz.RecursiveFormula.Search

/-! # What a search evaluates

The log of a search lists the names whose formulas it evaluates, with their
polarities. The reads of a search are those of the formulas in its log. A search in
which no guard answers remembers every name that it has evaluated, and evaluates none
that is remembered, so that nothing stands twice in its log.
-/
namespace WorkspaceAuthz.RecursiveFormula

variable {ν κ μ ε : Type}

/-- How many reads a formula asks for at most. -/
def Formula.reads : Formula ν ε → ℕ
  | .const _ | .ref _ | .fail _ => 0
  | .or f g | .and f g => reads f + reads g
  | .not f => reads f
  | .read f => 1 + reads f

/-- The log of an evaluation; `log` is that of the search for a name. -/
def Formula.evaluations (exceeded : ε) (visit : ν → Bool → SearchM κ μ ε Bool)
    (log : ν → Bool → SearchState κ μ → List (ν × Bool)) :
    Bool → Formula ν ε → SearchState κ μ → List (ν × Bool)
  | _, .const _, _ => []
  | neg, .ref x, st => log x neg st
  | neg, .or f g, st => f.evaluations exceeded visit log neg st ++
    match f.eval exceeded visit neg st with
    | .ok false s => g.evaluations exceeded visit log neg s
    | _ => []
  | neg, .and f g, st => f.evaluations exceeded visit log neg st ++
    match f.eval exceeded visit neg st with
    | .ok true s => g.evaluations exceeded visit log neg s
    | _ => []
  | neg, .not f, st => f.evaluations exceeded visit log (!neg) st
  | neg, .read f, st =>
    match (fetch exceeded : SearchM κ μ ε Unit) st with
    | .ok _ s => f.evaluations exceeded visit log neg s
    | .error _ _ => []
  | _, .fail _, _ => []

/-- A run without an answer of a guard remembers what it evaluates, and had not remembered it. -/
structure Once (K : Keying ν κ μ) (st st' : SearchState κ μ) (log : List (ν × Bool)) : Prop where
  fresh : ∀ p ∈ log, K.visitKey p.1 ∉ st.visited ∧ st.recalled K p.1 p.2 = none
  remembered : ∀ p ∈ log, (st'.recalled K p.1 p.2).isSome
  kept : ∀ x neg, (st.recalled K x neg).isSome → (st'.recalled K x neg).isSome
  nodup : log.Nodup

namespace Once

variable {K : Keying ν κ μ} {a b c : SearchState κ μ} {log log' : List (ν × Bool)}

theorem of_recalled_eq {st st' : SearchState κ μ}
    (h : ∀ x neg, st'.recalled K x neg = st.recalled K x neg) : Once K st st' [] where
  fresh _ hp := absurd hp List.not_mem_nil
  remembered _ hp := absurd hp List.not_mem_nil
  kept x neg hr := by rwa [h]
  nodup := List.nodup_nil

theorem trans (hvisited : b.visited = a.visited) (h : Once K a b log) (h' : Once K b c log') :
    Once K a c (log ++ log') where
  fresh p hp := by
    rcases List.mem_append.mp hp with hp | hp
    · exact h.fresh p hp
    · obtain ⟨hv, hr⟩ := h'.fresh p hp
      refine ⟨hvisited ▸ hv, Option.not_isSome_iff_eq_none.mp fun hsome => ?_⟩
      have hkept := h.kept p.1 p.2 hsome
      rw [hr] at hkept
      cases hkept
  remembered p hp := by
    rcases List.mem_append.mp hp with hp | hp
    · exact h'.kept _ _ (h.remembered p hp)
    · exact h'.remembered p hp
  kept x neg hr := h'.kept x neg (h.kept x neg hr)
  nodup := by
    refine List.Nodup.append h.nodup h'.nodup ?_
    intro p hp hp'
    have hsome := h.remembered p hp
    rw [(h'.fresh p hp').2] at hsome
    cases hsome

end Once

/-- A set of names with polarities that contains whatever its members ask for. -/
def ClosedWithPolarity (sys : ν → Formula ν ε) (N : Set (ν × Bool)) : Prop :=
  ∀ p ∈ N, ∀ q ∈ (sys p.1).refs, (q.2, p.2 ^^ q.1) ∈ N

theorem formula_evaluations_mem {N : Set (ν × Bool)} {exceeded : ε}
    {visit : ν → Bool → SearchM κ μ ε Bool}
    {log : ν → Bool → SearchState κ μ → List (ν × Bool)}
    (hlog : ∀ x neg st, (x, neg) ∈ N → ∀ p ∈ log x neg st, p ∈ N) {f : Formula ν ε} {neg : Bool}
    (hf : ∀ q ∈ f.refs, (q.2, neg ^^ q.1) ∈ N) (st : SearchState κ μ) :
    ∀ p ∈ f.evaluations exceeded visit log neg st, p ∈ N := by
  induction f generalizing neg st with
  | const b => exact fun p hp => absurd hp List.not_mem_nil
  | ref x =>
    have hx := hf (false, x) rfl
    rw [Bool.xor_false] at hx
    exact hlog x neg st hx
  | or f g ihf ihg =>
    intro p hp
    rcases List.mem_append.mp hp with hp | hp
    · exact ihf (fun q hq => hf q (.inl hq)) st p hp
    · split at hp
      · exact ihg (fun q hq => hf q (.inr hq)) _ p hp
      · exact absurd hp List.not_mem_nil
  | and f g ihf ihg =>
    intro p hp
    rcases List.mem_append.mp hp with hp | hp
    · exact ihf (fun q hq => hf q (.inl hq)) st p hp
    · split at hp
      · exact ihg (fun q hq => hf q (.inr hq)) _ p hp
      · exact absurd hp List.not_mem_nil
  | not f ih =>
    refine ih (fun q hq => ?_) st
    have hq' := hf (!q.1, q.2) (by simpa [Formula.refs] using hq)
    simpa using hq'
  | read f ih =>
    intro p hp
    rw [Formula.evaluations] at hp
    split at hp
    · exact ih hf _ p hp
    · exact absurd hp List.not_mem_nil
  | fail e => exact fun p hp => absurd hp List.not_mem_nil

variable [DecidableEq κ] [DecidableEq μ]

/-- The log of a search: a name that is in progress, too deep or remembered is not evaluated. -/
def evaluations (K : Keying ν κ μ) (sys : ν → Formula ν ε) (exceeded : ε) :
    ℕ → ν → Bool → SearchState κ μ → List (ν × Bool)
  | 0, _, _, _ => []
  | left + 1, x, neg, st =>
    if K.visitKey x ∈ st.visited ∨ (st.recalled K x neg).isSome then []
    else (x, neg) :: (sys x).evaluations exceeded (search K sys exceeded left)
      (evaluations K sys exceeded left) neg (st.enter (K.visitKey x))

def logReads (sys : ν → Formula ν ε) (log : List (ν × Bool)) : ℕ :=
  (log.map fun p => (sys p.1).reads).sum

@[simp] theorem logReads_nil (sys : ν → Formula ν ε) : logReads sys [] = 0 := rfl

@[simp] theorem logReads_cons (sys : ν → Formula ν ε) (p : ν × Bool) (log : List (ν × Bool)) :
    logReads sys (p :: log) = (sys p.1).reads + logReads sys log := by
  simp [logReads]

@[simp] theorem logReads_append (sys : ν → Formula ν ε) (log log' : List (ν × Bool)) :
    logReads sys (log ++ log') = logReads sys log + logReads sys log' := by
  simp [logReads]

/-! ## Successful runs -/

/-- A relation between the states before and after a run and its log that follows the search
step by step. The number bounds the reads that are made for the formula at hand. -/
structure Follows (K : Keying ν κ μ) (sys : ν → Formula ν ε)
    (R : ℕ → SearchState κ μ → SearchState κ μ → List (ν × Bool) → Prop) : Prop where
  refl (st : SearchState κ μ) : R 0 st st []
  trans {m n : ℕ} {a b c : SearchState κ μ} {log log' : List (ν × Bool)} :
    R m a b log → R n b c log' → R (m + n) a c (log ++ log')
  mono {m n : ℕ} {st st' : SearchState κ μ} {log : List (ν × Bool)} :
    R m st st' log → m ≤ n → R n st st' log
  fetch (st : SearchState κ μ) : R 1 st (st.fetched 1) []
  cycleHit (st : SearchState κ μ) : R 0 st st.cycleHit []
  depthHit (st : SearchState κ μ) : R 0 st st.depthHit []
  evaluated {x : ν} {neg b : Bool} {st s : SearchState κ μ} {log : List (ν × Bool)} :
    K.visitKey x ∉ st.visited → st.recalled K x neg = none →
    R (sys x).reads (st.enter (K.visitKey x)) s log →
    R 0 st ((s.leave (K.visitKey x)).remember K x neg st.cyclesSeen b) ((x, neg) :: log)

section Follows

variable {K : Keying ν κ μ} {sys : ν → Formula ν ε} {exceeded : ε}
  {R : ℕ → SearchState κ μ → SearchState κ μ → List (ν × Bool) → Prop} (hR : Follows K sys R)
include hR

theorem Follows.eval {visit : ν → Bool → SearchM κ μ ε Bool}
    {log : ν → Bool → SearchState κ μ → List (ν × Bool)}
    (hvisit : ∀ x neg s s' r, visit x neg s = .ok r s' → R 0 s s' (log x neg s))
    (f : Formula ν ε) (neg b : Bool) (st st' : SearchState κ μ)
    (h : f.eval exceeded visit neg st = .ok b st') :
    R f.reads st st' (f.evaluations exceeded visit log neg st) := by
  induction f generalizing neg b st st' with
  | const c =>
    cases h
    exact hR.refl st
  | ref x => exact hvisit x neg st st' b h
  | or f g ihf ihg =>
    obtain ⟨ok, s, hf, hg⟩ := bind_ok.mp h
    rw [Formula.evaluations, hf]
    cases ok with
    | true =>
      cases hg
      rw [List.append_nil]
      exact hR.mono (ihf _ _ _ _ hf) (Nat.le_add_right _ _)
    | false => exact hR.trans (ihf _ _ _ _ hf) (ihg _ _ _ _ hg)
  | and f g ihf ihg =>
    obtain ⟨ok, s, hf, hg⟩ := bind_ok.mp h
    rw [Formula.evaluations, hf]
    cases ok with
    | true => exact hR.trans (ihf _ _ _ _ hf) (ihg _ _ _ _ hg)
    | false =>
      cases hg
      rw [List.append_nil]
      exact hR.mono (ihf _ _ _ _ hf) (Nat.le_add_right _ _)
  | not f ih =>
    obtain ⟨ok, s, hf, hb⟩ := bind_ok.mp h
    cases hb
    exact ih _ _ _ _ hf
  | read f ih =>
    obtain ⟨u, s, hc, hf⟩ := bind_ok.mp h
    rw [Formula.evaluations, hc]
    obtain rfl := fetch_ok hc
    exact hR.trans (hR.fetch st) (ih _ _ _ _ hf)
  | fail e => cases h

theorem Follows.search (left : ℕ) (x : ν) (neg b : Bool) (st st' : SearchState κ μ)
    (h : search K sys exceeded left x neg st = .ok b st') :
    R 0 st st' (evaluations K sys exceeded left x neg st) := by
  induction left generalizing x neg b st st' with
  | zero =>
    rcases guarded_cases h with ⟨-, -, rfl⟩ | ⟨-, -, -, rfl⟩ | ⟨-, -, rfl, -⟩ |
      ⟨-, -, run, s, hbody, -⟩
    · exact hR.cycleHit st
    · exact hR.depthHit st
    · exact hR.refl _
    · cases hbody
  | succ left ih =>
    rw [evaluations]
    rcases guarded_cases h with ⟨hv, -, rfl⟩ | ⟨-, hbody, -⟩ | ⟨-, hr, rfl, -⟩ |
      ⟨hv, hr, run, s, hbody, hrun, rfl⟩
    · rw [if_pos (.inl hv)]
      exact hR.cycleHit st
    · cases hbody
    · rw [if_pos (.inr (by rw [hr]; rfl))]
      exact hR.refl _
    · cases hbody
      rw [if_neg (by simp [hv, hr])]
      exact hR.evaluated hv hr (hR.eval (fun x neg s s' r => ih x neg r s s') _ _ _ _ _ hrun)

end Follows

/-! ## Reads -/

theorem follows_reads (K : Keying ν κ μ) (sys : ν → Formula ν ε) :
    Follows K sys fun own st st' log => st'.reads ≤ st.reads + own + logReads sys log where
  refl st := le_rfl
  trans h h' := by
    rw [logReads_append]
    omega
  mono h hle := by omega
  fetch st := le_rfl
  cycleHit st := le_rfl
  depthHit st := le_rfl
  evaluated {x neg b st s log} _ _ h := by
    rw [(reads_remember _ x neg b st.cyclesSeen).2.1, logReads_cons, ← Nat.add_assoc]
    exact h

/-! ## Nothing is evaluated twice -/

theorem Once.evaluated {K : Keying ν κ μ} {log : List (ν × Bool)} (hK : K.Remembers) {x : ν}
    {neg r : Bool} {st s : SearchState κ μ}
    (hv : K.visitKey x ∉ st.visited) (hr : st.recalled K x neg = none)
    (hclean : s.cyclesSeen = st.cyclesSeen) (h : Once K (st.enter (K.visitKey x)) s log) :
    Once K st ((s.leave (K.visitKey x)).remember K x neg st.cyclesSeen r) ((x, neg) :: log) := by
  set st' := (s.leave (K.visitKey x)).remember K x neg st.cyclesSeen r
  have hself : st'.recalled K x neg = some r := recalled_remember_self hK hclean
  have hkeep (y : ν) (neg' : Bool) (hsome : (s.recalled K y neg').isSome) :
      (st'.recalled K y neg').isSome := by
    by_cases heq : (s.leave (K.visitKey x)).cyclesSeen = st.cyclesSeen ∧
        K.visitKey y = K.visitKey x ∧ neg' = neg
    · obtain ⟨-, hkey, rfl⟩ := heq
      rw [SearchState.recalled, hkey, ← SearchState.recalled, hself]
      rfl
    · rw [recalled_remember_of_ne heq]
      exact hsome
  constructor
  · rintro p (_ | ⟨_, hp⟩)
    · exact ⟨hv, hr⟩
    · obtain ⟨hvp, hrp⟩ := h.fresh p hp
      exact ⟨fun hmem => hvp (Finset.mem_insert_of_mem hmem), hrp⟩
  · rintro p (_ | ⟨_, hp⟩)
    · exact Option.isSome_of_eq_some hself
    · exact hkeep _ _ (h.remembered p hp)
  · exact fun y neg' hsome => hkeep y neg' (h.kept y neg' hsome)
  · refine List.nodup_cons.mpr ⟨fun hmem => ?_, h.nodup⟩
    exact (h.fresh _ hmem).1 (Finset.mem_insert_self _ _)

theorem follows_once {K : Keying ν κ μ} (hK : K.Remembers) (sys : ν → Formula ν ε) :
    Follows K sys fun _ st st' log => st'.visited = st.visited ∧ st.cyclesSeen ≤ st'.cyclesSeen ∧
      (st'.cyclesSeen = st.cyclesSeen → Once K st st' log) where
  refl st := ⟨rfl, le_rfl, fun _ => .of_recalled_eq fun _ _ => rfl⟩
  trans := by
    rintro _ _ a b c log log' ⟨hv, hle, honce⟩ ⟨hv', hle', honce'⟩
    refine ⟨hv'.trans hv, hle.trans hle', fun heq => ?_⟩
    exact (honce (by omega)).trans hv (honce' (by omega))
  mono h _ := h
  fetch st := ⟨rfl, le_rfl, fun _ => .of_recalled_eq fun _ _ => rfl⟩
  cycleHit st := ⟨rfl, Nat.le_succ _, fun heq => absurd heq (Nat.succ_ne_self _)⟩
  depthHit st := ⟨rfl, Nat.le_succ _, fun heq => absurd heq (Nat.succ_ne_self _)⟩
  evaluated := by
    rintro x neg b st s log hv hr ⟨hvisited, hle, honce⟩
    rw [remember_visited, remember_cyclesSeen]
    refine ⟨?_, hle, fun heq => (honce heq).evaluated hK hv hr heq⟩
    change s.visited.erase _ = _
    rw [hvisited]
    exact Finset.erase_insert hv

/-- A search in which no guard answers evaluates every name at most once in each polarity. -/
theorem evaluations_nodup {K : Keying ν κ μ} (hK : K.Remembers) {sys : ν → Formula ν ε}
    {exceeded : ε} {left : ℕ} {x : ν} {neg b : Bool} {st st' : SearchState κ μ}
    (h : search K sys exceeded left x neg st = .ok b st')
    (hclean : st'.cyclesSeen = st.cyclesSeen) :
    (evaluations K sys exceeded left x neg st).Nodup :=
  (((follows_once hK sys).search left x neg b st st' h).2.2 hclean).nodup

theorem reads_le_logReads {K : Keying ν κ μ} {sys : ν → Formula ν ε} {exceeded : ε} {left : ℕ}
    {x : ν} {neg b : Bool} {st st' : SearchState κ μ}
    (h : search K sys exceeded left x neg st = .ok b st') :
    st'.reads ≤ st.reads + logReads sys (evaluations K sys exceeded left x neg st) :=
  (follows_reads K sys).search left x neg b st st' h

theorem evaluations_mem {K : Keying ν κ μ} {sys : ν → Formula ν ε} {N : Set (ν × Bool)}
    {exceeded : ε} (hN : ClosedWithPolarity sys N) (left : ℕ) {x : ν} {neg : Bool}
    (hx : (x, neg) ∈ N) (st : SearchState κ μ) :
    ∀ p ∈ evaluations K sys exceeded left x neg st, p ∈ N := by
  induction left generalizing x neg st with
  | zero => exact fun p hp => absurd hp List.not_mem_nil
  | succ left ih =>
    intro p hp
    rw [evaluations] at hp
    split_ifs at hp
    · exact absurd hp List.not_mem_nil
    · rcases List.mem_cons.mp hp with rfl | hp
      · exact hx
      · exact formula_evaluations_mem (fun x neg st hx => ih hx st) (hN _ hx) _ p hp

end WorkspaceAuthz.RecursiveFormula
