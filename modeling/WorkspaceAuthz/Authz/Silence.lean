import WorkspaceAuthz.Authz.Programs

/-! # Runs during which a guard stays silent

Guards are only ever recorded. A run that ends with the record it began with is made
of steps that do, so that an expansion without such a record is a tree of the model
and the store: the relation `ExpandsTo`, which knows nothing of states, counts and
budgets.
-/
namespace WorkspaceAuthz.Authz
open Go RecursiveFormula

variable {κ μ α β : Type}

/-! ## Records -/

/-- Guards are recorded, and no record is taken back. -/
def Records (x : EvalM κ μ α) : Prop :=
  ∀ st a st', x st = .ok a st' →
    st.backstops.depth ≤ st'.backstops.depth ∧ st.backstops.cycle ≤ st'.backstops.cycle

theorem records_of_backstops_eq {x : EvalM κ μ α}
    (h : ∀ st a st', x st = .ok a st' → st'.backstops = st.backstops) : Records x := by
  intro st a st' hrun
  rw [h st a st' hrun]
  exact ⟨le_rfl, le_rfl⟩

theorem compositional_records (reader : Reader) (max : ℤ) :
    Compositional reader max fun {α} (x : EvalM κ μ α) => Records x where
  pure a := records_of_backstops_eq (by rintro st _ _ ⟨⟩; rfl)
  bind hx hf := by
    intro st b st' h
    obtain ⟨a, s, hrun, hrun'⟩ := bind_ok.mp h
    have h₁ := hx st a s hrun
    have h₂ := hf a s b st' hrun'
    exact ⟨h₁.1.trans h₂.1, h₁.2.trans h₂.2⟩
  tooLarge _ := by rintro st _ _ ⟨⟩
  listSubjects n := by
    refine records_of_backstops_eq fun st ss st' h => ?_
    rw [(listSubjects_inv h).2]
    rfl
  recordDepth := by
    rintro st _ _ ⟨⟩
    exact ⟨Nat.le_succ _, le_rfl⟩
  recordCycle := by
    rintro st _ _ ⟨⟩
    exact ⟨le_rfl, Nat.le_succ _⟩

/-- A count of guards. -/
structure Meter where
  count : Backstops → ℕ
  mono : ∀ {b b' : Backstops}, b.depth ≤ b'.depth → b.cycle ≤ b'.cycle → count b ≤ count b'

def Meter.depth : Meter := ⟨(·.depth), fun h _ => h⟩

def Meter.cut : Meter := ⟨fun b => b.depth + b.cycle, Nat.add_le_add⟩

/-- `x` may return `a` without anything that `q` counts. -/
def Quietly (q : Meter) (x : EvalM κ μ α) (a : α) : Prop :=
  ∃ st st', x st = .ok a st' ∧ q.count st'.backstops = q.count st.backstops

variable {q : Meter}

theorem Quietly.split {x : EvalM κ μ α} {f : α → EvalM κ μ β} {b : β} (hx : Records x)
    (hf : ∀ a, Records (f a)) (h : Quietly q (x >>= f) b) :
    ∃ a, Quietly q x a ∧ Quietly q (f a) b := by
  obtain ⟨st, st', h, hquiet⟩ := h
  obtain ⟨a, s, hrun, hrun'⟩ := bind_ok.mp h
  have h₁ := q.mono (hx st a s hrun).1 (hx st a s hrun).2
  have h₂ := q.mono (hf a s b st' hrun').1 (hf a s b st' hrun').2
  exact ⟨a, ⟨st, s, hrun, by omega⟩, s, st', hrun', by omega⟩

theorem Quietly.pure_eq {a b : α} (h : Quietly q (pure a : EvalM κ μ α) b) : b = a := by
  obtain ⟨st, st', h, -⟩ := h
  cases h
  rfl

/-! ## Expansions -/

def Grows (q : Meter) (x : ExpandM κ μ α) (a : α) : Prop := ∃ c c', Quietly q (x c) (a, c')

theorem Grows.split {x : ExpandM κ μ α} {f : α → ExpandM κ μ β} {b : β}
    (hx : ∀ c, Records (x c)) (hf : ∀ a c, Records (f a c)) (h : Grows q (x >>= f) b) :
    ∃ a, Grows q x a ∧ Grows q (f a) b := by
  obtain ⟨c, c', h⟩ := h
  obtain ⟨p, hp, hb⟩ := Quietly.split (hx c) (fun p => hf p.1 p.2) h
  exact ⟨p.1, ⟨c, p.2, hp⟩, p.2, c', hb⟩

theorem Grows.yields {x : ExpandM κ μ α} {a : α} (h : Grows q x a) : Yields x a := by
  obtain ⟨c, c', st, st', h, -⟩ := h
  exact ⟨c, st, c', st', h⟩

/-- The trees of a rewrite at the node `x`, where `visit` are those of other nodes. -/
inductive Unfolds (reader : Reader) (visit : SubjectSet → Tree → Prop) (x : SubjectSet) :
    Rewrite → Tree → Prop
  | this {rw ss} : rw.view = .this → reader x = .ok ss →
      Unfolds reader visit x rw (ss.foldl Tree.addSubject { expanded := x })
  | union {rw cs ts} : rw.view = .union cs → List.Forall₂ (Unfolds reader visit x) cs ts →
      Unfolds reader visit x rw { expanded := x, union := ts }
  | intersection {rw cs ts} : rw.view = .intersection cs →
      List.Forall₂ (Unfolds reader visit x) cs ts →
      Unfolds reader visit x rw { expanded := x, intersection := ts }
  | exclusion {rw inc exc t t'} : rw.view = .exclusion inc exc → Unfolds reader visit x inc t →
      Unfolds reader visit x exc t' →
      Unfolds reader visit x rw { expanded := x, exclude := some (t, t') }
  | computed {rw rel t} : rw.view = .computed rel → visit ⟨x.ns, x.objectID, rel⟩ t →
      Unfolds reader visit x rw t
  | pointers {rw ts rel ss subs} : rw.view = .tupleToUserset ts rel →
      reader ⟨x.ns, x.objectID, ts⟩ = .ok ss →
      List.Forall₂ visit (ss.filterMap (Request.pointsTo rel)) subs →
      Unfolds reader visit x rw { expanded := x, union := subs }

theorem Unfolds.of_view {reader : Reader} {visit : SubjectSet → Tree → Prop} {x : SubjectSet}
    {rw : Rewrite} {t : Tree} (h : Unfolds reader visit x rw t) : match rw.view with
    | .this => ∃ ss, reader x = .ok ss ∧ t = ss.foldl Tree.addSubject { expanded := x }
    | .union cs => ∃ ts, List.Forall₂ (Unfolds reader visit x) cs ts ∧
        t = { expanded := x, union := ts }
    | .intersection cs => ∃ ts, List.Forall₂ (Unfolds reader visit x) cs ts ∧
        t = { expanded := x, intersection := ts }
    | .exclusion inc exc => ∃ t₁ t₂, Unfolds reader visit x inc t₁ ∧ Unfolds reader visit x exc t₂ ∧
        t = { expanded := x, exclude := some (t₁, t₂) }
    | .computed rel => visit ⟨x.ns, x.objectID, rel⟩ t
    | .tupleToUserset ts rel => ∃ ss subs, reader ⟨x.ns, x.objectID, ts⟩ = .ok ss ∧
        List.Forall₂ visit (ss.filterMap (Request.pointsTo rel)) subs ∧
        t = { expanded := x, union := subs } := by
  cases h with
  | this hv hread => rw [hv]; exact ⟨_, hread, rfl⟩
  | union hv hts => rw [hv]; exact ⟨_, hts, rfl⟩
  | intersection hv hts => rw [hv]; exact ⟨_, hts, rfl⟩
  | exclusion hv h₁ h₂ => rw [hv]; exact ⟨_, _, h₁, h₂, rfl⟩
  | computed hv ht => rw [hv]; exact ht
  | pointers hv hread hsubs => rw [hv]; exact ⟨_, _, hread, hsubs, rfl⟩

/-- The trees of a node, for the nodes in progress with the keys `visited`. Where `cycles`,
a node in progress stands for a bare leaf. -/
def ExpandsTo (cycles : Prop) (m : Model) (reader : Reader) :
    ℕ → Finset GoString → SubjectSet → Tree → Prop
  | 0, _, _, _ => False
  | left + 1, visited, n, t =>
    (cycles ∧ visitKey n ∈ visited ∧ t = { expanded := n }) ∨
    (visitKey n ∉ visited ∧ Unfolds reader
      (ExpandsTo cycles m reader left (insert (visitKey n) visited)) n
        (m.rewrite n.ns n.relation) t)

section Runs

variable {reader : Reader} {max : ℤ} {visit : SubjectSet → ExpandM κ μ Tree} {x : SubjectSet}

theorem grows_expandAll (hvisit : ∀ y c, Records (visit y c)) {cs : List Rewrite} {ts : List Tree}
    (h : Grows q (Expand.expandAll reader max visit x cs) ts) :
    List.Forall₂ (fun c t => Grows q (Expand.expandRewrite reader max visit x c) t) cs ts := by
  have hrec := compositional_records (κ := κ) (μ := μ) reader max
  have hrecords (r : Rewrite) (c : ℕ) : Records (Expand.expandRewrite reader max visit x r c) :=
    hrec.expansive.expandRewrite hvisit x r c
  induction cs generalizing ts with
  | nil =>
    rw [Expand.expandAll] at h
    rw [yields_pure h.yields]
    exact .nil
  | cons c cs ih =>
    rw [Expand.expandAll] at h
    have hall (c : ℕ) : Records (Expand.expandAll reader max visit x cs c) :=
      hrec.expansive.expandAll (fun r _ => hrecords r) c
    obtain ⟨t, ht, h⟩ := h.split (hrecords c) fun t => hrec.expandBind hall
      fun ts c => hrec.pure _
    obtain ⟨ts', hts, h⟩ := h.split hall fun ts c => hrec.pure _
    rw [yields_pure h.yields]
    exact .cons ht (ih hts)

theorem grows_expandPointers (hvisit : ∀ y c, Records (visit y c)) {rel : GoString}
    {ss : List Subject} {ts : List Tree} (h : Grows q (Expand.expandPointers visit rel ss) ts) :
    List.Forall₂ (fun y t => Grows q (visit y) t) (ss.filterMap (Request.pointsTo rel)) ts := by
  have hrec := compositional_records (κ := κ) (μ := μ) (fun _ => .ok []) 0
  induction ss generalizing ts with
  | nil =>
    rw [Expand.expandPointers] at h
    rw [yields_pure h.yields]
    exact .nil
  | cons s ss ih =>
    rw [Expand.expandPointers] at h
    cases hset : s.set with
    | none =>
      simp only [hset] at h
      rw [List.filterMap_cons_none (by rw [Request.pointsTo, hset]; rfl)]
      exact ih h
    | some set =>
      simp only [hset] at h
      rw [List.filterMap_cons_some (b := ⟨set.ns, set.objectID, rel⟩)
        (by rw [Request.pointsTo, hset]; rfl)]
      have hpointers := hrec.expansive.expandPointers hvisit rel ss
      obtain ⟨t, ht, h⟩ := h.split (hvisit _) fun t => hrec.expandBind hpointers
        fun ts c => hrec.pure _
      obtain ⟨ts', hts, h⟩ := h.split hpointers fun ts c => hrec.pure _
      rw [yields_pure h.yields]
      exact .cons ht (ih hts)

/-- What a quiet expansion of a rewrite returns is a tree of the rewrite. -/
theorem unfolds_of_grows (hvisit : ∀ y c, Records (visit y c)) {V : SubjectSet → Tree → Prop}
    (hV : ∀ y t, Grows q (visit y) t → V y t) {rw : Rewrite} {t : Tree}
    (h : Grows q (Expand.expandRewrite reader max visit x rw) t) : Unfolds reader V x rw t := by
  have hrec := compositional_records (κ := κ) (μ := μ) reader max
  have hrewrite (r : Rewrite) (c : ℕ) : Records (Expand.expandRewrite reader max visit x r c) :=
    hrec.expansive.expandRewrite hvisit x r c
  have hall {cs : List Rewrite} (c : ℕ) : Records (Expand.expandAll reader max visit x cs c) :=
    hrec.expansive.expandAll (fun r _ => hrewrite r) c
  induction rw using Rewrite.byView generalizing t with
  | this rw hv =>
    rw [expandRewrite_eq_view, hv] at h
    obtain ⟨_, -, h⟩ := yields_bind h.yields
    obtain ⟨ss, hss, h⟩ := yields_bind h
    obtain ⟨_, -, h⟩ := yields_bind h
    rw [yields_pure h]
    exact .this hv (yields_listSubjects hss)
  | union rw cs hv ih =>
    rw [expandRewrite_eq_view, hv] at h
    obtain ⟨_, -, h⟩ := h.split (hrec.bump 1) fun _ => hrec.expandBind hall fun ts c => hrec.pure _
    obtain ⟨ts, hts, h⟩ := h.split hall fun ts c => hrec.pure _
    rw [yields_pure h.yields]
    exact .union hv (forall₂_imp_mem (grows_expandAll hvisit hts) fun c hc t ht => ih c hc ht)
  | intersection rw cs hv ih =>
    rw [expandRewrite_eq_view, hv] at h
    obtain ⟨_, -, h⟩ := h.split (hrec.bump 1) fun _ => hrec.expandBind hall fun ts c => hrec.pure _
    obtain ⟨ts, hts, h⟩ := h.split hall fun ts c => hrec.pure _
    rw [yields_pure h.yields]
    exact .intersection hv
      (forall₂_imp_mem (grows_expandAll hvisit hts) fun c hc t ht => ih c hc ht)
  | exclusion rw inc exc hv ihInc ihExc =>
    rw [expandRewrite_eq_view, hv] at h
    obtain ⟨_, -, h⟩ := h.split (hrec.bump 1) fun _ => hrec.expandBind (hrewrite inc) fun t =>
      hrec.expandBind (hrewrite exc) fun t' c => hrec.pure _
    obtain ⟨t, ht, h⟩ := h.split (hrewrite inc) fun t =>
      hrec.expandBind (hrewrite exc) fun t' c => hrec.pure _
    obtain ⟨t', ht', h⟩ := h.split (hrewrite exc) fun t' c => hrec.pure _
    rw [yields_pure h.yields]
    exact .exclusion hv (ihInc ht) (ihExc ht')
  | computed rw rel hv =>
    rw [expandRewrite_eq_view, hv] at h
    obtain ⟨_, -, h⟩ := h.split (hrec.bump 1) fun _ => hvisit _
    exact .computed hv (hV _ _ h)
  | tupleToUserset rw ts rel hv =>
    rw [expandRewrite_eq_view, hv] at h
    have hlist := hrec.lift (hrec.listSubjects ⟨x.ns, x.objectID, ts⟩)
    have hpointers := hrec.expansive.expandPointers hvisit rel
    obtain ⟨_, -, h⟩ := h.split (hrec.bump 1) fun _ => hrec.expandBind hlist fun ss =>
      hrec.expandBind (hpointers ss) fun subs c => hrec.pure _
    obtain ⟨ss, hss, h⟩ := h.split hlist fun ss =>
      hrec.expandBind (hpointers ss) fun subs c => hrec.pure _
    obtain ⟨subs, hsubs, h⟩ := h.split (hpointers ss) fun subs c => hrec.pure _
    rw [yields_pure h.yields]
    exact .pointers hv (yields_listSubjects hss.yields) ((grows_expandPointers hvisit hsubs).imp hV)

/-- What an expansion returns that is not cut off at the depth bound. -/
theorem expandsTo_of_grows {m : Model} {left : ℕ} {visited : Finset GoString} {n : SubjectSet}
    {t : Tree} {cycles : Prop}
    (hdepth : ∀ b : Backstops, q.count { b with depth := b.depth + 1 } ≠ q.count b)
    (hcycle : ¬ cycles → ∀ b : Backstops, q.count { b with cycle := b.cycle + 1 } ≠ q.count b)
    (h : Grows q (Expand.expand m reader max left visited n : ExpandM κ μ Tree) t) :
    ExpandsTo cycles m reader left visited n t := by
  induction left generalizing visited n t with
  | zero =>
    obtain ⟨c, c', st, st', h, hquiet⟩ := h
    cases h
    exact hdepth _ hquiet
  | succ left ih =>
    unfold Expand.expand at h
    split_ifs at h with hkey
    · refine .inl ⟨?_, hkey, yields_recordCycle h.yields⟩
      by_contra hcycles
      obtain ⟨c, c', st, st', h, hquiet⟩ := h
      cases h
      exact hcycle hcycles _ hquiet
    · refine .inr ⟨hkey, unfolds_of_grows (fun y c => ?_) ?_ h⟩
      · exact (compositional_records reader max).expansive.expand m left _ y c
      · exact fun y t ht => ih ht

end Runs

end WorkspaceAuthz.Authz
