import WorkspaceAuthz.Authz.Soundness
import WorkspaceAuthz.RecursiveFormula.Completeness
import WorkspaceAuthz.RecursiveFormula.Ranked

/-! # Exact answers

Within the depth bound a check finds every derivation, so cycles and the memo
cost no grant. An answer during which neither the cycle nor the depth guard fired
is exact in both directions. Beyond the depth bound the answer may depend on what
the memo happened to hold, and so on the order in which subjects are listed.
-/
namespace WorkspaceAuthz.Authz
open Go RecursiveFormula

/-- A reader over a store: listing subjects does not fail. -/
def Reader.Total (reader : Reader) : Prop := ∀ n, ∃ ss, reader n = .ok ss

/-- The keys of an evaluator without a memo. -/
def memoFreeKeys : Keying SubjectSet GoString Empty where
  visitKey := visitKey
  memoKey _ _ := none
  memoKey_inj h := by cases h

namespace Request

variable {r : Request} {n : SubjectSet}

theorem readFormula_total (hr : r.reader.Total) {f : Subject → NodeFormula}
    (hf : ∀ s, (f s).Total) (n : SubjectSet) : (r.readFormula n f).Total := by
  obtain ⟨ss, hss⟩ := hr n
  simp only [readFormula, hss]
  exact Formula.any_total (List.forall_mem_map.mpr fun s _ => hf s)

theorem subjectFormula_total (s : Subject) : (r.subjectFormula s).Total := by
  unfold subjectFormula
  split_ifs
  · trivial
  · trivial
  · split <;> trivial

theorem pointerFormula_total (relation : GoString) (s : Subject) :
    (r.pointerFormula relation s).Total := by
  unfold pointerFormula
  split_ifs
  · trivial
  · split <;> trivial

theorem rewriteFormula_total (hr : r.reader.Total) (n : SubjectSet) (rw : Rewrite) :
    (r.rewriteFormula n rw).Total := by
  induction rw using Rewrite.byView with
  | this rw hv =>
    rw [rewriteFormula_eq, hv]
    exact readFormula_total hr subjectFormula_total n
  | union rw cs hv ih =>
    rw [rewriteFormula_eq, hv]
    exact Formula.any_total (List.forall_mem_map.mpr ih)
  | intersection rw cs hv ih =>
    rw [rewriteFormula_eq, hv, viewFormula]
    split_ifs
    · trivial
    · exact Formula.all_total (List.forall_mem_map.mpr ih)
  | exclusion rw inc exc hv ihInc ihExc =>
    rw [rewriteFormula_eq, hv, viewFormula]
    split_ifs
    · trivial
    · exact ⟨ihInc, ihExc⟩
  | computed rw rel hv =>
    rw [rewriteFormula_eq, hv]
    trivial
  | tupleToUserset rw ts rel hv =>
    rw [rewriteFormula_eq, hv]
    exact readFormula_total hr (pointerFormula_total rel) _

theorem around_subset {N : Set SubjectSet} (hn : n ∈ N) (hN : Closed r.system N) :
    r.around n ⊆ N := by
  intro x hx
  induction hx with
  | refl => exact hn
  | tail _ hstep ih =>
    obtain ⟨negated, hp⟩ := hstep
    exact hN _ ih _ hp

section Run

variable {κ μ : Type} [DecidableEq κ] [DecidableEq μ] {K : Keying SubjectSet κ μ} {left : ℕ}
  {maxReads : ℤ} {b : Bool} {st : SearchState κ μ}

theorem check_succeeds (K : Keying SubjectSet κ μ) (left : ℕ) (n : SubjectSet)
    (hr : r.reader.Total) (hmax : maxReads ≤ 0) :
    ∃ b st, r.check K left n false (newEvalState maxReads) = .ok b st := by
  rw [check_eq_search]
  obtain ⟨b, st, h, -⟩ := search_succeeds K (fun x => rewriteFormula_total hr x (r.rewrite x))
    .evalBudgetExceeded left n false (newEvalState maxReads) hmax
  exact ⟨b, st, h⟩

/-- A check grants when a derivation fits below the depth bound, and also when
there is any derivation and the depth guard stays silent. -/
theorem check_complete (hK : K.Separates (r.around n)) {k : ℕ} (hd : r.NodeDerivesIn k true n)
    (h : r.check K left n false (newEvalState maxReads) = .ok b st)
    (hfit : k + 1 ≤ left ∨ st.backstops.depth = 0) : b = true := by
  rw [check_eq_search] at h
  refine search_complete hK (closed_around n) _ left n (self_mem_around n) k true _ b st
    (nodeDerivesIn_iff.mp hd) ?_ ?_ h hfit
  · intro x _ negated c hc
    simp [SearchState.recalled, newEvalState] at hc
  · intro y _ hy
    exact absurd hy (Finset.notMem_empty _)

theorem check_exact (hK : K.Separates (r.below n))
    (h : r.check K left n false (newEvalState maxReads) = .ok b st)
    (hcycle : st.backstops.cycle = 0) (hdepth : st.backstops.depth = 0) :
    Derives r.system b (r.system n) := by
  rw [check_eq_search] at h
  have hhits := (search_extends _ _ _ _ _ _ _ _ _ h).hits
  apply search_root_justified hK (closed_below n) (fun p hp => refs_mem_below hp) (fun _ => rfl) h
  right
  simpa [newEvalState, hcycle, hdepth] using hhits

/-- No guard fires where every node asks only for nodes whose keys rank lower. -/
theorem check_quiet {N : Set SubjectSet} {rank : κ → ℕ} (hrank : Ranked K r.system N rank)
    (hn : n ∈ N) (hleft : rank (K.visitKey n) < left)
    (h : r.check K left n false (newEvalState maxReads) = .ok b st) :
    st.backstops.cycle = 0 ∧ st.backstops.depth = 0 := by
  rw [check_eq_search] at h
  have hquiet := search_quiet hrank hn hleft (by simp [newEvalState]) h
  have hhits := (search_extends _ _ _ _ _ _ _ _ _ h).hits
  simp only [hquiet, newEvalState] at hhits
  omega

end Run

/-! ## Readers that list the same subjects -/

/-- Two evaluations over readers that list the same subjects, in any order. -/
structure SameListing (r r' : Request) : Prop where
  model : r'.model = r.model
  query : r'.q = r.q
  context : r'.cc = r.cc
  reader : ∀ x, ∃ ss ss', r.reader x = .ok ss ∧ r'.reader x = .ok ss' ∧ ∀ s, s ∈ ss' ↔ s ∈ ss

namespace SameListing

variable {r r' : Request}

theorem symm (h : SameListing r r') : SameListing r' r where
  model := h.model.symm
  query := h.query.symm
  context := h.context.symm
  reader x := by
    obtain ⟨ss, ss', hss, hss', hmem⟩ := h.reader x
    exact ⟨ss', ss, hss', hss, fun s => (hmem s).symm⟩

theorem listed (h : SameListing r r') {x : SubjectSet} {ss : List Subject}
    (hss : r.reader x = .ok ss) : ∃ ss', r'.reader x = .ok ss' ∧ ∀ s, s ∈ ss' ↔ s ∈ ss := by
  obtain ⟨ss₀, ss', hss₀, hss', hmem⟩ := h.reader x
  obtain rfl := Except.ok.inj (hss.symm.trans hss₀)
  exact ⟨ss', hss', hmem⟩

theorem applies_eq (h : SameListing r r') : r'.applies = r.applies := by
  funext s
  simp only [applies, h.context]

theorem grants_eq (h : SameListing r r') : r'.grants = r.grants := by
  funext s
  simp only [grants, h.query]

theorem follows_eq (h : SameListing r r') : r'.follows = r.follows := by
  funext s
  simp only [follows, h.grants_eq]

theorem rewrite_eq (h : SameListing r r') : r'.rewrite = r.rewrite := by
  funext x
  simp only [rewrite, h.model]

theorem derivesIn (hsame : SameListing r r') {k : ℕ} {v : Bool} {n : SubjectSet} {rw : Rewrite}
    (h : r.DerivesIn k v n rw) : r'.DerivesIn k v n rw := by
  have happ := hsame.applies_eq
  have hgr := hsame.grants_eq
  have hfol := hsame.follows_eq
  have hrw := hsame.rewrite_eq
  have hq := hsame.query
  induction h with
  | thisGrant hv hread hs ha hg =>
    obtain ⟨ss', hread', hmem⟩ := hsame.listed hread
    exact .thisGrant hv hread' ((hmem _).mpr hs) (happ ▸ ha) (hgr ▸ hg)
  | thisMember hv hread hs ha hx _ ih =>
    obtain ⟨ss', hread', hmem⟩ := hsame.listed hread
    exact .thisMember hv hread' ((hmem _).mpr hs) (happ ▸ ha) (hfol ▸ hx) (hrw ▸ ih)
  | thisLeaf hv hread hnone =>
    obtain ⟨ss', hread', hmem⟩ := hsame.listed hread
    refine .thisLeaf hv hread' fun s hs ha => ?_
    rw [hgr, hfol]
    exact hnone s ((hmem s).mp hs) (happ ▸ ha)
  | thisNone hv hread hg _ ih =>
    obtain ⟨ss', hread', hmem⟩ := hsame.listed hread
    refine .thisNone hv hread' (fun s hs ha => ?_) fun s hs ha x hx => ?_
    · rw [hgr]
      exact hg s ((hmem s).mp hs) (happ ▸ ha)
    · rw [hrw]
      exact ih s ((hmem s).mp hs) (happ ▸ ha) x (hfol ▸ hx)
  | unionSome hv hc _ ih => exact .unionSome hv hc ih
  | unionNone hv _ ih => exact .unionNone hv ih
  | intersectionAll hs hv _ ih => exact .intersectionAll (hq ▸ hs) hv ih
  | intersectionSome hs hv hc _ ih => exact .intersectionSome (hq ▸ hs) hv hc ih
  | intersectionSet hs hv => exact .intersectionSet (hq ▸ hs) hv
  | exclusionBoth hs hv _ _ ihInc ihExc => exact .exclusionBoth (hq ▸ hs) hv ihInc ihExc
  | exclusionInclude hs hv _ ih => exact .exclusionInclude (hq ▸ hs) hv ih
  | exclusionExclude hs hv _ ih => exact .exclusionExclude (hq ▸ hs) hv ih
  | exclusionSet hs hv => exact .exclusionSet (hq ▸ hs) hv
  | computed hv _ ih => exact .computed hv (hrw ▸ ih)
  | pointerSome hv hread hs ha hx _ ih =>
    obtain ⟨ss', hread', hmem⟩ := hsame.listed hread
    exact .pointerSome hv hread' ((hmem _).mpr hs) (happ ▸ ha) hx (hrw ▸ ih)
  | pointerLeaf hv hread hnone =>
    obtain ⟨ss', hread', hmem⟩ := hsame.listed hread
    exact .pointerLeaf hv hread' fun s hs ha => hnone s ((hmem s).mp hs) (happ ▸ ha)
  | pointerNone hv hread _ ih =>
    obtain ⟨ss', hread', hmem⟩ := hsame.listed hread
    refine .pointerNone hv hread' fun s hs ha x hx => ?_
    rw [hrw]
    exact ih s ((hmem s).mp hs) (happ ▸ ha) x hx

theorem nodeDerivesIn_iff (h : SameListing r r') {k : ℕ} {v : Bool} {n : SubjectSet} :
    r'.NodeDerivesIn k v n ↔ r.NodeDerivesIn k v n := by
  unfold NodeDerivesIn
  rw [h.rewrite_eq]
  exact ⟨h.symm.derivesIn, h.derivesIn⟩

theorem holds_iff (h : SameListing r r') {n : SubjectSet} : r'.Holds n ↔ r.Holds n :=
  exists_congr fun _ => h.nodeDerivesIn_iff

theorem around_subset (h : SameListing r r') (n : SubjectSet) : r'.around n ⊆ r.around n := by
  refine around_mono (system_refs_mono h.model h.query fun x ss' s hss' hs happ => ?_) n
  obtain ⟨ss, hss, hmem⟩ := h.symm.listed hss'
  exact ⟨ss, hss, (hmem s).mpr hs, h.applies_eq ▸ happ⟩

end SameListing

end Request

/-! ## Groups in a loop, and a chain of groups -/

namespace Loop

def outer : SubjectSet := ⟨str "group", str "outer", str "member"⟩

def inner : SubjectSet := ⟨str "group", str "inner", str "member"⟩

/-- The members of the inner group: the outer group, and a user. -/
def members : List Subject := [{ set := some outer }, { userID := str "u" }]

def reader (ss : List Subject) : Reader := fun n => .ok (
  if n = outer then [{ set := some inner }]
  else if n = inner then ss
  else [])

def engine (ss : List Subject) : Engine where
  reader _ _ := reader ss

theorem keys_separate {ss : List Subject} (hss : ∀ s ∈ ss, ∀ x, s.set = some x → x = outer)
    {p t : GoString} {cc : Context} :
    Set.InjOn visitKey (((engine ss).request ∅ p t "u" cc).around outer) := by
  have hsub : ((engine ss).request ∅ p t "u" cc).around outer ⊆ {outer, inner} := by
    refine Request.around_subset (.inl rfl) fun x hx q hq => ?_
    obtain ⟨listed, hread, s, hs, hset⟩ := Request.refs_of_this rfl hq
    cases hread
    rcases hx with rfl | rfl
    · right
      cases List.mem_singleton.mp hs
      exact (Option.some.inj hset).symm
    · left
      exact hss s hs q.2 hset
  refine Set.InjOn.mono hsub ?_
  rintro x (rfl | rfl) y (rfl | rfl) hkey
  · rfl
  · exact absurd hkey (by decide)
  · exact absurd hkey (by decide)
  · rfl

end Loop

namespace Chain

/-- The `i`-th group of a chain of nested groups. -/
def link (i : ℕ) : SubjectSet := ⟨str "group", List.replicate i (ascii 'a'), str "member"⟩

/-- A document is open to the members of two groups at once. -/
def model : Model := .ofList [("doc", .ofList [("open",
  { intersection := [{ tuplesetRelation := "near", computedRelation := "member" },
      { tuplesetRelation := "far", computedRelation := "member" }] })])]

def doc1 : SubjectSet := ⟨str "doc", str "1", str "open"⟩

def doc2 : SubjectSet := ⟨str "doc", str "2", str "open"⟩

def shared : SubjectSet := ⟨str "doc", str "1", str "view"⟩

/-- The members of `link i`: the next group, and at the end of the chain a user. -/
def members (i : ℕ) : List Subject :=
  if i < 33 then [{ set := some (link (i + 1)) }] else if i = 33 then [{ userID := "u" }] else []

def reader (viewers : List Subject) : Reader := fun n => .ok (
  if n = ⟨str "doc", str "1", str "near"⟩ then [{ set := some (link 32) }]
  else if n = ⟨str "doc", str "1", str "far"⟩ then [{ set := some (link 1) }]
  else if n = ⟨str "doc", str "2", str "near"⟩ then [{ set := some (link 32) }]
  else if n = shared then viewers
  else if n.ns = str "group" then members n.objectID.length
  else [])

def engine (viewers : List Subject) : Engine where
  reader _ _ := reader viewers

/-- The shared document is shared with the first group and the viewers of the second document. -/
def viewers : List Subject := [{ set := some (link 1) }, { set := some doc2 }]

def nodes : Set SubjectSet := {doc1, doc2, shared} ∪ Set.range link

theorem visitKey_injOn_nodes : Set.InjOn visitKey nodes := by
  have hlink : ∀ i j, visitKey (link i) = visitKey (link j) → link i = link j := by
    intro i j h
    have hlen := congrArg List.length h
    simp only [visitKey, link, List.length_append, List.length_replicate] at hlen
    have : i = j := by omega
    rw [this]
  have hhead : ∀ i, (visitKey (link i)).head? = some (ascii 'g') := fun i => rfl
  have hdoc : ∀ x ∈ ({doc1, doc2, shared} : Set SubjectSet),
      (visitKey x).head? = some (ascii 'd') := by
    rintro x (rfl | rfl | rfl) <;> rfl
  have hgd : ascii 'g' ≠ ascii 'd' := by decide
  rintro x (hx | ⟨i, rfl⟩) y (hy | ⟨j, rfl⟩) h
  · rcases hx with rfl | rfl | rfl <;> rcases hy with rfl | rfl | rfl <;>
      first | rfl | exact absurd h (by decide)
  · have := congrArg List.head? h
    rw [hdoc x hx, hhead j] at this
    exact absurd (Option.some.inj this).symm hgd
  · have := congrArg List.head? h
    rw [hdoc y hy, hhead i] at this
    exact absurd (Option.some.inj this) hgd
  · exact hlink i j h

theorem set_of_mem {ss listed : List Subject} {n x : SubjectSet} {s : Subject}
    (hn : n ≠ shared) (hread : reader ss n = .ok listed) (hs : s ∈ listed) (hx : s.set = some x) :
    x ∈ Set.range link := by
  cases hread
  unfold members at hs
  split_ifs at hs <;> simp_all <;> exact ⟨_, hx⟩

theorem refs_open {ss : List Subject} {p t u : GoString} {cc : Context} {x : SubjectSet}
    (hx : ((engine ss).request model p t u cc).rewrite x = { intersection :=
      [{ tuplesetRelation := "near", computedRelation := "member" },
        { tuplesetRelation := "far", computedRelation := "member" }] }) {q : Bool × SubjectSet}
    (hq : q ∈ (((engine ss).request model p t u cc).system x).refs) : q.2 ∈ Set.range link := by
  have hgate : ∀ ts, ts = str "near" ∨ ts = str "far" →
      q ∈ (((engine ss).request model p t u cc).rewriteFormula x
        { tuplesetRelation := ts, computedRelation := "member" }).refs → q.2 ∈ Set.range link := by
    intro ts hts hq
    obtain ⟨listed, hread, s, hs, hp⟩ := Request.refs_of_pointer
      (Alias.pointer_view ts "member" (by rcases hts with rfl | rfl <;> decide)) hq
    obtain ⟨set, hset, hq⟩ := Option.map_eq_some_iff.mp hp
    have hne : (⟨x.ns, x.objectID, ts⟩ : SubjectSet) ≠ shared := by
      intro h
      have hrel : ts = str "view" := congrArg SubjectSet.relation h
      rcases hts with rfl | rfl
      · exact absurd hrel (by decide)
      · exact absurd hrel (by decide)
    obtain ⟨i, rfl⟩ := set_of_mem hne hread hs hset
    exact ⟨i, hq⟩
  rw [Request.system, hx, Request.rewriteFormula_eq] at hq
  obtain ⟨f, hf, hq⟩ := Formula.mem_refs_all.mp hq
  obtain ⟨c, hc, rfl⟩ := List.mem_map.mp hf
  rcases List.mem_pair.mp hc with rfl | rfl
  · exact hgate _ (.inl rfl) hq
  · exact hgate _ (.inr rfl) hq

theorem keys_separate {ss : List Subject} (hss : ∀ s ∈ ss, ∀ x, s.set = some x → x ∈ nodes)
    {p t u : GoString} {cc : Context} {n : SubjectSet} (hn : n ∈ nodes) :
    Set.InjOn visitKey (((engine ss).request model p t u cc).around n) := by
  refine visitKey_injOn_nodes.mono (Request.around_subset hn fun x hx q hq => ?_)
  rcases hx with (rfl | rfl | rfl) | ⟨i, rfl⟩
  · exact .inr (refs_open rfl hq)
  · exact .inr (refs_open rfl hq)
  · obtain ⟨listed, hread, s, hs, hset⟩ := Request.refs_of_this rfl hq
    cases hread
    exact hss s hs q.2 hset
  · obtain ⟨listed, hread, s, hs, hset⟩ := Request.refs_of_this rfl hq
    have hne : link i ≠ shared := fun h =>
      absurd (congrArg SubjectSet.relation h) (by decide : str "member" ≠ str "view")
    exact .inr (set_of_mem hne hread hs hset)

end Chain

/-! ## Checks of one user -/

section Engine

variable (e : Engine) (m : Model) (projectID tenantID : GoString) (n : SubjectSet)
  (userID : GoString) (cc : Context) (maxReads : ℤ)

/-- A check decides a node that has a derivation within the depth bound or none
at all, and any node for which its depth guard stays silent. -/
theorem checkWithModel_decides (hstore : (e.reader projectID tenantID).Total)
    (hreads : e.effectiveMaxReads maxReads ≤ 0)
    (hkeys : Set.InjOn visitKey ((e.request m projectID tenantID userID cc).around n))
    (hdepth : (∃ k ≤ e.maxDepth,
      (e.request m projectID tenantID userID cc).NodeDerivesIn k true n) ∨
      ¬ (e.request m projectID tenantID userID cc).Holds n ∨
      (e.checkWithModel m projectID tenantID n userID cc maxReads).backstops.depth = 0) :
    ∃ b, (e.checkWithModel m projectID tenantID n userID cc maxReads).result = .ok b ∧
      (b = true ↔ (e.request m projectID tenantID userID cc).Holds n) := by
  obtain ⟨b, st, hrun⟩ := Request.check_succeeds (r := e.request m projectID tenantID userID cc)
    stringKeys (e.maxDepth + 1) n hstore hreads
  have hof : e.checkWithModel m projectID tenantID n userID cc maxReads =
      ⟨.ok b, st.backstops⟩ := by
    rw [Engine.checkWithModel, Engine.checkWithKeys, hrun]
    rfl
  rw [hof] at hdepth ⊢
  refine ⟨b, rfl, ?_, fun hholds => ?_⟩
  · rintro rfl
    exact Request.holds_of_check (K := stringKeys) (hkeys.mono (Request.below_subset_around n))
      (fun _ => rfl) hrun
  · rcases hdepth with ⟨k, hk, hd⟩ | hnot | hsilent
    · exact Request.check_complete (K := stringKeys) hkeys hd hrun (.inl (by omega))
    · exact absurd hholds hnot
    · obtain ⟨k, hd⟩ := hholds
      exact Request.check_complete (K := stringKeys) hkeys hd hrun (.inr hsilent)

/-- Cycles and the memo never cost a grant within the depth bound. -/
theorem checkWithModel_complete (hstore : (e.reader projectID tenantID).Total)
    (hreads : e.effectiveMaxReads maxReads ≤ 0)
    (hkeys : Set.InjOn visitKey ((e.request m projectID tenantID userID cc).around n)) :
    (∀ k ≤ e.maxDepth, (e.request m projectID tenantID userID cc).NodeDerivesIn k true n →
      (e.checkWithModel m projectID tenantID n userID cc maxReads).result = .ok true) ∧
    ((e.checkWithModel m projectID tenantID n userID cc maxReads).result = .ok true →
      (e.request m projectID tenantID userID cc).Holds n) := by
  constructor
  · intro k hk hd
    obtain ⟨b, hok, hb⟩ := checkWithModel_decides _ _ _ _ _ _ _ _ hstore hreads hkeys
      (.inl ⟨k, hk, hd⟩)
    rw [hok, hb.mpr ⟨k, hd⟩]
  · intro hok
    obtain ⟨st, hrun, -⟩ := Outcome.of_result_ok hok
    exact Request.holds_of_check (K := stringKeys) (hkeys.mono (Request.below_subset_around n))
      (fun _ => rfl) hrun

/-- The loop of the two groups does not hide the user in it. -/
theorem checkWithModel_complete_loop :
    ((Loop.engine Loop.members).checkWithModel ∅ "p" "t" Loop.outer "u" ∅ 0).result = .ok true ∧
      ((Loop.engine Loop.members).request ∅ "p" "t" "u" ∅).Holds Loop.outer := by
  have hinner : ((Loop.engine Loop.members).request ∅ "p" "t" "u" ∅).NodeDerivesIn 0 true
      Loop.inner :=
    .thisGrant rfl rfl (List.mem_cons_of_mem _ List.mem_cons_self) rfl (by decide)
  have houter : ((Loop.engine Loop.members).request ∅ "p" "t" "u" ∅).NodeDerivesIn 1 true
      Loop.outer :=
    .thisMember rfl rfl List.mem_cons_self rfl rfl hinner
  have h := checkWithModel_complete (Loop.engine Loop.members) ∅ "p" "t" Loop.outer "u" ∅ 0
    (fun n => ⟨_, rfl⟩) le_rfl (Loop.keys_separate (by simp [Loop.members]))
  have hok := h.1 1 (by decide) houter
  exact ⟨hok, h.2 hok⟩

/-- Without a guard the answer is exact, and the evaluator without a memo gives
the same answer unless its own depth guard fires. -/
theorem checkWithModel_exact (b : Bool)
    (hkeys : Set.InjOn visitKey ((e.request m projectID tenantID userID cc).around n))
    (hok : (e.checkWithModel m projectID tenantID n userID cc maxReads).result = .ok b)
    (hcycle : (e.checkWithModel m projectID tenantID n userID cc maxReads).backstops.cycle = 0)
    (hdepth : (e.checkWithModel m projectID tenantID n userID cc maxReads).backstops.depth = 0) :
    (b = true ↔ (e.request m projectID tenantID userID cc).Holds n) ∧
    (b = false ↔ (e.request m projectID tenantID userID cc).Fails n) ∧
    ∀ maxReads' b',
      (e.checkWithKeys memoFreeKeys m projectID tenantID n userID cc maxReads').result = .ok b' →
      (e.checkWithKeys memoFreeKeys m projectID tenantID n userID cc
        maxReads').backstops.depth = 0 →
      b' = b := by
  have hbelow := hkeys.mono (Request.below_subset_around n)
  obtain ⟨st, hrun, hst⟩ := Outcome.of_result_ok hok
  have hexact : Derives _ b _ := Request.check_exact (K := stringKeys) hbelow hrun
    (by rw [← hst]; exact hcycle) (by rw [← hst]; exact hdepth)
  refine ⟨?_, ?_, ?_⟩
  · rw [Request.holds_iff]
    exact ⟨fun h => h ▸ hexact, fun h => hexact.unique h⟩
  · rw [Request.fails_iff]
    exact ⟨fun h => h ▸ hexact, fun h => hexact.unique h⟩
  · intro maxReads' b' hok' hdepth'
    obtain ⟨st', hrun', hst'⟩ := Outcome.of_result_ok hok'
    cases b' with
    | true =>
      have hholds := Request.holds_of_check (K := memoFreeKeys) hbelow (fun _ => rfl) hrun'
      exact (Request.holds_iff.mp hholds).unique hexact
    | false =>
      cases b with
      | false => rfl
      | true =>
        obtain ⟨k, hk⟩ := Request.holds_iff.mpr hexact
        exact Request.check_complete (K := memoFreeKeys) hkeys hk hrun'
          (.inr (by rw [← hst']; exact hdepth'))

/-- The user is listed before the outer group, so the loop is not walked. -/
theorem checkWithModel_exact_loop :
    ((Loop.engine Loop.members.reverse).request ∅ "p" "t" "u" ∅).Holds Loop.outer ∧
      ((Loop.engine Loop.members.reverse).checkWithKeys memoFreeKeys ∅ "p" "t" Loop.outer "u" ∅
        0).result = .ok true := by
  have hok : (Loop.engine Loop.members.reverse).checkWithModel ∅ "p" "t" Loop.outer "u" ∅ 0 =
      ⟨.ok true, {}⟩ := by decide
  have hfree : (Loop.engine Loop.members.reverse).checkWithKeys memoFreeKeys ∅ "p" "t" Loop.outer
      "u" ∅ 0 = ⟨.ok true, {}⟩ := by decide
  have h := checkWithModel_exact (Loop.engine Loop.members.reverse) ∅ "p" "t" Loop.outer "u" ∅ 0
    true (Loop.keys_separate (by simp [Loop.members])) (by rw [hok]) (by rw [hok]) (by rw [hok])
  exact ⟨h.1.mp rfl, by rw [hfree, h.2.2 0 true (by rw [hfree]) (by rw [hfree])]⟩

/-- The group at the depth bound is remembered from a shallower visit, and the
evaluator without a memo cannot look into it again. -/
theorem checkWithModel_memo_beyond_depth :
    let e := Chain.engine []
    Set.InjOn visitKey ((e.request Chain.model "p" "t" "u" ∅).around Chain.doc1) ∧
      e.checkWithModel Chain.model "p" "t" Chain.doc1 "u" ∅ 0 = ⟨.ok true, {}⟩ ∧
      (e.checkWithKeys memoFreeKeys Chain.model "p" "t" Chain.doc1 "u" ∅ 0).result = .ok false := by
  refine ⟨Chain.keys_separate (by simp) (.inl (.inl rfl)), ?_, ?_⟩
  · decide +kernel
  · decide +kernel

/-- The order of listed subjects is irrelevant to a check of a node that has a
derivation within the depth bound or none at all, and whenever the depth guard
stays silent in both orders. -/
theorem checkWithModel_order_irrelevant (reader' : GoString → GoString → Reader)
    (hstore : (e.reader projectID tenantID).Total)
    (hperm : ∀ x ss, e.reader projectID tenantID x = .ok ss →
      ∃ ss', reader' projectID tenantID x = .ok ss' ∧ ss'.Perm ss)
    (hreads : e.effectiveMaxReads maxReads ≤ 0)
    (hkeys : Set.InjOn visitKey ((e.request m projectID tenantID userID cc).around n))
    (hdepth : (∃ k ≤ e.maxDepth,
      (e.request m projectID tenantID userID cc).NodeDerivesIn k true n) ∨
      ¬ (e.request m projectID tenantID userID cc).Holds n ∨
      ((e.checkWithModel m projectID tenantID n userID cc maxReads).backstops.depth = 0 ∧
        ({ e with reader := reader' }.checkWithModel m projectID tenantID n userID cc
          maxReads).backstops.depth = 0)) :
    ({ e with reader := reader' }.checkWithModel m projectID tenantID n userID cc maxReads).result =
      (e.checkWithModel m projectID tenantID n userID cc maxReads).result := by
  have hsame : Request.SameListing (e.request m projectID tenantID userID cc)
      ({ e with reader := reader' }.request m projectID tenantID userID cc) := by
    refine ⟨rfl, rfl, rfl, fun x => ?_⟩
    obtain ⟨ss, hss⟩ := hstore x
    obtain ⟨ss', hss', hp⟩ := hperm x ss hss
    exact ⟨ss, ss', hss, hss', fun s => hp.mem_iff⟩
  have hstore' : (reader' projectID tenantID).Total := fun x => by
    obtain ⟨ss, ss', -, hss', -⟩ := hsame.reader x
    exact ⟨ss', hss'⟩
  obtain ⟨b, hok, hb⟩ := checkWithModel_decides _ _ _ _ _ _ _ _ hstore hreads hkeys
    (hdepth.imp_right (Or.imp_right And.left))
  have hdepth' := hdepth.imp_right (Or.imp_right And.right)
  simp only [← hsame.nodeDerivesIn_iff, ← hsame.holds_iff] at hdepth'
  obtain ⟨b', hok', hb'⟩ := checkWithModel_decides { e with reader := reader' } _ _ _ _ _ _ _
    hstore' hreads (hkeys.mono (hsame.around_subset n)) hdepth'
  have hbb : b' = b := Bool.eq_iff_iff.mpr ((hb'.trans hsame.holds_iff).trans hb.symm)
  rw [hok, hok', hbb]

theorem checkWithModel_order_irrelevant_loop :
    ((Loop.engine Loop.members.reverse).checkWithModel ∅ "p" "t" Loop.outer "u" ∅ 0).result =
      ((Loop.engine Loop.members).checkWithModel ∅ "p" "t" Loop.outer "u" ∅ 0).result := by
  refine checkWithModel_order_irrelevant (Loop.engine Loop.members) ∅ "p" "t" Loop.outer "u" ∅ 0
    (Loop.engine Loop.members.reverse).reader (fun n => ⟨_, rfl⟩) ?_ le_rfl
    (Loop.keys_separate (by simp [Loop.members])) (.inr (.inr ⟨by decide, by decide⟩))
  rintro x ss ⟨⟩
  refine ⟨_, rfl, ?_⟩
  split_ifs
  · exact .refl _
  · exact List.reverse_perm _
  · exact .refl _

/-- The shared document is viewed through the group at the depth bound, if the
other viewer has been looked at before. -/
theorem checkWithModel_order_matters :
    let e := Chain.engine Chain.viewers
    let e' := Chain.engine Chain.viewers.reverse
    Set.InjOn visitKey ((e.request Chain.model "p" "t" "u" ∅).around Chain.shared) ∧
      (e.checkWithModel Chain.model "p" "t" Chain.shared "u" ∅ 0).result = .ok false ∧
      (e'.checkWithModel Chain.model "p" "t" Chain.shared "u" ∅ 0).result = .ok true := by
  refine ⟨Chain.keys_separate ?_ (.inl (.inr (.inr rfl))), ?_, ?_⟩
  · intro s hs x hx
    rcases List.mem_pair.mp hs with rfl | rfl
    · exact .inr ⟨1, Option.some.inj hx⟩
    · exact .inl (.inr (.inl (Option.some.inj hx).symm))
  · decide +kernel
  · decide +kernel

end Engine

end WorkspaceAuthz.Authz
