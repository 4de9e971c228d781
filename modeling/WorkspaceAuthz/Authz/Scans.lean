import WorkspaceAuthz.Authz.Exactness
import WorkspaceAuthz.Authz.ReadCost
import WorkspaceAuthz.Authz.ResponseSize
import WorkspaceAuthz.Authz.SetChecks
import WorkspaceAuthz.RecursiveFormula.Exhaustive

/-! # Scans of a namespace

A listing checks its candidates one after the other on one read budget, which is sized
for twice the depth bound in reads for each. It has room for them if and only if the
checks, each on its own, make no more reads in all. A check that denies reads all there
is around its candidate, so that a candidate may well need more than its share: in a
check that reaches the depth bound along two ways, every level of both is read.
-/
namespace WorkspaceAuthz.Authz
open Go RecursiveFormula

variable {r : Request} {n : SubjectSet}

/-! ## Models of unions -/

/-- Neither intersections nor exclusions among the operators that the evaluator takes. -/
inductive Rewrite.Additive : Rewrite → Prop
  | this {rw} : rw.view = .this → Additive rw
  | union {rw cs} : rw.view = .union cs → (∀ c ∈ cs, Additive c) → Additive rw
  | computed {rw rel} : rw.view = .computed rel → Additive rw
  | tupleToUserset {rw ts rel} : rw.view = .tupleToUserset ts rel → Additive rw

def Model.Additive (m : Model) : Prop := ∀ ns rel, (m.rewrite ns rel).Additive

theorem Rewrite.Additive.formula {rw : Rewrite} (h : rw.Additive) :
    (r.rewriteFormula n rw).Disjunctive ∧ (r.rewriteFormula n rw).reads = rw.leaves := by
  induction h with
  | this hv =>
    rw [Request.rewriteFormula_eq, Rewrite.leaves_eq, hv]
    exact ⟨readFormula_disjunctive subjectFormula_disjunctive n,
      Request.reads_readFormula Request.reads_subjectFormula⟩
  | union hv _ ih =>
    rw [Request.rewriteFormula_eq, Rewrite.leaves_eq, hv, Request.viewFormula, reads_any,
      List.map_map]
    exact ⟨Formula.any_disjunctive (List.forall_mem_map.mpr fun c hc => (ih c hc).1),
      congrArg List.sum (List.map_congr_left fun c hc => (ih c hc).2)⟩
  | computed hv =>
    rw [Request.rewriteFormula_eq, Rewrite.leaves_eq, hv]
    exact ⟨trivial, rfl⟩
  | @tupleToUserset _ ts rel hv =>
    rw [Request.rewriteFormula_eq, Rewrite.leaves_eq, hv]
    exact ⟨readFormula_disjunctive (pointerFormula_disjunctive rel) _,
      Request.reads_readFormula (Request.reads_pointerFormula rel)⟩

/-! ## The reads of one check -/

section Check

def Request.evaluatedNodes (r : Request) (left : ℕ) (n : SubjectSet) : Finset SubjectSet :=
  ((r.evaluated left n false (newEvalState 0)).map Prod.fst).toFinset

variable {left : ℕ} {b : Bool} {st : SearchState GoString GoString} (hm : r.model.Additive)
include hm

theorem system_disjunctive (x : SubjectSet) : (r.system x).Disjunctive :=
  (hm x.ns x.relation).formula.1

theorem logReads_eq (log : List (SubjectSet × Bool)) :
    logReads r.system log = (log.map fun p => (r.rewrite p.1).leaves).sum :=
  congrArg List.sum (List.map_congr_left fun p _ => (hm p.1.ns p.1.relation).formula.2)

theorem evaluated_positive : ∀ p ∈ r.evaluated left n false (newEvalState 0),
    p.1 ∈ r.around n ∧ p.2 = false := by
  have hclosed : ClosedWithPolarity r.system {p | p.1 ∈ r.around n ∧ p.2 = false} := by
    rintro ⟨x, neg⟩ ⟨hx, rfl⟩ q hq
    refine ⟨Request.closed_around n x hx q hq, ?_⟩
    rw [(system_disjunctive hm x).positive q hq]
    rfl
  exact evaluations_mem hclosed left ⟨Request.self_mem_around n, rfl⟩ _

theorem sum_evaluated (hnodup : (r.evaluated left n false (newEvalState 0)).Nodup) :
    ((r.evaluated left n false (newEvalState 0)).map fun p => (r.rewrite p.1).leaves).sum =
      ∑ x ∈ r.evaluatedNodes left n, (r.rewrite x).leaves := by
  have hfst : ((r.evaluated left n false (newEvalState 0)).map Prod.fst).Nodup := by
    refine List.Nodup.map_on (fun p hp q hq heq => Prod.ext heq ?_) hnodup
    rw [(evaluated_positive hm p hp).2, (evaluated_positive hm q hq).2]
  rw [Request.evaluatedNodes, List.sum_toFinset _ hfst, List.map_map]
  rfl

theorem mem_evaluatedNodes {x : SubjectSet} :
    x ∈ r.evaluatedNodes left n ↔ (x, false) ∈ r.evaluated left n false (newEvalState 0) := by
  rw [Request.evaluatedNodes, List.mem_toFinset, List.mem_map]
  constructor
  · rintro ⟨⟨y, neg⟩, hp, rfl⟩
    obtain rfl : neg = false := (evaluated_positive hm _ hp).2
    exact hp
  · exact fun h => ⟨_, h, rfl⟩

theorem evaluatedNodes_subset {x : SubjectSet} (hx : x ∈ r.evaluatedNodes left n) :
    x ∈ r.around n :=
  (evaluated_positive hm _ ((mem_evaluatedNodes hm).mp hx)).1

variable (hdepth : st.backstops.depth = 0) (hcycle : st.backstops.cycle = 0)
include hdepth hcycle

theorem reads_le_of_around {nodes : Finset SubjectSet} (hnodes : r.around n ⊆ nodes)
    (hrun : r.check stringKeys left n false (newEvalState 0) = .ok b st) :
    st.reads ≤ ∑ x ∈ nodes, (r.rewrite x).leaves := by
  have hnodup := Request.evaluated_nodup hrun (Request.cyclesSeen_eq hrun hdepth hcycle)
  have hreads := Request.reads_le_leaves hrun
  rw [sum_evaluated hm hnodup] at hreads
  refine (hreads.trans_eq (Nat.zero_add _)).trans (Finset.sum_le_sum_of_subset fun x hx => ?_)
  exact hnodes (evaluatedNodes_subset hm hx)

/-- What is evaluated contains the node and is closed, if nothing ends the check early. -/
theorem coe_evaluatedNodes (hkeys : Set.InjOn visitKey (r.around n))
    (hrun : r.check stringKeys left n false (newEvalState 0) = .ok false st) :
    (r.evaluatedNodes left n : Set SubjectSet) = r.around n := by
  have hclean := Request.cyclesSeen_eq hrun hdepth hcycle
  rw [Request.check_eq_search] at hrun
  obtain ⟨hself, hclosed⟩ := evaluations_closed stringKeys_remembers hkeys
    (Request.closed_around n) (system_disjunctive hm) (Request.self_mem_around n) (fun _ => rfl)
    hrun hclean
  ext x
  rw [Finset.mem_coe]
  constructor
  · exact evaluatedNodes_subset hm
  · intro hx
    rw [mem_evaluatedNodes hm]
    induction hx with
    | refl => exact hself
    | tail hy hrefers ih =>
      obtain ⟨negated, hp⟩ := hrefers
      exact hclosed _ hy ih _ hp

/-- One that denies reads once for each leaf around its node, where no two nodes have one key. -/
theorem reads_eq_of_denied (hkeys : Set.InjOn visitKey (r.around n))
    (hrun : r.check stringKeys left n false (newEvalState 0) = .ok false st) :
    ∃ nodes : Finset SubjectSet, (nodes : Set SubjectSet) = r.around n ∧
      st.reads = ∑ x ∈ nodes, (r.rewrite x).leaves := by
  refine ⟨r.evaluatedNodes left n, coe_evaluatedNodes hm hdepth hcycle hkeys hrun, ?_⟩
  have hnodup := Request.evaluated_nodup hrun (Request.cyclesSeen_eq hrun hdepth hcycle)
  rw [Request.check_eq_search] at hrun
  have hreads := reads_eq_logReads (system_disjunctive hm) hrun
  rw [logReads_eq hm] at hreads
  exact (hreads.trans (Nat.zero_add _)).trans (sum_evaluated hm hnodup)

end Check

/-! ## One budget for all candidates -/

section Candidates

variable {e : Engine} {m : Model} {projectID tenantID ns relation userID : GoString}

abbrev Engine.candidateRun (e : Engine) (m : Model)
    (projectID tenantID ns relation userID id : GoString) :=
  e.checkRun m projectID tenantID ⟨ns, id, relation⟩ ∅ userID 0

/-- A candidate costs as many reads in a scan as on its own. -/
theorem check_of_candidateRun {id : GoString} {b : Bool} {s' : SearchState GoString GoString}
    (st : SearchState GoString GoString)
    (hrun : e.candidateRun m projectID tenantID ns relation userID id = .ok b s')
    (hvisited : st.visited = ∅) (hmemo : st.memo = fun _ => none)
    (hbudget : 0 < st.maxReads → ((st.reads + s'.reads : ℕ) : ℤ) ≤ st.maxReads) :
    ∃ s, (e.request m projectID tenantID userID ∅).check stringKeys (e.maxDepth + 1)
        ⟨ns, id, relation⟩ false st = .ok b s ∧
      s.maxReads = st.maxReads ∧ s.reads = st.reads + s'.reads := by
  have haffords : Affords .evalBudgetExceeded ((e.request m projectID tenantID userID ∅).check
      stringKeys (e.maxDepth + 1) ⟨ns, id, relation⟩ false) := by
    rw [Request.check_eq_search]
    exact affords_search _ _ _ _ _ _
  have hroom : st.Roomier st.cyclesSeen (newEvalState 0) :=
    ⟨hvisited.symm, hmemo.symm, (Nat.zero_add _).symm, Nat.zero_le _, .inl le_rfl⟩
  exact haffords.pays hroom hrun hbudget

variable {ids : List GoString} {cost : GoString → ℕ}
  (hruns : ∀ id ∈ ids, ∃ b s,
    e.candidateRun m projectID tenantID ns relation userID id = .ok b s ∧ s.reads = cost id)
include hruns

theorem checkObjects_of_candidateRuns (st : SearchState GoString GoString)
    (hbudget : 0 < st.maxReads → ((st.reads + (ids.map cost).sum : ℕ) : ℤ) ≤ st.maxReads) :
    ∃ out s, e.checkObjects m projectID tenantID ns relation userID ids st = .ok out s ∧
      s.reads = st.reads + (ids.map cost).sum := by
  induction ids generalizing st with
  | nil => exact ⟨[], st, rfl, rfl⟩
  | cons id ids ih =>
    rw [List.forall_mem_cons] at hruns
    obtain ⟨⟨b, s', hrun, hreads⟩, hruns⟩ := hruns
    rw [List.map_cons, List.sum_cons] at hbudget ⊢
    obtain ⟨s, hs, hmax, heq⟩ := check_of_candidateRun
      { st with visited := ∅, memo := fun _ => none } hrun rfl rfl fun hpos => by
        have := hbudget hpos
        simp only
        omega
    simp only at hmax heq
    obtain ⟨out, s₁, hrest, heq₁⟩ := ih hruns s fun hpos => by
      rw [hmax] at hpos ⊢
      have := hbudget hpos
      omega
    exact ⟨_, s₁, bind_ok.mpr ⟨⟨⟩, _, rfl,
      bind_ok.mpr ⟨b, s, hs, bind_ok.mpr ⟨out, s₁, hrest, rfl⟩⟩⟩, by omega⟩

/-- A scan has room for its candidates if and only if their reads fit in its budget. -/
theorem checkObjects_within_iff {B : ℤ} (hB : 0 < B) :
    (Outcome.of (e.checkObjects m projectID tenantID ns relation userID ids
      (newEvalState B))).result ≠ .error .evalBudgetExceeded ↔
        (((ids.map cost).sum : ℕ) : ℤ) ≤ B := by
  constructor
  · intro h
    have hwithin : WithinReads (e.checkObjects m projectID tenantID ns relation userID ids) :=
      (compositional_withinReads _ 0).checkObjects withinReads_reset
        (fun r _ left n => withinReads_check _ r left n false) m ns relation userID ids
    obtain ⟨out, s₀, hfree, hreads⟩ := checkObjects_of_candidateRuns hruns (newEvalState 0)
      fun hpos => absurd hpos (lt_irrefl 0)
    have hend := hwithin.capped (newEvalState B) (withinBudget_newEvalState B)
    have halike := hwithin.alike 0 _ _ (roomier_newEvalState hB (.inr le_rfl))
    rw [hfree] at halike
    cases hrun : e.checkObjects m projectID tenantID ns relation userID ids (newEvalState B) with
    | ok out' s =>
      rw [hrun] at hend halike
      obtain ⟨_, heq, hroom⟩ := halike
      cases heq
      have hle := hroom.reads
      have hcap := hend.2.reads_le (hend.1 ▸ hB)
      rw [hend.1] at hcap
      simp only [newEvalState] at hreads hcap
      omega
    | error err s =>
      rw [hrun] at halike h
      obtain rfl | ⟨_, heq⟩ := halike
      · exact absurd rfl h
      · cases heq
  · intro h
    obtain ⟨out, s, hrun, -⟩ := checkObjects_of_candidateRuns hruns (newEvalState B) fun _ => by
      simpa only [newEvalState, Nat.zero_add] using h
    rw [hrun]
    simp [Outcome.of]

end Candidates

/-! ## The built-in model -/

theorem additive_computed {rel : GoString} (h : rel ≠ []) :
    ({ computed := rel } : Rewrite).Additive := by
  have hv : ({ computed := rel } : Rewrite).view = .computed rel := by
    simp [Rewrite.view, Rewrite.isThis, h]
  exact .computed hv

theorem additive_tupleToUserset {ts rel : GoString} (h : ts ≠ []) :
    ({ tuplesetRelation := ts, computedRelation := rel } : Rewrite).Additive := by
  have hv : ({ tuplesetRelation := ts, computedRelation := rel } : Rewrite).view =
      .tupleToUserset ts rel := by
    simp [Rewrite.view, Rewrite.isThis, h]
  exact .tupleToUserset hv

theorem additive_union {c : Rewrite} {cs : List Rewrite}
    (h : ∀ c' ∈ c :: cs, c'.Additive) : ({ union := c :: cs } : Rewrite).Additive :=
  .union rfl h

theorem defaultModel_additive : defaultModel.Additive := by
  have hthis : Rewrite.this.Additive := .this rfl
  have hgrade {rel : GoString} (h : rel ≠ []) :
      ({ union := [.this, { computed := rel }] } : Rewrite).Additive := by
    apply additive_union
    simp [hthis, additive_computed h]
  have hinherited {rel ts rel' : GoString} (h : rel ≠ []) (hts : ts ≠ []) :
      ({ union := [.this, { computed := rel },
        { tuplesetRelation := ts, computedRelation := rel' }] } : Rewrite).Additive := by
    apply additive_union
    simp [hthis, additive_computed h, additive_tupleToUserset hts]
  intro ns rel
  unfold Model.rewrite
  simp only [defaultModel, GoMap.get_ofList_cons, GoMap.get_ofList_nil]
  split_ifs <;> simp only [Option.bind_some, Option.bind_none, GoMap.get_ofList_cons,
    GoMap.get_ofList_nil]
  · split_ifs
    · exact hthis
    · exact hgrade (by decide)
    · exact hgrade (by decide)
    · exact hgrade (by decide)
    · exact additive_computed (by decide)
    · exact additive_computed (by decide)
    · exact hthis
  · split_ifs
    · exact hthis
    · exact hthis
  · split_ifs
    · exact hthis
    · exact hthis
    · exact hinherited (by decide) (by decide)
    · exact hinherited (by decide) (by decide)
    · exact hthis
  · exact hthis

def Engine.candidateCheck (e : Engine) (projectID tenantID userID id : GoString) : Outcome Bool :=
  ({ e with maxReads := 0 } : Engine).checkWithModel defaultModel projectID tenantID
    ⟨"resource", id, "viewer"⟩ userID ∅ 0

/-- A scan of the resources that a user may view. -/
structure Scan where
  engine : Engine
  store : SubjectSet → List Subject
  lister : Lister
  ids : List GoString
  projectID : GoString
  tenantID : GoString
  userID : GoString
  candidateCap : ℤ
  maxReads : ℤ

namespace Scan

variable (s : Scan)

def request : Request := s.engine.request defaultModel s.projectID s.tenantID s.userID ∅

def baseBudget : ℤ := s.engine.effectiveMaxReads s.maxReads

def listObjects : Outcome (List GoString) :=
  s.engine.listObjectsWithModel defaultModel s.projectID s.tenantID "resource" "viewer" s.userID
    s.lister s.candidateCap s.maxReads

def candidateCheck (id : GoString) : Outcome Bool :=
  s.engine.candidateCheck s.projectID s.tenantID s.userID id

/-- How often the check of a candidate on its own calls `ListSubjects`. -/
def candidateCalls (id : GoString) : ℕ :=
  callsOf (s.engine.candidateRun defaultModel s.projectID s.tenantID "resource" "viewer" s.userID
    id)

def around (id : GoString) : Set SubjectSet := s.request.around ⟨"resource", id, "viewer"⟩

/-- How many leaves that read stored tuples the rewrites of some nodes have. -/
def leavesOf (nodes : Finset SubjectSet) : ℕ :=
  ∑ x ∈ nodes, (defaultModel.rewrite x.ns x.relation).leaves

def leaves (nodes : GoString → Finset SubjectSet) : ℕ :=
  (s.ids.map fun id => leavesOf (nodes id)).sum

/-- At most as many resources as the cap allows, each with at most one parent, and none in whose
check on its own a guard answers. -/
structure Legitimate : Prop where
  depth : s.engine.maxDepth = maxRecursionDepth
  reader : s.engine.reader s.projectID s.tenantID = .ofStore s.store
  -- the candidates are the resources that have a tuple
  lister : s.lister "resource" = .ok s.ids
  nodup : s.ids.Nodup
  candidates : ∀ id, id ∈ s.ids ↔ ∃ relation, s.store ⟨"resource", id, relation⟩ ≠ []
  cap : 1 ≤ s.candidateCap
  length : s.ids.length ≤ s.candidateCap
  base : 1 ≤ s.baseBudget
  parent : ∀ id, (s.store ⟨"resource", id, "parent"⟩).length ≤ 1
  silent : ∀ id ∈ s.ids, (s.candidateCheck id).backstops.cycle = 0 ∧
    (s.candidateCheck id).backstops.depth = 0

variable {s}

theorem Legitimate.run (hs : s.Legitimate) (id : GoString) : ∃ b st,
    s.request.check stringKeys (s.engine.maxDepth + 1) ⟨"resource", id, "viewer"⟩ false
      (newEvalState 0) = .ok b st ∧
    s.candidateCheck id = ⟨.ok b, st.backstops⟩ ∧ s.candidateCalls id = st.reads := by
  have htotal : s.request.reader.Total := by
    change (s.engine.reader s.projectID s.tenantID).Total
    rw [hs.reader]
    exact fun n => ⟨s.store n, rfl⟩
  obtain ⟨b, st, hrun⟩ := Request.check_succeeds stringKeys (s.engine.maxDepth + 1)
    ⟨"resource", id, "viewer"⟩ (r := s.request) htotal le_rfl
  have hend := (withinReads_check stringKeys s.request (s.engine.maxDepth + 1)
    ⟨"resource", id, "viewer"⟩ false).capped _ (withinBudget_newEvalState 0)
  rw [hrun] at hend
  exact ⟨b, st, hrun, congrArg Outcome.of hrun,
    (congrArg callsOf hrun).trans hend.2.calls_eq⟩

theorem fanOutBudget_eq {e : Engine} {base candidates : ℤ} (hbase : 1 ≤ base) :
    e.fanOutBudget base candidates = max base (candidates * e.maxDepth * fanOutHeadroom) := by
  unfold Engine.fanOutBudget
  split_ifs <;> omega

theorem Legitimate.listObjects_eq (hs : s.Legitimate) : s.listObjects =
    .of (s.engine.checkObjects defaultModel s.projectID s.tenantID "resource" "viewer" s.userID
      s.ids (newEvalState (max s.baseBudget (64 * s.candidateCap)))) := by
  have hcap := hs.cap
  have hlength := hs.length
  have hbudget : s.engine.fanOutBudget s.baseBudget s.candidateCap =
      max s.baseBudget (64 * s.candidateCap) := by
    rw [fanOutBudget_eq hs.base, hs.depth]
    simp only [maxRecursionDepth, fanOutHeadroom]
    congr 1
    omega
  unfold listObjects Engine.listObjectsWithModel
  rw [hs.lister]
  dsimp only
  rw [if_neg (by omega), if_neg (by omega), ← hbudget]
  rfl

theorem Legitimate.listObjects_within_iff (hs : s.Legitimate) :
    s.listObjects.result ≠ .error .evalBudgetExceeded ↔
      (((s.ids.map s.candidateCalls).sum : ℕ) : ℤ) ≤ max s.baseBudget (64 * s.candidateCap) := by
  rw [hs.listObjects_eq]
  refine checkObjects_within_iff (fun id _ => ?_) (by have := hs.base; omega)
  obtain ⟨b, st, hrun, -, hcalls⟩ := hs.run id
  exact ⟨b, st, hrun, hcalls.symm⟩

theorem Legitimate.candidateCalls_le (hs : s.Legitimate) {id : GoString} (hid : id ∈ s.ids)
    {nodes : Finset SubjectSet} (hnodes : s.around id ⊆ nodes) :
    s.candidateCalls id ≤ leavesOf nodes := by
  obtain ⟨b, st, hrun, hcheck, hcalls⟩ := hs.run id
  obtain ⟨hcycle, hdepth⟩ := hs.silent id hid
  rw [hcheck] at hcycle hdepth
  have hreads := reads_le_of_around defaultModel_additive hdepth hcycle hnodes hrun
  exact hcalls.trans_le hreads

theorem Legitimate.candidateCalls_eq (hs : s.Legitimate) {id : GoString} (hid : id ∈ s.ids)
    (hdenied : (s.candidateCheck id).result = .ok false)
    (hkeys : Set.InjOn visitKey (s.around id)) :
    ∃ nodes : Finset SubjectSet, (nodes : Set SubjectSet) = s.around id ∧
      s.candidateCalls id = leavesOf nodes := by
  obtain ⟨b, st, hrun, hcheck, hcalls⟩ := hs.run id
  obtain ⟨hcycle, hdepth⟩ := hs.silent id hid
  rw [hcheck] at hcycle hdepth hdenied
  cases hdenied
  rw [hcalls]
  exact reads_eq_of_denied defaultModel_additive hdepth hcycle hkeys hrun

end Scan

namespace NestedTeams

def team (b : UInt8) : SubjectSet := ⟨"group", [b], "member"⟩

/-- A resource that is shared with two groups; each of these has a group in it, which has another
in it, and so on, thirty in all. -/
def store (n : SubjectSet) : List Subject :=
  if n = ⟨"resource", "d", "viewer"⟩ then [{ set := some (team 1) }, { set := some (team 101) }]
  else if n.ns = str "group" ∧ n.relation = str "member" then
    match n.objectID with
    | [b] => if (1 ≤ b ∧ b < 30) ∨ (101 ≤ b ∧ b < 130) then [{ set := some (team (b + 1)) }] else []
    | _ => []
  else []

def engine : Engine where
  reader _ _ := .ofStore store
  maxReads := 1

def lister : Lister := fun _ => .ok ["d"]

/-- The scan of the one resource with a cap of one candidate, on the smallest budget. -/
def scan : Scan where
  engine := engine
  store := store
  lister := lister
  ids := ["d"]
  projectID := "proj"
  tenantID := "t"
  userID := "u"
  candidateCap := 1
  maxReads := 0

theorem store_resource {id relation : GoString} (h : id = str "d" → relation ≠ str "viewer") :
    store ⟨"resource", id, relation⟩ = [] := by
  have hns : str "resource" ≠ str "group" := by decide
  simp only [store, SubjectSet.mk.injEq, true_and, hns, false_and, if_false]
  rw [if_neg]
  rintro ⟨hid, hrelation⟩
  exact h hid hrelation

theorem stored_iff (id : GoString) :
    id ∈ [str "d"] ↔ ∃ relation, store ⟨"resource", id, relation⟩ ≠ [] := by
  rw [List.mem_singleton]
  constructor
  · rintro rfl
    exact ⟨"viewer", by decide⟩
  · rintro ⟨relation, h⟩
    by_contra hid
    exact h (store_resource fun h => absurd h hid)

theorem parent_eq_nil (id : GoString) : store ⟨"resource", id, "parent"⟩ = [] :=
  store_resource fun _ => by decide

theorem clean : engine.candidateCheck "proj" "t" "u" "d" = ⟨.ok false, {}⟩ := by
  decide +kernel

theorem exceeds : (engine.listObjectsWithModel defaultModel "proj" "t" "resource" "viewer" "u"
    lister 1 0).result = .error .evalBudgetExceeded := by
  decide +kernel

theorem legitimate : scan.Legitimate where
  depth := rfl
  reader := rfl
  lister := rfl
  nodup := by decide
  candidates := stored_iff
  cap := le_rfl
  length := le_rfl
  base := le_rfl
  parent id := by
    have hnil : scan.store ⟨"resource", id, "parent"⟩ = [] := parent_eq_nil id
    rw [hnil]
    exact Nat.zero_le 1
  silent id hid := by
    have hcheck : scan.candidateCheck "d" = ⟨.ok false, {}⟩ := clean
    rw [List.mem_singleton.mp hid, hcheck]
    exact ⟨rfl, rfl⟩

end NestedTeams

/-- A scan with candidate cap `c` and base budget `b` stays within its budget if and only if the
checks of its candidates make at most `max b (64 * c)` calls in all. They make no more than there
are leaves in the rewrites around the candidates, and as many if all of them deny and no two
nodes around a candidate have the same key. -/
theorem scans_within_budget_iff (s : Scan) (hs : s.Legitimate) :
    (s.listObjects.result ≠ .error .evalBudgetExceeded ↔
      (((s.ids.map s.candidateCalls).sum : ℕ) : ℤ) ≤ max s.baseBudget (64 * s.candidateCap)) ∧
    (∀ nodes : GoString → Finset SubjectSet, (∀ id ∈ s.ids, s.around id ⊆ nodes id) →
      (s.leaves nodes : ℤ) ≤ max s.baseBudget (64 * s.candidateCap) →
      s.listObjects.result ≠ .error .evalBudgetExceeded) ∧
    ((∀ id ∈ s.ids, (s.candidateCheck id).result = .ok false ∧
        Set.InjOn visitKey (s.around id)) →
      ∃ nodes : GoString → Finset SubjectSet,
        (∀ id ∈ s.ids, (nodes id : Set SubjectSet) = s.around id) ∧
        (s.listObjects.result ≠ .error .evalBudgetExceeded ↔
          (s.leaves nodes : ℤ) ≤ max s.baseBudget (64 * s.candidateCap))) := by
  have hwithin := hs.listObjects_within_iff
  refine ⟨hwithin, fun nodes hnodes hle => ?_, fun hdenied => ?_⟩
  · have hcalls : (s.ids.map s.candidateCalls).sum ≤ s.leaves nodes :=
      List.sum_le_sum fun id hid => hs.candidateCalls_le hid (hnodes id hid)
    exact hwithin.mpr (by omega)
  · have hexact : ∀ id ∈ s.ids, ∃ nodes : Finset SubjectSet,
        (nodes : Set SubjectSet) = s.around id ∧ s.candidateCalls id = Scan.leavesOf nodes :=
      fun id hid => hs.candidateCalls_eq hid (hdenied id hid).1 (hdenied id hid).2
    choose! nodes hnodes hcalls using hexact
    have hsum : (s.ids.map s.candidateCalls).sum = s.leaves nodes :=
      congrArg List.sum (List.map_congr_left hcalls)
    exact ⟨nodes, hnodes, hsum ▸ hwithin⟩

/-- Thirty groups in each of two chains are too many for one candidate. -/
theorem nested_teams_need_more : NestedTeams.scan.Legitimate ∧
    ¬ (((NestedTeams.scan.ids.map NestedTeams.scan.candidateCalls).sum : ℕ) : ℤ) ≤ max 1 (64 * 1) :=
  ⟨NestedTeams.legitimate, fun h =>
    (scans_within_budget_iff NestedTeams.scan NestedTeams.legitimate).1.mpr h NestedTeams.exceeds⟩

/-- The one resource of a store, shared with two groups that are nested thirty deep, cannot be
listed with a cap of one candidate. -/
theorem listObjects_exceeds_budget :
    (∀ id, id ∈ [str "d"] ↔ ∃ relation, NestedTeams.store ⟨"resource", id, relation⟩ ≠ []) ∧
    (∀ id, (NestedTeams.store ⟨"resource", id, "parent"⟩).length ≤ 1) ∧
    (NestedTeams.engine.candidateCheck "proj" "t" "u" "d") = ⟨.ok false, {}⟩ ∧
    (NestedTeams.engine.listObjectsWithModel defaultModel "proj" "t" "resource" "viewer" "u"
      NestedTeams.lister 1 0).result = .error .evalBudgetExceeded := by
  refine ⟨NestedTeams.stored_iff, fun id => ?_, NestedTeams.clean, NestedTeams.exceeds⟩
  rw [NestedTeams.parent_eq_nil]
  exact Nat.zero_le 1

end WorkspaceAuthz.Authz
