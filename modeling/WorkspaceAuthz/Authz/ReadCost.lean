import WorkspaceAuthz.Authz.Budgets
import WorkspaceAuthz.Authz.Soundness
import WorkspaceAuthz.RecursiveFormula.Evaluations

/-! # The cost of a check

A check that meets no cycle and stays above the depth bound remembers every node that
it evaluates. However many paths lead to a node, its rewrite is evaluated at most once
in each polarity, and what is read is bounded by the rewrites of these nodes.
-/
namespace WorkspaceAuthz.Authz
open Go RecursiveFormula

namespace Rewrite

mutual

/-- The leaves of a rewrite that read stored tuples: `this` and the tuplesets of pointers. -/
def leaves (rw : Rewrite) : ℕ :=
  if rw.isThis then 1
  else match rw with
    | ⟨c :: cs, _, _, _, _, _⟩ => leavesAll (c :: cs)
    | ⟨[], c :: cs, _, _, _, _⟩ => leavesAll (c :: cs)
    | ⟨[], [], some (inc, exc), _, _, _⟩ => leaves inc + leaves exc
    | ⟨[], [], none, computed, _, _⟩ => if computed ≠ [] then 0 else 1

def leavesAll : List Rewrite → ℕ
  | [] => 0
  | c :: cs => leaves c + leavesAll cs

end

theorem leavesAll_eq_sum (cs : List Rewrite) : leavesAll cs = (cs.map leaves).sum := by
  induction cs with
  | nil => rfl
  | cons c cs ih => rw [leavesAll, ih, List.map_cons, List.sum_cons]

def View.leaves : View → ℕ
  | .this | .tupleToUserset _ _ => 1
  | .union cs | .intersection cs => (cs.map Rewrite.leaves).sum
  | .exclusion inc exc => inc.leaves + exc.leaves
  | .computed _ => 0

theorem leaves_eq (rw : Rewrite) : rw.leaves = rw.view.leaves := by
  unfold leaves view
  by_cases h : rw.isThis
  · rw [if_pos h, if_pos h]
    rfl
  · rw [if_neg h, if_neg h]
    obtain ⟨union, intersection, exclusion, computed, ts, rel⟩ := rw
    cases union with
    | cons c cs => simp only [View.leaves, leavesAll_eq_sum]
    | nil => cases intersection with
      | cons c cs => simp only [View.leaves, leavesAll_eq_sum]
      | nil => cases exclusion with
        | some sides => rfl
        | none => by_cases hc : computed = [] <;> simp [View.leaves, hc]

end Rewrite

/-! ## Reads of formulas -/

theorem reads_any (fs : List NodeFormula) :
    (Formula.any fs).reads = (fs.map Formula.reads).sum := by
  induction fs with
  | nil => rfl
  | cons f fs ih => rw [Formula.any, Formula.reads, ih, List.map_cons, List.sum_cons]

theorem reads_all (fs : List NodeFormula) :
    (Formula.all fs).reads = (fs.map Formula.reads).sum := by
  induction fs with
  | nil => rfl
  | cons f fs ih => rw [Formula.all, Formula.reads, ih, List.map_cons, List.sum_cons]

namespace Request

variable {r : Request} {n : SubjectSet}

theorem reads_readFormula {f : Subject → NodeFormula} (hf : ∀ s, (f s).reads = 0) :
    (r.readFormula n f).reads = 1 := by
  rw [readFormula, Formula.reads]
  cases r.reader n with
  | ok ss =>
    have hsum : ((ss.map f).map Formula.reads).sum = 0 := by
      rw [List.map_map]
      exact List.sum_eq_zero (by simp [hf])
    rw [reads_any, hsum]
  | error message => rfl

theorem reads_subjectFormula (s : Subject) : (r.subjectFormula s).reads = 0 := by
  unfold subjectFormula
  split_ifs
  · rfl
  · rfl
  · cases r.follows s <;> rfl

theorem reads_pointerFormula (relation : GoString) (s : Subject) :
    (r.pointerFormula relation s).reads = 0 := by
  unfold pointerFormula
  split_ifs
  · rfl
  · cases pointsTo relation s <;> rfl

theorem sum_reads_le {cs : List Rewrite}
    (h : ∀ c ∈ cs, (r.rewriteFormula n c).reads ≤ c.leaves) :
    (((cs.map (r.rewriteFormula n))).map Formula.reads).sum ≤ (cs.map Rewrite.leaves).sum := by
  rw [List.map_map]
  exact List.sum_le_sum h

theorem reads_rewriteFormula_le (rw : Rewrite) : (r.rewriteFormula n rw).reads ≤ rw.leaves := by
  induction rw using Rewrite.byView with
  | this rw hv =>
    rw [rewriteFormula_eq, Rewrite.leaves_eq, hv]
    exact (reads_readFormula reads_subjectFormula).le
  | union rw cs hv ih =>
    rw [rewriteFormula_eq, Rewrite.leaves_eq, hv, viewFormula, reads_any]
    exact sum_reads_le ih
  | intersection rw cs hv ih =>
    rw [rewriteFormula_eq, Rewrite.leaves_eq, hv, viewFormula]
    split_ifs
    · exact Nat.zero_le _
    · rw [reads_all]
      exact sum_reads_le ih
  | exclusion rw inc exc hv ihInc ihExc =>
    rw [rewriteFormula_eq, Rewrite.leaves_eq, hv, viewFormula]
    split_ifs
    · exact Nat.zero_le _
    · exact Nat.add_le_add ihInc ihExc
  | computed rw rel hv =>
    rw [rewriteFormula_eq, Rewrite.leaves_eq, hv]
    exact le_rfl
  | tupleToUserset rw ts rel hv =>
    rw [rewriteFormula_eq, Rewrite.leaves_eq, hv]
    exact (reads_readFormula (reads_pointerFormula rel)).le

/-- The nodes whose rewrites a check evaluates, with their polarities, in the order of their
evaluation. -/
def evaluated (r : Request) (left : ℕ) (n : SubjectSet) (negated : Bool)
    (st : SearchState GoString GoString) : List (SubjectSet × Bool) :=
  evaluations stringKeys r.system .evalBudgetExceeded left n negated st

theorem logReads_le (log : List (SubjectSet × Bool)) :
    logReads r.system log ≤ (log.map fun p => (r.rewrite p.1).leaves).sum :=
  List.sum_le_sum fun p _ => reads_rewriteFormula_le (r.rewrite p.1)

end Request

/-! ## Checks -/

namespace Request

variable {r : Request} {left : ℕ} {n : SubjectSet} {negated b : Bool}
  {st st' : SearchState GoString GoString}

/-- Without an answer of a guard, the pairs that are evaluated are different. -/
theorem evaluated_nodup (h : r.check stringKeys left n negated st = .ok b st')
    (hclean : st'.cyclesSeen = st.cyclesSeen) : (r.evaluated left n negated st).Nodup := by
  rw [check_eq_search] at h
  exact evaluations_nodup stringKeys_remembers h hclean

theorem reads_le_leaves (h : r.check stringKeys left n negated st = .ok b st') :
    st'.reads ≤ st.reads +
      ((r.evaluated left n negated st).map fun p => (r.rewrite p.1).leaves).sum := by
  rw [check_eq_search] at h
  exact (reads_le_logReads h).trans (Nat.add_le_add_left (logReads_le _) _)

theorem cyclesSeen_eq (h : r.check stringKeys left n negated st = .ok b st')
    (hdepth : st'.backstops.depth = st.backstops.depth)
    (hcycle : st'.backstops.cycle = st.backstops.cycle) : st'.cyclesSeen = st.cyclesSeen := by
  rw [check_eq_search] at h
  have hhits := (search_extends _ _ _ _ _ _ _ _ _ h).hits
  omega

end Request

/-- A check that answers without a cut-off evaluates no rewrite twice in one polarity, and reads
at most as often as the rewrites that it evaluates have leaves. -/
theorem checkWithModel_linear (e : Engine) (m : Model) (projectID tenantID : GoString)
    (n : SubjectSet) (userID : GoString) (cc : Context) (maxReads : ℤ) (b : Bool)
    (hok : (e.checkWithModel m projectID tenantID n userID cc maxReads).result = .ok b)
    (hdepth : (e.checkWithModel m projectID tenantID n userID cc maxReads).backstops.depth = 0)
    (hcycle : (e.checkWithModel m projectID tenantID n userID cc maxReads).backstops.cycle = 0) :
    let pairs := (e.request m projectID tenantID userID cc).evaluated (e.maxDepth + 1) n false
      (newEvalState (e.effectiveMaxReads maxReads))
    pairs.Nodup ∧
      callsOf (e.checkRun m projectID tenantID n cc userID (e.effectiveMaxReads maxReads)) ≤
        ∑ p ∈ pairs.toFinset, (m.rewrite p.1.ns p.1.relation).leaves := by
  intro pairs
  obtain ⟨st, hrun, hbackstops⟩ := Outcome.of_result_ok hok
  have hclean := Request.cyclesSeen_eq hrun
    ((congrArg Backstops.depth hbackstops.symm).trans hdepth)
    ((congrArg Backstops.cycle hbackstops.symm).trans hcycle)
  have hnodup : pairs.Nodup := Request.evaluated_nodup hrun hclean
  refine ⟨hnodup, ?_⟩
  have hend := (withinReads_check stringKeys (e.request m projectID tenantID userID cc)
    (e.maxDepth + 1) n false).capped _ (withinBudget_newEvalState (e.effectiveMaxReads maxReads))
  rw [hrun] at hend
  calc callsOf (e.checkRun m projectID tenantID n cc userID (e.effectiveMaxReads maxReads))
      = st.calls := congrArg callsOf hrun
    _ = st.reads := hend.2.calls_eq
    _ ≤ 0 + (pairs.map fun p => (m.rewrite p.1.ns p.1.relation).leaves).sum :=
      Request.reads_le_leaves hrun
    _ = ∑ p ∈ pairs.toFinset, (m.rewrite p.1.ns p.1.relation).leaves := by
      rw [Nat.zero_add, List.sum_toFinset _ hnodup]

namespace Diamond

/-- A resource that is shared with two groups, which have a third in common. -/
def engine : Engine where
  reader _ _ n := .ok (
    if n = ⟨"resource", "d", "viewer"⟩ then
      [{ set := some ⟨"group", "a", "member"⟩ }, { set := some ⟨"group", "b", "member"⟩ }]
    else if n = ⟨"group", "a", "member"⟩ ∨ n = ⟨"group", "b", "member"⟩ then
      [{ set := some ⟨"group", "c", "member"⟩ }]
    else [])

end Diamond

/-- The common group is evaluated once: eight reads for six nodes. -/
theorem checkWithModel_linear_diamond :
    callsOf (Diamond.engine.checkRun defaultModel "proj" "t" ⟨"resource", "d", "viewer"⟩ ∅ "u" 0) ≤
      ∑ p ∈ ((Diamond.engine.request defaultModel "proj" "t" "u" ∅).evaluated 33
        ⟨"resource", "d", "viewer"⟩ false (newEvalState 0)).toFinset,
        (defaultModel.rewrite p.1.ns p.1.relation).leaves :=
  (checkWithModel_linear Diamond.engine defaultModel "proj" "t" ⟨"resource", "d", "viewer"⟩ "u" ∅ 0
    false (by decide +kernel) (by decide +kernel) (by decide +kernel)).2

end WorkspaceAuthz.Authz
