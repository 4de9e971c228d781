import WorkspaceAuthz.Authz.ResponseSize

/-! # The reads of an expansion

An expansion reads only for a node that it has just counted, and once for each. The
reads are therefore at most the nodes at every point, and since the read budget is
never smaller than the node cap, the cap is what stops an expansion.
-/
namespace WorkspaceAuthz.Authz
open Go RecursiveFormula

variable {κ μ α β : Type}

/-- The nodes counted so far keep the cap and pay for the reads; the budget leaves room for as
many reads as the cap allows nodes. -/
structure Solvent (max : ℤ) (count : ℕ) (st : SearchState κ μ) : Prop where
  reads_le : st.reads ≤ count
  count_le : (count : ℤ) ≤ max
  max_le : 0 < st.maxReads → max ≤ st.maxReads

/-- A run has not met the read budget, and its nodes pay for its reads. -/
def EndsSolvent (max : ℤ) : EStateM.Result EngineError (SearchState κ μ) (α × ℕ) → Prop
  | .ok (_, count) st => Solvent max count st
  | .error e _ => e ≠ .evalBudgetExceeded

def StaysSolvent (max : ℤ) (x : ExpandM κ μ α) : Prop :=
  ∀ count st, Solvent max count st → EndsSolvent max (x count st)

section Steps

variable {max : ℤ} {reader : Reader}

theorem endsSolvent_bind {x : ExpandM κ μ α} {f : α → ExpandM κ μ β} {count : ℕ}
    {st : SearchState κ μ}
    (hf : ∀ a count' st', x count st = .ok (a, count') st' → EndsSolvent max (f a count' st'))
    (hx : ∀ e st', x count st = .error e st' → e ≠ .evalBudgetExceeded) :
    EndsSolvent max ((x >>= f) count st) := by
  change EndsSolvent max (EStateM.bind (x count) (fun p => f p.1 p.2) st)
  unfold EStateM.bind
  cases heq : x count st with
  | ok p s => exact hf p.1 p.2 s heq
  | error e s => exact hx e s heq

theorem StaysSolvent.bind {x : ExpandM κ μ α} {f : α → ExpandM κ μ β} (hx : StaysSolvent max x)
    (hf : ∀ a, StaysSolvent max (f a)) : StaysSolvent max (x >>= f) := by
  intro count st hst
  have hend := hx count st hst
  apply endsSolvent_bind
  · intro a count' st' heq
    rw [heq] at hend
    exact hf a count' st' hend
  · intro e st' heq
    rw [heq] at hend
    exact hend

theorem staysSolvent_bump (hmax : 0 < max) (k : ℕ) :
    StaysSolvent max (bump max k : ExpandM κ μ Unit) := by
  intro count st hst
  rw [bump_eq]
  split_ifs with hcap
  · exact EngineError.noConfusion
  · have hreads := hst.reads_le
    exact ⟨by omega, by omega, hst.max_le⟩

theorem endsSolvent_listSubjects {count : ℕ} {st : SearchState κ μ} (hst : Solvent max count st)
    (hlt : st.reads < count) (n : SubjectSet) :
    EndsSolvent max ((liftM (listSubjects reader n : EvalM κ μ _) : ExpandM κ μ _) count st) := by
  have hcount := hst.count_le
  have hfetch : fetch EngineError.evalBudgetExceeded st = .ok () (st.fetched 1) :=
    fetch_granted fun h => absurd (hst.max_le h.1) (by omega)
  rw [listSubjects_eq]
  change EndsSolvent max (EStateM.bind (EStateM.bind (fetch _) _) _ st)
  unfold EStateM.bind
  rw [hfetch]
  cases reader n with
  | ok ss => exact ⟨hlt, hcount, hst.max_le⟩
  | error message => exact EngineError.noConfusion

/-- The node that was counted before a read pays for it. -/
theorem staysSolvent_listSubjects (hmax : 0 < max) (n : SubjectSet) : StaysSolvent max
    (do bump max 1; (listSubjects reader n : EvalM κ μ _) : ExpandM κ μ (List Subject)) := by
  intro count st hst
  have hend := staysSolvent_bump hmax 1 count st hst
  rw [bump_eq] at hend
  apply endsSolvent_bind
  · intro _ count' st' hbump
    rw [bump_eq] at hbump
    split_ifs at hend hbump
    · cases hbump
    · cases hbump
      exact endsSolvent_listSubjects hend (Nat.lt_succ_of_le hst.reads_le) n
  · intro e st' hbump
    rw [bump_eq] at hbump
    split_ifs at hend hbump
    · cases hbump
      exact hend
    · cases hbump

theorem staysSolvent_lift {f : SearchState κ μ → SearchState κ μ}
    (hreads : ∀ st, (f st).reads = st.reads) (hmax : ∀ st, (f st).maxReads = st.maxReads) :
    StaysSolvent max (liftM (modify f : EvalM κ μ PUnit) : ExpandM κ μ PUnit) := by
  intro count st hst
  exact ⟨(hreads st).trans_le hst.reads_le, hst.count_le, by rw [hmax]; exact hst.max_le⟩

theorem expansive_staysSolvent (reader : Reader) (hmax : 0 < max) :
    Expansive reader max fun {α} (x : ExpandM κ μ α) => StaysSolvent max x where
  pure _ _ _ hst := hst
  bind hx hf := hx.bind hf
  bump := staysSolvent_bump hmax
  listSubjects := staysSolvent_listSubjects hmax
  recordDepth := staysSolvent_lift (fun _ => rfl) fun _ => rfl
  recordCycle := staysSolvent_lift (fun _ => rfl) fun _ => rfl

end Steps

/-! ## The points of the recursion -/

namespace Expand

/-- A call of `expand`, or of `expandRewrite` while a node is expanded. -/
inductive Call where
  | expand (left : ℕ) (visited : Finset GoString) (n : SubjectSet)
  | expandRewrite (left : ℕ) (visited : Finset GoString) (n : SubjectSet) (rw : Rewrite)

/-- A call with the counters that it finds. -/
structure Point (κ μ : Type) where
  call : Call
  count : ℕ
  st : SearchState κ μ

section Calls

variable (m : Model) (reader : Reader) (max : ℤ)

def Call.run : Call → ExpandM κ μ Tree
  | .expand left visited n => Expand.expand m reader max left visited n
  | .expandRewrite left visited n rw =>
    Expand.expandRewrite reader max (Expand.expand m reader max left visited) n rw

/-- The calls that a call makes itself, each with the counters that the ones before have left. -/
inductive Makes : Point κ μ → Point κ μ → Prop
  | rewrite {left visited n count st} : visitKey n ∉ visited →
    Makes ⟨.expand (left + 1) visited n, count, st⟩
      ⟨.expandRewrite left (insert (visitKey n) visited) n (m.rewrite n.ns n.relation), count, st⟩
  | operand {left visited n rw before c after ts count st count' st'} :
    rw.view = .union (before ++ c :: after) ∨ rw.view = .intersection (before ++ c :: after) →
    (do bump max 1
        expandAll reader max (expand m reader max left visited) n before : ExpandM κ μ _) count st =
      .ok (ts, count') st' →
    Makes ⟨.expandRewrite left visited n rw, count, st⟩
      ⟨.expandRewrite left visited n c, count', st'⟩
  | included {left visited n rw inc exc u count st count' st'} :
    rw.view = .exclusion inc exc →
    (bump max 1 : ExpandM κ μ Unit) count st = .ok (u, count') st' →
    Makes ⟨.expandRewrite left visited n rw, count, st⟩
      ⟨.expandRewrite left visited n inc, count', st'⟩
  | excluded {left visited n rw inc exc t count st count' st'} :
    rw.view = .exclusion inc exc →
    (do bump max 1
        expandRewrite reader max (expand m reader max left visited) n inc : ExpandM κ μ _)
      count st = .ok (t, count') st' →
    Makes ⟨.expandRewrite left visited n rw, count, st⟩
      ⟨.expandRewrite left visited n exc, count', st'⟩
  | computed {left visited n rw rel u count st count' st'} :
    rw.view = .computed rel →
    (bump max 1 : ExpandM κ μ Unit) count st = .ok (u, count') st' →
    Makes ⟨.expandRewrite left visited n rw, count, st⟩
      ⟨.expand left visited ⟨n.ns, n.objectID, rel⟩, count', st'⟩
  | pointer {left visited n rw ts rel before s after set subs count st count' st'} :
    rw.view = .tupleToUserset ts rel →
    reader ⟨n.ns, n.objectID, ts⟩ = .ok (before ++ s :: after) → s.set = some set →
    (do bump max 1
        let _ ← (listSubjects reader ⟨n.ns, n.objectID, ts⟩ : EvalM κ μ _)
        expandPointers (expand m reader max left visited) rel before : ExpandM κ μ _) count st =
      .ok (subs, count') st' →
    Makes ⟨.expandRewrite left visited n rw, count, st⟩
      ⟨.expand left visited ⟨set.ns, set.objectID, rel⟩, count', st'⟩

end Calls

variable {m : Model} {reader : Reader} {max : ℤ}

theorem staysSolvent_run (hmax : 0 < max) (c : Call) :
    StaysSolvent max (c.run m reader max : ExpandM κ μ Tree) := by
  have h := expansive_staysSolvent (κ := κ) (μ := μ) reader hmax
  cases c with
  | expand left visited n => exact h.expand m left visited n
  | expandRewrite left visited n rw => exact h.expandRewrite (h.expand m left visited) n rw

theorem solvent_of_ok {x : ExpandM κ μ α} (hx : StaysSolvent max x) {count count' : ℕ}
    {st st' : SearchState κ μ} {a : α} (hst : Solvent max count st)
    (hrun : x count st = .ok (a, count') st') : Solvent max count' st' := by
  have hend := hx count st hst
  rw [hrun] at hend
  exact hend

/-- A call that is entered with its reads paid for enters others in the same way. -/
theorem Makes.solvent (hmax : 0 < max) {p q : Point κ μ} (h : Makes m reader max p q)
    (hp : Solvent max p.count p.st) : Solvent max q.count q.st := by
  have hexp := expansive_staysSolvent (κ := κ) (μ := μ) reader hmax
  have hrewrite (left visited n rw) := hexp.expandRewrite (hexp.expand m left visited) n rw
  cases h with
  | rewrite _ => exact hp
  | operand _ hrun =>
    refine solvent_of_ok (hexp.bind (hexp.bump 1) fun _ => ?_) hp hrun
    exact hexp.expandAll fun r _ => hrewrite _ _ _ r
  | included _ hrun => exact solvent_of_ok (hexp.bump 1) hp hrun
  | excluded _ hrun =>
    exact solvent_of_ok (hexp.bind (hexp.bump 1) fun _ => hrewrite _ _ _ _) hp hrun
  | computed _ hrun => exact solvent_of_ok (hexp.bump 1) hp hrun
  | pointer _ _ _ hrun =>
    rw [← bind_assoc] at hrun
    refine solvent_of_ok (hexp.bind (hexp.listSubjects _) fun _ => ?_) hp hrun
    exact hexp.expandPointers (hexp.expand m _ _) _ _

theorem solvent_of_makes (hmax : 0 < max) {p q : Point κ μ}
    (h : Relation.ReflTransGen (Makes m reader max) p q) (hp : Solvent max p.count p.st) :
    Solvent max q.count q.st := by
  induction h with
  | refl => exact hp
  | tail _ hmakes ih => exact hmakes.solvent hmax ih

end Expand

theorem solvent_start {base maxNodes : ℤ} (hmax : 0 < maxNodes) :
    Solvent maxNodes 0 (newEvalState (expandBudget base maxNodes) : SearchState κ μ) where
  reads_le := le_rfl
  count_le := hmax.le
  max_le hpos := by
    have hbudget : WithinCap (expandBudget base maxNodes) maxNodes.toNat :=
      withinCap_expandBudget (by omega)
    exact (Int.self_le_toNat maxNodes).trans (hbudget hpos)

/-- With a node cap the read budget never denies an expansion: at every call of the recursion the
reads are at most the nodes, on entry and on return. -/
theorem expandWithModel_within_reads (e : Engine) (m : Model) (projectID tenantID : GoString)
    (n : SubjectSet) (maxNodes maxReads : ℤ) (hmax : 0 < maxNodes) :
    (e.expandWithModel m projectID tenantID n maxNodes maxReads).result ≠
        .error .evalBudgetExceeded ∧
      ∀ p : Expand.Point GoString GoString,
        Relation.ReflTransGen (Expand.Makes m (e.reader projectID tenantID) maxNodes)
          ⟨.expand (e.maxDepth + 1) ∅ n, 0,
            newEvalState (expandBudget (e.effectiveMaxReads maxReads) maxNodes)⟩ p →
        p.st.reads ≤ p.count ∧
          ∀ tree count st,
            p.call.run m (e.reader projectID tenantID) maxNodes p.count p.st =
              .ok (tree, count) st → st.reads ≤ count := by
  have hstart : Solvent maxNodes 0 (newEvalState (expandBudget (e.effectiveMaxReads maxReads)
      maxNodes) : SearchState GoString GoString) := solvent_start hmax
  constructor
  · have hend := (expansive_staysSolvent (e.reader projectID tenantID) hmax).expand m
      (e.maxDepth + 1) ∅ n 0 _ hstart
    rw [Engine.expandWithModel_eq]
    cases heq : Expand.expand m (e.reader projectID tenantID) maxNodes (e.maxDepth + 1) ∅ n 0
        (newEvalState (expandBudget (e.effectiveMaxReads maxReads) maxNodes)) with
    | ok p st => simp
    | error err st =>
      have herr : err ≠ .evalBudgetExceeded := by
        rw [heq] at hend
        exact hend
      simpa using herr
  · intro p hp
    have hst : Solvent maxNodes p.count p.st := Expand.solvent_of_makes hmax hp hstart
    refine ⟨hst.reads_le, fun tree count st hrun => ?_⟩
    exact (Expand.solvent_of_ok (Expand.staysSolvent_run hmax p.call) hst hrun).reads_le

/-- The resource that is its own parent, with a budget of one read. -/
theorem expandWithModel_within_reads_moebius :
    (0 : ℤ) < 9 ∧ (Moebius.engine.expandWithModel defaultModel "proj" "t"
      ⟨"resource", "f", "viewer"⟩ 9 1).result ≠ .error .evalBudgetExceeded :=
  ⟨by decide, (expandWithModel_within_reads _ _ _ _ _ 9 1 (by decide)).1⟩

end WorkspaceAuthz.Authz
