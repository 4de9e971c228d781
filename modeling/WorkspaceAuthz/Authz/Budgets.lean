import WorkspaceAuthz.Authz.Programs
import WorkspaceAuthz.RecursiveFormula.Budget

/-! # The read budget

All operations charge their reads to one counter. It stops an operation that would
read once too often, before the store is asked, and has no influence on the result
of any other: what an operation returns within its budget it returns within every
larger one, and without one.
-/
namespace WorkspaceAuthz.Authz
open Go RecursiveFormula

variable {κ μ α β : Type}

abbrev WithinReads (x : EvalM κ μ α) : Prop := Budgeted .evalBudgetExceeded x

theorem withinReads_listSubjects (reader : Reader) (n : SubjectSet) :
    WithinReads (listSubjects reader n : EvalM κ μ _) := by
  rw [listSubjects_eq]
  refine budgeted_fetch.bind fun _ => ?_
  cases reader n with
  | ok subjects => exact budgeted_pure subjects
  | error message => exact budgeted_throw

theorem withinReads_check [DecidableEq κ] [DecidableEq μ] (K : Keying SubjectSet κ μ) (r : Request)
    (left : ℕ) (n : SubjectSet) (negated : Bool) : WithinReads (r.check K left n negated) := by
  rw [Request.check_eq_search]
  exact budgeted_search K r.system .evalBudgetExceeded left n negated

theorem withinReads_recordDepth : WithinReads (recordDepth : EvalM κ μ Unit) :=
  budgeted_modify (fun _ => rfl) (fun _ => ⟨rfl, rfl⟩) fun _ _ _ h =>
    ⟨h.visited, h.memo, h.cyclesSeen, h.reads, h.maxReads⟩

theorem withinReads_recordCycle : WithinReads (recordCycle : EvalM κ μ Unit) :=
  budgeted_modify (fun _ => rfl) (fun _ => ⟨rfl, rfl⟩) fun _ _ _ h =>
    ⟨h.visited, h.memo, h.cyclesSeen, h.reads, h.maxReads⟩

theorem withinReads_reset : WithinReads (modify fun st =>
    { st with visited := ∅, memo := fun _ => none } : EvalM κ μ PUnit) :=
  budgeted_modify (fun _ => rfl) (fun _ => ⟨rfl, rfl⟩) fun _ _ _ h =>
    ⟨rfl, rfl, h.cyclesSeen, h.reads, h.maxReads⟩

theorem compositional_withinReads (reader : Reader) (max : ℤ) :
    Compositional reader max fun {α} (x : EvalM κ μ α) => WithinReads x where
  pure a := budgeted_pure a
  bind hx hf := hx.bind hf
  tooLarge _ := budgeted_throw
  listSubjects := withinReads_listSubjects reader
  recordDepth := withinReads_recordDepth
  recordCycle := withinReads_recordCycle

/-! ## A cap and nothing else -/

/-- How often `ListSubjects` was called in a run. -/
def callsOf : EStateM.Result EngineError (SearchState κ μ) α → ℕ
  | .ok _ st => st.calls
  | .error _ st => st.calls

theorem callsOf_le {B : ℤ} (hB : 0 < B)
    {r : EStateM.Result EngineError (SearchState κ μ) α} (h : EndsWithin B r) :
    (callsOf r : ℤ) ≤ B := by
  cases r with
  | ok a st =>
    obtain ⟨rfl, hst⟩ := h
    exact hst.calls_le_maxReads hB
  | error err st => exact h hB

theorem result_eq_of_endsAlike {shift : ℕ} {r r' : EStateM.Result EngineError (SearchState κ μ) α}
    (h : EndsAlike .evalBudgetExceeded shift r r')
    (hr : (Outcome.of r).result ≠ .error .evalBudgetExceeded) :
    (Outcome.of r').result = (Outcome.of r).result := by
  cases r with
  | ok a st =>
    obtain ⟨st', rfl, -⟩ := h
    rfl
  | error err st =>
    obtain rfl | ⟨st', rfl⟩ := h
    · exact absurd rfl hr
    · rfl

/-- What an operation does under any effective budget: no more calls than it allows, and
the same result under a larger budget or under none, unless it is exceeded. -/
structure HardCap (run : ℤ → EStateM.Result EngineError (SearchState κ μ) α) : Prop where
  calls_le : ∀ B : ℤ, 0 < B → (callsOf (run B) : ℤ) ≤ B
  same : ∀ B B' : ℤ, 0 < B → B ≤ B' ∨ B' ≤ 0 →
    (Outcome.of (run B)).result ≠ .error .evalBudgetExceeded →
      (Outcome.of (run B')).result = (Outcome.of (run B)).result

theorem roomier_newEvalState {B B' : ℤ} (hB : 0 < B) (h : B ≤ B' ∨ B' ≤ 0) :
    (newEvalState B : SearchState κ μ).Roomier 0 (newEvalState B') where
  visited := rfl
  memo := rfl
  cyclesSeen := rfl
  reads := le_rfl
  maxReads := h.symm.imp_right fun h => ⟨hB, h⟩

theorem withinBudget_newEvalState (B : ℤ) :
    (newEvalState B : SearchState κ μ).WithinBudget :=
  ⟨fun hB => hB.le, rfl⟩

theorem hardCap_of_withinReads {x : EvalM κ μ α} (hx : WithinReads x) :
    HardCap fun B => x (newEvalState B) where
  calls_le B hB := callsOf_le hB (hx.capped (newEvalState B) (withinBudget_newEvalState B))
  same _ _ hB hle := result_eq_of_endsAlike (hx.alike 0 _ _ (roomier_newEvalState hB hle))

/-- What earlier checks of an operation have left behind makes no difference to the next. -/
theorem check_of_reset {r : Request} {left : ℕ} {n : SubjectSet} {ok : Bool}
    {st st' : SearchState GoString GoString}
    (h : r.check stringKeys left n false { st with visited := ∅, memo := fun _ => none } =
      .ok ok st') {B : ℤ} (hB : B ≤ 0) :
    ∃ st₀, r.check stringKeys left n false (newEvalState B) = .ok ok st₀ := by
  have hroom : ({ st with visited := ∅, memo := fun _ => none } :
      SearchState GoString GoString).Roomier st.cyclesSeen (newEvalState B) :=
    ⟨rfl, rfl, (Nat.zero_add _).symm, Nat.zero_le _, .inl hB⟩
  have halike := (withinReads_check stringKeys r left n false).alike _ _ _ hroom
  rw [h] at halike
  obtain ⟨st₀, heq, -⟩ := halike
  exact ⟨st₀, heq⟩

section Runs

variable (e : Engine) (m : Model) (projectID tenantID : GoString) (n : SubjectSet) (cc : Context)

def Engine.checkRun (userID : GoString) (B : ℤ) :=
  (e.request m projectID tenantID userID cc).check stringKeys (e.maxDepth + 1) n false
    (newEvalState B)

def Engine.checkSetRun (order : MapOrder) (set : SubjectSet) (B : ℤ) :=
  e.checkSet m projectID tenantID n cc order set (newEvalState B)

def Engine.expandRun (maxNodes B : ℤ) :
    EStateM.Result EngineError (SearchState GoString GoString) Tree :=
  (Prod.fst <$> Expand.expand m (e.reader projectID tenantID) maxNodes (e.maxDepth + 1) ∅ n 0 :
    EvalM GoString GoString Tree) (newEvalState B)

def Engine.listObjectsRun (ns relation userID : GoString) (lister : Lister) (maxObjects B : ℤ) :
    EStateM.Result EngineError (SearchState GoString GoString) (List GoString) :=
  match lister ns with
  | .error message => .error (.reader message) (newEvalState B)
  | .ok ids =>
    if maxObjects > 0 ∧ ids.length > maxObjects then .error .tooManyObjects (newEvalState B)
    else e.checkObjects m projectID tenantID ns relation userID ids (newEvalState B)

/-- The budget that a listing is given, from the number of its candidates. -/
def Engine.listObjectsBudget (ns : GoString) (lister : Lister) (maxObjects maxReads : ℤ) : ℤ :=
  let found : ℤ := match lister ns with
    | .error _ => 0
    | .ok ids => ids.length
  e.fanOutBudget (e.effectiveMaxReads maxReads) (if maxObjects ≤ 0 then found else maxObjects)

theorem hardCap_listObjectsRun (ns relation userID : GoString) (lister : Lister) (maxObjects : ℤ) :
    HardCap (e.listObjectsRun m projectID tenantID ns relation userID lister maxObjects) := by
  unfold Engine.listObjectsRun
  cases lister ns with
  | error message => exact hardCap_of_withinReads budgeted_throw
  | ok ids =>
    dsimp only
    split_ifs
    · exact hardCap_of_withinReads budgeted_throw
    · exact hardCap_of_withinReads ((compositional_withinReads _ 0).checkObjects withinReads_reset
        (fun r _ left n => withinReads_check _ r left n false) m ns relation userID ids)

/-- The budget of every operation is a cap on its calls of `ListSubjects` and does not
change what it returns. -/
theorem read_budget_is_hard_cap (order : MapOrder) (set : SubjectSet)
    (userID ns relation : GoString) (lister : Lister) (maxNodes maxObjects : ℤ) :
    HardCap (e.checkRun m projectID tenantID n cc userID) ∧
    HardCap (e.checkSetRun m projectID tenantID n cc order set) ∧
    HardCap (e.expandRun m projectID tenantID n maxNodes) ∧
    HardCap (e.listObjectsRun m projectID tenantID ns relation userID lister maxObjects) ∧
    -- these are the operations, each under its effective budget
    ∀ maxReads : ℤ,
      e.checkWithModel m projectID tenantID n userID cc maxReads =
        .of (e.checkRun m projectID tenantID n cc userID (e.effectiveMaxReads maxReads)) ∧
      e.checkSetWithModel m projectID tenantID n cc order set maxReads =
        .of (e.checkSetRun m projectID tenantID n cc order set
          (e.fanOutBudget (e.effectiveMaxReads maxReads) e.maxListObjectsOrDefault)) ∧
      e.expandWithModel m projectID tenantID n maxNodes maxReads =
        .of (e.expandRun m projectID tenantID n maxNodes
          (expandBudget (e.effectiveMaxReads maxReads) maxNodes)) ∧
      e.listObjectsWithModel m projectID tenantID ns relation userID lister maxObjects maxReads =
        .of (e.listObjectsRun m projectID tenantID ns relation userID lister maxObjects
          (e.listObjectsBudget ns lister maxObjects maxReads)) := by
  refine ⟨hardCap_of_withinReads (withinReads_check _ _ _ n false),
    hardCap_of_withinReads ((compositional_withinReads _ 0).checkSet withinReads_reset
      (fun r _ left n => withinReads_check _ r left n false) m n cc order set),
    hardCap_of_withinReads ?_, hardCap_listObjectsRun e m projectID tenantID ns relation userID
      lister maxObjects, fun maxReads => ⟨rfl, rfl, rfl, ?_⟩⟩
  · rw [map_eq_pure_bind]
    exact ((compositional_withinReads _ _).expansive.expand m _ ∅ n 0).bind fun p =>
      budgeted_pure p.1
  · unfold Engine.listObjectsWithModel Engine.listObjectsRun Engine.listObjectsBudget
    cases lister ns with
    | error message => rfl
    | ok ids =>
      by_cases htoo : maxObjects > 0 ∧ ids.length > maxObjects
      · simp only [if_pos htoo]
        rfl
      · simp only [if_neg htoo]

end Runs

end WorkspaceAuthz.Authz
