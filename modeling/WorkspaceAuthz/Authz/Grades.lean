import WorkspaceAuthz.Authz.Check
import WorkspaceAuthz.RecursiveFormula.Fresh

/-! # The grades of a workspace

Where all subjects that are stored for the relations of a workspace are users
without conditions, the check for guests is exact under the built-in model: it
grants the users who are stored in one of the four grades, within four reads.
-/
namespace WorkspaceAuthz.Authz
open Go RecursiveFormula

variable {κ μ : Type} {r : Request} {n : SubjectSet}

/-- The subjects stored for a userset are users, and the queried one is or is not among them. -/
def Request.Lists (r : Request) (n : SubjectSet) (b : Bool) : Prop :=
  ∃ subjects, r.reader n = .ok subjects ∧
    (∀ s ∈ subjects, s.set = none ∧ s.wildcard = false ∧ s.condition = none) ∧
    (b = true ↔ ∃ s ∈ subjects, s.userID = r.q.user)

theorem evalSubjects_eq {visit : SubjectSet → Bool → EvalM κ μ Bool} {negated b : Bool}
    {subjects : List Subject} (huser : r.q.user ≠ [])
    (h : ∀ s ∈ subjects, s.set = none ∧ s.wildcard = false ∧ s.condition = none)
    (hb : b = true ↔ ∃ s ∈ subjects, s.userID = r.q.user) :
    r.evalSubjects visit negated subjects = pure b := by
  induction subjects with
  | nil =>
    obtain rfl : b = false := by simpa using hb
    rfl
  | cons s subjects ih =>
    obtain ⟨hset, hwildcard, hcondition⟩ := h s List.mem_cons_self
    rw [Request.evalSubjects, hset, hwildcard, hcondition]
    by_cases hs : s.userID = r.q.user
    · obtain rfl : b = true := hb.mpr ⟨s, List.mem_cons_self, hs⟩
      simp [hs, huser]
    · have hrest := ih (fun s hmem => h s (List.mem_cons_of_mem _ hmem)) (by simpa [hs] using hb)
      simpa [hs] using hrest

theorem evalThis_eq {b : Bool} (visit : SubjectSet → Bool → EvalM κ μ Bool)
    (huser : r.q.user ≠ []) (h : r.Lists n b) :
    r.evalThis visit n false = (do
      fetch EngineError.evalBudgetExceeded
      pure b) := by
  obtain ⟨subjects, hread, hsubjects, hb⟩ := h
  unfold Request.evalThis
  rw [listSubjects_eq, hread]
  simp [evalSubjects_eq huser hsubjects hb]

theorem settles_grade {b c : Bool} {cost : ℕ} {keys : List κ}
    {visit : SubjectSet → Bool → EvalM κ μ Bool} {above : GoString} (hne : above ≠ [])
    (huser : r.q.user ≠ []) (h : r.Lists n b)
    (habove : Settles c cost keys (visit ⟨n.ns, n.objectID, above⟩ false)) :
    Settles (b || c) (cost + 1) keys
      (r.evalRewrite visit n { union := [.this, { computed := above }] } false) := by
  have heq : r.evalRewrite visit n { union := [.this, { computed := above }] } false = (do
      fetch EngineError.evalBudgetExceeded
      if b then pure true else visit ⟨n.ns, n.objectID, above⟩ false) := by
    have hlast : (visit ⟨n.ns, n.objectID, above⟩ false >>= fun ok =>
        if ok = true then pure true else pure false) = visit ⟨n.ns, n.objectID, above⟩ false := by
      have hpure : (fun ok : Bool => if ok = true then
        (pure true : EvalM κ μ Bool) else pure false) =
          pure := by
        funext ok
        cases ok <;> rfl
      rw [hpure, bind_pure]
    simp [Request.evalRewrite, Request.evalUnion, Rewrite.isThis, Rewrite.this, hne,
      evalThis_eq visit huser h, hlast]
  rw [heq]
  apply settles_fetch
  cases b with
  | true => exact settles_pure true cost keys
  | false => exact habove

section Workspace

variable {ws : GoString} (hmodel : r.model = defaultModel) (huser : r.q.user ≠ [])
  {stored : GoString → Bool} (h : ∀ relation, r.Lists ⟨"workspace", ws, relation⟩ (stored relation))
include hmodel huser h

theorem settles_owner (left : ℕ) :
    Settles (stored "owner") 1 ([str "owner"].map fun g => visitKey ⟨"workspace", ws, g⟩)
      (r.check stringKeys (left + 1) ⟨"workspace", ws, "owner"⟩ false) := by
  refine settles_guarded (K := stringKeys) List.not_mem_nil ?_
  have hrewrite : r.rewrite ⟨"workspace", ws, "owner"⟩ = .this := by
    rw [Request.rewrite, hmodel]
    rfl
  have hthis := evalThis_eq (r.check stringKeys left) huser (h "owner")
  rw [hrewrite]
  change Settles _ 1 [] (r.evalThis (r.check stringKeys left) _ false)
  rw [hthis]
  exact settles_fetch (settles_pure _ 0 [])

theorem settles_check_grade (grade : GoString) {above : GoString} {b : Bool} {cost left : ℕ}
    {grades : List GoString} (hne : above ≠ []) (hgrade : grade ∉ grades)
    (hrewrite : defaultModel.rewrite "workspace" grade =
      { union := [.this, { computed := above }] })
    (habove : Settles b cost (grades.map fun g => visitKey ⟨"workspace", ws, g⟩)
      (r.check stringKeys left ⟨"workspace", ws, above⟩ false)) :
    Settles (stored grade || b) (cost + 1)
      ((grade :: grades).map fun g => visitKey ⟨"workspace", ws, g⟩)
      (r.check stringKeys (left + 1) ⟨"workspace", ws, grade⟩ false) := by
  refine settles_guarded (K := stringKeys) (fun hmem => ?_) ?_
  · obtain ⟨g, hg, hkey⟩ := List.mem_map.mp hmem
    obtain rfl : g = grade := List.append_cancel_left hkey
    exact hgrade hg
  · rw [Request.rewrite, hmodel, hrewrite]
    exact settles_grade hne huser (h grade) habove

theorem settles_guest (left : ℕ) :
    Settles (stored "guest" || (stored "member" || (stored "admin" || stored "owner"))) 4
      ([str "guest", str "member", str "admin", str "owner"].map fun g =>
        visitKey ⟨"workspace", ws, g⟩)
      (r.check stringKeys (left + 4) ⟨"workspace", ws, "guest"⟩ false) := by
  have howner := settles_owner hmodel huser h left
  have hadmin := settles_check_grade hmodel huser h "admin" (by decide) (by decide) rfl howner
  have hmember := settles_check_grade hmodel huser h "member" (by decide) (by decide) rfl hadmin
  exact settles_check_grade hmodel huser h "guest" (by decide) (by decide) rfl hmember

end Workspace

theorem checkWithModel_guest {e : Engine} {projectID tenantID ws userID : GoString} {cc : Context}
    {maxReads : ℤ} {subjects : GoString → List Subject} (hdepth : 3 ≤ e.maxDepth)
    (hbudget : e.effectiveMaxReads maxReads ≤ 0 ∨ 4 ≤ e.effectiveMaxReads maxReads)
    (huser : userID ≠ [])
    (hread : ∀ relation, e.reader projectID tenantID ⟨"workspace", ws, relation⟩ =
      .ok (subjects relation))
    (hsubjects : ∀ relation, ∀ s ∈ subjects relation,
      s.set = none ∧ s.wildcard = false ∧ s.condition = none) :
    (e.checkWithModel defaultModel projectID tenantID ⟨"workspace", ws, "guest"⟩ userID cc
      maxReads).result = .ok
        (decide (∃ grade ∈ [str "guest", str "member", str "admin", str "owner"],
        ∃ s ∈ subjects grade, s.userID = userID)) := by
  have hlists : ∀ relation, (e.request defaultModel projectID tenantID userID cc).Lists
      ⟨"workspace", ws, relation⟩ (decide (∃ s ∈ subjects relation, s.userID = userID)) :=
    fun relation => ⟨_, hread relation, hsubjects relation, decide_eq_true_iff⟩
  obtain ⟨left, hleft⟩ : ∃ left, e.maxDepth + 1 = left + 4 := ⟨e.maxDepth - 3, by omega⟩
  obtain ⟨st, heq⟩ := settles_guest rfl huser hlists left
    (newEvalState (e.effectiveMaxReads maxReads)) ⟨fun _ => rfl, fun _ _ => Finset.notMem_empty _⟩
    fun hpos => by
      simp only [newEvalState] at hpos ⊢
      omega
  have hgrades : (decide (∃ grade ∈ [str "guest", str "member", str "admin", str "owner"],
      ∃ s ∈ subjects grade, s.userID = userID)) =
        (decide (∃ s ∈ subjects "guest", s.userID = userID) ||
          (decide (∃ s ∈ subjects "member", s.userID = userID) ||
            (decide (∃ s ∈ subjects "admin", s.userID = userID) ||
              decide (∃ s ∈ subjects "owner", s.userID = userID)))) := by
    rw [← Bool.decide_or, ← Bool.decide_or, ← Bool.decide_or, decide_eq_decide]
    simp only [List.exists_mem_cons_iff, List.not_mem_nil, false_and, exists_false, or_false]
  rw [Engine.checkWithModel, Engine.checkWithKeys, hleft, heq, hgrades]
  rfl

end WorkspaceAuthz.Authz
