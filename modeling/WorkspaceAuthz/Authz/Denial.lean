import WorkspaceAuthz.Authz.Check
import WorkspaceAuthz.RecursiveFormula.Denial

/-! # Workspaces on which a user has nothing

Where all subjects that are stored for the relations of a workspace are users, and
none of them is the queried one, checks of every relation are denied within four
reads under the built-in model.
-/
namespace WorkspaceAuthz.Authz
open Go RecursiveFormula

variable {κ μ : Type} {r : Request} {n : SubjectSet}

/-- The subjects stored for a userset are users other than the queried one. -/
def Request.Strangers (r : Request) (n : SubjectSet) : Prop :=
  ∃ subjects, r.reader n = .ok subjects ∧
    ∀ s ∈ subjects, s.set = none ∧ s.wildcard = false ∧ s.userID ≠ r.q.user

theorem denies_evalSubjects {visit : SubjectSet → Bool → EvalM κ μ Bool} {negated : Bool}
    {subjects : List Subject}
    (h : ∀ s ∈ subjects, s.set = none ∧ s.wildcard = false ∧ s.userID ≠ r.q.user) :
    Denies 0 (r.evalSubjects visit negated subjects) := by
  induction subjects with
  | nil => exact denies_pure
  | cons s subjects ih =>
    obtain ⟨hset, hwildcard, hne⟩ := h s List.mem_cons_self
    have hrest := ih fun s hs => h s (List.mem_cons_of_mem _ hs)
    have heq : r.evalSubjects visit negated (s :: subjects) =
        r.evalSubjects visit negated subjects := by
      rw [Request.evalSubjects, hset, hwildcard]
      simp [hne]
    rwa [heq]

theorem denies_evalThis (visit : SubjectSet → Bool → EvalM κ μ Bool) (h : r.Strangers n) :
    Denies 1 (r.evalThis visit n false) := by
  obtain ⟨subjects, hread, hsubjects⟩ := h
  have heq : r.evalThis visit n false = (do
      fetch EngineError.evalBudgetExceeded
      r.evalSubjects visit false subjects) := by
    unfold Request.evalThis
    rw [listSubjects_eq, hread]
    simp
  rw [heq]
  exact denies_fetch (denies_evalSubjects hsubjects)

section Rewrites

variable {visit : SubjectSet → Bool → EvalM κ μ Bool} {relation : GoString} {cost : ℕ}
  (hne : relation ≠ []) (hvisit : Denies cost (visit ⟨n.ns, n.objectID, relation⟩ false))
include hne hvisit

theorem denies_evalRewrite_computed :
    Denies cost (r.evalRewrite visit n { computed := relation } false) := by
  simpa [Request.evalRewrite, Rewrite.isThis, hne] using hvisit

theorem denies_evalRewrite_grade (h : r.Strangers n) :
    Denies (1 + cost)
      (r.evalRewrite visit n { union := [.this, { computed := relation }] } false) := by
  have hall := (denies_evalThis visit h).orElse
    ((denies_evalRewrite_computed (r := r) hne hvisit).orElse denies_pure)
  simpa [Request.evalRewrite, Request.evalUnion, Rewrite.isThis, Rewrite.this] using hall

end Rewrites

section Workspace

variable [DecidableEq κ] [DecidableEq μ] {K : Keying SubjectSet κ μ} {ws : GoString}

theorem denies_check {cost : ℕ} (left : ℕ)
    (h : ∀ left, Denies cost (r.evalRewrite (r.check K left) n (r.rewrite n) false)) :
    Denies cost (r.check K left n false) := by
  cases left with
  | zero => exact denies_guarded nofun
  | succ left =>
    refine denies_guarded fun run hrun => ?_
    cases hrun
    exact h left

variable (hmodel : r.model = defaultModel)
  (h : ∀ relation, r.Strangers ⟨"workspace", ws, relation⟩)
include hmodel h

theorem denies_check_this (relation : GoString)
    (hrewrite : defaultModel.rewrite "workspace" relation = .this) (left : ℕ) :
    Denies 1 (r.check K left ⟨"workspace", ws, relation⟩ false) := by
  refine denies_check left fun left => ?_
  rw [Request.rewrite, hmodel, hrewrite]
  exact denies_evalThis _ (h relation)

theorem denies_check_grade (grade : GoString) {above : GoString} {cost : ℕ} (hne : above ≠ [])
    (hrewrite : defaultModel.rewrite "workspace" grade =
      { union := [.this, { computed := above }] })
    (habove : ∀ left, Denies cost (r.check K left ⟨"workspace", ws, above⟩ false)) (left : ℕ) :
    Denies (1 + cost) (r.check K left ⟨"workspace", ws, grade⟩ false) := by
  refine denies_check left fun left => ?_
  rw [Request.rewrite, hmodel, hrewrite]
  exact denies_evalRewrite_grade hne (habove left) (h grade)

omit h in
theorem denies_check_computed {relation computed : GoString} {cost : ℕ} (hne : computed ≠ [])
    (hrewrite : defaultModel.rewrite "workspace" relation = { computed })
    (hcomputed : ∀ left, Denies cost
      (r.check K left ⟨"workspace", ws, computed⟩ false)) (left : ℕ) :
    Denies cost (r.check K left ⟨"workspace", ws, relation⟩ false) := by
  refine denies_check left fun left => ?_
  rw [Request.rewrite, hmodel, hrewrite]
  exact denies_evalRewrite_computed hne (hcomputed left)

theorem denies_check_workspace (relation : GoString) (left : ℕ) :
    Denies 4 (r.check K left ⟨"workspace", ws, relation⟩ false) := by
  have howner := fun left => denies_check_this (K := K) hmodel h "owner" rfl left
  have hadmin := fun left => denies_check_grade hmodel h "admin" (by decide) rfl howner left
  have hmember := fun left => denies_check_grade hmodel h "member" (by decide) rfl hadmin left
  have hguest := fun left => denies_check_grade hmodel h "guest" (by decide) rfl hmember left
  by_cases h₁ : relation = str "admin"
  · exact h₁ ▸ (hadmin left).mono (by omega)
  by_cases h₂ : relation = str "member"
  · exact h₂ ▸ (hmember left).mono (by omega)
  by_cases h₃ : relation = str "guest"
  · exact h₃ ▸ (hguest left).mono (by omega)
  by_cases h₄ : relation = str "editor"
  · exact h₄ ▸ (denies_check_computed hmodel (by decide) rfl hadmin left).mono (by omega)
  by_cases h₅ : relation = str "viewer"
  · exact h₅ ▸ (denies_check_computed hmodel (by decide) rfl hmember left).mono (by omega)
  -- The owners, and the relations that the model does not define.
  have hrewrite : defaultModel.rewrite "workspace" relation = .this := by
    simp only [Model.rewrite, defaultModel, GoMap.get_ofList_cons, if_pos,
      Option.bind_some, h₁, h₂, h₃,
      h₄, h₅, if_false, GoMap.get_ofList_nil]
    split_ifs <;> rfl
  exact (denies_check_this hmodel h relation hrewrite left).mono (by omega)

end Workspace

/-- The answer of an engine with a budget that is unlimited or has room for four reads. -/
theorem checkWithModel_eq_false {e : Engine} {projectID tenantID ws userID : GoString}
    {cc : Context} {maxReads : ℤ} (relation : GoString)
    (hbudget : e.effectiveMaxReads maxReads ≤ 0 ∨ 4 ≤ e.effectiveMaxReads maxReads)
    (h : ∀ relation, (e.request defaultModel projectID tenantID userID cc).Strangers
      ⟨"workspace", ws, relation⟩) :
    (e.checkWithModel defaultModel projectID tenantID ⟨"workspace", ws, relation⟩ userID cc
      maxReads).result = .ok false := by
  obtain ⟨st, heq, -⟩ := denies_check_workspace (K := stringKeys) rfl h relation (e.maxDepth + 1)
    (newEvalState (e.effectiveMaxReads maxReads)) (fun m => by simp [newEvalState]) fun hpos => by
      simp only [newEvalState] at hpos ⊢
      omega
  rw [Engine.checkWithModel, Engine.checkWithKeys, heq]
  rfl

end WorkspaceAuthz.Authz
