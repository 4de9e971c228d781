import WorkspaceAuthz.Authz.Budgets

/-! # What a listing of objects contains

The objects that are listed are those on which a check of its own would grant the
relation, and no others anywhere: an object without tuples can be granted by no
rewrite, since all that a rewrite ever asks about an object is read from its tuples.
-/
namespace WorkspaceAuthz.Authz
open Go RecursiveFormula

/-! ## Objects without tuples -/

section Bare

variable {r : Request} {ns objectID : GoString}

/-- Nothing can be read that is stored on an object. -/
def Request.Bare (r : Request) (ns objectID : GoString) : Prop :=
  ∀ relation ss, r.reader ⟨ns, objectID, relation⟩ = .ok ss → ss = []

def nodesOf (ns objectID : GoString) : Set SubjectSet :=
  {n | n.ns = ns ∧ n.objectID = objectID}

theorem barren_readFormula (h : r.Bare ns objectID) (relation : GoString)
    (f : Subject → NodeFormula) :
    (r.readFormula ⟨ns, objectID, relation⟩ f).Barren (nodesOf ns objectID) := by
  cases hread : r.reader ⟨ns, objectID, relation⟩ with
  | ok ss =>
    rw [Request.readFormula_ok hread, h relation ss hread]
    exact Formula.barren_any (by simp)
  | error message =>
    rw [Request.readFormula_error hread]
    trivial

theorem barren_rewriteFormula (h : r.Bare ns objectID) (relation : GoString) (rw : Rewrite) :
    (r.rewriteFormula ⟨ns, objectID, relation⟩ rw).Barren (nodesOf ns objectID) := by
  induction rw using Rewrite.byView with
  | this rw hv =>
    rw [Request.rewriteFormula_eq, hv]
    exact barren_readFormula h relation _
  | union rw cs hv ih =>
    rw [Request.rewriteFormula_eq, hv]
    apply Formula.barren_any
    simpa using ih
  | intersection rw cs hv ih =>
    rw [Request.rewriteFormula_eq, hv, Request.viewFormula]
    split_ifs
    · rfl
    · apply Formula.barren_all
      · simpa using Rewrite.view_intersection_ne_nil hv
      · simpa using ih
  | exclusion rw inc exc hv ihInc ihExc =>
    rw [Request.rewriteFormula_eq, hv, Request.viewFormula]
    split_ifs
    · rfl
    · exact ihInc
  | computed rw rel hv =>
    rw [Request.rewriteFormula_eq, hv]
    exact ⟨rfl, rfl⟩
  | tupleToUserset rw ts rel hv =>
    rw [Request.rewriteFormula_eq, hv]
    exact barren_readFormula h ts _

/-- No check grants anything on an object without tuples. -/
theorem check_bare_ne_true (h : r.Bare ns objectID) (left : ℕ) (relation : GoString) (B : ℤ)
    (st : SearchState GoString GoString) :
    r.check stringKeys left ⟨ns, objectID, relation⟩ false (newEvalState B) ≠ .ok true st := by
  intro hcheck
  rw [Request.check_eq_search] at hcheck
  have hbarren : ∀ n ∈ nodesOf ns objectID, (r.system n).Barren (nodesOf ns objectID) := by
    rintro ⟨ns', objectID', relation'⟩ ⟨rfl, rfl⟩
    exact barren_rewriteFormula h relation' _
  have hwithheld := withholds_search (K := stringKeys) hbarren left ⟨rfl, rfl⟩ (newEvalState B) true
    st (by rintro m ⟨⟩) hcheck
  cases hwithheld.1

end Bare

/-! ## Candidates -/

section Candidates

variable (e : Engine) (m : Model) (projectID tenantID ns relation userID : GoString)

def Engine.grants (objectID : GoString) : Bool :=
  (({ e with maxReads := 0 } : Engine).checkWithModel m projectID tenantID
    ⟨ns, objectID, relation⟩ userID ∅ 0).result = .ok true

variable {e m projectID tenantID ns relation userID}

theorem grants_of_check {id : GoString} {ok : Bool} {st st' : SearchState GoString GoString}
    (h : (e.request m projectID tenantID userID ∅).check stringKeys (e.maxDepth + 1)
      ⟨ns, id, relation⟩ false { st with visited := ∅, memo := fun _ => none } = .ok ok st') :
    e.grants m projectID tenantID ns relation userID id = ok := by
  obtain ⟨st₀, heq⟩ := check_of_reset h le_rfl
  have hresult : (({ e with maxReads := 0 } : Engine).checkWithModel m projectID tenantID
      ⟨ns, id, relation⟩ userID ∅ 0).result = .ok ok :=
    congrArg (fun r => (Outcome.of r).result) heq
  unfold Engine.grants
  rw [hresult]
  cases ok <;> rfl

theorem checkObjects_eq_filter {ids out : List GoString} {st st' : SearchState GoString GoString}
    (h : e.checkObjects m projectID tenantID ns relation userID ids st = .ok out st') :
    out = ids.filter (e.grants m projectID tenantID ns relation userID) := by
  induction ids generalizing st out with
  | nil =>
    cases h
    rfl
  | cons id ids ih =>
    obtain ⟨_, s₁, hreset, h⟩ := bind_ok.mp h
    cases hreset
    obtain ⟨ok, s₂, hok, h⟩ := bind_ok.mp h
    obtain ⟨rest, s₃, hrest, h⟩ := bind_ok.mp h
    cases h
    rw [List.filter_cons, grants_of_check hok, ← ih hrest]

/-- A listing that succeeds lists, in the order of the candidates, the objects that are
granted, among all objects there might be. -/
theorem listObjectsWithModel_exact (e : Engine) (m : Model)
    (projectID tenantID ns relation userID : GoString) (lister : Lister)
    (maxObjects maxReads : ℤ) (ids out : List GoString) (hids : lister ns = .ok ids)
    (hlisted : ∀ objectID relation ss, e.reader projectID tenantID ⟨ns, objectID, relation⟩ =
      .ok ss → ss ≠ [] → objectID ∈ ids)
    (h : (e.listObjectsWithModel m projectID tenantID ns relation userID lister maxObjects
      maxReads).result = .ok out) :
    out.Sublist ids ∧ (ids.Nodup → out.Nodup) ∧
      ∀ objectID, objectID ∈ out ↔ (({ e with maxReads := 0 } : Engine).checkWithModel m projectID
        tenantID ⟨ns, objectID, relation⟩ userID ∅ 0).result = .ok true := by
  have hout : out = ids.filter (e.grants m projectID tenantID ns relation userID) := by
    unfold Engine.listObjectsWithModel at h
    rw [hids] at h
    dsimp only at h
    split_ifs at h
    all_goals
      obtain ⟨st, hst, -⟩ := Outcome.of_result_ok h
      exact checkObjects_eq_filter hst
  rw [hout]
  refine ⟨List.filter_sublist, fun hnodup => hnodup.filter _, fun objectID => ?_⟩
  rw [List.mem_filter, Engine.grants, decide_eq_true_iff]
  refine and_iff_right_of_imp fun hgranted => ?_
  by_contra hmem
  obtain ⟨st, hst, -⟩ := Outcome.of_result_ok hgranted
  have hbare : (({ e with maxReads := 0 } : Engine).request m projectID tenantID userID ∅).Bare ns
      objectID := by
    intro relation' ss hread
    by_contra hne
    exact hmem (hlisted objectID relation' ss hread hne)
  exact check_bare_ne_true hbare _ relation _ st hst

end Candidates

namespace Drawer

/-- Viewers of a document, except for those who are banned from it. -/
def model : Model := .ofList [
  ("doc", .ofList [("viewer", { exclusion := some (.this, { computed := "banned" }) })])]

/-- Ann views the plan and the memo, and is banned from the memo. -/
def reader : Reader := fun n => .ok (
  if n = ⟨str "doc", str "plan", str "viewer"⟩ then [{ userID := "ann" }]
  else if n = ⟨str "doc", str "memo", str "viewer"⟩ then [{ userID := "ann" }]
  else if n = ⟨str "doc", str "memo", str "banned"⟩ then [{ userID := "ann" }]
  else [])

def engine : Engine where
  reader _ _ := reader
  maxReads := 100

def lister : Lister := fun _ => .ok [str "memo", str "plan"]

theorem listed (objectID relation : GoString) (ss : List Subject)
    (hread : reader ⟨str "doc", objectID, relation⟩ = .ok ss) (hne : ss ≠ []) :
    objectID ∈ [str "memo", str "plan"] := by
  cases hread
  split_ifs at hne with h₁ h₂ h₃
  · exact (SubjectSet.mk.inj h₁).2.1 ▸ .tail _ (.head _)
  · exact (SubjectSet.mk.inj h₂).2.1 ▸ .head _
  · exact (SubjectSet.mk.inj h₃).2.1 ▸ .head _
  · exact absurd rfl hne

end Drawer

open Drawer in
/-- Ann may view the plan and nothing else in the world. -/
theorem listed_plan_only :
    (engine.listObjectsWithModel model "proj" "t" "doc" "viewer" "ann" lister 10 0).result =
      .ok [str "plan"] ∧
    ∀ objectID, objectID ∈ [str "plan"] ↔
      (({ engine with maxReads := 0 } : Engine).checkWithModel model "proj" "t"
        ⟨"doc", objectID, "viewer"⟩ "ann" ∅ 0).result = .ok true := by
  have hlist : (engine.listObjectsWithModel model "proj" "t" "doc" "viewer" "ann" lister 10
      0).result = .ok [str "plan"] := by
    decide +kernel
  exact ⟨hlist, (listObjectsWithModel_exact engine model "proj" "t" "doc" "viewer" "ann" lister 10 0
    _ _ rfl listed hlist).2.2⟩

end WorkspaceAuthz.Authz
