import WorkspaceAuthz.Authz.Context
import WorkspaceAuthz.Authz.SetChecks

/-! # A user in both

Behind a userset check that succeeds stands a user in the set who has access,
unless the set itself was found below the target. This fails where member
resolution is unsound: a public side of an exclusion is mistaken for the whole,
and what is cut off on an Exclude side counts as empty.
-/
namespace WorkspaceAuthz.Authz
open Go RecursiveFormula

/-! ## Flaws of a resolution -/

/-- What makes the resolution of a userset unsound. -/
inductive Flaw where
  | includesPublic
  | excludesPublic
  | cutsExclude
deriving DecidableEq, Repr

def Flaw.Occurs (m : Model) (reader : Reader) (maxDepth : ℕ) (cc : Context) (n : SubjectSet) :
    Flaw → Prop
  | .includesPublic => ¬ IncludesSoundly m reader maxDepth n (verdicts m reader cc)
  | .excludesPublic => ¬ ExcludesSoundly m reader maxDepth n
  | .cutsExclude => ¬ CutsSoundly m reader maxDepth n

theorem Resolves.exclusionFree {m : Model} (hm : m.ExclusionFree) {reader : Reader} {maxDepth : ℕ}
    {n x : SubjectSet} {path : List (Hop × SubjectSet)} {sides : List Side} {rw : Rewrite}
    (h : Resolves m reader maxDepth n path sides x rw) : sides = [] ∧ rw.ExclusionFree := by
  induction h with
  | start => exact ⟨rfl, hm _ _⟩
  | union _ hv hc ih => exact ⟨ih.1, ih.2.of_union hv _ hc⟩
  | intersection _ hv hc ih => exact ⟨ih.1, ih.2.of_intersection hv _ hc⟩
  | includes _ hv ih | excludes _ hv ih => exact absurd hv ih.2.not_exclusion
  | hop _ _ _ ih => exact ⟨ih.1, hm _ _⟩

/-- A userset check without conditions, whose resolutions have flaws in `F` only. -/
structure FlawsIn (F : Set Flaw) (e : Engine) (m : Model) (projectID tenantID : GoString)
    (n set : SubjectSet) (cc : Context) : Prop where
  wellFormed : WellFormed (e.reader projectID tenantID)
  unconditional : ∀ x ss, e.reader projectID tenantID x = .ok ss → ∀ s ∈ ss, s.condition = none
  setFlaws : ∀ f : Flaw, f.Occurs m (e.reader projectID tenantID) e.maxDepth cc set → f ∈ F
  targetFlaws : Public m (e.reader projectID tenantID) set (m.rewrite set.ns set.relation) →
    ∀ f : Flaw, f.Occurs m (e.reader projectID tenantID) e.maxDepth cc n → f ∈ F

theorem FlawsIn.mono {F G : Set Flaw} {e : Engine} {m : Model} {projectID tenantID : GoString}
    {n set : SubjectSet} {cc : Context} (h : FlawsIn F e m projectID tenantID n set cc)
    (hFG : F ⊆ G) : FlawsIn G e m projectID tenantID n set cc where
  wellFormed := h.wellFormed
  unconditional := h.unconditional
  setFlaws f hf := hFG (h.setFlaws f hf)
  targetFlaws hpublic f hf := hFG (h.targetFlaws hpublic f hf)

/-- On the inputs in `P`, a userset check that succeeds has found the set below its
target, or there is a user in both. -/
def FindsCommonUser (P : Engine → Model → GoString → GoString → SubjectSet → SubjectSet →
    Context → Prop) : Prop :=
  ∀ (e : Engine) (m : Model) (projectID tenantID : GoString) (n set : SubjectSet) (cc : Context)
    (order : MapOrder) (maxReads : ℤ), P e m projectID tenantID n set cc →
    (e.checkSetWithModel m projectID tenantID n cc order set maxReads).result = .ok true →
    (e.FindsSet m projectID tenantID n cc set maxReads ∧
      (e.setRequest m projectID tenantID set cc).Holds n) ∨
    ∃ u, (e.request m projectID tenantID u cc).Holds set ∧
      (e.request m projectID tenantID u cc).Holds n

theorem FindsCommonUser.mono {P Q : Engine → Model → GoString → GoString → SubjectSet →
    SubjectSet → Context → Prop} (h : FindsCommonUser Q)
    (hPQ : ∀ e m projectID tenantID n set cc, P e m projectID tenantID n set cc →
      Q e m projectID tenantID n set cc) : FindsCommonUser P :=
  fun e m projectID tenantID n set cc order maxReads hP =>
    h e m projectID tenantID n set cc order maxReads (hPQ _ _ _ _ _ _ _ hP)

namespace Ban

def view : SubjectSet := ⟨"doc", "1", "view"⟩

/-- Alice may view the document; `a` are active and `b` are banned. -/
def store (a b : List Subject) : Reader := fun n => .ok (
  if n = active then a
  else if n = banned then b
  else if n = view then [{ userID := "alice" }]
  else [])

section Store

variable {a b : List Subject} {maxDepth : ℕ} {x : SubjectSet} {rw : Rewrite}
  {path : List (Hop × SubjectSet)} {sides : List Side} {cc : Context} {u : GoString}

end Store

end Ban

/-! ## Nodes with one key -/

namespace Alias

variable {root x y : SubjectSet} {u : GoString} {cc : Context}

theorem system_structural {e : Engine} {set : SubjectSet} :
    (Engine.setRequest e (model root { intersection := legs x y }) [] [] set cc).system root =
      .const false := by
  have hrw : (Engine.setRequest e (model root { intersection := legs x y }) [] [] set cc).rewrite
      root = { intersection := legs x y } := model_rewrite_root _
  have hview : Rewrite.view { intersection := legs x y } = .intersection (legs x y) := rfl
  rw [Request.system, hrw, Request.rewriteFormula_eq, hview]
  rfl

theorem wellFormed_reader {w : SubjectSet} {c : Option Condition} (hu : u ≠ []) :
    WellFormed (reader root x y w c u) := by
  intro n ss hread s hs
  cases hread
  split_ifs at hs <;> simp_all [Subject.Valid]

theorem both_exclusionFree : (model root { intersection := legs x y }).ExclusionFree :=
  model_exclusionFree (.intersection rfl fun _ => legs_exclusionFree)

end Alias

end WorkspaceAuthz.Authz
