import WorkspaceAuthz.Authz.Formulas

/-! # Where an evaluation may get to

The rewrites that the check of a node may evaluate, each with the sides of the
exclusions it lies below, from the inside out. Below an odd number of Exclude
sides a stored tuple withholds access.
-/
namespace WorkspaceAuthz.Authz
open Go

inductive Side where
  | includes
  | excludes
deriving DecidableEq, Repr

/-- Whether an odd number of the sides are Exclude sides. -/
def negative : List Side → Bool
  | [] => false
  | .includes :: sides => negative sides
  | .excludes :: sides => !negative sides

namespace Request

/-- `r.Evaluates n sides x rw`: the check of `n` may evaluate `rw` at the node `x`
below `sides`. -/
inductive Evaluates (r : Request) (n : SubjectSet) : List Side → SubjectSet → Rewrite → Prop
  | start : Evaluates r n [] n (r.rewrite n)
  | union {sides x rw cs c} : Evaluates r n sides x rw → rw.view = .union cs → c ∈ cs →
      Evaluates r n sides x c
  | intersection {sides x rw cs c} : Evaluates r n sides x rw → r.q.set = none →
      rw.view = .intersection cs → c ∈ cs → Evaluates r n sides x c
  | includes {sides x rw inc exc} : Evaluates r n sides x rw → r.q.set = none →
      rw.view = .exclusion inc exc → Evaluates r n (.includes :: sides) x inc
  | excludes {sides x rw inc exc} : Evaluates r n sides x rw → r.q.set = none →
      rw.view = .exclusion inc exc → Evaluates r n (.excludes :: sides) x exc
  | computed {sides x rw rel} : Evaluates r n sides x rw → rw.view = .computed rel →
      Evaluates r n sides ⟨x.ns, x.objectID, rel⟩ (r.rewrite ⟨x.ns, x.objectID, rel⟩)
  | member {sides x rw ss s y} : Evaluates r n sides x rw → rw.view = .this →
      r.reader x = .ok ss → s ∈ ss → r.applies s → r.follows s = some y →
      Evaluates r n sides y (r.rewrite y)
  | pointer {sides x rw ts rel ss s y} : Evaluates r n sides x rw →
      rw.view = .tupleToUserset ts rel → r.reader ⟨x.ns, x.objectID, ts⟩ = .ok ss → s ∈ ss →
      r.applies s → pointsTo rel s = some y → Evaluates r n sides y (r.rewrite y)

/-- The tuples of `t` are read by the check of `n` below `sides`. -/
def Reads (r : Request) (n : SubjectSet) (sides : List Side) (t : SubjectSet) : Prop :=
  ∃ x rw, r.Evaluates n sides x rw ∧
    ((rw.view = .this ∧ t = x) ∨
      ∃ ts rel, rw.view = .tupleToUserset ts rel ∧ t = ⟨x.ns, x.objectID, ts⟩)

end Request

/-! ## Models without exclusions -/

/-- No exclusion among the operators that the evaluator takes. -/
inductive Rewrite.ExclusionFree : Rewrite → Prop
  | this {rw} : rw.view = .this → ExclusionFree rw
  | union {rw cs} : rw.view = .union cs → (∀ c ∈ cs, ExclusionFree c) → ExclusionFree rw
  | intersection {rw cs} : rw.view = .intersection cs → (∀ c ∈ cs, ExclusionFree c) →
      ExclusionFree rw
  | computed {rw rel} : rw.view = .computed rel → ExclusionFree rw
  | tupleToUserset {rw ts rel} : rw.view = .tupleToUserset ts rel → ExclusionFree rw

def Model.ExclusionFree (m : Model) : Prop := ∀ ns rel, (m.rewrite ns rel).ExclusionFree

namespace Rewrite.ExclusionFree

variable {rw : Rewrite} {cs : List Rewrite} {inc exc : Rewrite}

theorem of_union (h : rw.ExclusionFree) (hv : rw.view = .union cs) : ∀ c ∈ cs, c.ExclusionFree := by
  cases h with
  | union hv' hcs => cases hv.symm.trans hv'; exact hcs
  | this hv' | intersection hv' | computed hv' | tupleToUserset hv' => cases hv.symm.trans hv'

theorem of_intersection (h : rw.ExclusionFree) (hv : rw.view = .intersection cs) :
    ∀ c ∈ cs, c.ExclusionFree := by
  cases h with
  | intersection hv' hcs => cases hv.symm.trans hv'; exact hcs
  | this hv' | union hv' | computed hv' | tupleToUserset hv' => cases hv.symm.trans hv'

theorem not_exclusion (h : rw.ExclusionFree) : rw.view ≠ .exclusion inc exc := by
  intro hv
  cases h with
  | this hv' | union hv' | intersection hv' | computed hv' | tupleToUserset hv' =>
    cases hv.symm.trans hv'

end Rewrite.ExclusionFree

/-- In a model without exclusions an evaluation never lies below one. -/
theorem Request.Evaluates.exclusionFree {r : Request} (hm : r.model.ExclusionFree)
    {n x : SubjectSet} {sides : List Side} {rw : Rewrite} (h : r.Evaluates n sides x rw) :
    sides = [] ∧ rw.ExclusionFree := by
  induction h with
  | start => exact ⟨rfl, hm _ _⟩
  | union _ hv hc ih => exact ⟨ih.1, ih.2.of_union hv _ hc⟩
  | intersection _ _ hv hc ih => exact ⟨ih.1, ih.2.of_intersection hv _ hc⟩
  | includes _ _ hv ih => exact absurd hv ih.2.not_exclusion
  | excludes _ _ hv ih => exact absurd hv ih.2.not_exclusion
  | computed _ _ ih => exact ⟨ih.1, hm _ _⟩
  | member _ _ _ _ _ _ ih => exact ⟨ih.1, hm _ _⟩
  | pointer _ _ _ _ _ _ ih => exact ⟨ih.1, hm _ _⟩

end WorkspaceAuthz.Authz
