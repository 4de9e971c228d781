import WorkspaceAuthz.Authz.SetSoundness

/-! # Conditions under a userset query

A tuple grants to the members of a userset on the condition on which it grants to
a user. Two of the ways to say yes evaluate conditions; the third, which answers
for a public set, resolves the members of the target whatever their conditions.
Exclusions play no role in this and are left aside.
-/
namespace WorkspaceAuthz.Authz
open Go RecursiveFormula

/-- On the inputs in `P` without exclusions, a userset check that succeeds under `cc` has
found the set below its target, or there is a user who has access under `cc`. -/
def FindsUser (cc : Context) (P : Engine → Model → GoString → GoString → SubjectSet →
    SubjectSet → Prop) : Prop :=
  ∀ (e : Engine) (m : Model) (projectID tenantID : GoString) (n set : SubjectSet)
    (order : MapOrder) (maxReads : ℤ), m.ExclusionFree → WellFormed (e.reader projectID tenantID) →
    P e m projectID tenantID n set →
    (e.checkSetWithModel m projectID tenantID n cc order set maxReads).result = .ok true →
    (e.FindsSet m projectID tenantID n cc set maxReads ∧
      (e.setRequest m projectID tenantID set cc).Holds n) ∨
    ∃ u, (e.request m projectID tenantID u cc).Holds n

/-- The check of a public set reads tuples of the target with conditions in `C` only. -/
def PublicReads (C : Set (Option Condition)) (e : Engine) (m : Model)
    (projectID tenantID : GoString) (n set : SubjectSet) : Prop :=
  Public m (e.reader projectID tenantID) set (m.rewrite set.ns set.relation) →
    ReadsOnly m (e.reader projectID tenantID) e.maxDepth n C

theorem PublicReads.mono {C D : Set (Option Condition)} (hCD : C ⊆ D) {e : Engine} {m : Model}
    {projectID tenantID : GoString} {n set : SubjectSet}
    (h : PublicReads C e m projectID tenantID n set) :
    PublicReads D e m projectID tenantID n set :=
  fun hpublic path sides x rw hr =>
    ⟨fun hv ss hss s hs => hCD ((h hpublic path sides x rw hr).1 hv ss hss s hs),
      fun ts rel hv ss hss s hs => hCD ((h hpublic path sides x rw hr).2 ts rel hv ss hss s hs)⟩

theorem FindsUser.mono {cc : Context} {P Q : Engine → Model → GoString → GoString → SubjectSet →
    SubjectSet → Prop} (h : FindsUser cc Q)
    (hPQ : ∀ e m projectID tenantID n set, P e m projectID tenantID n set →
      Q e m projectID tenantID n set) : FindsUser cc P :=
  fun e m projectID tenantID n set order maxReads hm hwf hP =>
    h e m projectID tenantID n set order maxReads hm hwf (hPQ _ _ _ _ _ _ hP)

section Sound

variable {m : Model} {reader : Reader} {maxDepth : ℕ} {n : SubjectSet}

end Sound

/-! ## A public group and a document with a condition -/

namespace Consent

def everyone : SubjectSet := ⟨"group", "1", "member"⟩

def view : SubjectSet := ⟨"doc", "1", "view"⟩

/-- Alice may view the document on a condition. -/
def engine (c : Option Condition) : Engine where
  reader _ _ n := .ok (
    if n = everyone then [{ wildcard := true }]
    else if n = view then [{ userID := "alice", condition := c }]
    else [])

section Run

variable {c : Option Condition} {cc : Context} {q : SubjectQuery}

theorem wellFormed : WellFormed ((engine c).reader [] []) := by
  have halice : str "alice" ≠ [] := by decide
  intro n ss hread s hs
  cases hread
  split_ifs at hs <;> simp_all [Subject.Valid]

end Run

end Consent

end WorkspaceAuthz.Authz
