import WorkspaceAuthz.Authz.Formulas
import WorkspaceAuthz.Service.Repository
import WorkspaceAuthz.Service.Tuples

/-! # Deprovisioned users

A check of a user looks at the tuples that name the user, and otherwise goes the
same way for everyone. So nothing tells a user all of whose tuples are gone from
one who never had any.
-/
namespace WorkspaceAuthz.Authz
open Go RecursiveFormula

/-- The subjects that a reader lists do not name the user. -/
def Reader.Omits (reader : Reader) (userID : GoString) : Prop :=
  ∀ n ss, reader n = .ok ss → ∀ s ∈ ss, s.set = none → s.wildcard = false → s.userID ≠ userID

section Omitted

variable {m : Model} {reader : Reader} {cc : Context} {u v : GoString}

/-- Of the subjects that do not name the user, only the wildcard grants by itself. -/
theorem Request.grants_of_ne {s : Subject}
    (h : s.set = none → s.wildcard = false → s.userID ≠ u) :
    (Request.mk m reader { user := u } cc).grants s = s.wildcard := by
  unfold Request.grants
  cases hwildcard : s.wildcard with
  | true => rfl
  | false =>
    cases hset : s.set with
    | none => simp [h hset hwildcard]
    | some set => simp

theorem Request.system_eq_of_omits (hu : reader.Omits u) (hv : reader.Omits v) :
    (Request.mk m reader { user := u } cc).system =
      (Request.mk m reader { user := v } cc).system := by
  apply Request.system_congr
  · rfl
  · rfl
  · rfl
  · intro n ss hss s hs
    unfold Request.subjectFormula Request.follows
    rw [Request.grants_of_ne (hu n ss hss s hs), Request.grants_of_ne (hv n ss hss s hs)]
    rfl
  · intro n ss _ s _ rel
    rfl

/-- Users whom no subject names are checked alike, guards and errors included. -/
theorem Engine.checkWithModel_eq_of_omits {e : Engine} {projectID tenantID : GoString}
    (hu : (e.reader projectID tenantID).Omits u) (hv : (e.reader projectID tenantID).Omits v)
    (m : Model) (n : SubjectSet) (cc : Context) (maxReads : ℤ) :
    e.checkWithModel m projectID tenantID n u cc maxReads =
      e.checkWithModel m projectID tenantID n v cc maxReads := by
  unfold Engine.checkWithModel Engine.checkWithKeys Engine.request
  rw [Request.check_eq_search, Request.check_eq_search, Request.system_eq_of_omits hu hv]

end Omitted

end WorkspaceAuthz.Authz

namespace WorkspaceAuthz.Service
open Go Authz

/-- An engine that reads a shard of a store in one state, every node in some order. -/
def ReadsFrom (e : Engine) (s : Store) (projectID tenantID : GoString) : Prop :=
  ∀ n, ∃ order now, e.reader projectID tenantID n =
    .ok (s.listSubjects order now projectID tenantID n)

theorem ReadsFrom.omits {e : Engine} {s : Store} {projectID tenantID userID : GoString}
    (he : ReadsFrom e s projectID tenantID)
    (h : ∀ t, s.Stored projectID tenantID t → ¬ Store.isConcrete userID t) :
    (e.reader projectID tenantID).Omits userID := by
  intro n ss hss subject hsubject hset hwildcard huser
  obtain ⟨order, now, hread⟩ := he n
  cases hss.symm.trans hread
  obtain ⟨t, hstored, -, rfl, -⟩ := Store.mem_listSubjects.mp hsubject
  exact h t hstored (by simp [Store.isConcrete, hset, hwildcard, huser])

/-- A user who was deprovisioned passes and fails the same checks as one who has no tuples in
the project, and holds no seat there; nothing else is deleted. -/
theorem deprovisioned_users_are_unknown (s : Store) (projectID userID : GoString) :
    (∀ other, (∀ tenantID t,
        (s.deleteAllSubjectTuplesInProject projectID userID).2.Stored projectID tenantID t →
          ¬ Store.isConcrete other t) →
      ∀ (tenantID : GoString) (e : Engine),
        ReadsFrom e (s.deleteAllSubjectTuplesInProject projectID userID).2 projectID tenantID →
        ∀ (m : Model) (n : SubjectSet) (cc : Context) (maxReads : ℤ),
          e.checkWithModel m projectID tenantID n userID cc maxReads =
            e.checkWithModel m projectID tenantID n other cc maxReads) ∧
    (∀ tenantID sku,
      (s.deleteAllSubjectTuplesInProject projectID userID).2.seat projectID tenantID sku userID =
        none) ∧
    ∀ projectID' tenantID, hasControlChar projectID' = false → hasControlChar tenantID = false →
      ∀ t, (s.deleteAllSubjectTuplesInProject projectID userID).2.Stored projectID' tenantID t ↔
        s.Stored projectID' tenantID t ∧
          ¬ (projectID' = projectID ∧ Store.isConcrete userID t) := by
  have hin (tenantID : GoString) : Store.inProject projectID (scope projectID tenantID) :=
    Store.inProject_iff.mpr ⟨tenantID, rfl⟩
  refine ⟨?_, ?_, ?_⟩
  · intro other hother tenantID e he m n cc maxReads
    apply Engine.checkWithModel_eq_of_omits
    · apply he.omits
      intro t ht
      exact (Store.stored_deleteAllSubjectTuplesInProject.mp ht).2 (hin tenantID)
    · exact he.omits (hother tenantID)
  · intro tenantID sku
    have hget : (s.deleteAllSubjectTuplesInProject projectID userID).2.seat projectID tenantID sku
        userID = _ := Store.get_withoutSeats _ _ _ _ _ _
    rw [hget, if_pos ⟨hin tenantID, rfl⟩]
  · intro projectID' tenantID hproject htenant t
    rw [Store.stored_deleteAllSubjectTuplesInProject,
      Store.inProject_scope_iff (zero_notMem_of_hasControlChar hproject)
        (zero_notMem_of_hasControlChar htenant), not_and]

namespace Departure

def store : Store :=
  (Store.empty.writeTuples "p" "t" [userTuple "document" "plan" "viewer" "ann"] []).writeTuples
    "q" "t" [userTuple "document" "plan" "viewer" "ann"] []

def swept : Store := (store.deleteAllSubjectTuplesInProject "p" "ann").2

def engine : Engine where
  reader projectID tenantID n := .ok (swept.listSubjects .ascending 0 projectID tenantID n)

theorem notConcrete_zoe (tenantID : GoString) (t : Tuple) (ht : swept.Stored "p" tenantID t) :
    ¬ Store.isConcrete "zoe" t := by
  obtain ⟨hstored, -⟩ := Store.stored_deleteAllSubjectTuplesInProject.mp ht
  obtain hmem | hstored := Store.mem_or_get_of_writeTuples hstored
  · rw [List.mem_singleton.mp hmem]
    decide
  · obtain hmem | hstored := Store.mem_or_get_of_writeTuples hstored
    · rw [List.mem_singleton.mp hmem]
      decide
    · simp [Store.empty] at hstored

end Departure

open Departure in
theorem departure_from_one_project :
    engine.checkWithModel defaultModel "p" "t" ⟨"document", "plan", "viewer"⟩ "ann" ∅ 0 =
        engine.checkWithModel defaultModel "p" "t" ⟨"document", "plan", "viewer"⟩ "zoe" ∅ 0 ∧
      swept.Stored "q" "t" (userTuple "document" "plan" "viewer" "ann") := by
  obtain ⟨hchecks, -, htuples⟩ := deprovisioned_users_are_unknown store "p" "ann"
  constructor
  · exact hchecks "zoe" notConcrete_zoe "t" engine (fun n => ⟨.ascending, 0, rfl⟩) _ _ _ _
  · exact (htuples "q" "t" (by decide) (by decide) _).mpr ⟨rfl, by decide⟩

end WorkspaceAuthz.Service
