import WorkspaceAuthz.Service.Repository

/-! # The consistency sequence

Every shard has a sequence number that the writes of tuples advance; a reader who
knows a number can ask for a state that is not older. Apart from the sweep over a
project that deprovisions a user, a call leaves the tuples of a shard and its
number as they are, or the number is the next one.
-/
namespace WorkspaceAuthz.Service
open Go Authz Interleaving

namespace Store

def seq (s : Store) (sk : GoString) : ℤ := (s.seqs.get sk).getD 0

/-- Nothing has happened to the tuples of a shard, or its sequence number is the next one. -/
def Advances (sk : GoString) (s s' : Store) : Prop :=
  ((∀ k, s'.tuples.get₂ sk k = s.tuples.get₂ sk k) ∧ s'.seq sk = s.seq sk) ∨
    s'.seq sk = s.seq sk + 1

section Advances

variable {s s' : Store} {sk : GoString}

theorem advances_of_eq (htuples : s'.tuples = s.tuples) (hseqs : s'.seqs = s.seqs) :
    Advances sk s s' := by
  left
  simp [seq, htuples, hseqs]

theorem advances_writeTuples (projectID tenantID : GoString) (inserts deletes : List Tuple) :
    Advances sk s (s.writeTuples projectID tenantID inserts deletes) := by
  by_cases hsk : sk = scope projectID tenantID
  · right
    simp [seq, writeTuples, GoMap.get_insert, hsk]
  · left
    constructor
    · intro k
      rw [get_tuples_writeTuples, if_neg hsk]
    · simp [seq, writeTuples, GoMap.get_insert, hsk]

theorem advances_keepTuples (projectID tenantID : GoString) (keep : Tuple → Bool) :
    Advances sk s (s.keepTuples projectID tenantID keep) := by
  by_cases hsk : sk = scope projectID tenantID
  · right
    simp [seq, keepTuples, GoMap.get_insert, hsk]
  · left
    constructor
    · intro k
      rw [get_tuples_keepTuples, if_neg hsk]
    · simp [seq, keepTuples, GoMap.get_insert, hsk]

end Advances

end Store

open Store in
/-- Only deprovisioning can change tuples and leave the sequence as it is. -/
theorem advances_exec (env : Env) (s : Store) (sk : GoString) {c : Call}
    (hc : ∀ projectID userID, c ≠ .deleteAllSubjectTuplesInProject projectID userID) :
    Advances sk s (exec env c s).2 := by
  have hleaves : c.LeavesTuples → Advances sk s (exec env c s).2 := by
    intro h
    obtain ⟨htuples, -, hseqs⟩ := exec_of_leavesTuples h env s
    exact advances_of_eq htuples hseqs
  cases c with
  | writeTuples projectID tenantID inserts deletes => exact advances_writeTuples _ _ _ _
  | putMembershipAndTuples m inserts deletes =>
    exact advances_writeTuples (s := s.putMembership m) _ _ _ _
  | deleteMembershipAndTuples projectID tenantID workspaceID userID deletes =>
    simp only [exec, deleteMembershipAndTuples, deleteMembership]
    by_cases hrow : (s.row projectID tenantID workspaceID userID).isNone
    · rw [if_pos hrow]
      exact advances_of_eq rfl rfl
    · rw [if_neg hrow]
      exact advances_writeTuples projectID tenantID _ _
  | setEnrollmentAndTuples e inserts deletes =>
    exact advances_writeTuples (s := s.setEnrollment e) _ _ _ _
  | assignSeatAndTuple a tuple =>
    obtain ⟨-, heq⟩ | ⟨-, heq⟩ | ⟨-, -, heq⟩ := s.assignSeatAndTuple_cases a tuple
    · rw [exec, heq]
      exact advances_writeTuples _ _ _ _
    · rw [exec, heq]
      exact advances_of_eq rfl rfl
    · rw [exec, heq]
      exact advances_writeTuples (s := s.assignSeat a) _ _ _ _
  | revokeSeatAndTuple projectID tenantID sku userID tuple =>
    exact advances_writeTuples (s := s.revokeSeat projectID tenantID sku userID) _ _ _ _
  | deleteWorkspace projectID tenantID id =>
    rw [exec, Store.deleteWorkspace]
    split_ifs
    · exact advances_of_eq rfl rfl
    · exact advances_keepTuples projectID tenantID _
  | deleteGroup projectID tenantID id =>
    rw [exec, Store.deleteGroup]
    split_ifs
    · exact advances_of_eq rfl rfl
    · exact advances_keepTuples projectID tenantID _
  | deleteAllSubjectTuplesInProject projectID userID => exact absurd rfl (hc projectID userID)
  | _ => exact hleaves trivial

/-- No call sets a sequence back. -/
theorem seq_exec_le (env : Env) (s : Store) (sk : GoString) (c : Call) :
    s.seq sk ≤ (exec env c s).2.seq sk := by
  by_cases hc : ∀ projectID userID, c ≠ .deleteAllSubjectTuplesInProject projectID userID
  · obtain ⟨-, hseq⟩ | hseq := advances_exec env s sk hc
    · exact hseq.ge
    · omega
  · push Not at hc
    obtain ⟨projectID, userID, rfl⟩ := hc
    exact le_rfl

/-- A call advances the sequence of a shard whose tuples it changes, unless it deprovisions
a user who has tuples there. -/
theorem consistencyToken_exec_iff (env : Env) (c : Call) (s : Store)
    (projectID tenantID : GoString) :
    (s.consistencyToken projectID tenantID ≤ (exec env c s).2.consistencyToken projectID tenantID ∧
      ((∃ t, ¬ ((exec env c s).2.Stored projectID tenantID t ↔ s.Stored projectID tenantID t)) →
        s.consistencyToken projectID tenantID <
          (exec env c s).2.consistencyToken projectID tenantID)) ↔
    ∀ projectID' userID, c = .deleteAllSubjectTuplesInProject projectID' userID →
      Store.inProject projectID' (scope projectID tenantID) →
        ∀ t, s.Stored projectID tenantID t → ¬ Store.isConcrete userID t := by
  by_cases hc : ∀ projectID userID, c ≠ .deleteAllSubjectTuplesInProject projectID userID
  · refine iff_of_true ⟨seq_exec_le env s _ c, ?_⟩ fun projectID' userID heq =>
      absurd heq (hc projectID' userID)
    rintro ⟨t, ht⟩
    obtain ⟨htuples, -⟩ | hseq := advances_exec env s (scope projectID tenantID) hc
    · exact absurd (by rw [Store.Stored, htuples, Store.Stored]) ht
    · exact Int.lt_iff_add_one_le.mpr hseq.ge
  · push Not at hc
    obtain ⟨projectID', userID, rfl⟩ := hc
    have hstored (t : Tuple) :
      (exec env (.deleteAllSubjectTuplesInProject projectID' userID) s).2.Stored
        projectID tenantID t ↔ s.Stored projectID tenantID t ∧
          (Store.inProject projectID' (scope projectID tenantID) → ¬ Store.isConcrete userID t) :=
      Store.stored_deleteAllSubjectTuplesInProject
    -- the sequence stays, so that no tuple may have gone
    constructor
    · rintro ⟨-, hchanged⟩ _ _ heq hproject t ht hconcrete
      cases heq
      refine lt_irrefl _ (hchanged ⟨t, fun hiff => ?_⟩)
      exact ((hstored t).mp (hiff.mpr ht)).2 hproject hconcrete
    · intro h
      refine ⟨le_rfl, ?_⟩
      rintro ⟨t, ht⟩
      refine absurd ?_ ht
      rw [hstored t]
      exact and_iff_left_of_imp fun ht hproject => h _ _ rfl hproject t ht

namespace Sweep

def store : Store :=
  Store.empty.writeTuples "p" "t" [userTuple "document" "plan" "viewer" "ann"] []

def sweep : Call := .deleteAllSubjectTuplesInProject "p" "ann"

end Sweep

open Sweep in
/-- The tuple of a user who is deprovisioned goes without a trace in the sequence. -/
theorem deprovisioning_keeps_sequence :
    store.Holds "p" "t" (userTuple "document" "plan" "viewer" "ann") ∧
      ¬ (exec {} sweep store).2.Holds "p" "t" (userTuple "document" "plan" "viewer" "ann") ∧
      (exec {} sweep store).2.consistencyToken "p" "t" = store.consistencyToken "p" "t" := by
  decide +kernel

end WorkspaceAuthz.Service
