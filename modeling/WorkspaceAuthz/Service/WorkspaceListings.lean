import WorkspaceAuthz.Authz.Grades
import WorkspaceAuthz.Service.Deprovisioning
import WorkspaceAuthz.Service.WorkspaceAccess

/-! # Listing and checking

The workspaces of a user are listed from the rows of active members, and access to
them is checked through role tuples. After ordinary requests both agree: the list
has, once each, the workspaces whose check for guests the user passes.
-/
namespace WorkspaceAuthz.Service
open Go Authz Interleaving

namespace Store

variable {s : Store} {projectID tenantID ws user : GoString} {order : MapOrder} {now : Time}

theorem mem_workspacesForUser {w : Workspace} :
    w ∈ s.workspacesForUser order projectID tenantID user ↔
      s.getWorkspace projectID tenantID w.id = .ok w ∧
        ∃ m, s.row projectID tenantID w.id user = some m ∧ m.status = .active := by
  simp only [workspacesForUser, sortByTime, List.mem_insertionSort, List.mem_filterMap,
    order.mem_list, Finmap.mem_keys]
  constructor
  · rintro ⟨ws, -, hws⟩
    obtain ⟨m, hrow, hw⟩ := Option.bind_eq_some_iff.mp hws
    by_cases hstatus : m.status = .active
    · have hget : s.workspaces.get₂ (scope projectID tenantID) ws = some w := by
        simpa [hstatus] using hw
      obtain ⟨-, rfl⟩ := s.workspaces_keyed _ _ _ hget
      exact ⟨found_eq_ok.mpr hget, m, hrow, hstatus⟩
    · simp [hstatus] at hw
  · rintro ⟨hget, m, hrow, hstatus⟩
    have hmem : w.id ∈ s.memberships.inner (scope projectID tenantID) := by
      by_contra hnone
      have hmissing : (s.memberships.inner (scope projectID tenantID)).get w.id = none :=
        Finmap.lookup_eq_none.mpr hnone
      rw [row, GoMap.get₃, GoMap.get₂, GoMap.inner, hmissing] at hrow
      cases hrow
    refine ⟨w.id, hmem, ?_⟩
    exact Option.bind_eq_some_iff.mpr ⟨m, hrow, by simpa [hstatus] using found_eq_ok.mp hget⟩

theorem nodup_workspacesForUser :
    ((s.workspacesForUser order projectID tenantID user).map (·.id)).Nodup := by
  have hlist : (s.workspacesForUser order projectID tenantID user).Nodup := by
    refine (List.perm_insertionSort _ _).nodup_iff.mpr ?_
    refine List.Nodup.filterMap (fun ws ws' w hw hw' => ?_) (order.nodup _)
    have hid : ∀ {ws}, w ∈ (do
        let m ← s.memberships.get₃ (scope projectID tenantID) ws user
        if m.status ≠ MembershipStatus.active then none
        else s.workspaces.get₂ (scope projectID tenantID) ws) → w.id = ws := by
      intro ws hw
      obtain ⟨m, -, hw⟩ := Option.bind_eq_some_iff.mp hw
      split_ifs at hw
      · exact (s.workspaces_keyed _ _ _ hw).2
    exact (hid hw).symm.trans (hid hw')
  refine hlist.map_on fun w hw w' hw' hid => ?_
  have hget := (mem_workspacesForUser.mp hw).1
  have hget' := (mem_workspacesForUser.mp hw').1
  rw [hid] at hget
  exact Except.ok.inj (hget.symm.trans hget')

/-- The subjects on workspaces are the active members, in their role. -/
theorem InOrder.mem_listSubjects_iff (h : s.InOrder) {relation : GoString} {subject : Subject} :
    subject ∈ s.listSubjects order now projectID tenantID ⟨"workspace", ws, relation⟩ ↔
      ∃ user role, s.standing projectID tenantID ws user = some (role, .active) ∧
        role.name = relation ∧ subject = { userID := user } := by
  rw [mem_listSubjects]
  constructor
  · rintro ⟨t, hstored, -, rfl, hns, hobject, hrelation⟩
    obtain ⟨ws', user, role, rfl⟩ := h.only projectID tenantID t hstored hns
    obtain rfl : ws' = ws := hobject
    exact ⟨user, role, (h.agrees projectID tenantID ws' user role).mp
      (Option.isSome_of_eq_some hstored),
      hrelation, rfl⟩
  · rintro ⟨user, role, hstanding, rfl, rfl⟩
    obtain ⟨t, ht⟩ := Option.isSome_iff_exists.mp
      ((h.agrees projectID tenantID ws user role).mpr hstanding)
    obtain ⟨hns, hobject, hrelation, hsubject⟩ := tupleKey_inj (s.tuples_keyed _ _ _ ht)
    have hstored : s.Stored projectID tenantID t := by
      rw [Stored, s.tuples_keyed _ _ _ ht]
      exact ht
    obtain ⟨ws', user', role', rfl⟩ := h.only projectID tenantID t hstored hns
    obtain rfl : user' = user := subjectKey_user_inj hsubject
    exact ⟨_, hstored, rfl, rfl, hns, hobject, hrelation⟩

/-- The check for guests finds the active members, whatever their role. -/
theorem InOrder.check_guest (h : s.InOrder) {e : Engine} {cc : Context} {maxReads : ℤ}
    (huser : user ≠ []) (hdepth : e.maxDepth = maxRecursionDepth)
    (hreader : ReadsFrom e s projectID tenantID)
    (hbudget : e.effectiveMaxReads maxReads ≤ 0 ∨ minMaxCheckReads ≤ e.effectiveMaxReads maxReads) :
    (e.checkWithModel defaultModel projectID tenantID ⟨"workspace", ws, "guest"⟩ user cc
      maxReads).result = .ok true ↔
        ∃ role, s.standing projectID tenantID ws user = some (role, .active) := by
  choose order now hread using fun relation => hreader ⟨"workspace", ws, relation⟩
  have hfloor : (4 : ℤ) ≤ minMaxCheckReads := by decide
  have hdepth' : 3 ≤ e.maxDepth := by
    rw [hdepth]
    decide
  rw [checkWithModel_guest hdepth' (hbudget.imp_right hfloor.trans) huser hread]
  · simp only [Except.ok.injEq, decide_eq_true_eq, h.mem_listSubjects_iff]
    constructor
    · rintro ⟨grade, -, subject, ⟨user, role, hstanding, -, rfl⟩, rfl⟩
      exact ⟨role, hstanding⟩
    · rintro ⟨role, hstanding⟩
      refine ⟨role.name, ?_, _, ⟨user, role, hstanding, rfl, rfl⟩, rfl⟩
      cases role <;> decide
  · intro relation subject hsubject
    obtain ⟨user, role, -, -, rfl⟩ := h.mem_listSubjects_iff.mp hsubject
    exact ⟨rfl, rfl, rfl⟩

end Store

/-- After ordinary requests, the workspaces listed for a user are, without repetitions, those
whose check for guests the user passes. -/
theorem listing_agrees_with_checks (hashToken : GoString → GoString) (s : Store)
    (h : Sequence exec (servingOrdinary hashToken) .empty s)
    (projectID tenantID user : GoString) (huser : user ≠ []) (order : MapOrder) (e : Engine)
    (hdepth : e.maxDepth = maxRecursionDepth) (hreader : ReadsFrom e s projectID tenantID)
    (cc : Context) (maxReads : ℤ)
    (hbudget : e.effectiveMaxReads maxReads ≤ 0 ∨ minMaxCheckReads ≤ e.effectiveMaxReads maxReads) :
    ((s.workspacesForUser order projectID tenantID user).map (·.id)).Nodup ∧
    (∀ w, w ∈ s.workspacesForUser order projectID tenantID user ↔
      s.getWorkspace projectID tenantID w.id = .ok w ∧
        (e.checkWithModel defaultModel projectID tenantID ⟨"workspace", w.id, "guest"⟩ user cc
          maxReads).result = .ok true) ∧
    ∀ ws, (e.checkWithModel defaultModel projectID tenantID ⟨"workspace", ws, "guest"⟩ user cc
        maxReads).result = .ok true →
      ∃ w ∈ s.workspacesForUser order projectID tenantID user, w.id = ws := by
  have hs := inOrder_of_sequence h
  have hactive : ∀ ws, (∃ m, s.row projectID tenantID ws user = some m ∧ m.status = .active) ↔
      ∃ role, s.standing projectID tenantID ws user = some (role, .active) := by
    intro ws
    simp only [Store.standing, Option.map_eq_some_iff, Membership.standing, Prod.mk.injEq]
    grind
  refine ⟨Store.nodup_workspacesForUser, fun w => ?_, fun ws hcheck => ?_⟩
  · rw [hs.check_guest huser hdepth hreader hbudget, Store.mem_workspacesForUser, hactive]
  · obtain ⟨role, hstanding⟩ := (hs.check_guest huser hdepth hreader hbudget).mp hcheck
    obtain ⟨w, hw, -⟩ := (hs.rosters projectID tenantID ws).member user _ hstanding
    obtain ⟨-, rfl⟩ := s.workspaces_keyed _ _ _ hw
    exact ⟨w, Store.mem_workspacesForUser.mpr ⟨found_eq_ok.mpr hw,
      (hactive _).mpr ⟨role, hstanding⟩⟩,
      rfl⟩

namespace Team

def staffedEngine : Engine where
  reader projectID tenantID n := .ok (staffed.listSubjects .ascending 0 projectID tenantID n)
  maxReads := defaultMaxCheckReads

end Team

open Team in
/-- The workspace is listed for the member who was added. -/
theorem added_member_sees_workspace :
    ∃ w ∈ staffed.workspacesForUser .ascending "p" "t" "bob", w.id = "id" :=
  (listing_agrees_with_checks _ staffed sequence_staffed "p" "t" "bob" (by decide) .ascending
    staffedEngine rfl (fun _ => ⟨_, _, rfl⟩) ∅ 0 (.inr (by decide))).2.2 "id" (by decide +kernel)

end WorkspaceAuthz.Service
