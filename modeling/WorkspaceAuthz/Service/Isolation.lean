import WorkspaceAuthz.Authz.ListObjects
import WorkspaceAuthz.Interleaving.Locality
import WorkspaceAuthz.Service.Repository
import WorkspaceAuthz.Service.Tuples

/-! # Shards

The store consists of the projects and of one shard for every project and tenant.
All methods but the ones that go through a whole project read and write one shard.
-/
namespace WorkspaceAuthz.Service
open Go Authz Interleaving

/-- What is stored under one key in the maps of a store. -/
structure Shard where
  workspaces : Option (GoMap Workspace)
  memberships : Option (GoMap (GoMap Membership))
  invitations : Option (GoMap Invitation)
  groups : Option (GoMap Group)
  enrollments : Option (GoMap (GoMap Enrollment))
  seatLimits : Option (GoMap ℤ)
  seatAssigns : Option (GoMap (GoMap SeatAssignment))
  tuples : Option (GoMap Tuple)
  seq : Option ℤ

def Store.shard (s : Store) (sk : GoString) : Shard where
  workspaces := s.workspaces.get sk
  memberships := s.memberships.get sk
  invitations := s.invitations.get sk
  groups := s.groups.get sk
  enrollments := s.enrollments.get sk
  seatLimits := s.seatLimits.get sk
  seatAssigns := s.seatAssigns.get sk
  tuples := s.tuples.get sk
  seq := s.seqs.get sk

/-- The projects, or a shard. -/
def Region : Option GoString → Type
  | none => GoMap Project
  | some _ => Shard

def Store.region : (k : Option GoString) → Store → Region k
  | none, s => s.projects
  | some sk, s => s.shard sk

/-- The project and the tenant that a call is about, if it is about one of each. -/
def Call.shard? : Call → Option (GoString × GoString)
  | .writeTuples projectID tenantID _ _ | .consistencyToken projectID tenantID
  | .listSubjects projectID tenantID _ | .listObjectIDs projectID tenantID _
  | .readTuples projectID tenantID _ | .getWorkspace projectID tenantID _
  | .deleteWorkspace projectID tenantID _ | .personalWorkspace projectID tenantID _
  | .workspacesForUser projectID tenantID _ | .getMembership projectID tenantID _ _
  | .listMembers projectID tenantID _ | .deleteMembership projectID tenantID _ _
  | .deleteMembershipAndTuples projectID tenantID _ _ _ | .getInvitation projectID tenantID _
  | .getInvitationByTokenHash projectID tenantID _ | .listInvitations projectID tenantID _
  | .getGroup projectID tenantID _ | .listGroups projectID tenantID _
  | .deleteGroup projectID tenantID _ | .getEnrollment projectID tenantID _ _
  | .listEnrollments projectID tenantID _ | .setSeatLimit projectID tenantID _ _
  | .getSeatUsage projectID tenantID _ | .revokeSeatAndTuple projectID tenantID _ _ _
  | .listSeats projectID tenantID _ => some (projectID, tenantID)
  | .createWorkspace w | .updateWorkspace w => some (w.projectID, w.tenantID)
  | .putMembership m | .putMembershipAndTuples m _ _ => some (m.projectID, m.tenantID)
  | .createInvitation inv | .updateInvitation inv => some (inv.projectID, inv.tenantID)
  | .createGroup g => some (g.projectID, g.tenantID)
  | .setEnrollmentAndTuples e _ _ => some (e.projectID, e.tenantID)
  | .assignSeatAndTuple a _ => some (a.projectID, a.tenantID)
  | .createProject _ | .getProject _ | .updateProject _ | .listProjects
  | .deleteAllSubjectTuplesInProject .. | .listSubjectTuplesInProject ..
  | .listTuplesForSubjectSetsInProject .. | .check .. | .ensureProjectActive _ | .ensureRegion _
  | .modelOrDefault _ | .now | .newID | .randToken => none

/-! ## Replies -/

section Replies

variable {s s' : Store} {sk : GoString}

theorem inner_of_shard (h : s.shard sk = s'.shard sk) :
    s.workspaces.inner sk = s'.workspaces.inner sk ∧
    s.memberships.inner sk = s'.memberships.inner sk ∧
    s.invitations.inner sk = s'.invitations.inner sk ∧
    s.groups.inner sk = s'.groups.inner sk ∧ s.enrollments.inner sk = s'.enrollments.inner sk ∧
    s.seatLimits.inner sk = s'.seatLimits.inner sk ∧
    s.seatAssigns.inner sk = s'.seatAssigns.inner sk ∧ s.tuples.inner sk = s'.tuples.inner sk ∧
    s.seqs.get sk = s'.seqs.get sk := by
  simp only [Store.shard, Shard.mk.injEq] at h
  simp [GoMap.inner, h]

theorem reply_of_quiet (env : Env) {c : Call} {projectID tenantID : GoString}
    (hc : c.shard? = some (projectID, tenantID)) (hquiet : c.Quiet)
    (h : s.shard (scope projectID tenantID) = s'.shard (scope projectID tenantID)) :
    (exec env c s).1 = (exec env c s').1 := by
  obtain ⟨hW, hM, hI, hG, hE, hL, hA, hT, hS⟩ := inner_of_shard h
  cases c with
  | consistencyToken => cases hc; simp only [exec, Store.consistencyToken, hS]
  | listSubjects => cases hc; simp only [exec, Store.listSubjects, hT]
  | listObjectIDs => cases hc; simp only [exec, Store.listObjectIDs, hT]
  | readTuples => cases hc; simp only [exec, Store.readTuples, hT]
  | getWorkspace => cases hc; simp only [exec, Store.getWorkspace, GoMap.get₂, hW]
  | personalWorkspace => cases hc; simp only [exec, Store.personalWorkspace, hW]
  | workspacesForUser =>
    cases hc
    simp only [exec, Store.workspacesForUser, GoMap.get₃, GoMap.get₂, hW, hM]
  | getMembership => cases hc; simp only [exec, Store.getMembership, Store.row, GoMap.get₃, hM]
  | listMembers => cases hc; simp only [exec, Store.listMembers, hM]
  | getInvitation => cases hc; simp only [exec, Store.getInvitation, GoMap.get₂, hI]
  | getInvitationByTokenHash => cases hc; simp only [exec, Store.getInvitationByTokenHash, hI]
  | listInvitations => cases hc; simp only [exec, Store.listInvitations, hI]
  | getGroup => cases hc; simp only [exec, Store.getGroup, GoMap.get₂, hG]
  | listGroups => cases hc; simp only [exec, Store.listGroups, hG]
  | getEnrollment =>
    cases hc
    simp only [exec, Store.getEnrollment, Store.enrollment, GoMap.get₃, hE]
  | listEnrollments => cases hc; simp only [exec, Store.listEnrollments, hE]
  | getSeatUsage =>
    cases hc
    simp only [exec, Store.getSeatUsage, Store.seatUsage, GoMap.get₂, hA, hL]
  | listSeats => cases hc; simp only [exec, Store.listSeats, hA]
  | _ => first | exact hquiet.elim | cases hc

end Replies

/-! ## Updates -/

section Updates

variable {sk : GoString} {u : Store → Store}

theorem updates_of (hprojects : ∀ s, (u s).projects = s.projects)
    (hframe : ∀ s sk', sk' ≠ sk → (u s).shard sk' = s.shard sk')
    (heffect : ∀ s s', s.shard sk = s'.shard sk → (u s).shard sk = (u s').shard sk) :
    Updates Store.region (some sk) u where
  frame s k hne := by
    cases k with
    | none => exact hprojects s
    | some sk' => exact hframe s sk' fun h => hne (congrArg some h)
  effect := heffect

theorem updates_writeTuples (projectID tenantID : GoString) (inserts deletes : List Tuple) :
    Updates Store.region (some (scope projectID tenantID))
      (Store.writeTuples · projectID tenantID inserts deletes) := by
  refine updates_of (fun _ => rfl) ?_ ?_
  · intro s sk' hne
    simp [Store.shard, Store.writeTuples, GoMap.get_insert, hne]
  · intro s s' h
    simp only [Store.shard, Shard.mk.injEq] at h
    simp [Store.shard, Store.writeTuples, GoMap.get_insert, GoMap.inner, h]

theorem updates_putWorkspace (w : Workspace) :
    Updates Store.region (some (scope w.projectID w.tenantID)) (Store.putWorkspace · w) := by
  refine updates_of (fun _ => rfl) ?_ ?_
  · intro s sk' hne
    simp [Store.shard, Store.putWorkspace, GoMap.put₂, GoMap.get_insert, hne]
  · intro s s' h
    simp only [Store.shard, Shard.mk.injEq] at h
    simp [Store.shard, Store.putWorkspace, GoMap.put₂, GoMap.get_insert, GoMap.inner, h]

theorem updates_putMembership (m : Membership) :
    Updates Store.region (some (scope m.projectID m.tenantID)) (Store.putMembership · m) := by
  refine updates_of (fun _ => rfl) ?_ ?_
  · intro s sk' hne
    simp [Store.shard, Store.putMembership, GoMap.put₃, GoMap.get_insert, hne]
  · intro s s' h
    simp only [Store.shard, Shard.mk.injEq] at h
    simp [Store.shard, Store.putMembership, GoMap.put₃, GoMap.get_insert, GoMap.inner, h]

theorem updates_putInvitation (inv : Invitation) :
    Updates Store.region (some (scope inv.projectID inv.tenantID)) (Store.putInvitation · inv) := by
  refine updates_of (fun _ => rfl) ?_ ?_
  · intro s sk' hne
    simp [Store.shard, Store.putInvitation, GoMap.put₂, GoMap.get_insert, hne]
  · intro s s' h
    simp only [Store.shard, Shard.mk.injEq] at h
    simp [Store.shard, Store.putInvitation, GoMap.put₂, GoMap.get_insert, GoMap.inner, h]

theorem updates_putGroup (g : Group) :
    Updates Store.region (some (scope g.projectID g.tenantID)) (Store.putGroup · g) := by
  refine updates_of (fun _ => rfl) ?_ ?_
  · intro s sk' hne
    simp [Store.shard, Store.putGroup, GoMap.put₂, GoMap.get_insert, hne]
  · intro s s' h
    simp only [Store.shard, Shard.mk.injEq] at h
    simp [Store.shard, Store.putGroup, GoMap.put₂, GoMap.get_insert, GoMap.inner, h]

theorem updates_setEnrollment (e : Enrollment) :
    Updates Store.region (some (scope e.projectID e.tenantID)) (Store.setEnrollment · e) := by
  refine updates_of (fun _ => rfl) ?_ ?_
  · intro s sk' hne
    simp [Store.shard, Store.setEnrollment, GoMap.put₃, GoMap.get_insert, hne]
  · intro s s' h
    simp only [Store.shard, Shard.mk.injEq] at h
    simp [Store.shard, Store.setEnrollment, GoMap.put₃, GoMap.get_insert, GoMap.inner, h]

theorem updates_assignSeat (a : SeatAssignment) :
    Updates Store.region (some (scope a.projectID a.tenantID)) (Store.assignSeat · a) := by
  refine updates_of (fun _ => rfl) ?_ ?_
  · intro s sk' hne
    simp [Store.shard, Store.assignSeat, GoMap.put₃, GoMap.get_insert, hne]
  · intro s s' h
    simp only [Store.shard, Shard.mk.injEq] at h
    simp [Store.shard, Store.assignSeat, GoMap.put₃, GoMap.get_insert, GoMap.inner, h]

theorem updates_revokeSeat (projectID tenantID sku userID : GoString) :
    Updates Store.region (some (scope projectID tenantID))
      (Store.revokeSeat · projectID tenantID sku userID) := by
  refine updates_of (fun _ => rfl) ?_ ?_
  · intro s sk' hne
    simp [Store.shard, Store.revokeSeat, GoMap.erase₃, GoMap.erase₂, GoMap.get_insert, hne]
  · intro s s' h
    simp only [Store.shard, Shard.mk.injEq] at h
    simp [Store.shard, Store.revokeSeat, GoMap.erase₃, GoMap.erase₂, GoMap.get_insert,
      GoMap.inner, h]

end Updates

/-! ## Calls -/

section Calls

variable {projectID tenantID : GoString}

theorem local_deleteWorkspace (id : GoString) :
    LocalAt Store.region (some (scope projectID tenantID))
      (Store.deleteWorkspace · projectID tenantID id) := by
  refine LocalAt.ite ?_ (.write _ .refl) (.write _ (updates_of (fun _ => rfl) ?_ ?_))
  · intro s s' h
    simp [GoMap.get₂, inner_of_shard h]
  · intro s sk' hne
    simp [Store.shard, Store.keepTuples, GoMap.erase₂, GoMap.get_insert, hne]
  · intro s s' h
    simp only [Store.shard, Shard.mk.injEq] at h
    simp [Store.shard, Store.keepTuples, GoMap.erase₂, GoMap.get_insert, GoMap.inner, h]

theorem local_deleteGroup (id : GoString) :
    LocalAt Store.region (some (scope projectID tenantID))
      (Store.deleteGroup · projectID tenantID id) := by
  refine LocalAt.ite ?_ (.write _ .refl) (.write _ (updates_of (fun _ => rfl) ?_ ?_))
  · intro s s' h
    simp [GoMap.get₂, inner_of_shard h]
  · intro s sk' hne
    simp [Store.shard, Store.keepTuples, GoMap.erase₂, GoMap.get_insert, hne]
  · intro s s' h
    simp only [Store.shard, Shard.mk.injEq] at h
    simp [Store.shard, Store.keepTuples, GoMap.erase₂, GoMap.get_insert, GoMap.inner, h]

theorem updates_eraseMembership (projectID tenantID ws user : GoString) :
    Updates Store.region (some (scope projectID tenantID)) fun s => { s with
      memberships := s.memberships.erase₃ (scope projectID tenantID) ws user
      memberships_keyed := GoMap.forall_erase₃ s.memberships_keyed } := by
  refine updates_of (fun _ => rfl) ?_ ?_
  · intro s sk' hne
    simp [Store.shard, GoMap.erase₃, GoMap.erase₂, GoMap.get_insert, hne]
  · intro s s' h
    simp only [Store.shard, Shard.mk.injEq] at h
    simp [Store.shard, GoMap.erase₃, GoMap.erase₂, GoMap.get_insert, GoMap.inner, h]

theorem dependsOn_row (projectID tenantID ws user : GoString) :
    DependsOn Store.region (some (scope projectID tenantID)) fun s =>
      (s.row projectID tenantID ws user).isNone = true := by
  intro s s' h
  simp [Store.row, GoMap.get₃, inner_of_shard h]

theorem local_deleteMembershipAndTuples (ws user : GoString) (deletes : List Tuple) :
    LocalAt Store.region (some (scope projectID tenantID))
      (Store.deleteMembershipAndTuples · projectID tenantID ws user deletes) := by
  have heq : (Store.deleteMembershipAndTuples · projectID tenantID ws user deletes) =
      fun s : Store => if (s.row projectID tenantID ws user).isNone then (.error errNotFound, s)
        else (.ok (), Store.writeTuples { s with
          memberships := s.memberships.erase₃ (scope projectID tenantID) ws user
          memberships_keyed := GoMap.forall_erase₃ s.memberships_keyed }
            projectID tenantID [] deletes) := by
    funext s
    rw [Store.deleteMembershipAndTuples, Store.deleteMembership]
    split_ifs <;> rfl
  rw [heq]
  exact .ite (dependsOn_row _ _ _ _) (.write _ .refl)
    (.write _ ((updates_writeTuples _ _ _ _).comp (updates_eraseMembership _ _ _ _)))

theorem local_assignSeatAndTuple (a : SeatAssignment) (tuple : Tuple) :
    LocalAt Store.region (some (scope a.projectID a.tenantID))
      (Store.assignSeatAndTuple · a tuple) := by
  have hseat : DependsOn Store.region (some (scope a.projectID a.tenantID)) fun s =>
      (s.seat a.projectID a.tenantID a.sku a.userID).isSome = true := by
    intro s s' h
    simp [Store.seat, GoMap.get₃, inner_of_shard h]
  have hlimit : DependsOn Store.region (some (scope a.projectID a.tenantID)) fun s =>
      ((s.seatUsage (scope a.projectID a.tenantID) a.sku).2.any fun limit =>
        ((s.seatUsage (scope a.projectID a.tenantID) a.sku).1 : ℤ) ≥ limit) = true := by
    intro s s' h
    simp [Store.seatUsage, GoMap.get₂, inner_of_shard h]
  exact .ite hseat (.write _ (updates_writeTuples _ _ _ _)) (.ite hlimit (.write _ .refl)
    (.write _ ((updates_writeTuples _ _ _ _).comp (updates_assignSeat a))))

theorem updates_setSeatLimit (sku : GoString) (limit : Option ℤ) :
    Updates Store.region (some (scope projectID tenantID))
      (Store.setSeatLimit · projectID tenantID sku limit) := by
  refine updates_of (fun s => by cases limit <;> rfl) ?_ ?_
  · intro s sk' hne
    cases limit <;>
      simp [Store.shard, Store.setSeatLimit, GoMap.erase₂, GoMap.put₂, GoMap.get_insert, hne]
  · intro s s' h
    simp only [Store.shard, Shard.mk.injEq] at h
    cases limit <;> simp [Store.shard, Store.setSeatLimit, GoMap.erase₂, GoMap.put₂,
      GoMap.get_insert, GoMap.inner, h]

/-- A call about one shard reads and writes that shard. -/
theorem local_exec (env : Env) {c : Call} (hc : c.shard? = some (projectID, tenantID)) :
    LocalAt Store.region (some (scope projectID tenantID)) (exec env c) := by
  have hquiet (h : c.Quiet) :
    LocalAt Store.region (some (scope projectID tenantID)) (exec env c) := by
    constructor
    · exact fun s s' => reply_of_quiet env hc h
    · rw [funext fun s => exec_of_quiet h env s]
      exact .refl
  cases c with
  | writeTuples => cases hc; exact .write _ (updates_writeTuples _ _ _ _)
  | createWorkspace w =>
    cases hc
    refine .ite ?_ (.write _ .refl) (.ite ?_ (.write _ .refl) (.write _ (updates_putWorkspace w)))
    · intro s s' h
      simp [GoMap.get₂, inner_of_shard h]
    · intro s s' h
      simp [inner_of_shard h]
  | updateWorkspace w =>
    cases hc
    refine .ite ?_ (.write _ .refl) (.write _ (updates_putWorkspace w))
    intro s s' h
    simp [GoMap.get₂, inner_of_shard h]
  | deleteWorkspace => cases hc; exact local_deleteWorkspace _
  | putMembership m => cases hc; exact .write _ (updates_putMembership m)
  | deleteMembership =>
    cases hc
    exact .ite (dependsOn_row _ _ _ _) (.write _ .refl) (.write _ (updates_eraseMembership _ _ _ _))
  | putMembershipAndTuples m =>
    cases hc
    exact .write _ ((updates_writeTuples _ _ _ _).comp (updates_putMembership m))
  | deleteMembershipAndTuples => cases hc; exact local_deleteMembershipAndTuples _ _ _
  | createInvitation inv | updateInvitation inv =>
    cases hc
    refine .ite ?_ (.write _ .refl) (.write _ (updates_putInvitation inv))
    intro s s' h
    simp [GoMap.get₂, inner_of_shard h]
  | createGroup g =>
    cases hc
    refine .ite ?_ (.write _ .refl) (.write _ (updates_putGroup g))
    intro s s' h
    simp [GoMap.get₂, inner_of_shard h]
  | deleteGroup => cases hc; exact local_deleteGroup _
  | setEnrollmentAndTuples e =>
    cases hc
    exact .write _ ((updates_writeTuples _ _ _ _).comp (updates_setEnrollment e))
  | setSeatLimit => cases hc; exact .write _ (updates_setSeatLimit _ _)
  | assignSeatAndTuple a tuple => cases hc; exact local_assignSeatAndTuple a tuple
  | revokeSeatAndTuple =>
    cases hc
    exact .write _ ((updates_writeTuples _ _ _ _).comp (updates_revokeSeat _ _ _ _))
  | createProject | updateProject | deleteAllSubjectTuplesInProject => cases hc
  | _ => exact hquiet trivial

theorem Store.eq_of_region {s s' : Store} (h : ∀ k, Store.region k s = Store.region k s') :
    s = s' := by
  have hprojects : s.projects = s'.projects := h none
  have hshard (sk : GoString) : s.shard sk = s'.shard sk := h (some sk)
  simp only [Store.shard, Shard.mk.injEq, forall_and] at hshard
  obtain ⟨hW, hM, hI, hG, hE, hL, hA, hT, hS⟩ := hshard
  cases s
  cases s'
  rw [Store.mk.injEq]
  exact ⟨hprojects, Finmap.ext_lookup hW, Finmap.ext_lookup hM, Finmap.ext_lookup hI,
    Finmap.ext_lookup hG, Finmap.ext_lookup hE, Finmap.ext_lookup hL, Finmap.ext_lookup hA,
    Finmap.ext_lookup hT, Finmap.ext_lookup hS⟩

/-- The call is about another shard, or about something else than a shard. -/
def Call.Elsewhere (projectID tenantID : GoString) (c : Call) : Prop :=
  c.shard? ≠ some (projectID, tenantID) ∧
    ∀ projectID' userID, c = .deleteAllSubjectTuplesInProject projectID' userID →
      projectID' ≠ projectID

theorem scope_ne {projectID' tenantID' : GoString} (hproject : 0 ∉ projectID)
    (htenant : 0 ∉ tenantID) (hne : (projectID', tenantID') ≠ (projectID, tenantID)) :
    scope projectID tenantID ≠ scope projectID' tenantID' := by
  intro h
  obtain ⟨rfl, -, rfl⟩ := (List.append_cons_inj_of_notMem hproject htenant).mp h
  exact hne rfl

theorem shard_deleteAllSubjectTuplesInProject {s : Store} {projectID' userID sk : GoString}
    (h : Store.inProject projectID' sk = false) :
    (s.deleteAllSubjectTuplesInProject projectID' userID).2.shard sk = s.shard sk := by
  simp [Store.shard, Store.deleteAllSubjectTuplesInProject, Store.withoutSubject,
    Store.withoutSeats, h]

theorem shard_exec_of_elsewhere (env : Env) {s : Store} {c : Call} (hproject : 0 ∉ projectID)
    (htenant : 0 ∉ tenantID) (hc : c.Elsewhere projectID tenantID) :
    (exec env c s).2.shard (scope projectID tenantID) = s.shard (scope projectID tenantID) := by
  cases hshard : c.shard? with
  | some ids =>
    obtain ⟨projectID', tenantID'⟩ := ids
    have hne : (projectID', tenantID') ≠ (projectID, tenantID) := fun h => hc.1 (h ▸ hshard)
    exact (local_exec env hshard).updates.frame s (some (scope projectID tenantID))
      fun h => scope_ne hproject htenant hne (Option.some.inj h)
  | none =>
    cases c with
    | createProject p =>
      rw [exec, Store.createProject]
      split_ifs <;> rfl
    | updateProject p =>
      rw [exec, Store.updateProject]
      split_ifs <;> rfl
    | deleteAllSubjectTuplesInProject projectID' userID =>
      apply shard_deleteAllSubjectTuplesInProject
      rw [Bool.eq_false_iff]
      exact fun h => hc.2 _ _ rfl ((Store.inProject_scope_iff hproject htenant).mp h).symm
    | _ => first | rfl | cases hshard

end Calls

/-! ## Runs -/

/-- The store after some calls, each in its own environment. -/
def Store.after (s : Store) (calls : List (Env × Call)) : Store :=
  calls.foldl (fun s x => (exec x.1 x.2 s).2) s

/-- The tuple store of an engine, with an order and a time for every read. -/
def Store.reader (s : Store) (order : SubjectSet → MapOrder) (now : SubjectSet → Time)
    (projectID tenantID : GoString) : Reader := fun n =>
  .ok (s.listSubjects (order n) (now n) projectID tenantID n)

def Store.lister (s : Store) (order : MapOrder) (now : Time) (projectID tenantID : GoString) :
    Lister := fun ns => .ok (s.listObjectIDs order now projectID tenantID ns)

section Runs

variable {projectID tenantID : GoString} {s s' : Store}

theorem shard_after (hproject : 0 ∉ projectID) (htenant : 0 ∉ tenantID)
    {calls : List (Env × Call)} (h : ∀ x ∈ calls, x.2.Elsewhere projectID tenantID) :
    (s.after calls).shard (scope projectID tenantID) = s.shard (scope projectID tenantID) := by
  induction calls generalizing s with
  | nil => rfl
  | cons x calls ih =>
    rw [Store.after, List.foldl_cons]
    exact (ih fun y hy => h y (List.mem_cons_of_mem x hy)).trans
      (shard_exec_of_elsewhere x.1 hproject htenant (h x List.mem_cons_self))

theorem reader_of_shard
    (h : s'.shard (scope projectID tenantID) = s.shard (scope projectID tenantID))
    (order : SubjectSet → MapOrder) (now : SubjectSet → Time) :
    s'.reader order now projectID tenantID = s.reader order now projectID tenantID := by
  funext n
  simp only [Store.reader, Store.listSubjects, inner_of_shard h]

theorem lister_of_shard
    (h : s'.shard (scope projectID tenantID) = s.shard (scope projectID tenantID))
    (order : MapOrder) (now : Time) :
    s'.lister order now projectID tenantID = s.lister order now projectID tenantID := by
  funext ns
  simp only [Store.lister, Store.listObjectIDs, inner_of_shard h]

end Runs

/-- Every decision in a shard is the same. -/
structure DecideAlike (projectID tenantID : GoString) (e e' : Engine) (lister lister' : Lister) :
    Prop where
  check : ∀ m n userID cc maxReads, e.checkWithModel m projectID tenantID n userID cc maxReads =
    e'.checkWithModel m projectID tenantID n userID cc maxReads
  checkSet : ∀ m n cc order set maxReads,
    e.checkSetWithModel m projectID tenantID n cc order set maxReads =
      e'.checkSetWithModel m projectID tenantID n cc order set maxReads
  expand : ∀ m n maxNodes maxReads, e.expandWithModel m projectID tenantID n maxNodes maxReads =
    e'.expandWithModel m projectID tenantID n maxNodes maxReads
  listObjects : ∀ m ns relation userID maxObjects maxReads,
    e.listObjectsWithModel m projectID tenantID ns relation userID lister maxObjects maxReads =
      e'.listObjectsWithModel m projectID tenantID ns relation userID lister' maxObjects maxReads

/-- Decisions depend on what is read in the shard. -/
theorem decideAlike_of_reader {projectID tenantID : GoString} {lister : Lister} (e : Engine)
    {reader reader' : GoString → GoString → Reader}
    (h : reader projectID tenantID = reader' projectID tenantID) :
    DecideAlike projectID tenantID { e with reader := reader } { e with reader := reader' }
      lister lister := by
  have hmembers (m n cc users) :
      { e with reader := reader }.checkMembers m projectID tenantID n cc users =
        { e with reader := reader' }.checkMembers m projectID tenantID n cc users := by
    induction users with
    | nil => rfl
    | cons u users ih => simp only [Engine.checkMembers, Engine.request, ih, h]
  have hobjects (m ns relation userID ids) :
      { e with reader := reader }.checkObjects m projectID tenantID ns relation userID ids =
        { e with reader := reader' }.checkObjects m projectID tenantID ns relation userID ids := by
    induction ids with
    | nil => rfl
    | cons id ids ih => simp only [Engine.checkObjects, Engine.request, ih, h]
  constructor
  · intro m n userID cc maxReads
    simp only [Engine.checkWithModel, Engine.checkWithKeys, Engine.request,
      Engine.effectiveMaxReads, h]
  · intro m n cc order set maxReads
    simp only [Engine.checkSetWithModel, Engine.checkSet, Engine.setRequest, hmembers, h]
    rfl
  · intro m n maxNodes maxReads
    simp only [Engine.expandWithModel, Engine.effectiveMaxReads, h]
  · intro m ns relation userID maxObjects maxReads
    simp only [Engine.listObjectsWithModel, hobjects]
    rfl

/-- Calls that are about other shards change no reply of a shard and no decision in it, and
calls about two shards can be exchanged. -/
theorem shards_do_not_interfere (projectID tenantID : GoString)
    (hproject : hasControlChar projectID = false) (htenant : hasControlChar tenantID = false) :
    (∀ (s : Store) (calls : List (Env × Call)),
      (∀ x ∈ calls, x.2.Elsewhere projectID tenantID) →
      (∀ env c, c.shard? = some (projectID, tenantID) →
        (exec env c (s.after calls)).1 = (exec env c s).1) ∧
      ∀ (e : Engine) (order : SubjectSet → MapOrder) (now : SubjectSet → Time)
        (listOrder : MapOrder) (listTime : Time),
        DecideAlike projectID tenantID { e with reader := (s.after calls).reader order now }
          { e with reader := s.reader order now }
          ((s.after calls).lister listOrder listTime projectID tenantID)
          (s.lister listOrder listTime projectID tenantID)) ∧
    ∀ (s : Store) (env env' : Env) (c c' : Call) (projectID' tenantID' : GoString),
      c.shard? = some (projectID, tenantID) → c'.shard? = some (projectID', tenantID') →
      (projectID', tenantID') ≠ (projectID, tenantID) →
      (exec env c (exec env' c' s).2).1 = (exec env c s).1 ∧
      (exec env' c' (exec env c s).2).1 = (exec env' c' s).1 ∧
      (exec env c (exec env' c' s).2).2 = (exec env' c' (exec env c s).2).2 := by
  have hproject := zero_notMem_of_hasControlChar hproject
  have htenant := zero_notMem_of_hasControlChar htenant
  constructor
  · intro s calls hcalls
    have hshard := shard_after (s := s) hproject htenant hcalls
    refine ⟨fun env c hc => (local_exec env hc).reply _ _ hshard, ?_⟩
    intro e order now listOrder listTime
    rw [lister_of_shard hshard]
    exact decideAlike_of_reader e (reader_of_shard hshard order now)
  · intro s env env' c c' projectID' tenantID' hc hc' hne
    have hscope : some (scope projectID tenantID) ≠ some (scope projectID' tenantID') :=
      fun h => scope_ne hproject htenant hne (Option.some.inj h)
    refine ⟨(local_exec env hc).reply_eq (local_exec env' hc') hscope s,
      (local_exec env' hc').reply_eq (local_exec env hc) hscope.symm s, ?_⟩
    exact Store.eq_of_region ((local_exec env hc).comm (local_exec env' hc') hscope s)

namespace Neighbours

def store : Store :=
  Store.empty.writeTuples "p" "a" [userTuple "document" "plan" "viewer" "ann"] []

/-- Tenants and projects whose ids begin like those of the shard. -/
def calls : List (Env × Call) :=
  [({}, .writeTuples "p" "ab" [userTuple "document" "plan" "viewer" "bob"] []),
    ({}, .deleteAllSubjectTuplesInProject "pa" "ann")]

theorem calls_elsewhere : ∀ x ∈ calls, x.2.Elsewhere "p" "a" := by
  rw [calls, List.forall_mem_cons, List.forall_mem_singleton]
  refine ⟨⟨by decide, nofun⟩, by decide, ?_⟩
  intro projectID userID h
  cases h
  decide

end Neighbours

open Neighbours in
theorem neighbours_do_not_interfere :
    (exec {} (.consistencyToken "p" "a") (store.after calls)).1 =
        (exec {} (.consistencyToken "p" "a") store).1 ∧
      (exec {} (.consistencyToken "p" "ab") (exec {} (.writeTuples "p" "a" [] []) store).2).1 =
        (exec {} (.consistencyToken "p" "ab") store).1 := by
  obtain ⟨hafter, hcomm⟩ := shards_do_not_interfere "p" "a" (by decide) (by decide)
  constructor
  · exact (hafter store calls calls_elsewhere).1 {} (.consistencyToken "p" "a") rfl
  · exact (hcomm store {} {} (.writeTuples "p" "a" [] []) (.consistencyToken "p" "ab") "p" "ab"
      rfl rfl (by decide)).2.1

end WorkspaceAuthz.Service
