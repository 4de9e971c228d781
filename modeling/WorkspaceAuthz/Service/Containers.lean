import WorkspaceAuthz.Service.Requests

/-! # Deleted groups and workspaces

A group is deleted in one call, with its tuples and its enrollments, and a workspace
with its tuples and its memberships. Those who write such tuples and rows have looked
for the group or the workspace in an earlier call. What they write is not left behind
as long as the group or workspace is still there when they do.
-/
namespace WorkspaceAuthz.Service
open Go Authz Interleaving

/-- What members are added to. -/
inductive Container where
  | group
  | workspace
deriving DecidableEq

namespace Container

def ns : Container → GoString
  | .group => "group"
  | .workspace => "workspace"

/-- The group or workspace is in the store. -/
def StoredIn (s : Store) (projectID tenantID id : GoString) : Container → Prop
  | .group => (s.groups.get₂ (scope projectID tenantID) id).isSome
  | .workspace => (s.workspaces.get₂ (scope projectID tenantID) id).isSome

instance (s : Store) (projectID tenantID id : GoString) :
    DecidablePred (StoredIn s projectID tenantID id) := fun kind => by
  induction kind using Container.casesOn <;> (dsimp only [StoredIn]; infer_instance)

/-- There are no enrollments in a group, no memberships in a workspace. -/
def NoRows (s : Store) (projectID tenantID id : GoString) : Container → Prop
  | .group => ∀ k, s.enrollments.get₃ (scope projectID tenantID) id k = none
  | .workspace => ∀ user, s.row projectID tenantID id user = none

/-- No tuple has the group or workspace as its object. -/
def NoTuples (s : Store) (projectID tenantID id : GoString) (kind : Container) : Prop :=
  ∀ k t, s.tuples.get₂ (scope projectID tenantID) k = some t → ¬ (t.ns = kind.ns ∧ t.objectID = id)

/-- The exchange in which a group or workspace was deleted. -/
def DeletedBy (projectID tenantID id : GoString) (kind : Container) : (Σ c, Reply c) → Prop
  | ⟨.deleteGroup projectID' tenantID' id', .ok _⟩ =>
    kind = .group ∧ projectID' = projectID ∧ tenantID' = tenantID ∧ id' = id
  | ⟨.deleteWorkspace projectID' tenantID' id', .ok _⟩ =>
    kind = .workspace ∧ projectID' = projectID ∧ tenantID' = tenantID ∧ id' = id
  | _ => False

end Container

/-- The requests that delete a group or a workspace, and those that let members in. -/
def Request.fillsOrDeletes : Request → Bool
  | .deleteGroup _ | .addGroupMember .. | .setEnrollmentState .. | .deleteWorkspace _
  | .addMember .. | .updateMemberRole .. | .reinstateMember .. | .acceptInvitation _ => true
  | _ => false

def Container.deleteRequest (id : GoString) : Container → Request
  | .group => .deleteGroup id
  | .workspace => .deleteWorkspace id

/-! ## What requests do -/

/-- Groups and workspaces are not created. -/
def containerProtocol : Protocol Call Reply where
  issues _
    | .writeTuples .. | .setEnrollmentAndTuples .. | .putMembershipAndTuples ..
    | .updateInvitation _ | .deleteGroup .. | .deleteWorkspace .. => True
    | c => c.Quiet

section Keeps

variable {p : Principal} {hashToken : GoString → GoString} {id : GoString} {α : Type}

abbrev KeepsContainers (x : ServiceM α) : Prop := Conforms containerProtocol (fun _ => True) x

theorem keeps_manager {g : Group} : KeepsContainers (requireGroupManager p g) :=
  conforms_requireGroupManager fun _ _ => trivial

theorem keeps_workspace {rel : Role} : KeepsContainers (requireWorkspace p id rel) :=
  conforms_requireWorkspace (fun _ => trivial) fun _ _ => trivial

theorem containers_addGroupMember {member : GroupMember} :
    KeepsContainers (addGroupMember p id member) := by
  refine .bind (.step fun _ => trivial) fun _ => .bind (.step fun _ => trivial) fun g => ?_
  refine keeps_manager.bind fun _ => .bind .settled fun t => .look (fun _ => trivial) fun r _ => ?_
  cases r with
  | ok enr => exact .bind (.step fun _ => trivial) fun now => .step fun _ => trivial
  | error e => exact .ite (fun _ => .step fun _ => trivial) fun _ => .throw

theorem containers_putEnrollment {e : Enrollment} {t : Tuple} :
    KeepsContainers (putEnrollment e t) :=
  .ite (fun _ => .bind (.step fun _ => trivial) fun _ => .pure)
    fun _ => .bind (.step fun _ => trivial) fun _ => .pure

theorem containers_setEnrollmentState {member : GroupMember} {state : GoString} :
    KeepsContainers (setEnrollmentState p id member state) := by
  refine .bind (.step fun _ => trivial) fun _ => ?_
  cases EnrollmentState.ofName? state with
  | none => exact .throw
  | some state =>
    refine .bind .settled fun t => .bind (.step fun _ => trivial) fun g => ?_
    refine keeps_manager.bind fun _ => .bind (.step fun _ => trivial) fun now => ?_
    refine .look (fun _ => trivial) fun r _ => ?_
    cases r with
    | ok existing => exact containers_putEnrollment
    | error e => exact .ite (fun _ => containers_putEnrollment) fun _ => .throw

theorem containers_putMember {user : GoString} {role : Role} :
    KeepsContainers (putMember p id user role) :=
  .bind (.step fun _ => trivial) fun _ => .bind (.step fun _ => trivial) fun _ =>
    .bind (.step fun _ => trivial) fun _ => .pure

theorem containers_addMember {user role : GoString} :
    KeepsContainers (addMember p id user role) := by
  unfold addMember
  cases grantable? role with
  | none => exact .throw
  | some role =>
    refine .ite (fun _ => .throw) fun _ => keeps_workspace.bind fun w => ?_
    refine .ite (fun _ => .throw) fun _ => .look (fun _ => trivial) fun r _ => ?_
    cases r with
    | ok _ => exact .throw
    | error e => exact .ite (fun _ => containers_putMember) fun _ => .throw

theorem containers_updateMemberRole {user role : GoString} :
    KeepsContainers (updateMemberRole p id user role) := by
  unfold updateMemberRole
  cases grantable? role with
  | none => exact .throw
  | some role =>
    refine keeps_workspace.bind fun w => .bind (.step fun _ => trivial) fun m => ?_
    refine .ite (fun _ => .throw) fun _ => .ite (fun _ => .throw) fun _ => ?_
    refine .ite (fun _ => .pure) fun _ => .bind (.step fun _ => trivial) fun now => ?_
    exact .bind (.step fun _ => trivial) fun _ => .pure

theorem containers_reinstateMember {user : GoString} :
    KeepsContainers (reinstateMember p id user) := by
  refine keeps_workspace.bind fun w => .bind (.step fun _ => trivial) fun m => ?_
  refine .ite (fun _ => .pure) fun _ => .bind (.step fun _ => trivial) fun now => ?_
  exact .bind (.step fun _ => trivial) fun _ => .pure

theorem containers_acceptInvitation {token : GoString} :
    KeepsContainers (acceptInvitation p hashToken token) := by
  have hmark : ∀ (inv : Invitation) (m : Membership), KeepsContainers (do
      call (.updateInvitation inv)
      return m) := fun inv m => .bind (.step fun _ => trivial) fun _ => .pure
  refine .ite (fun _ => .throw) fun _ => .bind (.step fun _ => trivial) fun inv => ?_
  refine .ite (fun _ => .throw) fun _ => .bind (.step fun _ => trivial) fun now => ?_
  refine .ite (fun _ => .look (fun _ => trivial) fun _ _ => .throw) fun _ => ?_
  refine .look (fun _ => trivial) fun r _ => ?_
  cases r with
  | ok m => exact hmark _ m
  | error e => exact .ite (fun _ => .throw) fun _ => containers_putMember.bind fun m => hmark _ m

theorem containers_delete {kind : Container} {trace : CallTrace} :
    ((kind.deleteRequest id).serve hashToken p).run.Keeps containerProtocol (fun t r =>
      r = .ok () → ∃ x ∈ t, kind.DeletedBy p.projectID p.tenantID id x) trace := by
  cases kind with
  | group =>
    refine keeps_attempt_then trivial (fun _ _ => nofun) fun g _ => ?_
    rw [keeps_sequence]
    refine (keeps_manager _ trivial).mono fun t r _ => ?_
    cases r with
    | error e => exact nofun
    | ok u =>
      refine ⟨trivial, fun r _ hr => ?_⟩
      cases hr
      exact ⟨_, .head _, rfl, rfl, rfl, rfl⟩
  | workspace =>
    change (deleteWorkspace p id).run.Keeps _ _ _
    rw [deleteWorkspace, keeps_sequence]
    refine (keeps_workspace _ trivial).mono fun t r _ => ?_
    cases r with
    | error e => exact nofun
    | ok w =>
      refine keeps_ite (fun _ => nofun) fun _ => ⟨trivial, fun r _ hr => ?_⟩
      cases hr
      exact ⟨_, .head _, rfl, rfl, rfl, rfl⟩

theorem Request.conforms (request : Request) (h : request.fillsOrDeletes) :
    KeepsContainers (request.serve hashToken p) := by
  cases request with
  | deleteGroup =>
    exact .bind (.step fun _ => trivial) fun _ => keeps_manager.bind fun _ => .step fun _ => trivial
  | deleteWorkspace =>
    exact keeps_workspace.bind fun _ => .ite (fun _ => .throw) fun _ => .step fun _ => trivial
  | addGroupMember => exact containers_addGroupMember
  | setEnrollmentState => exact containers_setEnrollmentState.bind fun _ => .pure
  | addMember => exact containers_addMember.bind fun _ => .pure
  | updateMemberRole => exact containers_updateMemberRole.bind fun _ => .pure
  | reinstateMember => exact containers_reinstateMember.bind fun _ => .pure
  | acceptInvitation => exact containers_acceptInvitation.bind fun _ => .pure
  | _ => cases h

end Keeps

/-! ## What a deletion leaves -/

section Gone

variable {projectID tenantID id : GoString} {kind : Container} {s : Store}

/-- The group or workspace is not stored, and nothing is left of it. -/
structure Container.Gone (s : Store) (projectID tenantID id : GoString) (kind : Container) :
    Prop where
  absent : ¬ kind.StoredIn s projectID tenantID id
  no_tuples : kind.NoTuples s projectID tenantID id
  no_rows : kind.NoRows s projectID tenantID id

/-- The call stores a tuple on the group or workspace, or a row of it. -/
def Call.Fills (kind : Container) (id : GoString) : Call → Prop
  | .writeTuples _ _ inserts _ => ∃ t ∈ inserts, t.ns = kind.ns ∧ t.objectID = id
  | .setEnrollmentAndTuples e inserts _ =>
    (kind = .group ∧ e.groupID = id) ∨ ∃ t ∈ inserts, t.ns = kind.ns ∧ t.objectID = id
  | .putMembership m => kind = .workspace ∧ m.workspaceID = id
  | .putMembershipAndTuples m inserts _ =>
    (kind = .workspace ∧ m.workspaceID = id) ∨ ∃ t ∈ inserts, t.ns = kind.ns ∧ t.objectID = id
  | _ => False

instance (kind : Container) (id : GoString) : DecidablePred (Call.Fills kind id) := fun c => by
  induction c using Call.casesOn <;> (dsimp only [Call.Fills]; infer_instance)

namespace Container.Gone

variable (h : kind.Gone s projectID tenantID id)
include h

theorem writeTuples {projectID' tenantID' : GoString} {inserts deletes : List Tuple}
    (hfills : ¬ ∃ t ∈ inserts, t.ns = kind.ns ∧ t.objectID = id) :
    kind.Gone (s.writeTuples projectID' tenantID' inserts deletes) projectID tenantID id where
  absent := by
    cases kind <;> exact h.absent
  no_tuples := by
    intro k t ht hobject
    rcases Store.mem_or_get_of_writeTuples ht with hmem | hget
    · exact hfills ⟨t, hmem, hobject⟩
    · exact h.no_tuples k t hget hobject
  no_rows := by
    cases kind <;> exact h.no_rows

theorem setEnrollmentAndTuples {e : Enrollment} {inserts deletes : List Tuple}
    (hfills : ¬ Call.Fills kind id (.setEnrollmentAndTuples e inserts deletes)) :
    kind.Gone (s.setEnrollmentAndTuples e inserts deletes) projectID tenantID id := by
  have hset : kind.Gone (s.setEnrollment e) projectID tenantID id := by
    refine ⟨?_, h.no_tuples, ?_⟩
    · cases kind <;> exact h.absent
    · cases kind with
      | workspace => exact h.no_rows
      | group =>
        intro k
        rw [Store.setEnrollment, GoMap.get₃_put₃,
          if_neg fun hkey => hfills (.inl ⟨rfl, hkey.2.1.symm⟩)]
        exact h.no_rows k
  exact hset.writeTuples fun htuple => hfills (.inr htuple)

theorem putMembershipAndTuples {m : Membership} {inserts deletes : List Tuple}
    (hfills : ¬ Call.Fills kind id (.putMembershipAndTuples m inserts deletes)) :
    kind.Gone (s.putMembershipAndTuples m inserts deletes) projectID tenantID id := by
  have hput : kind.Gone (s.putMembership m) projectID tenantID id := by
    refine ⟨?_, h.no_tuples, ?_⟩
    · cases kind <;> exact h.absent
    · cases kind with
      | group => exact h.no_rows
      | workspace =>
        intro user
        rw [Store.row, Store.putMembership, GoMap.get₃_put₃,
          if_neg fun hkey => hfills (.inl ⟨rfl, hkey.2.1.symm⟩)]
        exact h.no_rows user
  exact hput.writeTuples fun htuple => hfills (.inr htuple)

theorem of_keepTuples {projectID' tenantID' : GoString} {keep : Tuple → Bool} {s' : Store}
    (htuples : s'.tuples = (s.keepTuples projectID' tenantID' keep).tuples)
    (habsent : kind.StoredIn s' projectID tenantID id → kind.StoredIn s projectID tenantID id)
    (hrows : kind.NoRows s projectID tenantID id → kind.NoRows s' projectID tenantID id) :
    kind.Gone s' projectID tenantID id where
  absent := fun hstored => h.absent (habsent hstored)
  no_tuples := by
    intro k t ht
    rw [htuples, Store.get_tuples_keepTuples] at ht
    split_ifs at ht
    · exact h.no_tuples k t (Option.filter_eq_some_iff.mp ht).1
    · exact h.no_tuples k t ht
  no_rows := hrows h.no_rows

theorem deleteGroup {projectID' tenantID' id' : GoString} :
    kind.Gone (s.deleteGroup projectID' tenantID' id').2 projectID tenantID id := by
  cases hg : s.groups.get₂ (scope projectID' tenantID') id' with
  | none =>
    simp only [Store.deleteGroup, hg, Option.isNone_none, if_true]
    exact h
  | some g =>
    obtain ⟨s', heq, hgroups, henrollments, hworkspaces, hmemberships, htuples⟩ :=
      Store.deleteGroup_of_some hg
    rw [heq]
    cases kind with
    | group =>
      refine h.of_keepTuples htuples (fun hstored => ?_) fun hrows k => ?_
      · rw [StoredIn, hgroups, GoMap.get₂_erase₂] at hstored
        split_ifs at hstored
        · cases hstored
        · exact hstored
      · rw [henrollments, GoMap.get₃_erase₂, hrows k, ite_self]
    | workspace =>
      refine h.of_keepTuples htuples (fun hstored => ?_) fun hrows user => ?_
      · rwa [StoredIn, hworkspaces] at hstored
      · rw [Store.row, hmemberships]
        exact hrows user

theorem deleteWorkspace {projectID' tenantID' id' : GoString} :
    kind.Gone (s.deleteWorkspace projectID' tenantID' id').2 projectID tenantID id := by
  cases hw : s.workspaces.get₂ (scope projectID' tenantID') id' with
  | none =>
    simp only [Store.deleteWorkspace, hw, Option.isNone_none, if_true]
    exact h
  | some w =>
    obtain ⟨s', heq, hworkspaces, hmemberships, -, hgroups, henrollments, htuples⟩ :=
      Store.deleteWorkspace_of_some hw
    rw [heq]
    cases kind with
    | group =>
      refine h.of_keepTuples htuples (fun hstored => ?_) fun hrows k => ?_
      · rwa [StoredIn, hgroups] at hstored
      · rw [henrollments]
        exact hrows k
    | workspace =>
      refine h.of_keepTuples htuples (fun hstored => ?_) fun hrows user => ?_
      · rw [StoredIn, hworkspaces, GoMap.get₂_erase₂] at hstored
        split_ifs at hstored
        · cases hstored
        · exact hstored
      · have hnone := hrows user
        rw [Store.row] at hnone ⊢
        rw [hmemberships, GoMap.get₃_erase₂, hnone, ite_self]

end Container.Gone

theorem Container.noTuples_keepTuples {s' : Store}
    (htuples : s'.tuples = (s.keepTuples projectID tenantID fun t =>
      ¬ (t.ns = kind.ns ∧ t.objectID = id)).tuples) : kind.NoTuples s' projectID tenantID id := by
  intro k t ht
  rw [htuples, Store.get_tuples_keepTuples, if_pos rfl, Option.filter_eq_some_iff] at ht
  exact of_decide_eq_true ht.2

theorem Container.gone_deleteGroup {u : Unit} {s' : Store}
    (h : s.deleteGroup projectID tenantID id = (.ok u, s')) :
    group.Gone s' projectID tenantID id := by
  cases hg : s.groups.get₂ (scope projectID tenantID) id with
  | none =>
    simp only [Store.deleteGroup, hg, Option.isNone_none, if_true] at h
    cases h
  | some g =>
    obtain ⟨s'', heq, hgroups, henrollments, -, -, htuples⟩ := Store.deleteGroup_of_some hg
    cases heq.symm.trans h
    refine ⟨?_, noTuples_keepTuples htuples, fun k => ?_⟩
    · rw [StoredIn, hgroups, GoMap.get₂_erase₂, if_pos ⟨rfl, rfl⟩]
      exact Bool.false_ne_true
    · rw [henrollments, GoMap.get₃_erase₂, if_pos ⟨rfl, rfl⟩]

theorem Container.gone_deleteWorkspace {u : Unit} {s' : Store}
    (h : s.deleteWorkspace projectID tenantID id = (.ok u, s')) :
    workspace.Gone s' projectID tenantID id := by
  cases hw : s.workspaces.get₂ (scope projectID tenantID) id with
  | none =>
    simp only [Store.deleteWorkspace, hw, Option.isNone_none, if_true] at h
    cases h
  | some w =>
    obtain ⟨s'', heq, hworkspaces, hmemberships, -, -, -, htuples⟩ :=
      Store.deleteWorkspace_of_some hw
    cases heq.symm.trans h
    refine ⟨?_, noTuples_keepTuples htuples, fun user => ?_⟩
    · rw [StoredIn, hworkspaces, GoMap.get₂_erase₂, if_pos ⟨rfl, rfl⟩]
      exact Bool.false_ne_true
    · rw [Store.row, hmemberships, GoMap.get₃_erase₂, if_pos ⟨rfl, rfl⟩]

variable {others : List CallTrace} {trace : CallTrace}

/-- What is filled is still there. -/
def Present (projectID tenantID id : GoString) (s : Store) (_others : List CallTrace)
    (_trace : CallTrace) (c : Call) : Prop :=
  (c.Fills .group id → Container.group.StoredIn s projectID tenantID id) ∧
    (c.Fills .workspace id → Container.workspace.StoredIn s projectID tenantID id)

instance : DecidablePred (Present projectID tenantID id s others trace) := fun _ =>
  inferInstanceAs (Decidable (_ ∧ _))

theorem Present.not_fills {c : Call} (hguard : Present projectID tenantID id s others trace c)
    (h : kind.Gone s projectID tenantID id) : ¬ c.Fills kind id := fun hfills => by
  cases kind with
  | group => exact h.absent (hguard.1 hfills)
  | workspace => exact h.absent (hguard.2 hfills)

/-- What is gone stays gone as long as nothing is filled that is not there. -/
theorem Container.Gone.exec (env : Env) {c : Call} (h : kind.Gone s projectID tenantID id)
    (hissues : containerProtocol.issues trace c)
    (hguard : Present projectID tenantID id s others trace c) :
    kind.Gone (Service.exec env c s).2 projectID tenantID id := by
  have hfills := hguard.not_fills h
  cases c with
  | writeTuples => exact h.writeTuples hfills
  | setEnrollmentAndTuples => exact h.setEnrollmentAndTuples hfills
  | putMembershipAndTuples => exact h.putMembershipAndTuples hfills
  | deleteGroup => exact h.deleteGroup
  | deleteWorkspace => exact h.deleteWorkspace
  | updateInvitation inv =>
    simp only [Service.exec, Store.updateInvitation]
    split_ifs
    · exact h
    · cases kind <;> exact ⟨h.absent, h.no_tuples, h.no_rows⟩
  | _ =>
    rw [exec_of_quiet]
    exacts [h, hissues]

theorem Container.gone_of_deletedBy (env : Env) {c : Call}
    (h : kind.DeletedBy projectID tenantID id ⟨c, (exec env c s).1⟩) :
    kind.Gone (exec env c s).2 projectID tenantID id := by
  cases c with
  | deleteGroup projectID' tenantID' id' =>
    rw [Service.exec] at h ⊢
    rcases hdelete : s.deleteGroup projectID' tenantID' id' with ⟨e | u, s'⟩
    · rw [hdelete] at h
      cases h
    · rw [hdelete] at h
      obtain ⟨rfl, rfl, rfl, rfl⟩ := h
      exact gone_deleteGroup hdelete
  | deleteWorkspace projectID' tenantID' id' =>
    rw [Service.exec] at h ⊢
    rcases hdelete : s.deleteWorkspace projectID' tenantID' id' with ⟨e | u, s'⟩
    · rw [hdelete] at h
      cases h
    · rw [hdelete] at h
      obtain ⟨rfl, rfl, rfl, rfl⟩ := h
      exact gone_deleteWorkspace hdelete
  | _ => exact h.elim

end Gone

def containerRequests (hashToken : GoString → GoString) (projectID tenantID : GoString) (s : Store)
    (requests : List (GoString × Request)) :
    Config Store Call Reply (Except ServiceError Unit) :=
  .start s (requests.map fun q => (q.2.serve hashToken ⟨q.1, projectID, tenantID⟩).run)

/-- Nothing is left of a group or workspace that was deleted in the runs in which tuples on it
and rows of it are stored only while it is there. -/
theorem deleted_containers_are_gone (hashToken : GoString → GoString)
    (projectID tenantID id : GoString) (kind : Container) (s : Store)
    (requests : List (GoString × Request)) (hrequests : ∀ q ∈ requests, q.2.fillsOrDeletes)
    (c : Config Store Call Reply (Except ServiceError Unit))
    (h : Reaches exec (Present projectID tenantID id)
      (containerRequests hashToken projectID tenantID s requests) c) (n : ℕ) (user : GoString)
    (hn : requests[n]? = some (user, kind.deleteRequest id))
    (hdeleted : c.result? n = some (.ok ())) :
    kind.NoTuples c.state projectID tenantID id ∧ kind.NoRows c.state projectID tenantID id := by
  have hstart : (containerRequests hashToken projectID tenantID s requests).Upholds
      (fun _ => containerProtocol)
      (fun q t r => q.2 = kind.deleteRequest id → r = .ok () →
        ∃ x ∈ t, kind.DeletedBy projectID tenantID id x)
      (fun s ts => (∃ t ∈ ts, ∃ x ∈ t.2, kind.DeletedBy projectID tenantID id x) →
        kind.Gone s projectID tenantID id) requests := by
    refine Config.upholds_start (fun ts hts => ?_) fun q hq => ?_
    · rintro ⟨t, ht, x, hx, -⟩
      rw [hts t ht] at hx
      cases hx
    · by_cases hdelete : q.2 = kind.deleteRequest id
      · rw [hdelete]
        exact containers_delete.mono fun t r hr _ => hr
      · exact (q.2.conforms (hrequests q hq) [] trivial).mono fun t r _ heq => absurd heq hdelete
  have hend := h.upholds (fun env s before q trace after call hinv hissues hguard => by
    refine ⟨trivial, fun hexchange => ?_⟩
    rcases exists_exchange_iff.mp hexchange with hnow | hbefore
    · exact Container.gone_of_deletedBy env hnow
    · exact (hinv hbefore).exec env hissues hguard) hstart
  obtain ⟨t, ht, hQ⟩ := hend.of_result hn hdeleted
  have hgone := hend.inv ⟨_, ht, hQ rfl rfl⟩
  exact ⟨hgone.no_tuples, hgone.no_rows⟩

/-! ## Members who are added to what is being deleted -/

namespace Deletion

/-- Alice owns a workspace and has made a group with the same id. -/
def initial : Store :=
  let s := (Store.empty.createWorkspace ⟨"x", "p", "t", "acme", "Acme", .team, "alice", 0, 0⟩).2
  let s := s.putMembershipAndTuples ⟨"p", "t", "x", "alice", .owner, .active, 0, 0⟩
    [roleTuple "x" "alice" .owner] []
  (s.createGroup ⟨"x", "p", "t", [], "acme", "Acme", "alice", 0, 0⟩).2

def requests : List (GoString × Request) :=
  [("alice", .deleteGroup "x"), ("alice", .deleteWorkspace "x"),
    ("alice", .addGroupMember "x" { userID := "bob" }),
    ("alice", .setEnrollmentState "x" { userID := "carol" } "active"),
    ("alice", .addMember "x" "bob" "member")]

def start : Config Store Call Reply (Except ServiceError Unit) :=
  containerRequests id "p" "t" initial requests

/-- The members are written after the deletions. -/
def overlapping : List (ℕ × Env) :=
  steps 3 2 ++ steps 4 3 ++ steps 5 4 ++ steps 2 0 ++ steps 3 1 ++ steps 1 2 ++
    steps 1 3 ++ steps 1 4

def inTurn : List (ℕ × Env) :=
  steps 4 2 ++ steps 5 3 ++ steps 6 4 ++ steps 2 0 ++ steps 3 1

end Deletion

open Deletion in
/-- Both deletions succeed, and yet Bob is a member of the workspace and of the group, and
Carol is enrolled in it. -/
theorem deleted_containers_have_members :
    ∃ c, Reaches exec (fun _ _ _ _ => True) start c ∧ c.Finished ∧
      c.result? 0 = some (.ok ()) ∧ c.result? 1 = some (.ok ()) ∧
      ¬ Container.group.StoredIn c.state "p" "t" "x" ∧
      ¬ Container.workspace.StoredIn c.state "p" "t" "x" ∧
      (c.state.enrollment "p" "t" "x" { userID := "carol" }).isSome ∧
      (c.state.row "p" "t" "x" "bob").isSome ∧
      c.state.allows .ascending 0 ⟨"bob", "p", "t"⟩ ⟨"group", "x", "member"⟩ ∧
      c.state.allows .ascending 0 ⟨"bob", "p", "t"⟩ ⟨"workspace", "x", "member"⟩ :=
  ⟨start.run exec overlapping,
    reaches_run exec start overlapping (start.admitsAll_true exec overlapping), by decide +kernel,
    by decide +kernel, by decide +kernel, by decide +kernel, by decide +kernel, by decide +kernel,
    by decide +kernel, by decide +kernel, by decide +kernel⟩

open Deletion in
theorem deleted_containers_in_turn : (start.run exec inTurn).Finished ∧
    Container.group.NoTuples (start.run exec inTurn).state "p" "t" "x" ∧
    Container.workspace.NoRows (start.run exec inTurn).state "p" "t" "x" := by
  have hreach : Reaches exec (Present "p" "t" "x") start (start.run exec inTurn) :=
    reaches_run exec start inTurn (by decide +kernel)
  have hrequests : ∀ q ∈ requests, q.2.fillsOrDeletes := by decide
  refine ⟨by decide +kernel, ?_, ?_⟩
  · exact (deleted_containers_are_gone id "p" "t" "x" .group initial requests hrequests _ hreach 0
      "alice" rfl (by decide +kernel)).1
  · exact (deleted_containers_are_gone id "p" "t" "x" .workspace initial requests hrequests _ hreach
      1 "alice" rfl (by decide +kernel)).2

end WorkspaceAuthz.Service
