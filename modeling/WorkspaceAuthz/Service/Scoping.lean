import WorkspaceAuthz.Service.Isolation
import WorkspaceAuthz.Service.Requests
import WorkspaceAuthz.Service.Tokens

/-! # Requests stay in their shard

Whatever a request does for a principal, it makes calls about the shard of the principal,
or about the project as a whole. Rows that it writes back were read from the shard, and
bear its ids.
-/
namespace WorkspaceAuthz.Service
open Go Authz Interleaving

/-- The call is about a shard, or about all shards of its project. -/
def Call.Within (projectID tenantID : GoString) (c : Call) : Prop :=
  match c.shard? with
  | some (projectID', tenantID') => scope projectID' tenantID' = scope projectID tenantID
  | none => match c with
    | .deleteAllSubjectTuplesInProject projectID' _ | .listSubjectTuplesInProject projectID' _
    | .listTuplesForSubjectSetsInProject projectID' _ => projectID' = projectID
    | .check p _ | .ensureProjectActive p | .ensureRegion p | .modelOrDefault p =>
      p.projectID = projectID ∧ p.tenantID = tenantID
    | .now | .newID | .randToken => True
    | _ => False

/-- The row that is found bears the ids that it was looked up by. -/
def Call.Keyed : (c : Call) → Reply c → Prop
  | .getWorkspace projectID tenantID _, r | .personalWorkspace projectID tenantID _, r =>
    ∀ w, r = .ok w → scope w.projectID w.tenantID = scope projectID tenantID
  | .getMembership projectID tenantID _ _, r =>
    ∀ m, r = .ok m → scope m.projectID m.tenantID = scope projectID tenantID
  | .getInvitation projectID tenantID _, r | .getInvitationByTokenHash projectID tenantID _, r =>
    ∀ inv, r = .ok inv → scope inv.projectID inv.tenantID = scope projectID tenantID
  | .getEnrollment projectID tenantID _ _, r =>
    ∀ e, r = .ok e → scope e.projectID e.tenantID = scope projectID tenantID
  | _, _ => True

theorem keyed_exec (env : Env) (c : Call) (s : Store) : c.Keyed (exec env c s).1 := by
  cases c with
  | getWorkspace projectID tenantID id =>
    exact fun w hw => (s.workspaces_keyed _ _ w (found_eq_ok.mp hw)).1
  | personalWorkspace projectID tenantID userID =>
    intro w hw
    obtain ⟨id, hget⟩ := GoMap.mem_values.mp (List.mem_of_find?_eq_some (found_eq_ok.mp hw))
    exact (s.workspaces_keyed _ id w hget).1
  | getMembership projectID tenantID ws user =>
    exact fun m hm => (s.memberships_keyed _ _ _ m (found_eq_ok.mp hm)).1
  | getInvitation projectID tenantID id =>
    exact fun inv hinv => (s.invitations_keyed _ _ inv (found_eq_ok.mp hinv)).1
  | getInvitationByTokenHash projectID tenantID tokenHash =>
    intro inv hinv
    obtain ⟨id, hget⟩ := GoMap.mem_values.mp (List.mem_of_find?_eq_some (found_eq_ok.mp hinv))
    exact (s.invitations_keyed _ id inv hget).1
  | getEnrollment projectID tenantID group member =>
    exact fun e he => (s.enrollments_keyed _ _ _ e (found_eq_ok.mp he)).1
  | _ => trivial

def scopeProtocol (p : Principal) : Protocol Call Reply where
  issues _ c := c.Within p.projectID p.tenantID
  relies _ c r := c.Keyed r

/-- All calls are about the shard of the principal. -/
def Scoped {α : Type} (p : Principal) (x : ServiceM α) : Prop :=
  Conforms (scopeProtocol p) (fun _ => True) x

section Rules

variable {p : Principal} {α β : Type}

theorem Scoped.call {c : Call} (h : c.Within p.projectID p.tenantID) : Scoped p (call c) :=
  Conforms.step fun _ => h

theorem Scoped.pure {a : α} : Scoped p (pure a) := Conforms.pure

theorem Scoped.throw {e : ServiceError} : Scoped p (throw e : ServiceM α) := Conforms.throw

theorem Scoped.bind {x : ServiceM α} {f : α → ServiceM β} (hx : Scoped p x)
    (hf : ∀ a, Scoped p (f a)) : Scoped p (x >>= f) :=
  Conforms.bind hx hf

theorem Scoped.ite {c : Prop} [Decidable c] {x y : ServiceM α} (hx : Scoped p x)
    (hy : Scoped p y) : Scoped p (if c then x else y) :=
  Conforms.ite (fun _ => hx) fun _ => hy

theorem Scoped.tryCatch {x : ServiceM α} {handle : ServiceError → ServiceM α} (hx : Scoped p x)
    (hhandle : ∀ e, Scoped p (handle e)) : Scoped p (tryCatch x handle) :=
  Conforms.tryCatch hx hhandle

theorem Scoped.read {c : Call} {f : c.Value → ServiceM β} (h : c.Within p.projectID p.tenantID)
    (hf : ∀ v, c.Keyed (.ok v) → Scoped p (f v)) : Scoped p (Service.call c >>= f) :=
  fun _ _ => keeps_attempt_then h (fun _ _ => trivial) fun v hv => hf v hv _ trivial

theorem Scoped.look {c : Call} {f : Except ServiceError c.Value → ServiceM β}
    (h : c.Within p.projectID p.tenantID) (hf : ∀ r, c.Keyed r → Scoped p (f r)) :
    Scoped p (tryCall c >>= f) :=
  Conforms.look (fun _ => h) fun r ⟨_, hr⟩ => hf r hr

theorem Scoped.checked {r : Except ServiceError α} : Scoped p (checked r) := Conforms.settled

theorem Scoped.requireWorkspace {ws : GoString} {rel : Role} {f : Workspace → ServiceM β}
    (hf : ∀ w, scope w.projectID w.tenantID = scope p.projectID p.tenantID → Scoped p (f w)) :
    Scoped p (requireWorkspace p ws rel >>= f) := by
  intro trace _
  rw [keeps_sequence]
  refine keeps_attempt_then rfl (fun _ _ => trivial) fun w hw => ?_
  refine keeps_attempt_then ⟨rfl, rfl⟩ (fun _ _ => trivial) fun ok _ => ?_
  cases ok with
  | false => trivial
  | true => exact hf w (hw w rfl) _ trivial

theorem Scoped.required {ws : GoString} {rel : Role} :
    Scoped p (Service.requireWorkspace p ws rel) :=
  .read rfl fun _ _ => .read ⟨rfl, rfl⟩ fun _ _ => .ite .throw .pure

end Rules

/-! ## The requests -/

section Requests

variable {p : Principal} {hashToken : GoString → GoString}

theorem scoped_putMember {ws user : GoString} {role : Role} : Scoped p (putMember p ws user role) :=
  .read ⟨rfl, rfl⟩ fun _ _ => .read trivial fun _ _ => .read rfl fun _ _ => .pure

theorem scoped_addMember {ws user role : GoString} : Scoped p (addMember p ws user role) := by
  unfold addMember
  cases grantable? role with
  | none => exact .throw
  | some role =>
    refine .ite .throw (Scoped.required.bind fun w => .ite .throw (.look rfl fun r _ => ?_))
    cases r with
    | ok _ => exact .throw
    | error e => exact .ite scoped_putMember .throw

theorem scoped_updateMemberRole {ws user role : GoString} :
    Scoped p (updateMemberRole p ws user role) := by
  unfold updateMemberRole
  cases grantable? role with
  | none => exact .throw
  | some role =>
    refine Scoped.required.bind fun w => .read rfl fun m hm => ?_
    refine .ite .throw (.ite .throw (.ite .pure (.read trivial fun now _ => ?_)))
    exact .read (hm m rfl) fun _ _ => .pure

theorem scoped_removeMember {ws user : GoString} : Scoped p (removeMember p ws user) :=
  Scoped.required.bind fun _ => .read rfl fun _ _ => .ite .throw (.call rfl)

theorem scoped_listMembers {ws : GoString} : Scoped p (listMembers p ws) :=
  Scoped.required.bind fun _ => .call rfl

theorem scoped_suspendMember {ws user : GoString} : Scoped p (suspendMember p ws user) := by
  refine Scoped.required.bind fun w => .read rfl fun m hm => ?_
  refine .ite .throw (.ite .pure (.read trivial fun now _ => ?_))
  exact .read (hm m rfl) fun _ _ => .pure

theorem scoped_reinstateMember {ws user : GoString} : Scoped p (reinstateMember p ws user) := by
  refine Scoped.required.bind fun w => .read rfl fun m hm => .ite .pure ?_
  exact .read trivial fun now _ => .read (hm m rfl) fun _ _ => .pure

theorem scoped_acceptInvitation {token : GoString} :
    Scoped p (acceptInvitation p hashToken token) := by
  refine .ite .throw (.read rfl fun inv hinv => .ite .throw (.read trivial fun now _ => ?_))
  have hmark (m : Membership) : Scoped p (do
      call (.updateInvitation { inv with status := .accepted })
      return m) := .read (hinv inv rfl) fun _ _ => .pure
  refine .ite (.look (hinv inv rfl) fun _ _ => .throw) (.look rfl fun r _ => ?_)
  cases r with
  | ok m => exact hmark m
  | error e => exact .ite .throw (scoped_putMember.bind hmark)

theorem scoped_createInvitation {ws email role : GoString} :
    Scoped p (createInvitation p hashToken ws email role) := by
  unfold createInvitation
  refine .read ⟨rfl, rfl⟩ fun _ _ => ?_
  cases grantable? role with
  | none => exact .throw
  | some role =>
    refine .ite .throw (Scoped.required.bind fun w => .ite .throw ?_)
    refine .read trivial fun now _ => .read trivial fun token _ => .read trivial fun id _ => ?_
    exact .read rfl fun _ _ => .pure

theorem scoped_listInvitations {ws : GoString} : Scoped p (listInvitations p ws) :=
  Scoped.required.bind fun _ => .call rfl

theorem scoped_revokeInvitation {id : GoString} : Scoped p (revokeInvitation p id) :=
  .read rfl fun inv hinv => Scoped.required.bind fun _ => .ite (.call (hinv inv rfl)) .pure

/-! ### Workspaces -/

theorem scoped_createWorkspaceWithOwner {w : Workspace}
    (h : scope w.projectID w.tenantID = scope p.projectID p.tenantID) :
    Scoped p (createWorkspaceWithOwner w) :=
  .read h fun _ _ => .call h

theorem scoped_createWorkspace {displayName slug : GoString} :
    Scoped p (createWorkspace p displayName slug) := by
  refine .read ⟨rfl, rfl⟩ fun _ _ => .ite .throw (.read trivial fun now _ => ?_)
  refine .read trivial fun id _ => ?_
  exact (scoped_createWorkspaceWithOwner rfl).bind fun _ => .pure

theorem scoped_ensurePersonalWorkspace : Scoped p (ensurePersonalWorkspace p) := by
  refine .look rfl fun r _ => ?_
  cases r with
  | ok w => exact .pure
  | error e =>
    refine .ite (.read trivial fun now _ => .read trivial fun id _ => ?_) .throw
    refine .tryCatch ?_ fun e => ?_
    · exact (scoped_createWorkspaceWithOwner rfl).bind fun _ => .pure
    · exact .ite (.call rfl) .throw

theorem scoped_getWorkspace {id : GoString} : Scoped p (getWorkspace p id) := Scoped.required

theorem scoped_listWorkspaces : Scoped p (listWorkspaces p) :=
  scoped_ensurePersonalWorkspace.bind fun _ => .call rfl

theorem scoped_updateWorkspace {id displayName : GoString} :
    Scoped p (updateWorkspace p id displayName) :=
  Scoped.requireWorkspace fun _ hw => .ite .throw (.read trivial fun _ _ =>
    .read hw fun _ _ => .pure)

theorem scoped_deleteWorkspace {id : GoString} : Scoped p (deleteWorkspace p id) :=
  Scoped.required.bind fun _ => .ite .throw (.call rfl)

theorem scoped_promote {ws user : GoString} {now : Time} : Scoped p (promote p ws user now) := by
  refine .look rfl fun r _ => ?_
  cases r with
  | ok existing => exact .call rfl
  | error e => exact .ite (.call rfl) .throw

theorem scoped_demote {ws user : GoString} {now : Time} : Scoped p (demote p ws user now) := by
  refine .look rfl fun r hr => ?_
  cases r with
  | ok old => exact .call (hr old rfl)
  | error e => exact .ite (.call rfl) .throw

theorem scoped_transferOwnership {ws user : GoString} :
    Scoped p (transferOwnership p ws user) := by
  refine .ite .throw (.requireWorkspace fun w hw => .read ⟨rfl, rfl⟩ fun _ _ => .ite .throw ?_)
  refine .ite .pure (.read trivial fun now _ => scoped_promote.bind fun _ => ?_)
  exact .read hw fun _ _ => scoped_demote.bind fun _ => .pure

/-! ### Groups and enrollments -/

theorem scoped_createGroup {displayName slug ws : GoString} :
    Scoped p (createGroup p displayName slug ws) := by
  have hcreate (slug : GoString) : Scoped p (do
      let now ← call .now
      let id ← call .newID
      let g : Group :=
        ⟨id, p.projectID, p.tenantID, ws, slug, trimSpace displayName, p.userID, now, now⟩
      call (.createGroup g)
      return g) :=
    .read trivial fun _ _ => .read trivial fun _ _ => .read rfl fun _ _ => .pure
  refine .read ⟨rfl, rfl⟩ fun _ _ => .ite .throw (.ite ?_ (hcreate _))
  exact Scoped.required.bind fun _ => hcreate _

theorem scoped_getGroup {id : GoString} : Scoped p (getGroup p id) := .call rfl

theorem scoped_listGroups {ws : GoString} : Scoped p (listGroups p ws) :=
  .ite (Scoped.required.bind fun _ => .call rfl) (.call rfl)

theorem scoped_requireGroupManager {g : Group} : Scoped p (requireGroupManager p g) :=
  .ite .pure (.ite .throw (.read ⟨rfl, rfl⟩ fun _ _ => .ite .throw .pure))

theorem scoped_deleteGroup {id : GoString} : Scoped p (deleteGroup p id) :=
  .read rfl fun _ _ => scoped_requireGroupManager.bind fun _ => .call rfl

theorem scoped_addGroupMember {groupID : GoString} {member : GroupMember} :
    Scoped p (addGroupMember p groupID member) := by
  refine .read ⟨rfl, rfl⟩ fun _ _ => .read rfl fun g _ => ?_
  refine scoped_requireGroupManager.bind fun _ => Scoped.checked.bind fun t => ?_
  refine .look rfl fun r hr => ?_
  cases r with
  | ok enr => exact .read trivial fun now _ => .call (hr enr rfl)
  | error e => exact .ite (.call rfl) .throw

theorem scoped_removeGroupMember {groupID : GoString} {member : GroupMember} :
    Scoped p (removeGroupMember p groupID member) := by
  refine .read rfl fun g _ => scoped_requireGroupManager.bind fun _ => ?_
  refine Scoped.checked.bind fun t => .look rfl fun r hr => ?_
  cases r with
  | ok enr => exact .read trivial fun now _ => .call (hr enr rfl)
  | error e => exact .ite (.call rfl) .throw

theorem scoped_listGroupMembers {groupID : GoString} : Scoped p (listGroupMembers p groupID) :=
  .read rfl fun _ _ => .read rfl fun _ _ => .pure

theorem scoped_setEnrollmentState {groupID state : GoString} {member : GroupMember} :
    Scoped p (setEnrollmentState p groupID member state) := by
  have hput (e : Enrollment) (t : Tuple)
      (he : scope e.projectID e.tenantID = scope p.projectID p.tenantID) :
      Scoped p (putEnrollment e t) :=
    .ite (.read he fun _ _ => .pure) (.read he fun _ _ => .pure)
  unfold setEnrollmentState
  refine .read ⟨rfl, rfl⟩ fun _ _ => ?_
  cases EnrollmentState.ofName? state with
  | none => exact .throw
  | some state =>
    refine Scoped.checked.bind fun t => .read rfl fun g _ => ?_
    refine scoped_requireGroupManager.bind fun _ => .read trivial fun now _ => ?_
    refine .look rfl fun r _ => ?_
    cases r with
    | ok existing => exact hput _ t rfl
    | error e => exact .ite (hput _ t rfl) .throw

theorem scoped_listEnrollments {groupID : GoString} : Scoped p (listEnrollments p groupID) :=
  .read rfl fun _ _ => scoped_requireGroupManager.bind fun _ => .call rfl

/-! ### Seats and tuples -/

theorem scoped_setSeatLimit {sku : GoString} {limit : Option ℤ} :
    Scoped p (setSeatLimit p sku limit) :=
  .ite .throw (.ite .throw (.read ⟨rfl, rfl⟩ fun _ _ => .read rfl fun _ _ => .pure))

theorem scoped_seatUsage {sku : GoString} : Scoped p (seatUsage p sku) := .ite .throw (.call rfl)

theorem scoped_assignSeat {sku user : GoString} : Scoped p (assignSeat p sku user) :=
  .ite .throw (.read ⟨rfl, rfl⟩ fun _ _ => .read trivial fun _ _ => .call rfl)

theorem scoped_revokeSeat {sku user : GoString} : Scoped p (revokeSeat p sku user) :=
  .ite .throw (.read ⟨rfl, rfl⟩ fun _ _ => .call rfl)

theorem scoped_listSeats {sku : GoString} : Scoped p (listSeats p sku) := .ite .throw (.call rfl)

theorem scoped_writeTuples {ops : List TupleOp} : Scoped p (writeTuples p ops) := by
  have hwrite (inserts deletes : List Tuple) : Scoped p (do
      call (.writeTuples p.projectID p.tenantID inserts deletes)
      call (.consistencyToken p.projectID p.tenantID)) := .read rfl fun _ _ => .call rfl
  refine Scoped.checked.bind fun _ => .read ⟨rfl, rfl⟩ fun _ _ => .ite ?_ (hwrite _ _)
  exact .read ⟨rfl, rfl⟩ fun m _ => Scoped.checked.bind fun _ => hwrite _ _

theorem scoped_deprovisionUser {user : GoString} : Scoped p (deprovisionUser p user) :=
  .ite .throw (.read ⟨rfl, rfl⟩ fun _ _ => .call rfl)

theorem scoped_exportSubjectGrants {user : GoString} : Scoped p (exportSubjectGrants p user) :=
  .ite .throw (.read ⟨rfl, rfl⟩ fun _ _ => .read rfl fun _ _ =>
    .ite .pure (.read rfl fun _ _ => .pure))

theorem scoped_ensureConsistency (codec : TokenCodec) {token : GoString} :
    Scoped p (ensureConsistency codec p token) :=
  .ite .pure (Scoped.checked.bind fun _ => .ite .throw (.read rfl fun _ _ => .ite .throw .pure))

end Requests

end WorkspaceAuthz.Service
