import WorkspaceAuthz.Interleaving.Sequential
import WorkspaceAuthz.Service.Authorization
import WorkspaceAuthz.Service.Groups
import WorkspaceAuthz.Service.Invitations
import WorkspaceAuthz.Service.Seats

/-! # All requests

The operations of the service on workspaces, members, invitations, groups,
enrollments, seats and tuples. Of the calls that they make two things are said
here once for all: seat tuples are written along with their seats only, and, with
four exceptions, tuples are inserted only after the project was found active.
-/
namespace WorkspaceAuthz.Service
open Go Authz Interleaving

inductive Request where
  | ensurePersonalWorkspace
  | createWorkspace (displayName slug : GoString)
  | getWorkspace (id : GoString)
  | listWorkspaces
  | updateWorkspace (id displayName : GoString)
  | deleteWorkspace (id : GoString)
  | transferOwnership (workspaceID newOwnerID : GoString)
  | addMember (workspaceID userID role : GoString)
  | updateMemberRole (workspaceID userID role : GoString)
  | removeMember (workspaceID userID : GoString)
  | listMembers (workspaceID : GoString)
  | suspendMember (workspaceID userID : GoString)
  | reinstateMember (workspaceID userID : GoString)
  | createInvitation (workspaceID email role : GoString)
  | acceptInvitation (token : GoString)
  | listInvitations (workspaceID : GoString)
  | revokeInvitation (invitationID : GoString)
  | createGroup (displayName slug workspaceID : GoString)
  | getGroup (id : GoString)
  | listGroups (workspaceID : GoString)
  | deleteGroup (id : GoString)
  | addGroupMember (groupID : GoString) (member : GroupMember)
  | removeGroupMember (groupID : GoString) (member : GroupMember)
  | listGroupMembers (groupID : GoString)
  | setEnrollmentState (groupID : GoString) (member : GroupMember) (state : GoString)
  | listEnrollments (groupID : GoString)
  | setSeatLimit (sku : GoString) (limit : Option ℤ)
  | seatUsage (sku : GoString)
  | assignSeat (sku userID : GoString)
  | revokeSeat (sku userID : GoString)
  | listSeats (sku : GoString)
  | writeTuples (ops : List TupleOp)
  | deprovisionUser (userID : GoString)
  | exportSubjectGrants (userID : GoString)

def served {α : Type} (x : ServiceM α) : ServiceM Unit := do
  let _ ← x
  return ()

def Request.serve (hashToken : GoString → GoString) (p : Principal) : Request → ServiceM Unit
  | .ensurePersonalWorkspace => served (Service.ensurePersonalWorkspace p)
  | .createWorkspace displayName slug => served (Service.createWorkspace p displayName slug)
  | .getWorkspace id => served (Service.getWorkspace p id)
  | .listWorkspaces => served (Service.listWorkspaces p)
  | .updateWorkspace id displayName => served (Service.updateWorkspace p id displayName)
  | .deleteWorkspace id => Service.deleteWorkspace p id
  | .transferOwnership workspaceID newOwnerID =>
    served (Service.transferOwnership p workspaceID newOwnerID)
  | .addMember workspaceID userID role => served (Service.addMember p workspaceID userID role)
  | .updateMemberRole workspaceID userID role =>
    served (Service.updateMemberRole p workspaceID userID role)
  | .removeMember workspaceID userID => Service.removeMember p workspaceID userID
  | .listMembers workspaceID => served (Service.listMembers p workspaceID)
  | .suspendMember workspaceID userID => served (Service.suspendMember p workspaceID userID)
  | .reinstateMember workspaceID userID => served (Service.reinstateMember p workspaceID userID)
  | .createInvitation workspaceID email role =>
    served (Service.createInvitation p hashToken workspaceID email role)
  | .acceptInvitation token => served (Service.acceptInvitation p hashToken token)
  | .listInvitations workspaceID => served (Service.listInvitations p workspaceID)
  | .revokeInvitation invitationID => Service.revokeInvitation p invitationID
  | .createGroup displayName slug workspaceID =>
    served (Service.createGroup p displayName slug workspaceID)
  | .getGroup id => served (Service.getGroup p id)
  | .listGroups workspaceID => served (Service.listGroups p workspaceID)
  | .deleteGroup id => Service.deleteGroup p id
  | .addGroupMember groupID member => Service.addGroupMember p groupID member
  | .removeGroupMember groupID member => Service.removeGroupMember p groupID member
  | .listGroupMembers groupID => served (Service.listGroupMembers p groupID)
  | .setEnrollmentState groupID member state =>
    served (Service.setEnrollmentState p groupID member state)
  | .listEnrollments groupID => served (Service.listEnrollments p groupID)
  | .setSeatLimit sku limit => served (Service.setSeatLimit p sku limit)
  | .seatUsage sku => served (Service.seatUsage p sku)
  | .assignSeat sku userID => served (Service.assignSeat p sku userID)
  | .revokeSeat sku userID => Service.revokeSeat p sku userID
  | .listSeats sku => served (Service.listSeats p sku)
  | .writeTuples ops => served (Service.writeTuples p ops)
  | .deprovisionUser userID => served (Service.deprovisionUser p userID)
  | .exportSubjectGrants userID => served (Service.exportSubjectGrants p userID)

/-! ## Requests that run alone -/

section Alone

variable {ω α : Type} {run : ω → (c : Call) → Store → Reply c × Store} {p : Principal} {s : Store}
  {ws user : GoString}

theorem ensures_served {x : ServiceM α} {P : Store → Prop}
    (h : x.run.Ensures run (fun _ s' => P s') s) :
    (served x).run.Ensures run (fun _ s' => P s') s := by
  rw [served, ensures_sequence]
  refine h.mono fun r s' hs' => ?_
  cases r <;> exact hs'

theorem ensures_requireWorkspace {rel : Role} {f : Workspace → ServiceM α}
    {Q : Except ServiceError α → Store → Prop}
    (hget : ∀ env, run env (.getWorkspace p.projectID p.tenantID ws) s =
      (s.getWorkspace p.projectID p.tenantID ws, s))
    (hcheck : ∀ env, (run env (.check p ⟨"workspace", ws, rel.name⟩) s).2 = s)
    (hmissing : ∀ e, s.getWorkspace p.projectID p.tenantID ws = .error e → Q (.error e) s)
    (hdenied : ∀ env, (run env (.check p ⟨"workspace", ws, rel.name⟩) s).1 ≠ .ok true →
      ∀ e, Q (.error e) s)
    (hok : ∀ env w, s.getWorkspace p.projectID p.tenantID ws = .ok w →
      (run env (.check p ⟨"workspace", ws, rel.name⟩) s).1 = .ok true → (f w).run.Ensures run Q s) :
    (requireWorkspace p ws rel >>= f).run.Ensures run Q s := by
  rw [ensures_sequence]
  refine ensures_attempt_then (fun env e he => ?_) fun env w hw => ?_
  · rw [hget] at he ⊢
    exact hmissing e he
  rw [hget] at hw ⊢
  refine ensures_attempt_then (fun env e he => ?_) fun env ok hverdict => ?_
  · rw [hcheck]
    exact hdenied env (fun htrue => by cases he.symm.trans htrue) e
  rw [hcheck]
  cases ok with
  | false => exact hdenied env (fun htrue => by cases hverdict.symm.trans htrue) _
  | true => exact hok env w hw hverdict

theorem ensures_getMembership {f : Except ServiceError Membership → ServiceM α}
    {Q : Except ServiceError α → Store → Prop}
    (hget : ∀ env, run env (.getMembership p.projectID p.tenantID ws user) s =
      (s.getMembership p.projectID p.tenantID ws user, s))
    (hnone : s.row p.projectID p.tenantID ws user = none →
      (f (.error errNotFound)).run.Ensures run Q s)
    (hsome : ∀ m, s.row p.projectID p.tenantID ws user = some m → (f (.ok m)).run.Ensures run Q s) :
    (tryCall (.getMembership p.projectID p.tenantID ws user) >>= f).run.Ensures run Q s := by
  refine ensures_observe_then fun env => ?_
  rw [hget, Store.getMembership]
  cases hrow : s.row p.projectID p.tenantID ws user with
  | none => exact hnone hrow
  | some m => exact hsome m hrow

end Alone

def serving (hashToken : GoString → GoString) (x : Prog Call Reply (Except ServiceError Unit)) :
    Prop :=
  ∃ (p : Principal) (request : Request), x = (request.serve hashToken p).run

theorem sequence_serve {hashToken : GoString → GoString} {s s' : Store}
    (h : Sequence exec (serving hashToken) s s') (p : Principal) (request : Request) (env : Env) :
    Sequence exec (serving hashToken) s
      ((request.serve hashToken p).run.outcome exec env s').2 :=
  h.tail ⟨_, _, ⟨p, request, rfl⟩, runs_outcome env _ _⟩

/-- The requests that insert tuples without a look at the project. -/
def Request.unguarded : Request → Bool
  | .ensurePersonalWorkspace | .listWorkspaces | .updateMemberRole .. | .reinstateMember .. => true
  | _ => false

/-- The requests that leave workspaces, their members, their invitations and their tuples alone. -/
def Request.apart : Request → Bool
  | .ensurePersonalWorkspace | .createWorkspace .. | .listWorkspaces | .updateWorkspace ..
  | .deleteWorkspace _ | .transferOwnership .. | .addMember .. | .updateMemberRole ..
  | .removeMember .. | .suspendMember .. | .reinstateMember .. | .createInvitation ..
  | .acceptInvitation _ | .revokeInvitation _ | .deprovisionUser _ => false
  | .writeTuples ops => ops.all fun op => op.tuple.ns ≠ str "workspace"
  | _ => true

/-- The requests that neither write tuples on workspaces as they are given nor delete all those
of a user. -/
def Request.ordinary : Request → Bool
  | .deprovisionUser _ => false
  | .writeTuples ops => ops.all fun op => op.tuple.ns ≠ str "workspace"
  | _ => true

/-! ## What the calls of a request have in common -/

def Call.inserts : Call → Bool
  | .writeTuples _ _ inserts _ => !inserts.isEmpty
  | .putMembershipAndTuples _ inserts _ => !inserts.isEmpty
  | .setEnrollmentAndTuples _ inserts _ => !inserts.isEmpty
  | .assignSeatAndTuple .. => true
  | _ => false

/-- Seat tuples are written along with their seats only. A call apart from workspaces leaves
these alone, with their members, invitations and tuples. -/
def Call.Proper (apart : Bool) : Call → Prop
  | .writeTuples _ _ inserts deletes | .setEnrollmentAndTuples _ inserts deletes =>
    ∀ t ∈ inserts ++ deletes, t.ns ≠ seatNamespace ∧ (apart → t.ns ≠ str "workspace")
  | .putMembershipAndTuples _ inserts deletes =>
    apart = false ∧ ∀ t ∈ inserts ++ deletes, t.ns ≠ seatNamespace
  | .deleteMembershipAndTuples _ _ _ _ deletes => apart = false ∧ ∀ t ∈ deletes,
    t.ns ≠ seatNamespace
  | .assignSeatAndTuple a tuple => tuple = seatTuple a.sku a.userID
  | .revokeSeatAndTuple _ _ sku userID tuple => tuple = seatTuple sku userID
  | .createWorkspace _ | .updateWorkspace _ | .deleteWorkspace .. | .putMembership _
  | .deleteMembership .. | .createInvitation _ | .updateInvitation _
  | .deleteAllSubjectTuplesInProject .. => apart = false
  | _ => True

def guarded : CallTrace → Bool
  | [] => false
  | ⟨.ensureProjectActive _, r⟩ :: trace => r.isOk || guarded trace
  | _ :: trace => guarded trace

/-- Calls are proper; if the protocol is strict, tuples are inserted only into active projects. -/
def regular (apart strict : Bool) : Protocol Call Reply where
  issues trace c := c.Proper apart ∧ (strict → c.inserts → guarded trace)

/-- A program keeps to the protocol, where it is known if the project was found active. -/
def Regular {α : Type} (apart strict active : Bool) (x : ServiceM α) : Prop :=
  Conforms (regular apart strict) (fun t => active → guarded t) x

section Rules

variable {apart strict active : Bool} {α β : Type} {p : Principal}

theorem guarded_cons {c : Call} {r : Reply c} {trace : CallTrace} (h : guarded trace) :
    guarded (⟨c, r⟩ :: trace) := by
  cases c with
  | ensureProjectActive => exact Bool.or_eq_true_iff.mpr (.inr h)
  | _ => exact h

theorem Regular.call {c : Call} (hproper : c.Proper apart)
    (hinserts : strict → c.inserts → active) :
    Regular apart strict active (call c) :=
  Conforms.attempt (fun _ htrace => ⟨hproper, fun hstrict h => htrace (hinserts hstrict h)⟩)
    fun _ _ htrace hactive => guarded_cons (htrace hactive)

theorem Regular.pure {a : α} : Regular apart strict active (pure a) := Conforms.pure

theorem Regular.throw {e : ServiceError} : Regular apart strict active (throw e : ServiceM α) :=
  Conforms.throw

theorem Regular.bind {x : ServiceM α} {f : α → ServiceM β} (hx : Regular apart strict active x)
    (hf : ∀ a, Regular apart strict active (f a)) : Regular apart strict active (x >>= f) :=
  Conforms.bind hx hf

theorem Regular.tryCatch {x : ServiceM α} {handle : ServiceError → ServiceM α}
    (hx : Regular apart strict active x) (hhandle : ∀ e, Regular apart strict active (handle e)) :
    Regular apart strict active (tryCatch x handle) :=
  Conforms.tryCatch hx hhandle

theorem Regular.ensure {f : Unit → ServiceM β} (hf : ∀ u, Regular apart strict true (f u)) :
    Regular apart strict active (Service.call (.ensureProjectActive p) >>= f) := by
  intro trace htrace
  refine keeps_attempt_then ⟨trivial, fun _ => nofun⟩
    (fun e _ hactive => guarded_cons (htrace hactive)) fun u _ => ?_
  exact (hf u _ fun _ => rfl).mono fun _ _ ht _ => ht rfl

theorem Regular.ite {c : Prop} [Decidable c] {x y : ServiceM α} (hx : Regular apart strict active x)
    (hy : Regular apart strict active y) : Regular apart strict active (if c then x else y) :=
  Conforms.ite (fun _ => hx) fun _ => hy

theorem Regular.served {x : ServiceM α} (hx : Regular apart strict active x) :
    Regular apart strict active (served x) := hx.bind fun _ => .pure

theorem Regular.read {c : Call} {f : c.Value → ServiceM β} (hproper : c.Proper apart)
    (hreads : c.inserts = false) (hf : ∀ v, Regular apart strict active (f v)) :
    Regular apart strict active (Service.call c >>= f) :=
  (Regular.call hproper fun _ h => absurd (hreads.symm.trans h) (by simp)).bind hf

theorem Regular.look {c : Call} {f : Except ServiceError c.Value → ServiceM β}
    (hproper : c.Proper apart) (hreads : c.inserts = false)
    (hf : ∀ r, Regular apart strict active (f r)) :
    Regular apart strict active (tryCall c >>= f) :=
  Conforms.observe (fun _ _ => ⟨hproper, fun _ h => absurd (hreads.symm.trans h) (by simp)⟩)
    (fun _ _ htrace hactive => guarded_cons (htrace hactive)) fun r _ => hf r

theorem Regular.write {c : Call} {a : α} (hproper : c.Proper apart)
    (hinserts : strict → c.inserts → active) :
    Regular apart strict active (do
      let _ ← Service.call c
      return a) :=
  (Regular.call hproper hinserts).bind fun _ => .pure

end Rules

/-! ## The requests -/

section Requests

variable {apart strict active : Bool} {p : Principal} {hashToken : GoString → GoString}

theorem roleTuple_ns_ne {ws user : GoString} {role : Role} :
    (roleTuple ws user role).ns ≠ seatNamespace := by
  change str "workspace" ≠ str "seat"
  decide

theorem groupMemberTuple_ns_ne {groupID : GoString} {m : GroupMember} {t : Tuple}
    (h : groupMemberTuple groupID m = .ok t) :
    t.ns ≠ seatNamespace ∧ (apart → t.ns ≠ str "workspace") := by
  have hns : t.ns = str "group" := by
    unfold groupMemberTuple at h
    split_ifs at h <;> cases h <;> rfl
  rw [hns]
  exact ⟨by decide, fun _ => by decide⟩

theorem validateTuple_ns_ne {t : Tuple} (h : validateTuple t = .ok ()) : t.ns ≠ seatNamespace := by
  intro hns
  have hne : ¬ (t.ns = [] ∨ t.objectID = [] ∨ t.relation = []) := by
    intro hempty
    rw [validateTuple, if_pos hempty] at h
    cases h
  rw [validateTuple, if_neg hne, if_pos hns] at h
  cases h

theorem roleTuples_ns_ne {ws user : GoString} (ins del : List Role) :
    ∀ t ∈ ins.map (roleTuple ws user) ++ del.map (roleTuple ws user), t.ns ≠ seatNamespace := by
  intro t ht
  rw [← List.map_append] at ht
  obtain ⟨role, -, rfl⟩ := List.mem_map.mp ht
  exact roleTuple_ns_ne

theorem regular_requireWorkspace {ws : GoString} {role : Role} :
    Regular apart strict active (requireWorkspace p ws role) :=
  .read trivial rfl fun _ => .read trivial rfl fun _ => .ite .throw .pure

theorem regular_putMember {ws user : GoString} {role : Role} :
    Regular false strict active (putMember p ws user role) :=
  .ensure fun _ => .read trivial rfl fun _ =>
    .write ⟨rfl, roleTuples_ns_ne [role] []⟩ fun _ _ => rfl

theorem regular_addMember {ws user role : GoString} :
    Regular false strict active (addMember p ws user role) := by
  unfold addMember
  cases grantable? role with
  | none => exact .throw
  | some role =>
    refine .ite .throw (regular_requireWorkspace.bind fun w => .ite .throw ?_)
    refine .look trivial rfl fun r => ?_
    cases r with
    | ok _ => exact .throw
    | error e => exact .ite regular_putMember .throw

/-- Roles are changed without a look at the project. -/
theorem regular_updateMemberRole {ws user role : GoString} :
    Regular false false active (updateMemberRole p ws user role) := by
  unfold updateMemberRole
  cases grantable? role with
  | none => exact .throw
  | some role =>
    refine regular_requireWorkspace.bind fun w => .read trivial rfl fun m => ?_
    refine .ite .throw (.ite .throw (.ite .pure (.read trivial rfl fun now => ?_)))
    exact .write ⟨rfl, roleTuples_ns_ne [role] [m.role]⟩ nofun

theorem regular_removeMember {ws user : GoString} :
    Regular false strict active (removeMember p ws user) := by
  refine regular_requireWorkspace.bind fun w => .read trivial rfl fun m => .ite .throw ?_
  refine .call ⟨rfl, fun t ht => ?_⟩ fun _ => nofun
  rw [List.mem_singleton.mp ht]
  exact roleTuple_ns_ne

theorem regular_listMembers {ws : GoString} : Regular apart strict active (listMembers p ws) :=
  regular_requireWorkspace.bind fun _ => .call trivial fun _ => nofun

theorem regular_suspendMember {ws user : GoString} :
    Regular false strict active (suspendMember p ws user) := by
  refine regular_requireWorkspace.bind fun w => .read trivial rfl fun m => ?_
  refine .ite .throw (.ite .pure (.read trivial rfl fun now => ?_))
  exact .write ⟨rfl, roleTuples_ns_ne [] [m.role]⟩ fun _ => nofun

/-- So are members reinstated. -/
theorem regular_reinstateMember {ws user : GoString} :
    Regular false false active (reinstateMember p ws user) := by
  refine regular_requireWorkspace.bind fun w => .read trivial rfl fun m => ?_
  refine .ite .pure (.read trivial rfl fun now => ?_)
  exact .write ⟨rfl, roleTuples_ns_ne [m.role] []⟩ nofun

theorem regular_acceptInvitation {token : GoString} :
    Regular false strict active (acceptInvitation p hashToken token) := by
  have hmark : ∀ (inv : Invitation) (m : Membership), Regular false strict active (do
      call (.updateInvitation inv)
      return m) := fun inv m => .write rfl fun _ => nofun
  refine .ite .throw (.read trivial rfl fun inv => .ite .throw (.read trivial rfl fun now => ?_))
  refine .ite (.look rfl rfl fun _ => .throw) (.look trivial rfl fun r => ?_)
  cases r with
  | ok m => exact hmark _ m
  | error e => exact .ite .throw (regular_putMember.bind fun m => hmark _ m)

theorem regular_createInvitation {ws email role : GoString} :
    Regular false strict active (createInvitation p hashToken ws email role) := by
  unfold createInvitation
  refine .ensure fun _ => ?_
  cases grantable? role with
  | none => exact .throw
  | some role =>
    refine .ite .throw (regular_requireWorkspace.bind fun w => .ite .throw ?_)
    refine .read trivial rfl fun now => .read trivial rfl fun token =>
      .read trivial rfl fun id => ?_
    exact .write rfl fun _ => nofun

theorem regular_listInvitations {ws : GoString} :
    Regular apart strict active (listInvitations p ws) :=
  regular_requireWorkspace.bind fun _ => .call trivial fun _ => nofun

theorem regular_revokeInvitation {id : GoString} :
    Regular false strict active (revokeInvitation p id) :=
  .read trivial rfl fun _ => regular_requireWorkspace.bind fun _ =>
    .ite (.call rfl fun _ => nofun) .pure

/-! ### Workspaces -/

theorem regular_createWorkspaceWithOwner {w : Workspace} (h : strict → active) :
    Regular false strict active (createWorkspaceWithOwner w) :=
  .read rfl rfl fun _ => .call ⟨rfl, roleTuples_ns_ne [.owner] []⟩ fun hstrict _ => h hstrict

theorem regular_createWorkspace {displayName slug : GoString} :
    Regular false strict active (createWorkspace p displayName slug) := by
  refine .ensure fun _ => .ite .throw (.read trivial rfl fun now => .read trivial rfl fun id => ?_)
  exact (regular_createWorkspaceWithOwner fun _ => rfl).bind fun _ => .pure

/-- And personal workspaces created. -/
theorem regular_createPersonalWorkspace :
    Regular false false active (createPersonalWorkspace p) := by
  refine .read trivial rfl fun now => .read trivial rfl fun id => .tryCatch ?_ fun e => ?_
  · exact .bind (regular_createWorkspaceWithOwner nofun) fun _ => .pure
  · exact .ite (.call trivial nofun) .throw

theorem regular_ensurePersonalWorkspace :
    Regular false false active (ensurePersonalWorkspace p) := by
  refine .look trivial rfl fun r => ?_
  cases r with
  | ok w => exact .pure
  | error e => exact .ite regular_createPersonalWorkspace .throw

theorem regular_getWorkspace {id : GoString} : Regular apart strict active (getWorkspace p id) :=
  regular_requireWorkspace

theorem regular_listWorkspaces : Regular false false active (listWorkspaces p) :=
  regular_ensurePersonalWorkspace.bind fun _ => .call trivial nofun

theorem regular_updateWorkspace {id displayName : GoString} :
    Regular false strict active (updateWorkspace p id displayName) :=
  regular_requireWorkspace.bind fun _ => .ite .throw (.read trivial rfl fun _ =>
    .write rfl fun _ => nofun)

theorem regular_deleteWorkspace {id : GoString} :
    Regular false strict active (deleteWorkspace p id) :=
  regular_requireWorkspace.bind fun _ => .ite .throw (.call rfl fun _ => nofun)

theorem regular_promote {ws user : GoString} {now : Time} :
    Regular false strict true (promote p ws user now) := by
  refine .look trivial rfl fun r => ?_
  cases r with
  | ok existing => exact .call ⟨rfl, roleTuples_ns_ne [.owner] _⟩ fun _ _ => rfl
  | error e => exact .ite (.call ⟨rfl, roleTuples_ns_ne [.owner] []⟩ fun _ _ => rfl) .throw

theorem regular_demote {ws user : GoString} {now : Time} :
    Regular false strict true (demote p ws user now) := by
  refine .look trivial rfl fun r => ?_
  cases r with
  | ok old => exact .call ⟨rfl, roleTuples_ns_ne [.admin] [.owner]⟩ fun _ _ => rfl
  | error e =>
    refine .ite (.call (fun t ht => ⟨?_, nofun⟩) fun _ _ => rfl) .throw
    exact roleTuples_ns_ne [.admin] [.owner] t ht

theorem regular_transferOwnership {ws user : GoString} :
    Regular false strict active (transferOwnership p ws user) := by
  refine .ite .throw (regular_requireWorkspace.bind fun w => .ensure fun _ => .ite .throw ?_)
  refine .ite .pure (.read trivial rfl fun now => regular_promote.bind fun _ => ?_)
  exact .read rfl rfl fun _ => regular_demote.bind fun _ => .pure

/-! ### Groups and enrollments -/

theorem regular_createGroup {displayName slug ws : GoString} :
    Regular apart strict active (createGroup p displayName slug ws) := by
  have hcreate : ∀ slug, Regular apart strict true (do
      let now ← call .now
      let id ← call .newID
      let g : Group :=
        ⟨id, p.projectID, p.tenantID, ws, slug, trimSpace displayName, p.userID, now, now⟩
      call (.createGroup g)
      return g) := fun slug =>
    .read trivial rfl fun _ => .read trivial rfl fun _ => .write trivial fun _ => nofun
  refine .ensure fun _ => .ite .throw (.ite ?_ ?_)
  · exact regular_requireWorkspace.bind fun _ => hcreate _
  · exact hcreate _

theorem regular_getGroup {id : GoString} : Regular apart strict active (getGroup p id) :=
  .call trivial fun _ => nofun

theorem regular_listGroups {ws : GoString} : Regular apart strict active (listGroups p ws) :=
  .ite (regular_requireWorkspace.bind fun _ => .call trivial fun _ => nofun)
    (.call trivial fun _ => nofun)

theorem regular_requireGroupManager {g : Group} :
    Regular apart strict active (requireGroupManager p g) :=
  .ite .pure (.ite .throw (.read trivial rfl fun _ => .ite .throw .pure))

theorem regular_deleteGroup {id : GoString} : Regular apart strict active (deleteGroup p id) :=
  .read trivial rfl fun _ => regular_requireGroupManager.bind fun _ => .call trivial fun _ => nofun

theorem Regular.groupMember {β : Type} {groupID : GoString} {member : GroupMember}
    {f : Tuple → ServiceM β} (hf : ∀ t, t.ns ≠ seatNamespace ∧ (apart → t.ns ≠ str "workspace") →
      Regular apart strict active (f t)) :
    Regular apart strict active (Service.checked (groupMemberTuple groupID member) >>= f) := by
  cases h : groupMemberTuple groupID member with
  | ok t => exact hf t (groupMemberTuple_ns_ne h)
  | error e => exact .throw

theorem regular_addGroupMember {groupID : GoString} {member : GroupMember} :
    Regular apart strict active (addGroupMember p groupID member) := by
  refine .ensure fun _ => .read trivial rfl fun g => regular_requireGroupManager.bind fun _ => ?_
  refine .groupMember fun t ht => .look trivial rfl fun r => ?_
  have hproper : ∀ t' ∈ [t] ++ [], t'.ns ≠ seatNamespace ∧ (apart → t'.ns ≠ str "workspace") := by
    simpa using ht
  cases r with
  | ok enr => exact .read trivial rfl fun now => .call hproper fun _ _ => rfl
  | error e => exact .ite (.call hproper fun _ _ => rfl) .throw

theorem regular_removeGroupMember {groupID : GoString} {member : GroupMember} :
    Regular apart strict active (removeGroupMember p groupID member) := by
  refine .read trivial rfl fun g => regular_requireGroupManager.bind fun _ => ?_
  refine .groupMember fun t ht => .look trivial rfl fun r => ?_
  have hproper : ∀ t' ∈ [] ++ [t], t'.ns ≠ seatNamespace ∧ (apart → t'.ns ≠ str "workspace") := by
    simpa using ht
  cases r with
  | ok enr => exact .read trivial rfl fun now => .call hproper fun _ => nofun
  | error e => exact .ite (.call hproper fun _ => nofun) .throw

theorem regular_listGroupMembers {groupID : GoString} :
    Regular apart strict active (listGroupMembers p groupID) :=
  .read trivial rfl fun _ => .read trivial rfl fun _ => .pure

theorem regular_putEnrollment {e : Enrollment} {t : Tuple}
    (ht : t.ns ≠ seatNamespace ∧ (apart → t.ns ≠ str "workspace")) :
    Regular apart strict true (putEnrollment e t) := by
  have hproper : ∀ ins del, ins ++ del = [t] →
      Call.Proper apart (.setEnrollmentAndTuples e ins del) := by
    intro ins del h t' ht'
    rw [h] at ht'
    rwa [List.mem_singleton.mp ht']
  refine .ite ?_ ?_
  · exact .write (hproper [t] [] rfl) fun _ _ => rfl
  · exact .write (hproper [] [t] rfl) fun _ => nofun

theorem regular_setEnrollmentState {groupID state : GoString} {member : GroupMember} :
    Regular apart strict active (setEnrollmentState p groupID member state) := by
  unfold setEnrollmentState
  refine .ensure fun _ => ?_
  cases EnrollmentState.ofName? state with
  | none => exact .throw
  | some state =>
    refine .groupMember fun t ht => .read trivial rfl fun g => ?_
    refine regular_requireGroupManager.bind fun _ => .read trivial rfl fun now => ?_
    refine .look trivial rfl fun r => ?_
    cases r with
    | ok existing => exact regular_putEnrollment ht
    | error e => exact .ite (regular_putEnrollment ht) .throw

theorem regular_listEnrollments {groupID : GoString} :
    Regular apart strict active (listEnrollments p groupID) :=
  .read trivial rfl fun _ => regular_requireGroupManager.bind fun _ => .call trivial fun _ => nofun

/-! ### Seats and tuples -/

theorem regular_setSeatLimit {sku : GoString} {limit : Option ℤ} :
    Regular apart strict active (setSeatLimit p sku limit) :=
  .ite .throw (.ite .throw (.ensure fun _ => .write trivial fun _ => nofun))

theorem regular_seatUsage {sku : GoString} : Regular apart strict active (seatUsage p sku) :=
  .ite .throw (.call trivial fun _ => nofun)

theorem regular_assignSeat {sku user : GoString} :
    Regular apart strict active (assignSeat p sku user) :=
  .ite .throw (.ensure fun _ => .read trivial rfl fun _ => .call rfl fun _ _ => rfl)

theorem regular_revokeSeat {sku user : GoString} :
    Regular apart strict active (revokeSeat p sku user) :=
  .ite .throw (.ensure fun _ => .call rfl fun _ => nofun)

theorem regular_listSeats {sku : GoString} : Regular apart strict active (listSeats p sku) :=
  .ite .throw (.call trivial fun _ => nofun)

theorem forM_eq_ok {α : Type} {f : α → Except ServiceError Unit} {l : List α}
    (h : l.forM f = .ok ()) : ∀ a ∈ l, f a = .ok () := by
  induction l with
  | nil => exact nofun
  | cons a l ih =>
    cases ha : f a with
    | error e =>
      change (f a >>= fun _ => l.forM f) = .ok () at h
      rw [ha] at h
      cases h
    | ok u =>
      change (f a >>= fun _ => l.forM f) = .ok () at h
      rw [ha] at h
      intro b hb
      rcases List.mem_cons.mp hb with rfl | hb
      · exact ha
      · exact ih h b hb

theorem regular_writeTuples {ops : List TupleOp}
    (hops : apart → ∀ op ∈ ops, op.tuple.ns ≠ str "workspace") :
    Regular apart strict active (writeTuples p ops) := by
  unfold writeTuples
  cases h : ops.forM fun op => validateTuple op.tuple with
  | error e => exact .throw
  | ok u =>
    have hns : ∀ t ∈ (ops.filter fun op => !op.delete).map (·.tuple) ++
        (ops.filter (·.delete)).map (·.tuple), t.ns ≠ seatNamespace ∧
          (apart → t.ns ≠ str "workspace") := by
      intro t ht
      simp only [List.mem_append, List.mem_map, List.mem_filter] at ht
      obtain ⟨op, ⟨hop, -⟩, rfl⟩ | ⟨op, ⟨hop, -⟩, rfl⟩ := ht <;>
        exact ⟨validateTuple_ns_ne (forM_eq_ok h op hop), fun hapart => hops hapart op hop⟩
    have hwrite : Regular apart strict true (do
        call (.writeTuples p.projectID p.tenantID ((ops.filter fun op => !op.delete).map (·.tuple))
          ((ops.filter (·.delete)).map (·.tuple)))
        call (.consistencyToken p.projectID p.tenantID)) :=
      .bind (.call hns fun _ _ => rfl) fun _ => .call trivial fun _ => nofun
    refine .bind Conforms.settled fun _ => .ensure fun _ => .ite ?_ hwrite
    exact .read trivial rfl fun m => .bind Conforms.settled fun _ => hwrite

theorem regular_deprovisionUser {user : GoString} :
    Regular false strict active (deprovisionUser p user) :=
  .ite .throw (.read trivial rfl fun _ => .call rfl fun _ => nofun)

theorem regular_exportSubjectGrants {user : GoString} :
    Regular apart strict active (exportSubjectGrants p user) :=
  .ite .throw (.read trivial rfl fun _ => .read trivial rfl fun _ =>
    .ite .pure (.read trivial rfl fun _ => .pure))

theorem Request.regular (request : Request) (hunguarded : strict → request.unguarded = false)
    (hapart : apart → request.apart) : Regular apart strict false (request.serve hashToken p) := by
  have hloose : request.unguarded → strict = false := fun hrequest => by
    cases strict with
    | false => rfl
    | true => exact absurd (hunguarded rfl) (by simp [hrequest])
  have hworkspace : request.apart = false → apart = false := fun hrequest => by
    cases apart with
    | false => rfl
    | true => exact absurd (hapart rfl) (by simp [hrequest])
  cases request with
  | ensurePersonalWorkspace =>
    obtain rfl := hloose rfl
    obtain rfl := hworkspace rfl
    exact regular_ensurePersonalWorkspace.served
  | createWorkspace =>
    obtain rfl := hworkspace rfl
    exact regular_createWorkspace.served
  | getWorkspace => exact regular_getWorkspace.served
  | listWorkspaces =>
    obtain rfl := hloose rfl
    obtain rfl := hworkspace rfl
    exact regular_listWorkspaces.served
  | updateWorkspace =>
    obtain rfl := hworkspace rfl
    exact regular_updateWorkspace.served
  | deleteWorkspace =>
    obtain rfl := hworkspace rfl
    exact regular_deleteWorkspace
  | transferOwnership =>
    obtain rfl := hworkspace rfl
    exact regular_transferOwnership.served
  | addMember =>
    obtain rfl := hworkspace rfl
    exact regular_addMember.served
  | updateMemberRole =>
    obtain rfl := hloose rfl
    obtain rfl := hworkspace rfl
    exact regular_updateMemberRole.served
  | removeMember =>
    obtain rfl := hworkspace rfl
    exact regular_removeMember
  | listMembers => exact regular_listMembers.served
  | suspendMember =>
    obtain rfl := hworkspace rfl
    exact regular_suspendMember.served
  | reinstateMember =>
    obtain rfl := hloose rfl
    obtain rfl := hworkspace rfl
    exact regular_reinstateMember.served
  | createInvitation =>
    obtain rfl := hworkspace rfl
    exact regular_createInvitation.served
  | acceptInvitation =>
    obtain rfl := hworkspace rfl
    exact regular_acceptInvitation.served
  | listInvitations => exact regular_listInvitations.served
  | revokeInvitation =>
    obtain rfl := hworkspace rfl
    exact regular_revokeInvitation
  | createGroup => exact regular_createGroup.served
  | getGroup => exact regular_getGroup.served
  | listGroups => exact regular_listGroups.served
  | deleteGroup => exact regular_deleteGroup
  | addGroupMember => exact regular_addGroupMember
  | removeGroupMember => exact regular_removeGroupMember
  | listGroupMembers => exact regular_listGroupMembers.served
  | setEnrollmentState => exact regular_setEnrollmentState.served
  | listEnrollments => exact regular_listEnrollments.served
  | setSeatLimit => exact regular_setSeatLimit.served
  | seatUsage => exact regular_seatUsage.served
  | assignSeat => exact regular_assignSeat.served
  | revokeSeat => exact regular_revokeSeat
  | listSeats => exact regular_listSeats.served
  | writeTuples ops =>
    exact (regular_writeTuples fun h => by simpa [Request.apart] using hapart h).served
  | deprovisionUser =>
    obtain rfl := hworkspace rfl
    exact regular_deprovisionUser.served
  | exportSubjectGrants => exact regular_exportSubjectGrants.served

end Requests

end WorkspaceAuthz.Service
