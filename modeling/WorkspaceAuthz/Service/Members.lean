import WorkspaceAuthz.Service.Repository

/-! # Memberships

The requests that change a membership. Each reads the row in one call and writes
the row together with its role tuple in a later one; the tuple that goes is the
one of the role that was read.
-/
namespace WorkspaceAuthz.Service
open Go Authz Interleaving

def grantable? (role : GoString) : Option Role := (Role.ofName? role).filter (· ≠ .owner)

def errNotGrantable : ServiceError :=
  ⟨.invalidArgument, "role must be admin, member, or guest", []⟩

section Requests

variable (p : Principal)

/-- Write the row and the role tuple of a new member. -/
def putMember (workspaceID userID : GoString) (role : Role) : ServiceM Membership := do
  call (.ensureProjectActive p)
  let now ← call .now
  let m : Membership :=
    ⟨p.projectID, p.tenantID, workspaceID, userID, role, .active, now, now⟩
  call (.putMembershipAndTuples m [roleTuple workspaceID userID role] [])
  return m

def addMember (workspaceID userID role : GoString) : ServiceM Membership := do
  let some role := grantable? role | throw errNotGrantable
  if userID = [] then throw ⟨.invalidArgument, "user_id is required", []⟩
  let w ← requireWorkspace p workspaceID .admin
  if w.type = .personal then
    throw ⟨.failedPrecondition, "personal workspaces admit only their owner", []⟩
  match ← tryCall (.getMembership p.projectID p.tenantID workspaceID userID) with
  | .ok _ => throw ⟨.alreadyExists, "user is already a member", []⟩
  | .error e => if isNotFound e then putMember p workspaceID userID role else throw e

def updateMemberRole (workspaceID userID role : GoString) : ServiceM Membership := do
  let some role := grantable? role | throw errNotGrantable
  let _ ← requireWorkspace p workspaceID .admin
  let m ← call (.getMembership p.projectID p.tenantID workspaceID userID)
  if m.role = .owner then
    throw ⟨.failedPrecondition, "the owner's role cannot be changed", []⟩
  if m.status = .suspended then
    throw ⟨.failedPrecondition, "member is suspended; reinstate before changing their role", []⟩
  if m.role = role then return m
  let now ← call .now
  let m' := { m with role, updatedAt := now }
  call (.putMembershipAndTuples m' [roleTuple workspaceID userID role]
    [roleTuple workspaceID userID m.role])
  return m'

def removeMember (workspaceID userID : GoString) : ServiceM Unit := do
  let _ ← requireWorkspace p workspaceID .admin
  let m ← call (.getMembership p.projectID p.tenantID workspaceID userID)
  if m.role = .owner then throw ⟨.failedPrecondition, "the owner cannot be removed", []⟩
  call (.deleteMembershipAndTuples p.projectID p.tenantID workspaceID userID
    [roleTuple workspaceID userID m.role])

def listMembers (workspaceID : GoString) : ServiceM (List Membership) := do
  let _ ← requireWorkspace p workspaceID .guest
  call (.listMembers p.projectID p.tenantID workspaceID)

def suspendMember (workspaceID userID : GoString) : ServiceM Membership := do
  let _ ← requireWorkspace p workspaceID .admin
  let m ← call (.getMembership p.projectID p.tenantID workspaceID userID)
  if m.role = .owner then throw ⟨.failedPrecondition, "the owner cannot be suspended", []⟩
  if m.status = .suspended then return m
  let now ← call .now
  let m' := { m with status := .suspended, updatedAt := now }
  call (.putMembershipAndTuples m' [] [roleTuple workspaceID userID m.role])
  return m'

def reinstateMember (workspaceID userID : GoString) : ServiceM Membership := do
  let _ ← requireWorkspace p workspaceID .admin
  let m ← call (.getMembership p.projectID p.tenantID workspaceID userID)
  if m.status ≠ .suspended then return m
  let now ← call .now
  let m' := { m with status := .active, updatedAt := now }
  call (.putMembershipAndTuples m' [roleTuple workspaceID userID m.role] [])
  return m'

/-- The store keeps the hash of an invitation's token only. -/
def acceptInvitation (hashToken : GoString → GoString) (token : GoString) :
    ServiceM Membership := do
  if token = [] then throw ⟨.invalidArgument, "token is required", []⟩
  let inv ← call (.getInvitationByTokenHash p.projectID p.tenantID (hashToken token))
  if inv.status ≠ .pending then
    throw ⟨.failedPrecondition, "invitation is %s", [inv.status.name]⟩
  let now ← call .now
  if now.after inv.expiresAt then
    let _ ← tryCall (.updateInvitation { inv with status := .expired })
    throw ⟨.failedPrecondition, "invitation has expired", []⟩
  match ← tryCall (.getMembership p.projectID p.tenantID inv.workspaceID p.userID) with
  | .ok m =>
    -- A member keeps their role, and the invitation is consumed.
    call (.updateInvitation { inv with status := .accepted })
    return m
  | .error e =>
    if !isNotFound e then throw e
    let m ← putMember p inv.workspaceID p.userID inv.role
    call (.updateInvitation { inv with status := .accepted })
    return m

end Requests

inductive MemberRequest where
  | addMember (workspaceID userID role : GoString)
  | updateMemberRole (workspaceID userID role : GoString)
  | removeMember (workspaceID userID : GoString)
  | suspendMember (workspaceID userID : GoString)
  | reinstateMember (workspaceID userID : GoString)
  | acceptInvitation (token : GoString)

/-- Serve a request; the row is returned unless it is removed. -/
def MemberRequest.serve (hashToken : GoString → GoString) (p : Principal) :
    MemberRequest → ServiceM (Option Membership)
  | .addMember workspaceID userID role => do
    return some (← Service.addMember p workspaceID userID role)
  | .updateMemberRole workspaceID userID role => do
    return some (← Service.updateMemberRole p workspaceID userID role)
  | .removeMember workspaceID userID => do
    Service.removeMember p workspaceID userID
    return none
  | .suspendMember workspaceID userID => do
    return some (← Service.suspendMember p workspaceID userID)
  | .reinstateMember workspaceID userID => do
    return some (← Service.reinstateMember p workspaceID userID)
  | .acceptInvitation token => do
    return some (← Service.acceptInvitation p hashToken token)

end WorkspaceAuthz.Service
