import WorkspaceAuthz.Go.Strings
import WorkspaceAuthz.Service.Repository

/-! # Workspaces and their owners

The requests that create, change, transfer and delete workspaces. A workspace and
its owner's membership are written in two calls; a transfer promotes the new
owner, records them on the workspace and demotes the former owner.
-/
namespace WorkspaceAuthz.Service
open Go Authz Interleaving

def slugify (s : GoString) : GoString :=
  let s := trimDash (dashRuns (lowerAlnum (trimSpace s)))
  let s := if s = [] then str "ws" else s
  if 48 < s.length then trimDash (s.take 48) else s

section Requests

variable (p : Principal)

/-- Write the workspace, then the owner's row and role tuple. -/
def createWorkspaceWithOwner (w : Workspace) : ServiceM Unit := do
  call (.createWorkspace w)
  call (.putMembershipAndTuples ⟨w.projectID, w.tenantID, w.id, w.ownerUserID, .owner, .active,
    w.createdAt, w.updatedAt⟩ [roleTuple w.id w.ownerUserID .owner] [])

/-- Create the personal workspace; if another request has done so, return that one. -/
def createPersonalWorkspace : ServiceM Workspace := do
  let now ← call .now
  let id ← call .newID
  let w : Workspace :=
    ⟨id, p.projectID, p.tenantID, "personal", "Personal", .personal, p.userID, now, now⟩
  tryCatch (do createWorkspaceWithOwner w; return w) fun e =>
    if isAlreadyExists e then call (.personalWorkspace p.projectID p.tenantID p.userID)
    else throw e

def ensurePersonalWorkspace : ServiceM Workspace := do
  match ← tryCall (.personalWorkspace p.projectID p.tenantID p.userID) with
  | .ok w => return w
  | .error e => if isNotFound e then createPersonalWorkspace p else throw e

def createWorkspace (displayName slug : GoString) : ServiceM Workspace := do
  call (.ensureProjectActive p)
  let displayName := trimSpace displayName
  if displayName = [] then throw ⟨.invalidArgument, "display_name is required", []⟩
  let slug := slugify (if slug = [] then displayName else slug)
  let now ← call .now
  let id ← call .newID
  let w : Workspace :=
    ⟨id, p.projectID, p.tenantID, slug, displayName, .team, p.userID, now, now⟩
  createWorkspaceWithOwner w
  return w

def getWorkspace (id : GoString) : ServiceM Workspace := requireWorkspace p id .guest

def listWorkspaces : ServiceM (List Workspace) := do
  let _ ← ensurePersonalWorkspace p
  call (.workspacesForUser p.projectID p.tenantID p.userID)

def updateWorkspace (id displayName : GoString) : ServiceM Workspace := do
  let w ← requireWorkspace p id .admin
  let displayName := trimSpace displayName
  if displayName = [] then throw ⟨.invalidArgument, "display_name is required", []⟩
  let now ← call .now
  let w' := { w with displayName, updatedAt := now }
  call (.updateWorkspace w')
  return w'

def deleteWorkspace (id : GoString) : ServiceM Unit := do
  let w ← requireWorkspace p id .owner
  if w.type = .personal then
    throw ⟨.failedPrecondition, "personal workspaces cannot be deleted", []⟩
  call (.deleteWorkspace p.projectID p.tenantID id)

/-! ## Transfer of ownership -/

/-- Make somebody an owner, with the tuple of their former role deleted. -/
def promote (workspaceID newOwnerID : GoString) (now : Time) : ServiceM Unit := do
  let putOwner (createdAt : Time) (deletes : List Role) : ServiceM Unit :=
    call (.putMembershipAndTuples
      ⟨p.projectID, p.tenantID, workspaceID, newOwnerID, .owner, .active, createdAt, now⟩
      [roleTuple workspaceID newOwnerID .owner] (deletes.map (roleTuple workspaceID newOwnerID)))
  match ← tryCall (.getMembership p.projectID p.tenantID workspaceID newOwnerID) with
  | .ok existing =>
    putOwner existing.createdAt (if existing.role ≠ .owner then [existing.role] else [])
  | .error e => if isNotFound e then putOwner now [] else throw e

/-- Make the former owner an admin; without a row only the tuples are swapped. -/
def demote (workspaceID oldOwnerID : GoString) (now : Time) : ServiceM Unit := do
  let adminInsert := [roleTuple workspaceID oldOwnerID .admin]
  let ownerDelete := [roleTuple workspaceID oldOwnerID .owner]
  match ← tryCall (.getMembership p.projectID p.tenantID workspaceID oldOwnerID) with
  | .ok old =>
    call (.putMembershipAndTuples { old with role := .admin, updatedAt := now } adminInsert
      ownerDelete)
  | .error e =>
    if isNotFound e then call (.writeTuples p.projectID p.tenantID adminInsert ownerDelete)
    else throw e

def transferOwnership (workspaceID newOwnerID : GoString) : ServiceM Workspace := do
  if newOwnerID = [] then throw ⟨.invalidArgument, "new_owner_user_id is required", []⟩
  let w ← requireWorkspace p workspaceID .owner
  call (.ensureProjectActive p)
  if w.type = .personal then
    throw ⟨.failedPrecondition, "personal workspaces cannot be transferred", []⟩
  let oldOwnerID := w.ownerUserID
  if newOwnerID = oldOwnerID then return w
  let now ← call .now
  promote p workspaceID newOwnerID now
  let w' := { w with ownerUserID := newOwnerID, updatedAt := now }
  call (.updateWorkspace w')
  demote p workspaceID oldOwnerID now
  return w'

end Requests

end WorkspaceAuthz.Service
