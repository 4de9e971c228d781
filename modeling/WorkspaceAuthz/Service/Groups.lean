import WorkspaceAuthz.Service.Workspaces

/-! # Groups and enrollments

A group has members by tuples alone; an enrollment is a row on top of a
membership, with a state that says whether the tuple is there. Adding and removing
a member reads the row first, and writes it along with the tuple if there is one.
-/
namespace WorkspaceAuthz.Service
open Go Authz Interleaving

def groupMemberTuple (groupID : GoString) (m : GroupMember) : Except ServiceError Tuple :=
  if m.userID ≠ [] ∧ m.groupID = [] then .ok (userTuple "group" groupID "member" m.userID)
  else if m.groupID ≠ [] ∧ m.userID = [] then
    .ok ⟨"group", groupID, "member", { set := some ⟨"group", m.groupID, "member"⟩ }, none⟩
  else .error ⟨.invalidArgument, "member must be exactly one of user_id or group_id", []⟩

section Requests

variable (p : Principal)

def createGroup (displayName slug workspaceID : GoString) : ServiceM Group := do
  call (.ensureProjectActive p)
  let displayName := trimSpace displayName
  if displayName = [] then throw ⟨.invalidArgument, "display_name is required", []⟩
  if workspaceID ≠ [] then
    let _ ← requireWorkspace p workspaceID .member
  let slug := slugify (if slug = [] then displayName else slug)
  let now ← call .now
  let id ← call .newID
  let g : Group :=
    ⟨id, p.projectID, p.tenantID, workspaceID, slug, displayName, p.userID, now, now⟩
  call (.createGroup g)
  return g

def getGroup (id : GoString) : ServiceM Group := call (.getGroup p.projectID p.tenantID id)

def listGroups (workspaceID : GoString) : ServiceM (List Group) := do
  if workspaceID ≠ [] then
    let _ ← requireWorkspace p workspaceID .guest
  call (.listGroups p.projectID p.tenantID workspaceID)

/-- The creator of a group manages it, and so does an admin of its workspace. -/
def requireGroupManager (g : Group) : ServiceM Unit := do
  let denied : ServiceError :=
    ⟨.permissionDenied, "requires group creator or workspace admin", []⟩
  if g.createdBy = p.userID then return ()
  if g.workspaceID = [] then throw denied
  let ok ← call (.check p ⟨"workspace", g.workspaceID, Role.admin.name⟩)
  if !ok then throw denied

def deleteGroup (id : GoString) : ServiceM Unit := do
  let g ← call (.getGroup p.projectID p.tenantID id)
  requireGroupManager p g
  call (.deleteGroup p.projectID p.tenantID id)

def addGroupMember (groupID : GoString) (member : GroupMember) : ServiceM Unit := do
  call (.ensureProjectActive p)
  let g ← call (.getGroup p.projectID p.tenantID groupID)
  requireGroupManager p g
  let t ← checked (groupMemberTuple groupID member)
  match ← tryCall (.getEnrollment p.projectID p.tenantID groupID member) with
  | .ok enr =>
    let now ← call .now
    call (.setEnrollmentAndTuples { enr with state := .enrolled, updatedAt := now } [t] [])
  | .error e =>
    if isNotFound e then call (.writeTuples p.projectID p.tenantID [t] []) else throw e

def removeGroupMember (groupID : GoString) (member : GroupMember) : ServiceM Unit := do
  let g ← call (.getGroup p.projectID p.tenantID groupID)
  requireGroupManager p g
  let t ← checked (groupMemberTuple groupID member)
  match ← tryCall (.getEnrollment p.projectID p.tenantID groupID member) with
  | .ok enr =>
    let now ← call .now
    call (.setEnrollmentAndTuples { enr with state := .dropped, updatedAt := now } [] [t])
  | .error e =>
    if isNotFound e then call (.writeTuples p.projectID p.tenantID [] [t]) else throw e

/-- Users and nested groups; other usersets are not listed. -/
def listGroupMembers (groupID : GoString) : ServiceM (List GroupMember) := do
  let _ ← call (.getGroup p.projectID p.tenantID groupID)
  let subjects ← call (.listSubjects p.projectID p.tenantID ⟨"group", groupID, "member"⟩)
  return subjects.filterMap fun sub => match sub.set with
    | none => some { userID := sub.userID }
    | some set => if set.ns = str "group" then some { groupID := set.objectID } else none

/-- Write the row, and the tuple if and only if the state grants access. -/
def putEnrollment (e : Enrollment) (t : Tuple) : ServiceM Enrollment := do
  if e.state.grantsAccess then call (.setEnrollmentAndTuples e [t] [])
  else call (.setEnrollmentAndTuples e [] [t])
  return e

def setEnrollmentState (groupID : GoString) (member : GroupMember) (state : GoString) :
    ServiceM Enrollment := do
  call (.ensureProjectActive p)
  let some state := EnrollmentState.ofName? state
    | throw ⟨.invalidArgument, "unknown enrollment state %q", [state]⟩
  let t ← checked (groupMemberTuple groupID member)
  let g ← call (.getGroup p.projectID p.tenantID groupID)
  requireGroupManager p g
  let now ← call .now
  let e : Enrollment := ⟨p.projectID, p.tenantID, groupID, member, state, now, now⟩
  match ← tryCall (.getEnrollment p.projectID p.tenantID groupID member) with
  | .ok existing => putEnrollment { e with createdAt := existing.createdAt } t
  | .error err => if isNotFound err then putEnrollment e t else throw err

def listEnrollments (groupID : GoString) : ServiceM (List Enrollment) := do
  let g ← call (.getGroup p.projectID p.tenantID groupID)
  requireGroupManager p g
  call (.listEnrollments p.projectID p.tenantID groupID)

end Requests

theorem conforms_requireGroupManager {P : Protocol Call Reply} {p : Principal} {g : Group}
    (hcheck : ∀ t resource, P.issues t (.check p resource)) :
    Conforms P (fun _ => True) (requireGroupManager p g) := by
  refine .ite (fun _ => .pure) fun _ => .ite (fun _ => .throw) fun _ => ?_
  exact .bind (.step fun t => hcheck t _) fun ok => .ite (fun _ => .throw) fun _ => .pure

end WorkspaceAuthz.Service
