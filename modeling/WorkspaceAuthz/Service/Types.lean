import WorkspaceAuthz.Authz.Model

/-! # Workspaces, groups, seats and projects

The product's entities. A role is a grade of membership and at the same time the
name of the relation that is granted with it.
-/
namespace WorkspaceAuthz.Service
open Go Authz

inductive ErrorKind where
  | notFound
  | alreadyExists
  | invalidArgument
  | permissionDenied
  | failedPrecondition
  | resourceExhausted
  /-- An error of another package, such as the database driver. -/
  | other
deriving DecidableEq, Repr

/-- A sentinel error, with the format and the arguments of the text that follows it. -/
structure ServiceError where
  kind : ErrorKind
  format : GoString := []
  args : List GoString := []
deriving DecidableEq, Repr

/-- The subject of a decision and the shard it is made in. -/
structure Principal where
  userID : GoString
  projectID : GoString
  tenantID : GoString
deriving DecidableEq, Repr

inductive Role where
  | owner
  | admin
  | member
  | guest
deriving DecidableEq, Repr

namespace Role

def name : Role → GoString
  | .owner => str "owner"
  | .admin => str "admin"
  | .member => str "member"
  | .guest => str "guest"

def ofName? (s : GoString) : Option Role := [owner, admin, member, guest].find? (·.name = s)

theorem name_injective : Function.Injective name := by
  intro r r'
  cases r <;> cases r' <;> decide

end Role

inductive WorkspaceType where
  | personal
  | team
deriving DecidableEq, Repr

inductive MembershipStatus where
  | active
  | invited
  | suspended
deriving DecidableEq, Repr

inductive InvitationStatus where
  | pending
  | accepted
  | revoked
  | expired
deriving DecidableEq, Repr

def InvitationStatus.name : InvitationStatus → GoString
  | .pending => str "pending"
  | .accepted => str "accepted"
  | .revoked => str "revoked"
  | .expired => str "expired"

structure Workspace where
  id : GoString
  projectID : GoString
  tenantID : GoString
  slug : GoString
  displayName : GoString
  type : WorkspaceType
  ownerUserID : GoString
  createdAt : Time
  updatedAt : Time
deriving DecidableEq, Repr

structure Membership where
  projectID : GoString
  tenantID : GoString
  workspaceID : GoString
  userID : GoString
  role : Role
  status : MembershipStatus
  createdAt : Time
  updatedAt : Time
deriving DecidableEq, Repr

structure Invitation where
  id : GoString
  projectID : GoString
  tenantID : GoString
  workspaceID : GoString
  email : GoString
  role : Role
  status : InvitationStatus
  invitedBy : GoString
  tokenHash : GoString
  createdAt : Time
  expiresAt : Time
deriving DecidableEq, Repr

structure Group where
  id : GoString
  projectID : GoString
  tenantID : GoString
  workspaceID : GoString
  slug : GoString
  displayName : GoString
  createdBy : GoString
  createdAt : Time
  updatedAt : Time
deriving DecidableEq, Repr

/-- A user or a nested group. -/
structure GroupMember where
  userID : GoString := []
  groupID : GoString := []
deriving DecidableEq, Repr

def memberKey (m : GroupMember) : GoString × GoString :=
  if m.groupID ≠ [] then (str "group", m.groupID) else (str "user", m.userID)

inductive EnrollmentState where
  | waitlisted
  | enrolled
  | active
  | completed
  | dropped
deriving DecidableEq, Repr

namespace EnrollmentState

def name : EnrollmentState → GoString
  | .waitlisted => str "waitlisted"
  | .enrolled => str "enrolled"
  | .active => str "active"
  | .completed => str "completed"
  | .dropped => str "dropped"

def ofName? (s : GoString) : Option EnrollmentState :=
  [waitlisted, enrolled, active, completed, dropped].find? (·.name = s)

/-- Whether the member is in the group's `member` userset. -/
def grantsAccess (s : EnrollmentState) : Bool := s = .enrolled || s = .active

end EnrollmentState

structure Enrollment where
  projectID : GoString
  tenantID : GoString
  groupID : GoString
  member : GroupMember
  state : EnrollmentState
  createdAt : Time
  updatedAt : Time
deriving DecidableEq, Repr

structure SeatAssignment where
  projectID : GoString
  tenantID : GoString
  sku : GoString
  userID : GoString
  assignedAt : Time
deriving DecidableEq, Repr

structure SeatUsage where
  sku : GoString
  used : ℕ
  limit : ℤ
  limited : Bool
deriving DecidableEq, Repr

inductive ProjectStatus where
  | active
  | suspended
deriving DecidableEq, Repr

/-- A project's configuration; an empty model stands for the built-in one. -/
structure Project where
  id : GoString
  name : GoString
  status : ProjectStatus
  model : Model
  dataRegion : GoString
  maxCheckReads : ℤ
  createdAt : Time
  updatedAt : Time
deriving DecidableEq

/-- A stored tuple and the tenant it is stored in. -/
structure TupleAt where
  tenantID : GoString
  tuple : Tuple

/-- Selects stored tuples by the fields that are not empty. -/
structure TupleFilter where
  ns : GoString := []
  objectID : GoString := []
  relation : GoString := []
  subjectUserID : GoString := []

def TupleFilter.admits (f : TupleFilter) (t : Tuple) : Bool :=
  (f.ns = [] || t.ns = f.ns) && (f.objectID = [] || t.objectID = f.objectID) &&
    (f.relation = [] || t.relation = f.relation) &&
    (f.subjectUserID = [] || t.subject.userID = f.subjectUserID)

def userTuple (ns obj rel userID : GoString) : Tuple := ⟨ns, obj, rel, { userID }, none⟩

abbrev roleTuple (workspaceID userID : GoString) (role : Role) : Tuple :=
  userTuple "workspace" workspaceID role.name userID

abbrev seatTuple (sku userID : GoString) : Tuple := userTuple "seat" sku "holder" userID

end WorkspaceAuthz.Service
