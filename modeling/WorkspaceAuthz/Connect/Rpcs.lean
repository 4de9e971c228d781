import WorkspaceAuthz.Connect.RateLimiter
import WorkspaceAuthz.Service.Instance
import WorkspaceAuthz.Service.Requests
import WorkspaceAuthz.Service.Tokens

/-! # Remote procedure calls

The handlers of the workspace, group, authz and seat services. Each works out the
principal from the ids in the message, from the defaults of the deployment and from the
project that the caller may be pinned to, and refuses projects of other regions. Then it
asks the service, and turns errors into codes.
-/
namespace WorkspaceAuthz.Connect
open Go Authz Service Interleaving

/-! ## Messages -/

/-- `Role` of the messages; numbers without a name are unspecified. -/
inductive RoleProto where
  | unspecified
  | owner
  | admin
  | member
  | guest

def roleFromProto : RoleProto → GoString
  | .owner => Role.owner.name
  | .admin => Role.admin.name
  | .member => Role.member.name
  | .guest => Role.guest.name
  | .unspecified => []

inductive MemberProto where
  | userID (id : GoString)
  | groupID (id : GoString)
  | unset

inductive EnrollmentStateProto where
  | unspecified
  | waitlisted
  | enrolled
  | active
  | completed
  | dropped

inductive SubjectProto where
  | userID (id : GoString)
  | set (set : Option SubjectSet)
  | wildcard (wildcard : Bool)
  | unset

structure RelationTuple where
  ns : GoString
  objectID : GoString
  relation : GoString
  subject : Option SubjectProto
  conditionName : GoString := []
  conditionParams : Context := ∅
  expiresAt : Option Time := none

inductive UpdateOp where
  | unspecified
  | insert
  | delete

structure TupleUpdate where
  op : UpdateOp
  tuple : Option RelationTuple

structure BatchCheckItem where
  n : SubjectSet
  subjectUserID : GoString

/-- The calls of the workspace and group services, which are made for an acting user. -/
inductive Management where
  | createWorkspace (displayName slug : GoString)
  | getWorkspace (workspaceID : GoString)
  | listWorkspaces
  | updateWorkspace (workspaceID displayName : GoString)
  | transferOwnership (workspaceID newOwnerUserID : GoString)
  | deleteWorkspace (workspaceID : GoString)
  | addMember (workspaceID userID : GoString) (role : RoleProto)
  | updateMemberRole (workspaceID userID : GoString) (role : RoleProto)
  | removeMember (workspaceID userID : GoString)
  | suspendMember (workspaceID userID : GoString)
  | reinstateMember (workspaceID userID : GoString)
  | listMembers (workspaceID : GoString)
  | createInvitation (workspaceID email : GoString) (role : RoleProto)
  | acceptInvitation (token : GoString)
  | listInvitations (workspaceID : GoString)
  | revokeInvitation (invitationID : GoString)
  | createGroup (displayName slug workspaceID : GoString)
  | getGroup (groupID : GoString)
  | listGroups (workspaceID : GoString)
  | deleteGroup (groupID : GoString)
  | addGroupMember (groupID : GoString) (member : Option MemberProto)
  | removeGroupMember (groupID : GoString) (member : Option MemberProto)
  | listGroupMembers (groupID : GoString)
  | setEnrollmentState (groupID : GoString) (member : Option MemberProto)
      (state : EnrollmentStateProto)
  | listEnrollments (groupID : GoString)

inductive Body where
  | management (actingUserID : GoString) (m : Management)
  | writeRelationTuples (updates : List TupleUpdate)
  | readRelationTuples (f : TupleFilter) (atLeastConsistencyToken : GoString)
  | check (n : SubjectSet) (subjectUserID : GoString) (subjectSet : Option SubjectSet)
      (context : Context) (atLeastConsistencyToken : GoString)
  | expand (n : SubjectSet) (atLeastConsistencyToken : GoString)
  | listObjects (ns relation subjectUserID atLeastConsistencyToken : GoString)
  | batchCheck (items : List BatchCheckItem) (atLeastConsistencyToken : GoString)
  | deprovisionUser (userID : GoString)
  | exportSubjectGrants (userID : GoString)
  | setSeatLimit (sku : GoString) (limit : Option ℤ)
  | getSeatUsage (sku : GoString)
  | assignSeat (sku userID : GoString)
  | revokeSeat (sku userID : GoString)
  | listSeats (sku : GoString)

structure Rpc where
  projectID : GoString
  tenantID : GoString
  body : Body

structure BatchCheckResult where
  allowed : Bool := false
  err : Option ServiceError := none

/-- What is returned, before it is written into a message. -/
inductive Response where
  | done
  | workspace (w : Workspace)
  | workspaces (ws : List Workspace)
  | membership (m : Membership)
  | members (ms : List Membership)
  | invitation (inv : Invitation) (token : GoString)
  | invitations (invs : List Invitation)
  | group (g : Group)
  | groups (gs : List Group)
  | groupMembers (ms : List GroupMember)
  | enrollment (e : Enrollment)
  | enrollments (es : List Enrollment)
  | token (consistencyToken : GoString)
  | tuples (ts : List Tuple)
  | allowed (b : Bool)
  | tree (t : Tree)
  | objectIDs (ids : List GoString)
  | results (rs : List BatchCheckResult)
  | deletedCount (n : ℕ)
  | grants (gs : List SubjectGrant)
  | seatLimit (limit : SeatLimit)
  | seatUsage (u : SeatUsage)
  | alreadyHeld (b : Bool)
  | seats (seats : List SeatAssignment)

/-! ## Errors -/

/-- An error of a handler, with the arguments of its text, or of the service. -/
inductive Cause where
  | handler (format : String) (args : List GoString := [])
  | service (err : ServiceError)
deriving DecidableEq

structure RpcError where
  code : Code
  cause : Cause
deriving DecidableEq

def codeOf : ErrorKind → Code
  | .notFound => .notFound
  | .alreadyExists => .alreadyExists
  | .invalidArgument => .invalidArgument
  | .permissionDenied => .permissionDenied
  | .failedPrecondition => .failedPrecondition
  | .resourceExhausted => .resourceExhausted
  | .other => .internal

def errToConnect (err : ServiceError) : RpcError := ⟨codeOf err.kind, .service err⟩

def invalid (message : String) : RpcError := ⟨.invalidArgument, .handler message⟩

/-! ## Conversions -/

def groupMemberFromProto : Option MemberProto → Except RpcError GroupMember
  | none => throw (invalid "member is required")
  | some (.userID id) => return { userID := id }
  | some (.groupID id) => return { groupID := id }
  | some .unset => throw (invalid "member must set user_id or group_id")

def enrollmentStateFromProto : EnrollmentStateProto → Except RpcError GoString
  | .waitlisted => return EnrollmentState.waitlisted.name
  | .enrolled => return EnrollmentState.enrolled.name
  | .active => return EnrollmentState.active.name
  | .completed => return EnrollmentState.completed.name
  | .dropped => return EnrollmentState.dropped.name
  | .unspecified => throw (invalid "state must be a known enrollment state")

def subjectFromProto : Option SubjectProto → Except RpcError Subject
  | none => throw (invalid "subject is required")
  | some (.userID id) => return { userID := id }
  | some (.set none) => throw (invalid "subject set is nil")
  | some (.set (some set)) => return { set := some set }
  | some (.wildcard wildcard) =>
    if wildcard then return { wildcard := true }
    else throw (invalid "wildcard subject must be true")
  | some .unset => throw (invalid "subject must set user_id, set, or wildcard")

def tupleFromProto : Option RelationTuple → Except RpcError Tuple
  | none => throw (invalid "tuple is required")
  | some t => do
    let subj ← subjectFromProto t.subject
    let subj := if t.conditionName ≠ [] then
        { subj with condition := some ⟨t.conditionName, t.conditionParams⟩ }
      else subj
    return ⟨t.ns, t.objectID, t.relation, subj, t.expiresAt⟩

def opFromProto (u : TupleUpdate) : Except RpcError TupleOp := do
  let t ← tupleFromProto u.tuple
  match u.op with
  | .insert => return ⟨false, t⟩
  | .delete => return ⟨true, t⟩
  | .unspecified => throw (invalid "update op must be INSERT or DELETE")

/-! ## What handlers do -/

/-- Calls of the service's interfaces, evaluations, the limiter and the deadline. -/
inductive ServerOp where
  | repo (c : Call)
  | evaluate (p : Principal) (q : Query)
  | allow (key : GoString)
  | ctxErr

abbrev ServerOp.Value : ServerOp → Type
  | .repo c => c.Value
  | .evaluate _ q => q.Answer
  | .allow _ => Bool
  | .ctxErr => Unit

abbrev ServerOp.Reply (op : ServerOp) : Type := Except ServiceError op.Value

abbrev ServerM := Attempts ServerOp ServiceError ServerOp.Value

abbrev RpcM := ExceptT RpcError (Prog ServerOp ServerOp.Reply)

abbrev ServerTrace := Trace ServerOp ServerOp.Reply

def onCalls {α : Type} : Prog Call Service.Reply α → Prog ServerOp ServerOp.Reply α
  | .pure a => .pure a
  | .call c next => .call (.repo c) fun r => onCalls (next r)

/-- Ask the service, with its errors as the wire has them. -/
def answered {α : Type} (x : Prog ServerOp ServerOp.Reply (Except ServiceError α)) : RpcM α :=
  ExceptT.mk do
    let r ← x
    return r.mapError errToConnect

def service {α : Type} (x : ServiceM α) : RpcM α := answered (onCalls x.run)

/-- A result that needs no call. -/
def refused {α : Type} (r : Except RpcError α) : RpcM α := ExceptT.mk (pure r)

structure Server extends Handler where
  inst : Instance := {}
  codec : TokenCodec
  hashToken : GoString → GoString
  maxBatchCheckItems : ℤ := 1000

namespace Server

/-- What the environment decides: about calls and evaluations, whether the limiter has tokens
left, and whether the request has outlived its deadline. -/
structure ServerEnv extends EvalEnv where
  tokens : Bool := true
  deadline : Except ServiceError Unit := .ok ()

def exec (sv : Server) (env : ServerEnv) : (op : ServerOp) → Store → op.Reply × Store
  | .repo c, s => sv.inst.serve env.toEvalEnv s c
  | .evaluate p q, s => (sv.inst.evaluate env.toEvalEnv s p q, s)
  | .allow _, s => (.ok env.tokens, s)
  | .ctxErr, s => (env.deadline, s)

variable (sv : Server) (pinned : GoString)

/-- The ids of the message are checked, not those that take their place. -/
def validated (ids : List GoString) : RpcM Unit :=
  refused ((validateScopeIDs ids).mapError fun e => ⟨e.code, .handler e.message⟩)

def throttle (key : GoString) (message : String) : RpcM Unit := do
  let ok ← answered (Prog.perform (ServerOp.allow key))
  if !ok then throw ⟨.resourceExhausted, .handler message⟩

def requireTenantRate (projectID tenantID : GoString) : RpcM Unit := do
  validated [projectID, tenantID]
  throttle (tenantKey (sv.callerProject pinned projectID) (sv.tenantOr tenantID))
    "tenant rate limit exceeded"

def requireRPCRate (projectID rpc : GoString) : RpcM Unit := do
  validated [projectID]
  throttle (rpcKey (sv.callerProject pinned projectID) rpc) "rate limit exceeded"

def acting (actingUserID projectID tenantID : GoString) : RpcM Principal := do
  if actingUserID = [] then throw (invalid "acting_user_id is required")
  validated [projectID, tenantID]
  let p : Principal := ⟨actingUserID, sv.callerProject pinned projectID, sv.tenantOr tenantID⟩
  service (call (.ensureRegion p))
  return p

/-- The principal of a call that is not made for a user. -/
def scope (projectID tenantID : GoString) : RpcM Principal := do
  validated [projectID, tenantID]
  let p : Principal := ⟨[], sv.callerProject pinned projectID, sv.tenantOr tenantID⟩
  service (call (.ensureRegion p))
  return p

def manage (p : Principal) : Management → RpcM Response
  | .createWorkspace displayName slug => do
    return .workspace (← service (createWorkspace p displayName slug))
  | .getWorkspace workspaceID => do return .workspace (← service (getWorkspace p workspaceID))
  | .listWorkspaces => do return .workspaces (← service (listWorkspaces p))
  | .updateWorkspace workspaceID displayName => do
    return .workspace (← service (updateWorkspace p workspaceID displayName))
  | .transferOwnership workspaceID newOwnerUserID => do
    return .workspace (← service (transferOwnership p workspaceID newOwnerUserID))
  | .deleteWorkspace workspaceID => do
    service (deleteWorkspace p workspaceID)
    return .done
  | .addMember workspaceID userID role => do
    return .membership (← service (addMember p workspaceID userID (roleFromProto role)))
  | .updateMemberRole workspaceID userID role => do
    return .membership (← service (updateMemberRole p workspaceID userID (roleFromProto role)))
  | .removeMember workspaceID userID => do
    service (removeMember p workspaceID userID)
    return .done
  | .suspendMember workspaceID userID => do
    return .membership (← service (suspendMember p workspaceID userID))
  | .reinstateMember workspaceID userID => do
    return .membership (← service (reinstateMember p workspaceID userID))
  | .listMembers workspaceID => do return .members (← service (listMembers p workspaceID))
  | .createInvitation workspaceID email role => do
    let (inv, token) ← service
      (createInvitation p sv.hashToken workspaceID email (roleFromProto role))
    return .invitation inv token
  | .acceptInvitation token => do
    return .membership (← service (acceptInvitation p sv.hashToken token))
  | .listInvitations workspaceID => do
    return .invitations (← service (listInvitations p workspaceID))
  | .revokeInvitation invitationID => do
    service (revokeInvitation p invitationID)
    return .done
  | .createGroup displayName slug workspaceID => do
    return .group (← service (createGroup p displayName slug workspaceID))
  | .getGroup groupID => do return .group (← service (getGroup p groupID))
  | .listGroups workspaceID => do return .groups (← service (listGroups p workspaceID))
  | .deleteGroup groupID => do
    service (deleteGroup p groupID)
    return .done
  | .addGroupMember groupID member => do
    let m ← refused (groupMemberFromProto member)
    service (addGroupMember p groupID m)
    return .done
  | .removeGroupMember groupID member => do
    let m ← refused (groupMemberFromProto member)
    service (removeGroupMember p groupID m)
    return .done
  | .listGroupMembers groupID => do
    return .groupMembers (← service (listGroupMembers p groupID))
  | .setEnrollmentState groupID member state => do
    let m ← refused (groupMemberFromProto member)
    let state ← refused (enrollmentStateFromProto state)
    return .enrollment (← service (setEnrollmentState p groupID m state))
  | .listEnrollments groupID => do
    return .enrollments (← service (listEnrollments p groupID))

def ask (p : Principal) (q : Query) : RpcM q.Answer :=
  answered (Prog.perform (ServerOp.evaluate p q))

def ensureConsistency (p : Principal) (token : GoString) : RpcM Unit :=
  service (Service.ensureConsistency sv.codec p token)

/-- `BatchCheck` of the service. What is wrong with one item is reported for the item, and what
is wrong with the system breaks off. -/
def batchCheck (p : Principal) : List BatchCheckItem → ServerM (List BatchCheckResult)
  | [] => return []
  | item :: items => do
    attempt ServerOp.ctxErr
    let result ← match ← observe (ServerOp.evaluate p (.check item.n item.subjectUserID ∅)) with
      | .ok allowed => pure { allowed }
      | .error err =>
        if err.kind = .invalidArgument ∨ err.kind = .resourceExhausted then
          pure { err := some err }
        else throw err
    return result :: (← batchCheck p items)

def handle (rpc : Rpc) : RpcM Response :=
  match rpc.body with
  | .management actingUserID m => do
    let p ← sv.acting pinned actingUserID rpc.projectID rpc.tenantID
    sv.manage p m
  | .writeRelationTuples updates => do
    sv.requireTenantRate pinned rpc.projectID rpc.tenantID
    let p ← sv.scope pinned rpc.projectID rpc.tenantID
    let ops ← refused (updates.mapM opFromProto)
    return .token (← service (writeTuplesToken sv.codec p ops))
  | .readRelationTuples f atLeast => do
    let p ← sv.scope pinned rpc.projectID rpc.tenantID
    sv.ensureConsistency p atLeast
    let tuples ← service do
      call (.ensureRegion p)
      call (.readTuples p.projectID p.tenantID f)
    return .tuples tuples
  | .check n subjectUserID subjectSet context atLeast => do
    sv.requireTenantRate pinned rpc.projectID rpc.tenantID
    let p ← sv.scope pinned rpc.projectID rpc.tenantID
    sv.ensureConsistency p atLeast
    match subjectSet with
    | none =>
      if subjectUserID = [] then
        throw (invalid "exactly one of subject_user_id or subject_set is required")
      return .allowed (← ask p (.check n subjectUserID context))
    | some set =>
      if subjectUserID ≠ [] then
        throw (invalid "exactly one of subject_user_id or subject_set is required")
      return .allowed (← ask p (.checkSet n set context))
  | .expand n atLeast => do
    sv.requireTenantRate pinned rpc.projectID rpc.tenantID
    let p ← sv.scope pinned rpc.projectID rpc.tenantID
    sv.ensureConsistency p atLeast
    return .tree (← ask p (.expand n))
  | .listObjects ns relation subjectUserID atLeast => do
    sv.requireTenantRate pinned rpc.projectID rpc.tenantID
    let p ← sv.scope pinned rpc.projectID rpc.tenantID
    sv.ensureConsistency p atLeast
    return .objectIDs (← ask p (.listObjects ns relation subjectUserID))
  | .batchCheck items atLeast => do
    sv.requireTenantRate pinned rpc.projectID rpc.tenantID
    if sv.maxBatchCheckItems > 0 ∧ items.length > sv.maxBatchCheckItems then
      throw ⟨.invalidArgument, .handler "batch_check: %d items exceeds max %d"
        [itoa items.length, itoa sv.maxBatchCheckItems.toNat]⟩
    let p ← sv.scope pinned rpc.projectID rpc.tenantID
    sv.ensureConsistency p atLeast
    return .results (← answered (batchCheck p items).run)
  | .deprovisionUser userID => do
    sv.requireRPCRate pinned rpc.projectID "deprovision"
    let p ← sv.scope pinned rpc.projectID rpc.tenantID
    return .deletedCount (← service (deprovisionUser p userID))
  | .exportSubjectGrants userID => do
    sv.requireRPCRate pinned rpc.projectID "export"
    let p ← sv.scope pinned rpc.projectID []
    return .grants (← service (exportSubjectGrants p userID))
  | .setSeatLimit sku limit => do
    sv.requireTenantRate pinned rpc.projectID rpc.tenantID
    let p ← sv.scope pinned rpc.projectID rpc.tenantID
    return .seatLimit (← service (setSeatLimit p sku limit))
  | .getSeatUsage sku => do
    let p ← sv.scope pinned rpc.projectID rpc.tenantID
    return .seatUsage (← service (seatUsage p sku))
  | .assignSeat sku userID => do
    sv.requireTenantRate pinned rpc.projectID rpc.tenantID
    let p ← sv.scope pinned rpc.projectID rpc.tenantID
    return .alreadyHeld (← service (assignSeat p sku userID))
  | .revokeSeat sku userID => do
    sv.requireTenantRate pinned rpc.projectID rpc.tenantID
    let p ← sv.scope pinned rpc.projectID rpc.tenantID
    service (revokeSeat p sku userID)
    return .done
  | .listSeats sku => do
    let p ← sv.scope pinned rpc.projectID rpc.tenantID
    return .seats (← service (listSeats p sku))

end Server

end WorkspaceAuthz.Connect
