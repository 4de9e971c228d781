import WorkspaceAuthz.Authz.ModelDoc
import WorkspaceAuthz.Service.PostgresStore

/-! # The rest of the Postgres driver

Projects, and the rows of workspaces, memberships, invitations, groups, enrollments
and seats. A row is read by its key or selected by a condition; rows come in an order
that a plan of the database decides, unless the statement orders them. The model of a
project, its region and its budget are one JSON document.
-/
namespace WorkspaceAuthz.Service
open Go Authz FiniteMaps

def memberFromKey (kind id : GoString) : GroupMember :=
  if kind = str "group" then { groupID := id } else { userID := id }

namespace Postgres

/-! ## Projects -/

/-- The columns of `projects` beside the key. -/
structure ProjectCells where
  name : GoString
  status : ProjectStatus
  configJSON : GoString
  createdAt : ℤ
  updatedAt : ℤ

structure Database extends Contents where
  projects : Table GoString ProjectCells := ∅

/-- The envelope in `config_json`; without a model the built-in one is used. -/
structure ProjectConfig where
  model : Option ModelDoc := none
  dataRegion : GoString
  maxCheckReads : ℤ

/-- What `encoding/json` makes of a configuration, and what a `jsonb` column returns for it. -/
structure ConfigCodec where
  marshal : ProjectConfig → GoString
  jsonb : GoString → Option GoString
  unmarshal : GoString → Option ProjectConfig
  jsonb_ne_nil : ∀ text stored, jsonb text = some stored → stored ≠ []

/-- The configuration comes back as it was. -/
def ConfigCodec.Survives (codec : ConfigCodec) (config : ProjectConfig) : Prop :=
  ∃ stored, codec.jsonb (codec.marshal config) = some stored ∧
    codec.unmarshal stored = some config

structure Codecs where
  params : ParamsCodec
  config : ConfigCodec

def projectConfig (p : Project) : ProjectConfig where
  model := if 0 < p.model.size then some (fromModel p.model) else none
  dataRegion := p.dataRegion
  maxCheckReads := p.maxCheckReads

def encodeProjectConfig (codec : ConfigCodec) (p : Project) : GoString :=
  codec.marshal (projectConfig p)

def decodeProjectConfig (codec : ConfigCodec) (order : MapOrder) (blob : GoString) (p : Project) :
    Except ServiceError Project :=
  if blob = [] then .ok p
  else
    match codec.unmarshal blob with
    | none => .error errDriver
    | some cfg =>
      let p := { p with dataRegion := cfg.dataRegion, maxCheckReads := cfg.maxCheckReads }
      match cfg.model with
      | none => .ok p
      | some doc =>
        match doc.toModel order with
        | .error _ => .error errDriver
        | .ok m => .ok { p with model := m }

def projectCells (codec : ConfigCodec) (p : Project) : ProjectCells where
  name := p.name
  status := p.status
  configJSON := (codec.jsonb (encodeProjectConfig codec p)).getD []
  createdAt := micros p.createdAt
  updatedAt := micros p.updatedAt

def scanProject (codec : ConfigCodec) (order : MapOrder) (id : GoString) (c : ProjectCells) :
    Except ServiceError Project :=
  decodeProjectConfig codec order c.configJSON
    ⟨id, c.name, c.status, ∅, [], 0, ofMicros c.createdAt, ofMicros c.updatedAt⟩

/-- The orders in which the database comes upon rows. -/
structure Plan where
  projects : RowOrder GoString
  workspaces : RowOrder RowKey
  memberships : RowOrder MembershipKey
  invitations : RowOrder RowKey
  groups : RowOrder RowKey
  enrollments : RowOrder EnrollmentKey
  seats : RowOrder SeatKey
  tuples : RowOrder TupleKey

namespace Serial

def orderRows {α : Type} (collate : GoString → GoString) (time : α → ℤ)
    (texts : α → List GoString) (rows : List α) : List α :=
  rows.insertionSort fun a b => time a < time b ∨
    (time a = time b ∧ orderBy collate (texts a) ≤ orderBy collate (texts b))

section Projects

variable (codec : ConfigCodec) (order : MapOrder) (D : Database)

def projectExec (p : Project) (run : Except ServiceError Unit × Database) :
    Except ServiceError Unit × Database :=
  if (codec.jsonb (encodeProjectConfig codec p)).isSome && [p.id, p.name].all isText then run
  else (.error errDriver, D)

def createProject (p : Project) : Except ServiceError Unit × Database :=
  projectExec codec D p <|
    if (D.projects.lookup p.id).isSome then (.error errAlreadyExists, D)
    else (.ok (), { D with projects := D.projects.insert p.id (projectCells codec p) })

/-- The time of creation stays as it is. -/
def updateProject (p : Project) : Except ServiceError Unit × Database :=
  projectExec codec D p <|
    match D.projects.lookup p.id with
    | none => (.error errNotFound, D)
    | some row =>
      let cells := { projectCells codec p with createdAt := row.createdAt }
      (.ok (), { D with projects := D.projects.insert p.id cells })

def getProject (id : GoString) : Except ServiceError Project := do
  let row ← query [id] (D.projects.lookup id)
  match row with
  | none => throw errNotFound
  | some c => scanProject codec order id c

def listProjects (scan : RowOrder GoString) (collate : GoString → GoString) :
    Except ServiceError (List Project) :=
  (orderRows collate (·.2.createdAt) ([·.1]) (D.projects.select scan fun _ _ => true)).mapM
    fun e => scanProject codec order e.1 e.2

end Projects

/-! ## Rows -/

/-- The workspace would be a second personal one, against `workspaces_personal_uniq`. -/
def violatesPersonal (T : Contents) (w : Workspace) : Bool :=
  w.type = .personal && T.workspaces.any fun k ex =>
    k.projectID = w.projectID ∧ k.tenantID = w.tenantID ∧ k.id ≠ w.id ∧ ex.type = .personal ∧
      ex.ownerUserID = w.ownerUserID

/-- The violation of the index is not told from other errors of the database. -/
def updateWorkspace (w : Workspace) : Tx Unit := do
  let failure ← txExec [w.projectID, w.tenantID, w.id, w.slug, w.displayName, w.ownerUserID]
    fun T =>
      if (T.workspaces.lookup (workspaceKey w)).isNone then (some errNotFound, T)
      else if violatesPersonal T w then (some errDriver, T)
      else (none, { T with workspaces := T.workspaces.insert (workspaceKey w) (workspaceRow w) })
  match failure with
  | none => return ()
  | some e => throw e

def invitationKey (inv : Invitation) : RowKey := ⟨inv.projectID, inv.tenantID, inv.id⟩

def invitationArgs (inv : Invitation) : List GoString :=
  [inv.projectID, inv.tenantID, inv.id, inv.workspaceID, inv.email, inv.invitedBy, inv.tokenHash]

def createInvitation (inv : Invitation) : Tx Unit := do
  let inserted ← txExec (invitationArgs inv) fun T =>
    if (T.invitations.lookup (invitationKey inv)).isSome then (false, T)
    else (true, { T with
      invitations := T.invitations.insert (invitationKey inv) (invitationRow inv) })
  if inserted then return () else throw errAlreadyExists

def updateInvitation (inv : Invitation) : Tx Unit := do
  let updated ← txExec (invitationArgs inv) fun T =>
    if (T.invitations.lookup (invitationKey inv)).isNone then (false, T)
    else (true, { T with
      invitations := T.invitations.insert (invitationKey inv) (invitationRow inv) })
  if updated then return () else throw errNotFound

section Rows

variable (T : Contents) (projectID tenantID : GoString)

def getWorkspace (id : GoString) : Except ServiceError Workspace := do
  let row ← query [projectID, tenantID, id] (T.workspaces.lookup ⟨projectID, tenantID, id⟩)
  found row

def getMembership (workspaceID userID : GoString) : Except ServiceError Membership := do
  let row ← query [projectID, tenantID, workspaceID, userID]
    (T.memberships.lookup ⟨projectID, tenantID, workspaceID, userID⟩)
  found row

def getInvitation (id : GoString) : Except ServiceError Invitation := do
  let row ← query [projectID, tenantID, id] (T.invitations.lookup ⟨projectID, tenantID, id⟩)
  found row

def getGroup (id : GoString) : Except ServiceError Group := do
  let row ← query [projectID, tenantID, id] (T.groups.lookup ⟨projectID, tenantID, id⟩)
  found row

def scanEnrollment (k : EnrollmentKey) (c : EnrollmentCells) : Enrollment :=
  ⟨k.projectID, k.tenantID, k.groupID, memberFromKey k.member.1 k.member.2, c.state,
    ofMicros c.createdAt, ofMicros c.updatedAt⟩

def getEnrollment (groupID : GoString) (member : GroupMember) :
    Except ServiceError Enrollment := do
  let (kind, id) := memberKey member
  let key : EnrollmentKey := ⟨projectID, tenantID, groupID, (kind, id)⟩
  let row ← query [projectID, tenantID, groupID, kind, id] (T.enrollments.lookup key)
  found (row.map (scanEnrollment key))

/-- `QueryRow` reads the first of the rows. -/
def personalWorkspace (scan : RowOrder RowKey) (userID : GoString) :
    Except ServiceError Workspace := do
  let rows ← query [projectID, tenantID, userID] <| T.workspaces.select scan fun k w =>
    k.projectID = projectID ∧ k.tenantID = tenantID ∧ w.ownerUserID = userID ∧ w.type = .personal
  found (rows.head?.map (·.2))

def getInvitationByTokenHash (scan : RowOrder RowKey) (tokenHash : GoString) :
    Except ServiceError Invitation := do
  let rows ← query [projectID, tenantID, tokenHash] <| T.invitations.select scan fun k inv =>
    k.projectID = projectID ∧ k.tenantID = tenantID ∧ inv.tokenHash = tokenHash
  found (rows.head?.map (·.2))

variable (collate : GoString → GoString)

/-- The join goes from the memberships of a user to their workspaces. -/
def workspacesForUser (scan : RowOrder MembershipKey) (userID : GoString) :
    Except ServiceError (List Workspace) := do
  let rows ← query [projectID, tenantID, userID] <| T.memberships.select scan fun k m =>
    k.projectID = projectID ∧ k.tenantID = tenantID ∧ k.userID = userID ∧ m.status = .active
  return orderRows collate (·.createdAt) ([·.id]) (rows.filterMap fun e =>
    T.workspaces.lookup ⟨projectID, tenantID, e.1.workspaceID⟩)

def listMembers (scan : RowOrder MembershipKey) (workspaceID : GoString) :
    Except ServiceError (List Membership) := do
  let rows ← query [projectID, tenantID, workspaceID] <| T.memberships.select scan fun k _ =>
    k.projectID = projectID ∧ k.tenantID = tenantID ∧ k.workspaceID = workspaceID
  return orderRows collate (·.createdAt) ([·.userID]) (rows.map (·.2))

def listInvitations (scan : RowOrder RowKey) (workspaceID : GoString) :
    Except ServiceError (List Invitation) := do
  let rows ← query [projectID, tenantID, workspaceID] <| T.invitations.select scan fun k inv =>
    k.projectID = projectID ∧ k.tenantID = tenantID ∧ inv.workspaceID = workspaceID
  return orderRows collate (·.createdAt) ([·.id]) (rows.map (·.2))

def listGroups (scan : RowOrder RowKey) (workspaceID : GoString) :
    Except ServiceError (List Group) := do
  let rows ← query [projectID, tenantID, workspaceID] <| T.groups.select scan fun k g =>
    k.projectID = projectID ∧ k.tenantID = tenantID ∧
      (workspaceID = [] ∨ g.workspaceID = workspaceID)
  return orderRows collate (·.createdAt) ([·.id]) (rows.map (·.2))

def listEnrollments (scan : RowOrder EnrollmentKey) (groupID : GoString) :
    Except ServiceError (List Enrollment) := do
  let rows ← query [projectID, tenantID, groupID] <| T.enrollments.select scan fun k _ =>
    k.projectID = projectID ∧ k.tenantID = tenantID ∧ k.groupID = groupID
  let rows := orderRows collate (·.2.createdAt) (fun e => [e.1.member.1, e.1.member.2]) rows
  return rows.map fun e => scanEnrollment e.1 e.2

def listSeats (scan : RowOrder SeatKey) (sku : GoString) :
    Except ServiceError (List SeatAssignment) := do
  let rows ← query [projectID, tenantID, sku] <| T.seatAssignments.select scan fun k _ =>
    k.toSkuKey = ⟨projectID, tenantID, sku⟩
  return orderRows collate (·.assignedAt) ([·.userID]) (rows.map (·.2))

end Rows

/-! ## Listings across tenants -/

section Listings

variable (T : Contents) (codec : ParamsCodec) (scan : RowOrder TupleKey)
  (collate : GoString → GoString) (now : Time) (projectID : GoString)

def scanTupleAt (k : TupleKey) (c : TupleCells) : Except ServiceError TupleAt := do
  let t ← scanTuple codec k c
  return ⟨k.tenantID, t⟩

/-- The active tuples of a project whose subjects satisfy a condition. -/
def collectTupleAt (cond : SubjectCols → Bool) : Except ServiceError (List TupleAt) :=
  let rows := T.relationTuples.select scan fun k c =>
    k.projectID = projectID && cond k.subject && isActive now c
  let rows := rows.insertionSort fun a b =>
    orderBy collate [a.1.tenantID, a.1.ns, a.1.objectID, a.1.relation] ≤
      orderBy collate [b.1.tenantID, b.1.ns, b.1.objectID, b.1.relation]
  rows.mapM fun e => scanTupleAt codec e.1 e.2

def listSubjectTuplesInProject (userID : GoString) : Except ServiceError (List TupleAt) := do
  query [projectID, userID] ()
  collectTupleAt T codec scan collate now projectID fun c => c.kind = .user && c.userID = userID

def listTuplesForSubjectSetsInProject (sets : List SubjectSet) :
    Except ServiceError (List TupleAt) := do
  if sets = [] then return []
  query (projectID :: sets.flatMap fun set => [set.ns, set.objectID, set.relation]) ()
  collectTupleAt T codec scan collate now projectID fun c =>
    c.kind = .set && (⟨c.ns, c.objectID, c.relation⟩ : SubjectSet) ∈ sets

end Listings

end Serial

/-! ## Calls -/

def Database.transact {α : Type} (tx : Tx α) (D : Database) : Except ServiceError α × Database :=
  let (r, T) := Postgres.transact tx D.toContents
  (r, { D with toContents := T })

/-- Serve a call; what does not go to the database is left to the environment. -/
def exec (codecs : Codecs) (collate : GoString → GoString) (env : Env × Plan) :
    (call : Call) → Database → Reply call × Database
  | .createProject p, D => Serial.createProject codecs.config D p
  | .getProject id, D => (Serial.getProject codecs.config env.1.order D id, D)
  | .updateProject p, D => Serial.updateProject codecs.config D p
  | .listProjects, D =>
    (Serial.listProjects codecs.config env.1.order D env.2.projects collate, D)
  | .writeTuples projectID tenantID inserts deletes, D =>
    D.transact (Serial.writeTuplesExec codecs.params projectID tenantID inserts deletes)
  | .consistencyToken projectID tenantID, D =>
    (Serial.consistencyToken D.toContents projectID tenantID, D)
  | .listSubjects projectID tenantID n, D =>
    (Serial.listSubjects D.toContents codecs.params env.2.tuples env.1.now projectID tenantID n, D)
  | .listObjectIDs projectID tenantID ns, D =>
    (Serial.listObjectIDs D.toContents env.2.tuples collate env.1.now projectID tenantID ns, D)
  | .readTuples projectID tenantID f, D =>
    (Serial.readTuples D.toContents codecs.params env.2.tuples collate env.1.now projectID tenantID
      f, D)
  | .deleteAllSubjectTuplesInProject projectID userID, D =>
    D.transact (Serial.deleteAllSubjectTuplesInProject projectID userID)
  | .listSubjectTuplesInProject projectID userID, D =>
    (Serial.listSubjectTuplesInProject D.toContents codecs.params env.2.tuples collate env.1.now
      projectID userID, D)
  | .listTuplesForSubjectSetsInProject projectID sets, D =>
    (Serial.listTuplesForSubjectSetsInProject D.toContents codecs.params env.2.tuples collate
      env.1.now projectID sets, D)
  | .createWorkspace w, D => D.transact (Serial.createWorkspace w)
  | .getWorkspace projectID tenantID id, D =>
    (Serial.getWorkspace D.toContents projectID tenantID id, D)
  | .updateWorkspace w, D => D.transact (Serial.updateWorkspace w)
  | .deleteWorkspace projectID tenantID id, D =>
    D.transact (Serial.deleteWorkspace projectID tenantID id)
  | .personalWorkspace projectID tenantID userID, D =>
    (Serial.personalWorkspace D.toContents projectID tenantID env.2.workspaces userID, D)
  | .workspacesForUser projectID tenantID userID, D =>
    (Serial.workspacesForUser D.toContents projectID tenantID collate env.2.memberships userID, D)
  | .getMembership projectID tenantID workspaceID userID, D =>
    (Serial.getMembership D.toContents projectID tenantID workspaceID userID, D)
  | .listMembers projectID tenantID workspaceID, D =>
    (Serial.listMembers D.toContents projectID tenantID collate env.2.memberships workspaceID, D)
  | .putMembership m, D => D.transact (Serial.putMembershipExec m)
  | .deleteMembership projectID tenantID workspaceID userID, D =>
    D.transact (Serial.deleteMembershipExec projectID tenantID workspaceID userID)
  | .putMembershipAndTuples m inserts deletes, D =>
    D.transact (Serial.putMembershipAndTuples codecs.params m inserts deletes)
  | .deleteMembershipAndTuples projectID tenantID workspaceID userID deletes, D =>
    D.transact
      (Serial.deleteMembershipAndTuples codecs.params projectID tenantID workspaceID userID deletes)
  | .createInvitation inv, D => D.transact (Serial.createInvitation inv)
  | .getInvitation projectID tenantID id, D =>
    (Serial.getInvitation D.toContents projectID tenantID id, D)
  | .getInvitationByTokenHash projectID tenantID tokenHash, D =>
    (Serial.getInvitationByTokenHash D.toContents projectID tenantID env.2.invitations tokenHash, D)
  | .updateInvitation inv, D => D.transact (Serial.updateInvitation inv)
  | .listInvitations projectID tenantID workspaceID, D =>
    (Serial.listInvitations D.toContents projectID tenantID collate env.2.invitations workspaceID,
      D)
  | .createGroup g, D => D.transact (Serial.createGroup g)
  | .getGroup projectID tenantID id, D => (Serial.getGroup D.toContents projectID tenantID id, D)
  | .listGroups projectID tenantID workspaceID, D =>
    (Serial.listGroups D.toContents projectID tenantID collate env.2.groups workspaceID, D)
  | .deleteGroup projectID tenantID id, D => D.transact (Serial.deleteGroup projectID tenantID id)
  | .setEnrollmentAndTuples e inserts deletes, D =>
    D.transact (Serial.setEnrollmentAndTuples codecs.params e inserts deletes)
  | .getEnrollment projectID tenantID groupID member, D =>
    (Serial.getEnrollment D.toContents projectID tenantID groupID member, D)
  | .listEnrollments projectID tenantID groupID, D =>
    (Serial.listEnrollments D.toContents projectID tenantID collate env.2.enrollments groupID, D)
  | .setSeatLimit projectID tenantID sku limit, D =>
    D.transact (Serial.setSeatLimit ⟨projectID, tenantID, sku⟩ limit)
  | .getSeatUsage projectID tenantID sku, D =>
    (Serial.getSeatUsage D.toContents projectID tenantID sku, D)
  | .assignSeatAndTuple a tuple, D =>
    D.transact (Serial.assignSeatAndTuple codecs.params a tuple)
  | .revokeSeatAndTuple projectID tenantID sku userID tuple, D =>
    D.transact
      (Serial.revokeSeatAndTuple codecs.params ⟨⟨projectID, tenantID, sku⟩, userID⟩ tuple)
  | .listSeats projectID tenantID sku, D =>
    (Serial.listSeats D.toContents projectID tenantID collate env.2.seats sku, D)
  | .check _ _, D => (env.1.allowed, D)
  | .ensureProjectActive _, D => (env.1.active, D)
  | .ensureRegion _, D => (env.1.region, D)
  | .modelOrDefault _, D => (env.1.model, D)
  | .now, D => (.ok env.1.now, D)
  | .newID, D => (.ok env.1.id, D)
  | .randToken, D => (.ok env.1.token, D)

end Postgres

end WorkspaceAuthz.Service
