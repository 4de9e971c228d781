import WorkspaceAuthz.Service.ListingOrder

/-! # The Postgres driver, one transaction at a time

Each table is a finite map from its primary key to its row. A statement fails if
one of its arguments is no text for the database, and a transaction that fails is
rolled back. Times are stored in microseconds, the parameters of conditions as
JSON. Nothing is assumed of JSON but that a column takes the empty object and
returns no empty text.
-/
namespace WorkspaceAuthz.Service
open Go Authz FiniteMaps

namespace Postgres

/-! ## Tables -/

/-- The primary key of `consistency_seq`; the other keys begin with these columns. -/
structure ShardKey where
  projectID : GoString
  tenantID : GoString
deriving DecidableEq, Repr

/-- The primary key of `workspaces`, `invitations` and `groups`. -/
structure RowKey where
  projectID : GoString
  tenantID : GoString
  id : GoString
deriving DecidableEq, Repr

structure MembershipKey where
  projectID : GoString
  tenantID : GoString
  workspaceID : GoString
  userID : GoString
deriving DecidableEq, Repr

/-- The primary key of `enrollments`; a member is given by kind and id. -/
structure EnrollmentKey where
  projectID : GoString
  tenantID : GoString
  groupID : GoString
  member : GoString × GoString
deriving DecidableEq, Repr

/-- The columns of `enrollments` beside the key. -/
structure EnrollmentCells where
  state : EnrollmentState
  createdAt : ℤ
  updatedAt : ℤ

/-- The columns of `relation_tuples` beside the key. -/
structure TupleCells where
  expiresAt : Option ℤ
  conditionName : GoString
  conditionParams : GoString

structure Contents where
  workspaces : Table RowKey Workspace := ∅
  memberships : Table MembershipKey Membership := ∅
  invitations : Table RowKey Invitation := ∅
  groups : Table RowKey Group := ∅
  enrollments : Table EnrollmentKey EnrollmentCells := ∅
  seatLimits : Table SkuKey ℤ := ∅
  seatAssignments : Table SeatKey SeatAssignment := ∅
  consistencySeq : Table ShardKey ℤ := ∅
  relationTuples : Table TupleKey TupleCells := ∅

/-! ## Columns -/

/-- What a text column takes: UTF-8 without NUL. -/
def isText (s : GoString) : Bool := 0 ∉ s && ByteArray.validateUTF8 ⟨s.toArray⟩

/-- What an `integer` column takes. -/
def isInteger (n : ℤ) : Bool := -2 ^ 31 ≤ n && n < 2 ^ 31

/-- What a `timestamptz` column keeps of a time. -/
def micros (t : Time) : ℤ := t / 1000

def ofMicros (n : ℤ) : Time := n * 1000

def storedTime (t : Time) : Time := ofMicros (micros t)

def workspaceRow (w : Workspace) : Workspace :=
  { w with createdAt := storedTime w.createdAt, updatedAt := storedTime w.updatedAt }

def membershipRow (m : Membership) : Membership :=
  { m with createdAt := storedTime m.createdAt, updatedAt := storedTime m.updatedAt }

def invitationRow (inv : Invitation) : Invitation :=
  { inv with createdAt := storedTime inv.createdAt, expiresAt := storedTime inv.expiresAt }

def groupRow (g : Group) : Group :=
  { g with createdAt := storedTime g.createdAt, updatedAt := storedTime g.updatedAt }

def enrollmentCells (e : Enrollment) : EnrollmentCells :=
  ⟨e.state, micros e.createdAt, micros e.updatedAt⟩

def seatRow (a : SeatAssignment) : SeatAssignment :=
  { a with assignedAt := storedTime a.assignedAt }

/-- What `encoding/json` makes of parameters, and what a `jsonb` column returns for a text that
it takes. -/
structure ParamsCodec where
  marshal : Context → Option GoString
  jsonb : GoString → Option GoString
  unmarshal : GoString → Option Context
  jsonb_object : (jsonb "\x7b\x7d").isSome
  jsonb_ne_nil : ∀ text stored, jsonb text = some stored → stored ≠ []

def ParamsCodec.Survives (codec : ParamsCodec) (params : Context) : Prop :=
  ∃ text stored, codec.marshal params = some text ∧ codec.jsonb text = some stored ∧
    codec.unmarshal stored = some params

/-- Name and parameters; an empty name stands for no condition. -/
def conditionCols (codec : ParamsCodec) (t : Tuple) : GoString × GoString :=
  match t.subject.condition with
  | none => ([], "\x7b\x7d")
  | some c =>
    if c.name = [] then ([], "\x7b\x7d")
    else (c.name, (codec.marshal c.params).getD "\x7b\x7d")

def tupleCells (codec : ParamsCodec) (t : Tuple) : TupleCells where
  expiresAt := t.expiresAt.map micros
  conditionName := (conditionCols codec t).1
  conditionParams := (codec.jsonb (conditionCols codec t).2).getD []

/-! ## Transactions -/

def errDriver : ServiceError := { kind := .other }

/-- Statements in a transaction; what has been written is dropped with an error. -/
abbrev Tx := StateT Contents (Except ServiceError)

/-- Begin, and commit or roll back. -/
def transact {α : Type} (tx : Tx α) (T : Contents) : Except ServiceError α × Contents :=
  match tx T with
  | .ok (a, T') => (.ok a, T')
  | .error e => (.error e, T)

def query {α : Type} (args : List GoString) (answer : α) : Except ServiceError α :=
  if args.all isText then .ok answer else .error errDriver

namespace Serial

def txExec {α : Type} (args : List GoString) (run : Contents → α × Contents) : Tx α :=
  fun T => query args (run T)

section Statements

variable (codec : ParamsCodec) (projectID tenantID : GoString)

def bumpSeqExec : Tx Unit :=
  txExec [projectID, tenantID] fun T =>
    let seq := match T.consistencySeq.lookup ⟨projectID, tenantID⟩ with
      | none => 1
      | some seq => seq + 1
    ((), { T with consistencySeq := T.consistencySeq.insert ⟨projectID, tenantID⟩ seq })

def keyArgs (k : TupleKey) : List GoString :=
  [k.projectID, k.tenantID, k.ns, k.objectID, k.relation] ++ k.subject.columns

def deleteTuple (t : Tuple) : Tx Unit :=
  let key := TupleRow.key ⟨projectID, tenantID, t⟩
  txExec (keyArgs key) fun T => ((), { T with relationTuples := T.relationTuples.erase key })

/-- The parameters have to be JSON that the column takes. -/
def upsertTuple (t : Tuple) : Tx Unit :=
  let key := TupleRow.key ⟨projectID, tenantID, t⟩
  let cols := conditionCols codec t
  if (codec.jsonb cols.2).isSome then
    txExec (keyArgs key ++ [cols.1]) fun T =>
      ((), { T with relationTuples := T.relationTuples.insert key (tupleCells codec t) })
  else throw errDriver

def writeTuplesExec (inserts deletes : List Tuple) : Tx Unit := do
  deletes.forM (deleteTuple projectID tenantID)
  inserts.forM (upsertTuple codec projectID tenantID)
  bumpSeqExec projectID tenantID

def deleteObjectTuples (ns objectID : GoString) : Tx Unit :=
  txExec [projectID, tenantID, objectID] fun T =>
    ((), { T with relationTuples := T.relationTuples.filter fun k _ =>
      ¬ (k.projectID = projectID ∧ k.tenantID = tenantID ∧ k.ns = ns ∧ k.objectID = objectID) })

end Statements

/-! ## Workspaces and memberships -/

def workspaceKey (w : Workspace) : RowKey := ⟨w.projectID, w.tenantID, w.id⟩

/-- The row violates the primary key or `workspaces_personal_uniq`. -/
def violatesUnique (T : Contents) (w : Workspace) : Bool :=
  (T.workspaces.lookup (workspaceKey w)).isSome ||
    (w.type = .personal && T.workspaces.any fun k ex =>
      k.projectID = w.projectID ∧ k.tenantID = w.tenantID ∧ ex.type = .personal ∧
        ex.ownerUserID = w.ownerUserID)

def createWorkspace (w : Workspace) : Tx Unit := do
  let inserted ← txExec [w.projectID, w.tenantID, w.id, w.slug, w.displayName, w.ownerUserID]
    fun T =>
      if violatesUnique T w then (false, T)
      else (true, { T with workspaces := T.workspaces.insert (workspaceKey w) (workspaceRow w) })
  if inserted then return () else throw errAlreadyExists

def deleteWorkspace (projectID tenantID id : GoString) : Tx Unit := do
  let deleted ← txExec [projectID, tenantID, id] fun T =>
    ((T.workspaces.lookup ⟨projectID, tenantID, id⟩).isSome,
      { T with workspaces := T.workspaces.erase ⟨projectID, tenantID, id⟩ })
  if deleted then
    txExec [projectID, tenantID, id] fun T =>
      ((), { T with memberships := T.memberships.filter fun k _ =>
        ¬ (k.projectID = projectID ∧ k.tenantID = tenantID ∧ k.workspaceID = id) })
    txExec [projectID, tenantID, id] fun T =>
      ((), { T with invitations := T.invitations.filter fun k inv =>
        ¬ (k.projectID = projectID ∧ k.tenantID = tenantID ∧ inv.workspaceID = id) })
    deleteObjectTuples projectID tenantID "workspace" id
    bumpSeqExec projectID tenantID
  else throw errNotFound

def membershipKey (m : Membership) : MembershipKey :=
  ⟨m.projectID, m.tenantID, m.workspaceID, m.userID⟩

def putMembershipExec (m : Membership) : Tx Unit :=
  txExec [m.projectID, m.tenantID, m.workspaceID, m.userID] fun T =>
    ((), { T with memberships := T.memberships.insert (membershipKey m) (membershipRow m) })

def deleteMembershipExec (projectID tenantID workspaceID userID : GoString) : Tx Unit := do
  let key : MembershipKey := ⟨projectID, tenantID, workspaceID, userID⟩
  let deleted ← txExec [projectID, tenantID, workspaceID, userID] fun T =>
    ((T.memberships.lookup key).isSome, { T with memberships := T.memberships.erase key })
  if deleted then return () else throw errNotFound

def putMembershipAndTuples (codec : ParamsCodec) (m : Membership) (inserts deletes : List Tuple) :
    Tx Unit := do
  putMembershipExec m
  writeTuplesExec codec m.projectID m.tenantID inserts deletes

def deleteMembershipAndTuples (codec : ParamsCodec)
    (projectID tenantID workspaceID userID : GoString) (deletes : List Tuple) : Tx Unit := do
  deleteMembershipExec projectID tenantID workspaceID userID
  writeTuplesExec codec projectID tenantID [] deletes

/-! ## Groups and enrollments -/

def groupKey (g : Group) : RowKey := ⟨g.projectID, g.tenantID, g.id⟩

def createGroup (g : Group) : Tx Unit := do
  let inserted ← txExec
    [g.projectID, g.tenantID, g.id, g.workspaceID, g.slug, g.displayName, g.createdBy] fun T =>
      if (T.groups.lookup (groupKey g)).isSome then (false, T)
      else (true, { T with groups := T.groups.insert (groupKey g) (groupRow g) })
  if inserted then return () else throw errAlreadyExists

def deleteGroup (projectID tenantID id : GoString) : Tx Unit := do
  let deleted ← txExec [projectID, tenantID, id] fun T =>
    ((T.groups.lookup ⟨projectID, tenantID, id⟩).isSome,
      { T with groups := T.groups.erase ⟨projectID, tenantID, id⟩ })
  if deleted then
    deleteObjectTuples projectID tenantID "group" id
    txExec [projectID, tenantID, id] fun T =>
      ((), { T with enrollments := T.enrollments.filter fun k _ =>
        ¬ (k.projectID = projectID ∧ k.tenantID = tenantID ∧ k.groupID = id) })
    bumpSeqExec projectID tenantID
  else throw errNotFound

def enrollmentRowKey (e : Enrollment) : EnrollmentKey :=
  ⟨e.projectID, e.tenantID, e.groupID, memberKey e.member⟩

def setEnrollmentAndTuples (codec : ParamsCodec) (e : Enrollment) (inserts deletes : List Tuple) :
    Tx Unit := do
  let key := enrollmentRowKey e
  txExec [key.projectID, key.tenantID, key.groupID, key.member.1, key.member.2] fun T =>
    ((), { T with enrollments := T.enrollments.insert key (enrollmentCells e) })
  writeTuplesExec codec e.projectID e.tenantID inserts deletes

/-! ## Seats -/

def skuArgs (q : SkuKey) : List GoString := [q.projectID, q.tenantID, q.sku]

def setSeatLimit (q : SkuKey) : Option ℤ → Tx Unit
  | none => txExec (skuArgs q) fun T => ((), { T with seatLimits := T.seatLimits.erase q })
  | some limit =>
    if isInteger limit then
      txExec (skuArgs q) fun T => ((), { T with seatLimits := T.seatLimits.insert q limit })
    else throw errDriver

def countSeats (T : Contents) (q : SkuKey) : ℕ :=
  T.seatAssignments.count fun k _ => k.toSkuKey = q

/-- Without a row there is no limit. -/
def enforceLimit (q : SkuKey) : Tx Unit := do
  let limit ← txExec (skuArgs q) fun T => (T.seatLimits.lookup q, T)
  match limit with
  | none => return ()
  | some limit =>
    let used ← txExec (skuArgs q) fun T => (countSeats T q, T)
    if (used : ℤ) ≥ limit then throw { kind := .resourceExhausted } else return ()

def insertSeat (a : SeatAssignment) : Tx Unit := do
  let inserted ← txExec (skuArgs (seatKey a).toSkuKey ++ [a.userID]) fun T =>
    if (T.seatAssignments.lookup (seatKey a)).isSome then (false, T)
    else (true, { T with
      seatAssignments := T.seatAssignments.insert (seatKey a) (seatRow a) })
  if inserted then return () else throw errDriver

/-- Whether the seat was held already. The lock has no effect on transactions that run alone. -/
def assignSeatAndTuple (codec : ParamsCodec) (a : SeatAssignment) (tuple : Tuple) : Tx Bool := do
  let q := (seatKey a).toSkuKey
  txExec [seatLockKey q] fun T => ((), T)
  let held ← txExec (skuArgs q ++ [a.userID]) fun T =>
    ((T.seatAssignments.lookup (seatKey a)).isSome, T)
  if held then
    writeTuplesExec codec a.projectID a.tenantID [tuple] []
    return true
  else
    enforceLimit q
    insertSeat a
    writeTuplesExec codec a.projectID a.tenantID [tuple] []
    return false

def revokeSeatAndTuple (codec : ParamsCodec) (k : SeatKey) (tuple : Tuple) : Tx Unit := do
  txExec (skuArgs k.toSkuKey ++ [k.userID]) fun T =>
    ((), { T with seatAssignments := T.seatAssignments.erase k })
  writeTuplesExec codec k.projectID k.tenantID [] [tuple]

/-- How many tuples were deleted. -/
def deleteAllSubjectTuplesInProject (projectID userID : GoString) : Tx ℕ := do
  let n ← txExec [projectID, userID] fun T =>
    (T.relationTuples.count fun k _ => k.ofUser projectID userID,
      { T with relationTuples := T.relationTuples.filter fun k _ => !k.ofUser projectID userID })
  txExec [projectID, userID] fun T =>
    ((), { T with
      seatAssignments := T.seatAssignments.filter fun k _ => !k.ofUser projectID userID })
  return n

/-! ## Queries -/

def scanSubject (c : SubjectCols) : Subject :=
  match c.kind with
  | .set => { set := some ⟨c.ns, c.objectID, c.relation⟩ }
  | .wildcard => { wildcard := true }
  | .user => { userID := c.userID }

def scanTuple (codec : ParamsCodec) (k : TupleKey) (c : TupleCells) :
    Except ServiceError Tuple := do
  let subject := scanSubject k.subject
  let expiresAt := c.expiresAt.map ofMicros
  if c.conditionName = [] then return ⟨k.ns, k.objectID, k.relation, subject, expiresAt⟩
  else
    let params := if c.conditionParams = [] then some ∅ else codec.unmarshal c.conditionParams
    match params with
    | none => throw errDriver
    | some params =>
      let condition := some ⟨c.conditionName, params⟩
      return ⟨k.ns, k.objectID, k.relation, { subject with condition }, expiresAt⟩

/-- `expires_at IS NULL OR expires_at > now()`. -/
def isActive (now : Time) (c : TupleCells) : Bool := c.expiresAt.all (micros now < ·)

/-- What rows are ordered by. A collation gives every text a sort key, and texts with one sort key
are compared by their bytes. -/
def orderBy (collate : GoString → GoString) (columns : List GoString) : List GoString :=
  columns.flatMap fun c => [collate c, c]

def tupleColumns (k : TupleKey) : List GoString :=
  [k.ns, k.objectID, k.relation] ++ k.subject.columns

section Queries

variable (T : Contents) (codec : ParamsCodec) (scan : RowOrder TupleKey)
  (collate : GoString → GoString) (now : Time) (projectID tenantID : GoString)

def listSubjects (n : SubjectSet) : Except ServiceError (List Subject) := do
  let rows ← query [projectID, tenantID, n.ns, n.objectID, n.relation] <|
    T.relationTuples.select scan fun k c =>
      (k.projectID = projectID ∧ k.tenantID = tenantID ∧ k.ns = n.ns ∧ k.objectID = n.objectID ∧
        k.relation = n.relation) && isActive now c
  let tuples ← rows.mapM fun e => scanTuple codec e.1 e.2
  return tuples.map (·.subject)

def listObjectIDs (ns : GoString) : Except ServiceError (List GoString) := do
  let rows ← query [projectID, tenantID, ns] <| T.relationTuples.select scan fun k c =>
    (k.projectID = projectID ∧ k.tenantID = tenantID ∧ k.ns = ns) && isActive now c
  return (rows.map (·.1.objectID)).dedup.insertionSort fun a b =>
    orderBy collate [a] ≤ orderBy collate [b]

def readTuples (f : TupleFilter) : Except ServiceError (List Tuple) := do
  let rows ← query [projectID, tenantID, f.ns, f.objectID, f.relation, f.subjectUserID] <|
    T.relationTuples.select scan fun k c =>
      (k.projectID = projectID ∧ k.tenantID = tenantID ∧ (f.ns = [] ∨ k.ns = f.ns) ∧
        (f.objectID = [] ∨ k.objectID = f.objectID) ∧
        (f.relation = [] ∨ k.relation = f.relation) ∧
        (f.subjectUserID = [] ∨ k.subject.userID = f.subjectUserID)) && isActive now c
  let rows := rows.insertionSort fun a b =>
    orderBy collate (tupleColumns a.1) ≤ orderBy collate (tupleColumns b.1)
  rows.mapM fun e => scanTuple codec e.1 e.2

def getSeatUsage (sku : GoString) : Except ServiceError SeatUsage := do
  let q : SkuKey := ⟨projectID, tenantID, sku⟩
  let used ← query (skuArgs q) (countSeats T q)
  let limit ← query (skuArgs q) (T.seatLimits.lookup q)
  match limit with
  | none => return ⟨sku, used, 0, false⟩
  | some limit => return ⟨sku, used, limit, true⟩

def consistencyToken : Except ServiceError ℤ :=
  query [projectID, tenantID] ((T.consistencySeq.lookup ⟨projectID, tenantID⟩).getD 0)

end Queries

end Serial

/-! ## What writes to the tables -/

/-- The calls that write tuples or what tuples go with. -/
inductive Mutation where
  | writeTuples (projectID tenantID : GoString) (inserts deletes : List Tuple)
  | putMembershipAndTuples (m : Membership) (inserts deletes : List Tuple)
  | deleteMembershipAndTuples (projectID tenantID workspaceID userID : GoString)
      (deletes : List Tuple)
  | setEnrollmentAndTuples (e : Enrollment) (inserts deletes : List Tuple)
  | assignSeatAndTuple (a : SeatAssignment) (tuple : Tuple)
  | revokeSeatAndTuple (projectID tenantID sku userID : GoString) (tuple : Tuple)
  | setSeatLimit (projectID tenantID sku : GoString) (limit : Option ℤ)
  | createWorkspace (w : Workspace)
  | deleteWorkspace (projectID tenantID id : GoString)
  | createGroup (g : Group)
  | deleteGroup (projectID tenantID id : GoString)
  | deleteAllSubjectTuplesInProject (projectID userID : GoString)

def Mutation.call : Mutation → Call
  | .writeTuples projectID tenantID inserts deletes =>
    .writeTuples projectID tenantID inserts deletes
  | .putMembershipAndTuples m inserts deletes => .putMembershipAndTuples m inserts deletes
  | .deleteMembershipAndTuples projectID tenantID workspaceID userID deletes =>
    .deleteMembershipAndTuples projectID tenantID workspaceID userID deletes
  | .setEnrollmentAndTuples e inserts deletes => .setEnrollmentAndTuples e inserts deletes
  | .assignSeatAndTuple a tuple => .assignSeatAndTuple a tuple
  | .revokeSeatAndTuple projectID tenantID sku userID tuple =>
    .revokeSeatAndTuple projectID tenantID sku userID tuple
  | .setSeatLimit projectID tenantID sku limit => .setSeatLimit projectID tenantID sku limit
  | .createWorkspace w => .createWorkspace w
  | .deleteWorkspace projectID tenantID id => .deleteWorkspace projectID tenantID id
  | .createGroup g => .createGroup g
  | .deleteGroup projectID tenantID id => .deleteGroup projectID tenantID id
  | .deleteAllSubjectTuplesInProject projectID userID =>
    .deleteAllSubjectTuplesInProject projectID userID

def Mutation.tx (codec : ParamsCodec) : (m : Mutation) → Tx m.call.Value
  | .writeTuples projectID tenantID inserts deletes =>
    Serial.writeTuplesExec codec projectID tenantID inserts deletes
  | .putMembershipAndTuples m inserts deletes =>
    Serial.putMembershipAndTuples codec m inserts deletes
  | .deleteMembershipAndTuples projectID tenantID workspaceID userID deletes =>
    Serial.deleteMembershipAndTuples codec projectID tenantID workspaceID userID deletes
  | .setEnrollmentAndTuples e inserts deletes =>
    Serial.setEnrollmentAndTuples codec e inserts deletes
  | .assignSeatAndTuple a tuple => Serial.assignSeatAndTuple codec a tuple
  | .revokeSeatAndTuple projectID tenantID sku userID tuple =>
    Serial.revokeSeatAndTuple codec ⟨⟨projectID, tenantID, sku⟩, userID⟩ tuple
  | .setSeatLimit projectID tenantID sku limit =>
    Serial.setSeatLimit ⟨projectID, tenantID, sku⟩ limit
  | .createWorkspace w => Serial.createWorkspace w
  | .deleteWorkspace projectID tenantID id => Serial.deleteWorkspace projectID tenantID id
  | .createGroup g => Serial.createGroup g
  | .deleteGroup projectID tenantID id => Serial.deleteGroup projectID tenantID id
  | .deleteAllSubjectTuplesInProject projectID userID =>
    Serial.deleteAllSubjectTuplesInProject projectID userID

def Mutation.perform (codec : ParamsCodec) (m : Mutation) (T : Contents) :
    Reply m.call × Contents :=
  transact (m.tx codec) T

end Postgres

end WorkspaceAuthz.Service
