import WorkspaceAuthz.Authz.Check
import WorkspaceAuthz.Interleaving.Runs
import WorkspaceAuthz.Service.MemoryGroups

/-! # Calls of the service

What a request does besides computing: calls of the repository, each one atomic,
checks by the engine, a look at the project, at the clock and at the source of
random ids. A check reads the store at several moments, and projects are cached;
so the verdicts of both are left to the environment, as are time and ids.
-/
namespace WorkspaceAuthz.Service
open Go Authz Interleaving

inductive Call where
  | createProject (p : Project)
  | getProject (id : GoString)
  | updateProject (p : Project)
  | listProjects
  | writeTuples (projectID tenantID : GoString) (inserts deletes : List Tuple)
  | consistencyToken (projectID tenantID : GoString)
  | listSubjects (projectID tenantID : GoString) (n : SubjectSet)
  | listObjectIDs (projectID tenantID ns : GoString)
  | readTuples (projectID tenantID : GoString) (f : TupleFilter)
  | deleteAllSubjectTuplesInProject (projectID userID : GoString)
  | listSubjectTuplesInProject (projectID userID : GoString)
  | listTuplesForSubjectSetsInProject (projectID : GoString) (sets : List SubjectSet)
  | createWorkspace (w : Workspace)
  | getWorkspace (projectID tenantID id : GoString)
  | updateWorkspace (w : Workspace)
  | deleteWorkspace (projectID tenantID id : GoString)
  | personalWorkspace (projectID tenantID userID : GoString)
  | workspacesForUser (projectID tenantID userID : GoString)
  | getMembership (projectID tenantID workspaceID userID : GoString)
  | listMembers (projectID tenantID workspaceID : GoString)
  | putMembership (m : Membership)
  | deleteMembership (projectID tenantID workspaceID userID : GoString)
  | putMembershipAndTuples (m : Membership) (inserts deletes : List Tuple)
  | deleteMembershipAndTuples (projectID tenantID workspaceID userID : GoString)
      (deletes : List Tuple)
  | createInvitation (inv : Invitation)
  | getInvitation (projectID tenantID id : GoString)
  | getInvitationByTokenHash (projectID tenantID tokenHash : GoString)
  | updateInvitation (inv : Invitation)
  | listInvitations (projectID tenantID workspaceID : GoString)
  | createGroup (g : Group)
  | getGroup (projectID tenantID id : GoString)
  | listGroups (projectID tenantID workspaceID : GoString)
  | deleteGroup (projectID tenantID id : GoString)
  | setEnrollmentAndTuples (e : Enrollment) (inserts deletes : List Tuple)
  | getEnrollment (projectID tenantID groupID : GoString) (member : GroupMember)
  | listEnrollments (projectID tenantID groupID : GoString)
  | setSeatLimit (projectID tenantID sku : GoString) (limit : Option ℤ)
  | getSeatUsage (projectID tenantID sku : GoString)
  | assignSeatAndTuple (a : SeatAssignment) (tuple : Tuple)
  | revokeSeatAndTuple (projectID tenantID sku userID : GoString) (tuple : Tuple)
  | listSeats (projectID tenantID sku : GoString)
  | check (p : Principal) (n : SubjectSet)
  | ensureProjectActive (p : Principal)
  | ensureRegion (p : Principal)
  | modelOrDefault (p : Principal)
  | now
  | newID
  | randToken

/-- What a call returns if it does not fail. -/
abbrev Call.Value : Call → Type
  | .getProject _ => Project
  | .listProjects => List Project
  | .consistencyToken .. => ℤ
  | .listSubjects .. => List Subject
  | .listObjectIDs .. => List GoString
  | .readTuples .. => List Tuple
  | .deleteAllSubjectTuplesInProject .. => ℕ
  | .listSubjectTuplesInProject .. | .listTuplesForSubjectSetsInProject .. => List TupleAt
  | .getWorkspace .. | .personalWorkspace .. => Workspace
  | .workspacesForUser .. => List Workspace
  | .getMembership .. => Membership
  | .listMembers .. => List Membership
  | .getInvitation .. | .getInvitationByTokenHash .. => Invitation
  | .listInvitations .. => List Invitation
  | .getGroup .. => Group
  | .listGroups .. => List Group
  | .getEnrollment .. => Enrollment
  | .listEnrollments .. => List Enrollment
  | .getSeatUsage .. => SeatUsage
  | .listSeats .. => List SeatAssignment
  | .assignSeatAndTuple .. | .check .. => Bool
  | .modelOrDefault _ => Model
  | .now => Time
  | .newID | .randToken => GoString
  | .createProject _ | .updateProject _ | .writeTuples .. | .createWorkspace _
  | .updateWorkspace _ | .deleteWorkspace .. | .putMembership _ | .deleteMembership ..
  | .putMembershipAndTuples .. | .deleteMembershipAndTuples .. | .createInvitation _
  | .updateInvitation _ | .createGroup _ | .deleteGroup .. | .setEnrollmentAndTuples ..
  | .setSeatLimit .. | .revokeSeatAndTuple .. | .ensureProjectActive _ | .ensureRegion _ => Unit

abbrev Reply (call : Call) : Type := Except ServiceError call.Value

/-- What the environment of a call decides. -/
structure Env where
  allowed : Except ServiceError Bool := .ok true
  active : Except ServiceError Unit := .ok ()
  region : Except ServiceError Unit := .ok ()
  model : Except ServiceError Model := .ok defaultModel
  now : Time := 0
  id : GoString := str "id"
  token : GoString := str "token"
  order : MapOrder := .ascending

def exec (env : Env) : (call : Call) → Store → Reply call × Store
  | .createProject p, s => s.createProject p
  | .getProject id, s => (s.getProject id, s)
  | .updateProject p, s => s.updateProject p
  | .listProjects, s => (.ok (s.listProjects env.order), s)
  | .writeTuples projectID tenantID inserts deletes, s =>
    (.ok (), s.writeTuples projectID tenantID inserts deletes)
  | .consistencyToken projectID tenantID, s => (.ok (s.consistencyToken projectID tenantID), s)
  | .listSubjects projectID tenantID n, s =>
    (.ok (s.listSubjects env.order env.now projectID tenantID n), s)
  | .listObjectIDs projectID tenantID ns, s =>
    (.ok (s.listObjectIDs env.order env.now projectID tenantID ns), s)
  | .readTuples projectID tenantID f, s =>
    (.ok (s.readTuples env.order env.now projectID tenantID f), s)
  | .deleteAllSubjectTuplesInProject projectID userID, s =>
    let (n, s) := s.deleteAllSubjectTuplesInProject projectID userID
    (.ok n, s)
  | .listSubjectTuplesInProject projectID userID, s =>
    (.ok (s.listSubjectTuplesInProject env.order env.now projectID userID), s)
  | .listTuplesForSubjectSetsInProject projectID sets, s =>
    (.ok (s.listTuplesForSubjectSetsInProject env.order env.now projectID sets), s)
  | .createWorkspace w, s => s.createWorkspace w
  | .getWorkspace projectID tenantID id, s => (s.getWorkspace projectID tenantID id, s)
  | .updateWorkspace w, s => s.updateWorkspace w
  | .deleteWorkspace projectID tenantID id, s => s.deleteWorkspace projectID tenantID id
  | .personalWorkspace projectID tenantID userID, s =>
    (s.personalWorkspace env.order projectID tenantID userID, s)
  | .workspacesForUser projectID tenantID userID, s =>
    (.ok (s.workspacesForUser env.order projectID tenantID userID), s)
  | .getMembership projectID tenantID workspaceID userID, s =>
    (s.getMembership projectID tenantID workspaceID userID, s)
  | .listMembers projectID tenantID workspaceID, s =>
    (.ok (s.listMembers env.order projectID tenantID workspaceID), s)
  | .putMembership m, s => (.ok (), s.putMembership m)
  | .deleteMembership projectID tenantID workspaceID userID, s =>
    s.deleteMembership projectID tenantID workspaceID userID
  | .putMembershipAndTuples m inserts deletes, s =>
    (.ok (), s.putMembershipAndTuples m inserts deletes)
  | .deleteMembershipAndTuples projectID tenantID workspaceID userID deletes, s =>
    s.deleteMembershipAndTuples projectID tenantID workspaceID userID deletes
  | .createInvitation inv, s => s.createInvitation inv
  | .getInvitation projectID tenantID id, s => (s.getInvitation projectID tenantID id, s)
  | .getInvitationByTokenHash projectID tenantID tokenHash, s =>
    (s.getInvitationByTokenHash env.order projectID tenantID tokenHash, s)
  | .updateInvitation inv, s => s.updateInvitation inv
  | .listInvitations projectID tenantID workspaceID, s =>
    (.ok (s.listInvitations env.order projectID tenantID workspaceID), s)
  | .createGroup g, s => s.createGroup g
  | .getGroup projectID tenantID id, s => (s.getGroup projectID tenantID id, s)
  | .listGroups projectID tenantID workspaceID, s =>
    (.ok (s.listGroups env.order projectID tenantID workspaceID), s)
  | .deleteGroup projectID tenantID id, s => s.deleteGroup projectID tenantID id
  | .setEnrollmentAndTuples e inserts deletes, s =>
    (.ok (), s.setEnrollmentAndTuples e inserts deletes)
  | .getEnrollment projectID tenantID groupID member, s =>
    (s.getEnrollment projectID tenantID groupID member, s)
  | .listEnrollments projectID tenantID groupID, s =>
    (.ok (s.listEnrollments env.order projectID tenantID groupID), s)
  | .setSeatLimit projectID tenantID sku limit, s =>
    (.ok (), s.setSeatLimit projectID tenantID sku limit)
  | .getSeatUsage projectID tenantID sku, s => (.ok (s.getSeatUsage projectID tenantID sku), s)
  | .assignSeatAndTuple a tuple, s => s.assignSeatAndTuple a tuple
  | .revokeSeatAndTuple projectID tenantID sku userID tuple, s =>
    (.ok (), s.revokeSeatAndTuple projectID tenantID sku userID tuple)
  | .listSeats projectID tenantID sku, s =>
    (.ok (s.listSeats env.order projectID tenantID sku), s)
  | .check _ _, s => (env.allowed, s)
  | .ensureProjectActive _, s => (env.active, s)
  | .ensureRegion _, s => (env.region, s)
  | .modelOrDefault _, s => (env.model, s)
  | .now, s => (.ok env.now, s)
  | .newID, s => (.ok env.id, s)
  | .randToken, s => (.ok env.token, s)

/-- The calls that leave the store as it is, whatever it is. -/
def Call.Quiet : Call → Prop
  | .createProject _ | .updateProject _ | .writeTuples .. | .deleteAllSubjectTuplesInProject ..
  | .createWorkspace _ | .updateWorkspace _ | .deleteWorkspace .. | .putMembership _
  | .deleteMembership .. | .putMembershipAndTuples .. | .deleteMembershipAndTuples ..
  | .createInvitation _ | .updateInvitation _ | .createGroup _ | .deleteGroup ..
  | .setEnrollmentAndTuples .. | .setSeatLimit .. | .assignSeatAndTuple ..
  | .revokeSeatAndTuple .. => False
  | _ => True

theorem exec_of_quiet {c : Call} (h : c.Quiet) (env : Env) (s : Store) : (exec env c s).2 = s := by
  cases c <;> first | rfl | exact h.elim

/-- The calls that leave tuples and seats as they are. -/
def Call.LeavesTuples : Call → Prop
  | .writeTuples .. | .deleteAllSubjectTuplesInProject .. | .deleteWorkspace ..
  | .putMembershipAndTuples .. | .deleteMembershipAndTuples .. | .deleteGroup ..
  | .setEnrollmentAndTuples .. | .assignSeatAndTuple .. | .revokeSeatAndTuple .. => False
  | _ => True

theorem exec_of_leavesTuples {c : Call} (h : c.LeavesTuples) (env : Env) (s : Store) :
    (exec env c s).2.tuples = s.tuples ∧ (exec env c s).2.seatAssigns = s.seatAssigns ∧
      (exec env c s).2.seqs = s.seqs := by
  have hite : ∀ (b : Bool) (r r' : Except ServiceError Unit) (s' : Store),
      s'.tuples = s.tuples ∧ s'.seatAssigns = s.seatAssigns ∧ s'.seqs = s.seqs →
        (if b then (r, s) else (r', s')).2.tuples = s.tuples ∧
          (if b then (r, s) else (r', s')).2.seatAssigns = s.seatAssigns ∧
          (if b then (r, s) else (r', s')).2.seqs = s.seqs := by
    intro b r r' s' hs'
    cases b
    · exact hs'
    · exact ⟨rfl, rfl, rfl⟩
  cases c with
  | createProject p => exact hite _ _ _ _ ⟨rfl, rfl, rfl⟩
  | updateProject p => exact hite _ _ _ _ ⟨rfl, rfl, rfl⟩
  | createWorkspace w =>
    rw [exec, Store.createWorkspace]
    split_ifs <;> exact ⟨rfl, rfl, rfl⟩
  | updateWorkspace w => exact hite _ _ _ _ ⟨rfl, rfl, rfl⟩
  | deleteMembership projectID tenantID workspaceID userID => exact hite _ _ _ _ ⟨rfl, rfl, rfl⟩
  | createInvitation inv => exact hite _ _ _ _ ⟨rfl, rfl, rfl⟩
  | updateInvitation inv => exact hite _ _ _ _ ⟨rfl, rfl, rfl⟩
  | createGroup g => exact hite _ _ _ _ ⟨rfl, rfl, rfl⟩
  | setSeatLimit projectID tenantID sku limit => cases limit <;> exact ⟨rfl, rfl, rfl⟩
  | _ => first | exact ⟨rfl, rfl, rfl⟩ | exact h.elim

/-- The process at `i` makes `n` calls, in an environment that grants what is asked. -/
def steps (n i : ℕ) : List (ℕ × Env) := List.replicate n (i, {})

abbrev ServiceM := Attempts Call ServiceError Call.Value

abbrev CallTrace := Trace Call Reply

def defaultMaxCheckReads : ℤ := 5000

/-- The least budget of reads that can be configured, globally or for a project. -/
def minMaxCheckReads : ℤ := 100

/-- The verdict of an engine that finds the store in one state throughout. -/
def Store.allows (s : Store) (order : MapOrder) (now : Time) (p : Principal) (n : SubjectSet) :
    Bool :=
  let e : Engine := {
    reader := fun projectID tenantID n => .ok (s.listSubjects order now projectID tenantID n)
    maxReads := defaultMaxCheckReads }
  (e.checkWithModel defaultModel p.projectID p.tenantID n p.userID ∅ 0).result.toOption = some true

/-- Make a call, and give up if it fails. -/
abbrev call (c : Call) : ServiceM c.Value := attempt c

/-- The result of a check that needs no call. -/
abbrev checked {α : Type} (r : Except ServiceError α) : ServiceM α := settled r

abbrev tryCall (c : Call) : ServiceM (Except ServiceError c.Value) := observe c

/-- A workspace that the caller has at least the given relation on. -/
def requireWorkspace (p : Principal) (workspaceID : GoString) (rel : Role) :
    ServiceM Workspace := do
  let w ← call (.getWorkspace p.projectID p.tenantID workspaceID)
  let ok ← call (.check p ⟨"workspace", workspaceID, rel.name⟩)
  if !ok then throw ⟨.permissionDenied, "requires %s on workspace", [rel.name]⟩
  return w

theorem keeps_requireWorkspace {P : Protocol Call Reply} {p : Principal} {workspaceID : GoString}
    {rel : Role} {trace : CallTrace} {Q : CallTrace → Except ServiceError Workspace → Prop}
    (hget : P.issues trace (.getWorkspace p.projectID p.tenantID workspaceID))
    (hcheck : ∀ t, P.issues t (.check p ⟨"workspace", workspaceID, rel.name⟩))
    (hok : ∀ w, P.relies trace (.getWorkspace p.projectID p.tenantID workspaceID) (.ok w) →
      Q (⟨.check p ⟨"workspace", workspaceID, rel.name⟩, .ok true⟩ ::
        ⟨.getWorkspace p.projectID p.tenantID workspaceID, .ok w⟩ :: trace) (.ok w))
    (hmissing : ∀ e, Q (⟨.getWorkspace p.projectID p.tenantID workspaceID, .error e⟩ :: trace)
      (.error e))
    (hdenied : ∀ w r e, Q (⟨.check p ⟨"workspace", workspaceID, rel.name⟩, r⟩ ::
        ⟨.getWorkspace p.projectID p.tenantID workspaceID, .ok w⟩ :: trace) (.error e)) :
    (requireWorkspace p workspaceID rel).run.Keeps P Q trace := by
  refine keeps_attempt_then hget (fun e _ => hmissing e) fun w hw => ?_
  refine keeps_attempt_then (hcheck _) (fun _ _ => hdenied _ _ _) fun ok _ => ?_
  cases ok with
  | false => exact hdenied _ _ _
  | true => exact hok w hw

theorem conforms_requireWorkspace {P : Protocol Call Reply} {p : Principal} {workspaceID : GoString}
    {rel : Role} (hget : ∀ t, P.issues t (.getWorkspace p.projectID p.tenantID workspaceID))
    (hcheck : ∀ t resource, P.issues t (.check p resource)) :
    Conforms P (fun _ => True) (requireWorkspace p workspaceID rel) :=
  .bind (.step hget) fun _ => .bind (.step fun t => hcheck t _) fun _ =>
    .ite (fun _ => .throw) fun _ => .pure

end WorkspaceAuthz.Service
