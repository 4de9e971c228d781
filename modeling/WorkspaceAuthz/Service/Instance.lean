import WorkspaceAuthz.Authz.ListObjects
import WorkspaceAuthz.Service.Privileges
import WorkspaceAuthz.Service.Resolver

/-! # Instances

An instance serves the projects of its region, and those that are not pinned to any. What
it makes of a project it takes from the row of the project: the region, whether the
project is suspended, its model and its budget of reads. Here nothing is cached.
-/
namespace WorkspaceAuthz.Service
open Go Authz Interleaving

structure Instance where
  dataRegion : GoString := []
  maxListObjects : ℕ := 1000
  maxExpandNodes : ℕ := 10000
  maxCheckReads : ℤ := defaultMaxCheckReads

/-- What the environment decides about an evaluation, besides what it decides about calls: every
read has an order and a time of its own. -/
structure EvalEnv extends Env where
  readOrder : SubjectSet → MapOrder := fun _ => .ascending
  readTime : SubjectSet → Time := fun _ => 0

/-- The questions that the engine answers. -/
inductive Query where
  | check (n : SubjectSet) (subjectUserID : GoString) (reqContext : Context)
  | checkSet (n set : SubjectSet) (reqContext : Context)
  | expand (n : SubjectSet)
  | listObjects (ns relation subjectUserID : GoString)

abbrev Query.Answer : Query → Type
  | .check .. | .checkSet .. => Bool
  | .expand _ => Tree
  | .listObjects .. => List GoString

namespace Instance

variable (inst : Instance) (env : EvalEnv) (s : Store) (p : Principal)

def resolve (projectID : GoString) : Resolution :=
  ((load projectID).run.outcome exec env.toEnv s).1

def regionServable (res : Resolved) : Except ServiceError Unit :=
  if inst.dataRegion = [] ∨ res.dataRegion = [] ∨ res.dataRegion = inst.dataRegion then .ok ()
  else .error ⟨.failedPrecondition, str "data region not servable by this instance: " ++
    str "project %q is pinned to data region %q; this instance serves %q",
    [p.projectID, res.dataRegion, inst.dataRegion]⟩

def errSuspended : ServiceError :=
  ⟨.failedPrecondition, "project %q is suspended", [p.projectID]⟩

/-- An instance without a region does not look. -/
def ensureRegion : Except ServiceError Unit := do
  if inst.dataRegion = [] then return ()
  let res ← resolve env s p.projectID
  inst.regionServable p res

def ensureProjectActive : Except ServiceError Unit := do
  let res ← resolve env s p.projectID
  inst.regionServable p res
  if res.suspended then throw (errSuspended p)

def engine : Engine where
  reader := s.reader env.readOrder env.readTime
  maxReads := inst.maxCheckReads
  maxListObjects := inst.maxListObjects

/-- `allowed`: the budget of the project is not asked for. -/
def allowed (n : SubjectSet) : Except ServiceError Bool := do
  let res ← resolve env s p.projectID
  ((inst.engine env s).checkWithModel res.modelOrDefault p.projectID p.tenantID n p.userID ∅
    0).result.mapError mapBudgetErr

/-- The project that a question is about, unless it lies in another region. -/
def servable : Except ServiceError Resolved := do
  let res ← resolve env s p.projectID
  inst.regionServable p res
  return res

/-- A suspended project denies every check and answers no other question. -/
def evaluate : (q : Query) → Except ServiceError q.Answer
  | .check n subjectUserID reqContext => do
    if n.ns = [] ∨ n.objectID = [] ∨ n.relation = [] ∨ subjectUserID = [] then
      throw ⟨.invalidArgument, "namespace, object_id, relation, subject_user_id are required", []⟩
    let res ← inst.servable env s p
    if res.suspended then return false
    ((inst.engine env s).checkWithModel res.modelOrDefault p.projectID p.tenantID n subjectUserID
      reqContext res.maxCheckReads).result.mapError mapBudgetErr
  | .checkSet n set reqContext => do
    if n.ns = [] ∨ n.objectID = [] ∨ n.relation = [] then
      throw ⟨.invalidArgument, "namespace, object_id, relation are required", []⟩
    if set.ns = [] ∨ set.objectID = [] ∨ set.relation = [] then
      throw ⟨.invalidArgument, "subject_set requires namespace, object_id, and relation", []⟩
    let res ← inst.servable env s p
    if res.suspended then return false
    ((inst.engine env s).checkSetWithModel res.modelOrDefault p.projectID p.tenantID n reqContext
      env.order set res.maxCheckReads).result.mapError mapBudgetErr
  | .expand n => do
    if n.ns = [] ∨ n.objectID = [] ∨ n.relation = [] then
      throw ⟨.invalidArgument, "namespace, object_id, relation are required", []⟩
    let res ← inst.servable env s p
    if res.suspended then throw (errSuspended p)
    ((inst.engine env s).expandWithModel res.modelOrDefault p.projectID p.tenantID n
      inst.maxExpandNodes res.maxCheckReads).result.mapError fun
        | .expandTooLarge => ⟨.resourceExhausted,
            "expand result exceeds %d nodes; narrow the query", [itoa inst.maxExpandNodes]⟩
        | err => mapBudgetErr err
  | .listObjects ns relation subjectUserID => do
    if ns = [] ∨ relation = [] ∨ subjectUserID = [] then
      throw ⟨.invalidArgument, "namespace, relation, subject_user_id are required", []⟩
    let res ← inst.servable env s p
    if res.suspended then throw (errSuspended p)
    ((inst.engine env s).listObjectsWithModel res.modelOrDefault p.projectID p.tenantID ns relation
      subjectUserID (s.lister env.order env.now p.projectID p.tenantID) inst.maxListObjects
      res.maxCheckReads).result.mapError fun
        | .tooManyObjects => ⟨.resourceExhausted, str "namespace has more than %d objects; " ++
            str "narrow the query (pagination is a tracked follow-up)", [itoa inst.maxListObjects]⟩
        | err => mapBudgetErr err

/-- A call, where all that is asked about projects is answered by the instance. -/
def serve (c : Call) : Reply c × Store :=
  exec { env.toEnv with
    allowed := match c with
      | .check p n => inst.allowed env s p n
      | _ => env.allowed
    active := match c with
      | .ensureProjectActive p => inst.ensureProjectActive env s p
      | _ => env.active
    region := match c with
      | .ensureRegion p => inst.ensureRegion env s p
      | _ => env.region
    model := match c with
      | .modelOrDefault p => (resolve env s p.projectID).map Resolved.modelOrDefault
      | _ => env.model } c s

end Instance

end WorkspaceAuthz.Service
