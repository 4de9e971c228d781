import WorkspaceAuthz.Service.Repository
import WorkspaceAuthz.Service.Tuples

/-! # Tuples and subjects

The requests that write tuples as they are given, take all grants from a user, and
export them. Tuples are validated first, and inserts go only to relations of
which checks read the tuples.
-/
namespace WorkspaceAuthz.Service
open Go Authz Interleaving

structure TupleOp where
  delete : Bool
  tuple : Tuple

/-- A grant of a subject; a direct one has no group. -/
structure SubjectGrant where
  tenantID : GoString
  ns : GoString
  objectID : GoString
  relation : GoString
  viaGroup : GoString := []
deriving DecidableEq, Repr

variable (p : Principal)

/-- The sequence number of the shard after the write is what the returned token encodes. -/
def writeTuples (ops : List TupleOp) : ServiceM ℤ := do
  checked (ops.forM fun op => validateTuple op.tuple)
  let inserts := (ops.filter fun op => !op.delete).map (·.tuple)
  let deletes := (ops.filter (·.delete)).map (·.tuple)
  call (.ensureProjectActive p)
  if inserts ≠ [] then
    let m ← call (.modelOrDefault p)
    checked (inserts.forM fun t => if m.writableRelation t.ns t.relation then .ok ()
      else .error ⟨.invalidArgument,
        "relation %s#%s is computed-only and cannot be written directly", [t.ns, t.relation]⟩)
  call (.writeTuples p.projectID p.tenantID inserts deletes)
  call (.consistencyToken p.projectID p.tenantID)

/-- How many tuples were deleted. -/
def deprovisionUser (userID : GoString) : ServiceM ℕ := do
  if userID = [] then throw ⟨.invalidArgument, "user_id is required", []⟩
  call (.ensureRegion p)
  call (.deleteAllSubjectTuplesInProject p.projectID userID)

def directGrant (ta : TupleAt) : SubjectGrant :=
  ⟨ta.tenantID, ta.tuple.ns, ta.tuple.objectID, ta.tuple.relation, []⟩

def groupGrant (ta : TupleAt) : SubjectGrant :=
  ⟨ta.tenantID, ta.tuple.ns, ta.tuple.objectID, ta.tuple.relation,
    (ta.tuple.subject.set.map (·.objectID)).getD []⟩

/-- The userset of a group, if the tuple makes somebody a member. -/
def memberOf? (t : Tuple) : Option SubjectSet :=
  if t.ns = str "group" ∧ t.relation = str "member" then some ⟨"group", t.objectID, "member"⟩
  else none

def exportSubjectGrants (userID : GoString) : ServiceM (List SubjectGrant) := do
  if userID = [] then throw ⟨.invalidArgument, "user_id is required", []⟩
  call (.ensureRegion p)
  let direct ← call (.listSubjectTuplesInProject p.projectID userID)
  let groupSets := direct.filterMap fun ta => memberOf? ta.tuple
  if groupSets = [] then return direct.map directGrant
  else
    let viaGroup ← call (.listTuplesForSubjectSetsInProject p.projectID groupSets)
    return direct.map directGrant ++ viaGroup.map groupGrant

end WorkspaceAuthz.Service
