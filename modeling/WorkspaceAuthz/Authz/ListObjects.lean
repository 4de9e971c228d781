import WorkspaceAuthz.Authz.CheckSet

/-! # Listing objects

The objects of a namespace on which a user has a relation: the objects that have
any tuple are checked one by one, on one read budget.
-/
namespace WorkspaceAuthz.Authz
open Go RecursiveFormula

/-- `ListObjectIDs` of one project and tenant. -/
abbrev Lister := GoString → Except GoString (List GoString)

variable (e : Engine) (m : Model) (projectID tenantID ns relation userID : GoString)

/-- The loop over the candidates; every check starts with an empty memo. -/
def Engine.checkObjects : List GoString → EvalM GoString GoString (List GoString)
  | [] => pure []
  | id :: ids => do
    modify fun st => { st with visited := ∅, memo := fun _ => none }
    let ok ← (e.request m projectID tenantID userID ∅).check stringKeys (e.maxDepth + 1)
      ⟨ns, id, relation⟩ false
    let out ← checkObjects ids
    return if ok then id :: out else out

/-- `ListObjectsWithModel`; `lister` is the tuple store as an `ObjectLister`. -/
def Engine.listObjectsWithModel (lister : Lister) (maxObjects maxReads : ℤ) :
    Outcome (List GoString) :=
  match lister ns with
  | .error message => ⟨.error (.reader message), {}⟩
  | .ok ids =>
    if maxObjects > 0 ∧ ids.length > maxObjects then ⟨.error .tooManyObjects, {}⟩
    else
      let candidates := if maxObjects ≤ 0 then (ids.length : ℤ) else maxObjects
      .of (e.checkObjects m projectID tenantID ns relation userID ids
        (newEvalState (e.fanOutBudget (e.effectiveMaxReads maxReads) candidates)))

end WorkspaceAuthz.Authz
