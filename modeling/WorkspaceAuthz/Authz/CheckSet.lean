import WorkspaceAuthz.Authz.Expand

/-! # Checks of a userset

A userset has a relation when it is found below the target by the evaluator
itself, or when one of its members has the relation. Members are resolved by a
second evaluator, which expands usersets and computes with sets of users and a
flag for the public. A public set is answered by resolving the target.
-/
namespace WorkspaceAuthz.Authz
open Go RecursiveFormula

/-- Resolved members: the users that were met, and whether everyone is a member. -/
structure Members where
  users : Finset GoString := ∅
  everyone : Bool := false
deriving DecidableEq

def Members.union (a b : Members) : Members := ⟨a.users ∪ b.users, a.everyone || b.everyone⟩

/-- The loop runs over the smaller of the two sets. -/
def intersectUsers (a b : Finset GoString) : Finset GoString :=
  if b.card < a.card then b.filter (· ∈ a) else a.filter (· ∈ b)

section Resolve

variable {κ μ : Type} (m : Model) (reader : Reader)

def collectMembers {α : Type} (resolve : α → EvalM κ μ Members) :
    List α → Members → EvalM κ μ Members
  | [], out => pure out
  | s :: sets, out => do
    let members ← resolve s
    collectMembers resolve sets (out.union members)

mutual

/-- The users that an expanded tree grants; `resolve` is `resolveMembers` one level down. -/
def membersOfTree (resolve : SubjectSet → EvalM κ μ Members) : Tree → EvalM κ μ Members
  | ⟨_, c :: cs, _, _, _, _, _⟩ => membersOfUnion resolve (c :: cs) {}
  | ⟨_, [], c :: cs, _, _, _, _⟩ => do
    match ← membersOfIntersection resolve (c :: cs) none with
    | none => return { everyone := true }
    | some users => return { users }
  | ⟨_, [], [], some (inc, exc), _, _, _⟩ => do
    let included ← membersOfTree resolve inc
    -- Whether everyone is excluded is not looked at.
    let excluded ← membersOfTree resolve exc
    return { users := included.users \ excluded.users, everyone := included.everyone }
  | ⟨_, [], [], none, users, sets, wildcard⟩ =>
    collectMembers resolve sets { users := users.toFinset, everyone := wildcard }

def membersOfUnion (resolve : SubjectSet → EvalM κ μ Members) :
    List Tree → Members → EvalM κ μ Members
  | [], out => pure out
  | c :: cs, out => do
    let members ← membersOfTree resolve c
    membersOfUnion resolve cs (out.union members)

/-- No accumulated users as long as every child was public. -/
def membersOfIntersection (resolve : SubjectSet → EvalM κ μ Members) :
    List Tree → Option (Finset GoString) → EvalM κ μ (Option (Finset GoString))
  | [], acc => pure acc
  | c :: cs, acc => do
    let members ← membersOfTree resolve c
    membersOfIntersection resolve cs (
      if members.everyone then acc
      else match acc with
        | none => some members.users
        | some users => some (intersectUsers users members.users))

end

/-- Resolve a userset; `visited` are the keys of the usersets that are being resolved. -/
def resolveMembers : ℕ → Finset GoString → SubjectSet → EvalM κ μ Members
  | 0, _, _ => do
    recordDepth
    return {}
  | left + 1, visited, set =>
    if visitKey set ∈ visited then do
      recordCycle
      return {}
    else do
      let (tree, _) ← Expand.expand m reader 0 (left + 1) ∅ set 0
      membersOfTree (resolveMembers left (insert (visitKey set) visited)) tree

end Resolve

/-! ## Requests -/

def defaultCheckSetFanOutCandidates : ℤ := 1000

def Engine.maxListObjectsOrDefault (e : Engine) : ℤ :=
  if e.maxListObjects > 0 then e.maxListObjects else defaultCheckSetFanOutCandidates

/-- The read budget of an operation that performs one check per candidate. -/
def Engine.fanOutBudget (e : Engine) (base candidates : ℤ) : ℤ :=
  if base ≤ 0 then 0
  else if candidates * e.maxDepth * fanOutHeadroom > base then
    candidates * e.maxDepth * fanOutHeadroom
  else base

def Engine.setRequest (e : Engine) (m : Model) (projectID tenantID : GoString) (set : SubjectSet)
    (cc : Context) : Request :=
  ⟨m, e.reader projectID tenantID, { set := some set }, cc⟩

section CheckSet

variable (e : Engine) (m : Model) (projectID tenantID : GoString) (n : SubjectSet) (cc : Context)

/-- The loop over the members; every check starts with an empty memo. -/
def Engine.checkMembers : List GoString → EvalM GoString GoString Bool
  | [] => pure false
  | u :: users => do
    modify fun st => { st with visited := ∅, memo := fun _ => none }
    let ok ← (e.request m projectID tenantID u cc).check stringKeys (e.maxDepth + 1) n false
    if ok then pure true else checkMembers users

def Engine.checkSet (order : MapOrder) (set : SubjectSet) : EvalM GoString GoString Bool := do
  let reader := e.reader projectID tenantID
  let ok ← (e.setRequest m projectID tenantID set cc).check stringKeys (e.maxDepth + 1) n false
  if ok then return true
  let members ← resolveMembers m reader (e.maxDepth + 1) ∅ set
  let ok ← e.checkMembers m projectID tenantID n cc (order.list members.users)
  if ok then return true
  if members.everyone then
    let target ← resolveMembers m reader (e.maxDepth + 1) ∅ n
    return target.everyone || decide (0 < target.users.card)
  return false

/-- `CheckSetWithModel`; `order` is the order in which the members are checked. -/
def Engine.checkSetWithModel (order : MapOrder) (set : SubjectSet) (maxReads : ℤ) : Outcome Bool :=
  .of (e.checkSet m projectID tenantID n cc order set
    (newEvalState (e.fanOutBudget (e.effectiveMaxReads maxReads) e.maxListObjectsOrDefault)))

end CheckSet

end WorkspaceAuthz.Authz
