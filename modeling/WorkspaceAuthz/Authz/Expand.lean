import WorkspaceAuthz.Authz.Check

/-! # Expansion

`expand` returns the tree of a userset: the operators of its rewrite, with the
stored users and usersets at the leaves. Computed relations and tuple-to-userset
rewrites are expanded in place; stored usersets stay unexpanded. As in `check`,
`left` is `maxDepth + 1 - depth`. Conditions play no role here.
-/
namespace WorkspaceAuthz.Authz
open Go RecursiveFormula

/-- The expanded userset of a relation; `exclude` holds Include and Exclude. -/
structure Tree where
  expanded : SubjectSet
  union : List Tree := []
  intersection : List Tree := []
  exclude : Option (Tree × Tree) := none
  users : List GoString := []
  sets : List SubjectSet := []
  wildcard : Bool := false

/-- An expansion also counts the nodes of its result. -/
abbrev ExpandM (κ μ : Type) := StateT ℕ (EvalM κ μ)

section Backstop

variable {κ μ : Type}

def recordDepth : EvalM κ μ Unit := modify fun st =>
  { st with backstops := { st.backstops with depth := st.backstops.depth + 1 } }

def recordCycle : EvalM κ μ Unit := modify fun st =>
  { st with backstops := { st.backstops with cycle := st.backstops.cycle + 1 } }

/-- Charge `k` nodes against the node cap; a non-positive cap is unbounded. -/
def bump (max : ℤ) (k : ℕ) : ExpandM κ μ Unit := do
  let count ← get
  set (count + k)
  if 0 < max ∧ max < (count + k : ℕ) then throw .expandTooLarge

end Backstop

/-- Sort one stored subject into a leaf. -/
def Tree.addSubject (leaf : Tree) (s : Subject) : Tree :=
  if s.wildcard then { leaf with wildcard := true }
  else match s.set with
    | none => { leaf with users := leaf.users ++ [s.userID] }
    | some set => { leaf with sets := leaf.sets ++ [set] }

/-- The user that a leaf lists for a stored subject. -/
def Subject.leafUser (s : Subject) : Option GoString :=
  if s.wildcard || s.set.isSome then none else some s.userID

/-- The userset that a leaf lists for a stored subject. -/
def Subject.leafSet (s : Subject) : Option SubjectSet := if s.wildcard then none else s.set

theorem Tree.foldl_addSubject (ss : List Subject) (leaf : Tree) :
    ss.foldl Tree.addSubject leaf =
      { leaf with
        users := leaf.users ++ ss.filterMap Subject.leafUser
        sets := leaf.sets ++ ss.filterMap Subject.leafSet
        wildcard := leaf.wildcard || ss.any (·.wildcard) } := by
  induction ss generalizing leaf with
  | nil => cases leaf; simp
  | cons s ss ih =>
    rw [List.foldl_cons, ih]
    cases hw : s.wildcard <;> cases hset : s.set <;>
      simp [Tree.addSubject, Subject.leafUser, Subject.leafSet, hw, hset]

namespace Expand

variable {κ μ : Type} (m : Model) (reader : Reader) (max : ℤ)

def expandThis (n : SubjectSet) : ExpandM κ μ Tree := do
  let subjects ← (listSubjects reader n : EvalM κ μ _)
  bump max subjects.length
  return subjects.foldl Tree.addSubject { expanded := n }

def expandPointers (visit : SubjectSet → ExpandM κ μ Tree) (computedRelation : GoString) :
    List Subject → ExpandM κ μ (List Tree)
  | [] => return []
  | s :: subjects => match s.set with
    | none => expandPointers visit computedRelation subjects
    | some set => do
      let sub ← visit ⟨set.ns, set.objectID, computedRelation⟩
      let subs ← expandPointers visit computedRelation subjects
      return sub :: subs

def expandTupleToUserset (visit : SubjectSet → ExpandM κ μ Tree) (n : SubjectSet)
    (tuplesetRelation computedRelation : GoString) : ExpandM κ μ Tree := do
  let subjects ← (listSubjects reader ⟨n.ns, n.objectID, tuplesetRelation⟩ : EvalM κ μ _)
  let subs ← expandPointers visit computedRelation subjects
  return { expanded := n, union := subs }

mutual

/-- The operators are tried in the source's order; `visit` is `expand` one level down. -/
def expandRewrite (visit : SubjectSet → ExpandM κ μ Tree) (n : SubjectSet) (rw : Rewrite) :
    ExpandM κ μ Tree := do
  bump max 1
  if rw.isThis then expandThis reader max n
  else match rw with
    | ⟨c :: cs, _, _, _, _, _⟩ => do
      let subs ← expandAll visit n (c :: cs)
      return { expanded := n, union := subs }
    | ⟨[], c :: cs, _, _, _, _⟩ => do
      let subs ← expandAll visit n (c :: cs)
      return { expanded := n, intersection := subs }
    | ⟨[], [], some (inc, exc), _, _, _⟩ => do
      let included ← expandRewrite visit n inc
      let excluded ← expandRewrite visit n exc
      return { expanded := n, exclude := some (included, excluded) }
    | ⟨[], [], none, computed, tuplesetRelation, computedRelation⟩ =>
      if computed ≠ [] then visit ⟨n.ns, n.objectID, computed⟩
      else if tuplesetRelation ≠ [] then
        expandTupleToUserset reader visit n tuplesetRelation computedRelation
      else return { expanded := n }

def expandAll (visit : SubjectSet → ExpandM κ μ Tree) (n : SubjectSet) :
    List Rewrite → ExpandM κ μ (List Tree)
  | [] => return []
  | c :: cs => do
    let sub ← expandRewrite visit n c
    let subs ← expandAll visit n cs
    return sub :: subs

end

/-- Expand a node; `visited` are the keys of the nodes that are being expanded. -/
def expand : ℕ → Finset GoString → SubjectSet → ExpandM κ μ Tree
  | 0, _, n => do
    (recordDepth : EvalM κ μ Unit)
    return { expanded := n }
  | left + 1, visited, n =>
    if visitKey n ∈ visited then do
      (recordCycle : EvalM κ μ Unit)
      return { expanded := n }
    else
      expandRewrite reader max (expand left (insert (visitKey n) visited)) n
        (m.rewrite n.ns n.relation)

end Expand

def fanOutHeadroom : ℤ := 2

/-- The read budget of an expansion, which is bounded by the node cap. -/
def expandBudget (base maxNodes : ℤ) : ℤ :=
  if base ≤ 0 then 0
  else if maxNodes * fanOutHeadroom > base then maxNodes * fanOutHeadroom
  else base

def Engine.expandWithModel (e : Engine) (m : Model) (projectID tenantID : GoString)
    (n : SubjectSet) (maxNodes maxReads : ℤ) : Outcome Tree :=
  let run : EvalM GoString GoString Tree := Prod.fst <$>
    Expand.expand m (e.reader projectID tenantID) maxNodes (e.maxDepth + 1) ∅ n 0
  .of (run (newEvalState (expandBudget (e.effectiveMaxReads maxReads) maxNodes)))

end WorkspaceAuthz.Authz
