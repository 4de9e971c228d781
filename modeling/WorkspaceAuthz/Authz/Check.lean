import WorkspaceAuthz.Authz.Conditions
import WorkspaceAuthz.RecursiveFormula.Search

/-! # The evaluator

`check` answers whether the queried subject is in a userset: guards around the
evaluation of the relation's rewrite, which reads stored subjects and checks the
usersets it is referred to. The depth is counted downwards: `left` is
`maxDepth + 1 - depth`, so that `depth > maxDepth` is `left = 0`.
-/
namespace WorkspaceAuthz.Authz
open Go RecursiveFormula

inductive EngineError where
  | evalBudgetExceeded
  | expandTooLarge
  | tooManyObjects
  | reader (message : GoString)
deriving DecidableEq, Repr

/-- `ListSubjects` of one project and tenant. -/
abbrev Reader := SubjectSet → Except GoString (List Subject)

/-- What a check is testing for: a concrete user or a userset. -/
structure SubjectQuery where
  user : GoString := []
  set : Option SubjectSet := none

/-- What stays fixed during one evaluation. -/
structure Request where
  model : Model
  reader : Reader
  q : SubjectQuery
  cc : Context

abbrev EvalM (κ μ : Type) := SearchM κ μ EngineError

def newEvalState {κ μ : Type} (maxReads : ℤ) : SearchState κ μ where
  visited := ∅
  memo := fun _ => none
  maxReads := maxReads

/-- The only access to the store, which counts its calls. -/
def callReader {κ μ : Type} (reader : Reader) (n : SubjectSet) :
    EvalM κ μ (Except GoString (List Subject)) := do
  modify fun st => { st with calls := st.calls + 1 }
  return reader n

def listSubjects {κ μ : Type} (reader : Reader) (n : SubjectSet) : EvalM κ μ (List Subject) := do
  charge .evalBudgetExceeded
  match ← callReader reader n with
  | .ok subjects => pure subjects
  | .error message => throw (.reader message)

theorem listSubjects_eq {κ μ : Type} (reader : Reader) (n : SubjectSet) :
    (listSubjects reader n : EvalM κ μ (List Subject)) = fetch .evalBudgetExceeded >>= fun _ =>
      match reader n with
      | .ok subjects => pure subjects
      | .error message => throw (.reader message) := by
  simp only [listSubjects, callReader, fetch, bind_assoc, pure_bind]

theorem listSubjects_inv {κ μ : Type} {reader : Reader} {n : SubjectSet} {ss : List Subject}
    {st st' : SearchState κ μ} (h : listSubjects reader n st = .ok ss st') :
    reader n = .ok ss ∧ st' = st.fetched 1 := by
  rw [listSubjects_eq] at h
  obtain ⟨_, s, hfetch, hrun⟩ := bind_ok.mp h
  cases hread : reader n with
  | ok subjects =>
    rw [hread] at hrun
    cases hrun
    exact ⟨rfl, fetch_ok hfetch⟩
  | error message =>
    rw [hread] at hrun
    cases hrun

theorem listSubjects_granted {κ μ : Type} {reader : Reader} {n : SubjectSet} {ss : List Subject}
    {st : SearchState κ μ} (hread : reader n = .ok ss)
    (h : ¬ (0 < st.maxReads ∧ st.maxReads < (st.reads + 1 : ℕ))) :
    listSubjects reader n st = .ok ss (st.fetched 1) := by
  rw [listSubjects_eq, hread]
  exact bind_ok.mpr ⟨(), _, fetch_granted h, rfl⟩

namespace Request

variable {κ μ : Type} (r : Request)

def rewrite (n : SubjectSet) : Rewrite := r.model.rewrite n.ns n.relation

def evalSubjects (visit : SubjectSet → Bool → EvalM κ μ Bool) (negated : Bool) :
    List Subject → EvalM κ μ Bool
  | [] => pure false
  | s :: subjects =>
    if !evalCondition s.condition r.cc then evalSubjects visit negated subjects
    else if s.wildcard then pure true
    else match s.set with
      | none =>
        if r.q.user ≠ [] ∧ s.userID = r.q.user then pure true
        else evalSubjects visit negated subjects
      | some set =>
        if r.q.set = some set then pure true
        else do
          let ok ← visit set negated
          if ok then pure true else evalSubjects visit negated subjects

def evalThis (visit : SubjectSet → Bool → EvalM κ μ Bool) (n : SubjectSet) (negated : Bool) :
    EvalM κ μ Bool := do
  let subjects ← listSubjects r.reader n
  r.evalSubjects visit negated subjects

def evalPointers (visit : SubjectSet → Bool → EvalM κ μ Bool) (computedRelation : GoString)
    (negated : Bool) : List Subject → EvalM κ μ Bool
  | [] => pure false
  | s :: subjects =>
    if !evalCondition s.condition r.cc then evalPointers visit computedRelation negated subjects
    else match s.set with
      | none => evalPointers visit computedRelation negated subjects
      | some set => do
        let ok ← visit ⟨set.ns, set.objectID, computedRelation⟩ negated
        if ok then pure true else evalPointers visit computedRelation negated subjects

def evalTupleToUserset (visit : SubjectSet → Bool → EvalM κ μ Bool) (n : SubjectSet)
    (tuplesetRelation computedRelation : GoString) (negated : Bool) : EvalM κ μ Bool := do
  let subjects ← listSubjects r.reader ⟨n.ns, n.objectID, tuplesetRelation⟩
  r.evalPointers visit computedRelation negated subjects

mutual

/-- The operators are tried in the source's order; `visit` is `check` one level down. -/
def evalRewrite (visit : SubjectSet → Bool → EvalM κ μ Bool) (n : SubjectSet) (rw : Rewrite)
    (negated : Bool) : EvalM κ μ Bool :=
  if rw.isThis then r.evalThis visit n negated
  else match rw with
    | ⟨c :: cs, _, _, _, _, _⟩ => evalUnion visit n (c :: cs) negated
    | ⟨[], c :: cs, _, _, _, _⟩ =>
      if r.q.set.isSome then pure false else evalIntersection visit n (c :: cs) negated
    | ⟨[], [], some (inc, exc), _, _, _⟩ =>
      if r.q.set.isSome then pure false
      else do
        let ok ← evalRewrite visit n inc negated
        if ok then
          let excluded ← evalRewrite visit n exc (!negated)
          pure (!excluded)
        else pure false
    | ⟨[], [], none, computed, tuplesetRelation, computedRelation⟩ =>
      if computed ≠ [] then visit ⟨n.ns, n.objectID, computed⟩ negated
      else if tuplesetRelation ≠ [] then
        r.evalTupleToUserset visit n tuplesetRelation computedRelation negated
      else pure false

def evalUnion (visit : SubjectSet → Bool → EvalM κ μ Bool) (n : SubjectSet) :
    List Rewrite → Bool → EvalM κ μ Bool
  | [], _ => pure false
  | c :: cs, negated => do
    let ok ← evalRewrite visit n c negated
    if ok then pure true else evalUnion visit n cs negated

def evalIntersection (visit : SubjectSet → Bool → EvalM κ μ Bool) (n : SubjectSet) :
    List Rewrite → Bool → EvalM κ μ Bool
  | [], _ => pure true
  | c :: cs, negated => do
    let ok ← evalRewrite visit n c negated
    if ok then evalIntersection visit n cs negated else pure false

end

/-- Evaluate a relation under the cycle guard, the depth guard and the memo. -/
def check [DecidableEq κ] [DecidableEq μ] (K : Keying SubjectSet κ μ) :
    ℕ → SubjectSet → Bool → EvalM κ μ Bool
  | 0, n, negated => guarded K n negated none
  | left + 1, n, negated =>
    guarded K n negated (some (r.evalRewrite (check K left) n (r.rewrite n) negated))

end Request

/-! ## Keys -/

def visitKey (n : SubjectSet) : GoString := n.ns ++ str ":" ++ n.objectID ++ str "#" ++ n.relation

def formatBool (b : Bool) : GoString := if b then str "true" else str "false"

def memoKey (key : GoString) (negated : Bool) : GoString := key ++ [0x1f] ++ formatBool negated

theorem memoKey_inj {key key' : GoString} {negated negated' : Bool}
    (h : memoKey key negated = memoKey key' negated') : key = key' ∧ negated = negated' := by
  have htrue : formatBool true = [116, 114, 117, 101] := rfl
  have hfalse : formatBool false = [102, 97, 108, 115, 101] := rfl
  -- The two words differ in their third byte from the end.
  have hrev := congrArg List.reverse h
  cases negated <;> cases negated' <;> simp [memoKey, htrue, hfalse] at hrev ⊢
  · exact hrev
  · exact hrev

def stringKeys : Keying SubjectSet GoString GoString where
  visitKey := visitKey
  memoKey key negated := some (memoKey key negated)
  memoKey_inj h h' := memoKey_inj (Option.some.inj (h.trans h'.symm))

/-! ## Requests -/

def maxRecursionDepth : ℕ := 32

/-- The configuration of an engine and the tuple store it reads, by project and tenant. -/
structure Engine where
  reader : GoString → GoString → Reader
  maxDepth : ℕ := maxRecursionDepth
  maxReads : ℤ := 0
  maxListObjects : ℤ := 0

/-- A positive override of the request replaces the configured read budget. -/
def Engine.effectiveMaxReads (e : Engine) (override : ℤ) : ℤ :=
  if override > 0 then override else e.maxReads

def Engine.request (e : Engine) (m : Model) (projectID tenantID userID : GoString)
    (cc : Context) : Request :=
  ⟨m, e.reader projectID tenantID, { user := userID }, cc⟩

/-- What a caller observes: the result, and the guards that fired. -/
structure Outcome (α : Type) where
  result : Except EngineError α
  backstops : Backstops
deriving DecidableEq

def Outcome.of {κ μ α : Type} : EStateM.Result EngineError (SearchState κ μ) α → Outcome α
  | .ok a st => ⟨.ok a, st.backstops⟩
  | .error err st => ⟨.error err, st.backstops⟩

variable {κ μ : Type}

theorem Outcome.of_result_ok {α : Type} {x : EStateM.Result EngineError (SearchState κ μ) α}
    {a : α} (h : (Outcome.of x).result = .ok a) :
    ∃ st, x = .ok a st ∧ (Outcome.of x).backstops = st.backstops := by
  cases x with
  | ok b st =>
    cases h
    exact ⟨st, rfl, rfl⟩
  | error err st => cases h

variable [DecidableEq κ] [DecidableEq μ]

/-- `CheckWithModel`, for any way of keying nodes. -/
def Engine.checkWithKeys (K : Keying SubjectSet κ μ) (e : Engine) (m : Model)
    (projectID tenantID : GoString) (n : SubjectSet) (userID : GoString) (cc : Context)
    (maxReads : ℤ) : Outcome Bool :=
  .of ((e.request m projectID tenantID userID cc).check K (e.maxDepth + 1) n false
    (newEvalState (e.effectiveMaxReads maxReads)))

def Engine.checkWithModel (e : Engine) (m : Model) (projectID tenantID : GoString)
    (n : SubjectSet) (userID : GoString) (cc : Context) (maxReads : ℤ) : Outcome Bool :=
  e.checkWithKeys stringKeys m projectID tenantID n userID cc maxReads

end WorkspaceAuthz.Authz
