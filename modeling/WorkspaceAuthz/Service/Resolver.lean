import WorkspaceAuthz.Go.SingleFlight
import WorkspaceAuthz.Service.Projects

/-! # The resolver

Every process keeps what it has resolved of projects for a while. Callers who miss a
project at the same time share one load. An update of a project writes the row and then
drops the entry of its own process.
-/
namespace WorkspaceAuthz.Service
open Go Authz Interleaving

/-! ## Resolved projects -/

def resolverTTL : Time := 30 * 1000000000

def resolverMaxEntries : ℕ := 4096

/-- No model stands for the built-in one. -/
structure Resolved where
  model : Option Model := none
  suspended : Bool := false
  dataRegion : GoString := []
  maxCheckReads : ℤ := 0
  loadedAt : Time
deriving DecidableEq

def Resolved.modelOrDefault (e : Resolved) : Model := e.model.getD defaultModel

/-- The namespaces of the project overlay the built-in ones. -/
def Resolved.of (p : Project) (now : Time) : Resolved where
  model := if p.model.size > 0 then some (p.model ∪ defaultModel) else none
  suspended := p.status = .suspended
  dataRegion := p.dataRegion
  maxCheckReads := p.maxCheckReads
  loadedAt := now

def load (projectID : GoString) : ServiceM Resolved := do
  match ← tryCall (.getProject projectID) with
  | .error err =>
    if isNotFound err then
      let now ← call .now
      return { loadedAt := now }
    else throw ⟨err.kind, str "authz: resolve project %q: " ++ err.format, projectID :: err.args⟩
  | .ok p =>
    let now ← call .now
    return .of p now

/-! ## One process -/

abbrev Resolution := Except ServiceError Resolved

structure ResolverState where
  repo : Store
  cache : GoMap Resolved := ∅
  flights : GoString → Flights Resolution := fun _ => {}

/-- What is atomic: calls of the repository, what the resolver does while it holds its lock, and
the steps of `singleflight`. -/
inductive ResolverOp where
  | repo (c : Call)
  | lookup (projectID : GoString)
  | store (projectID : GoString) (e : Resolved)
  | invalidate (projectID : GoString)
  | join (projectID : GoString)
  | land (projectID : GoString) (n : ℕ) (r : Resolution)
  | await (projectID : GoString) (n : ℕ)

abbrev ResolverOp.Reply : ResolverOp → Type
  | .repo c => Service.Reply c
  | .lookup _ => Option Resolved
  | .join _ => Boarding
  | .await .. => Resolution
  | .store .. | .invalidate _ | .land .. => Unit

abbrev ResolverTrace := Trace ResolverOp ResolverOp.Reply

namespace ResolverState

def lookup (st : ResolverState) (now : Time) (projectID : GoString) :
    Option Resolved × ResolverState :=
  match st.cache.get projectID with
  | none => (none, st)
  | some e =>
    if now - e.loadedAt > resolverTTL then
      (none, { st with cache := st.cache.erase projectID })
    else (some e, st)

/-- Expired entries go first, then arbitrary ones until the cache is below its bound. -/
def evict (order : MapOrder) (now : Time) (cache : GoMap Resolved) : GoMap Resolved :=
  let cache := cache.filter fun _ e => ¬ now - e.loadedAt > resolverTTL
  (order.list cache.keys).foldl
    (fun cache k => if cache.size < resolverMaxEntries then cache else cache.erase k) cache

def store (st : ResolverState) (order : MapOrder) (now : Time) (projectID : GoString)
    (e : Resolved) : ResolverState :=
  let cache := if st.cache.size ≥ resolverMaxEntries then evict order now st.cache else st.cache
  { st with cache := cache.insert projectID e }

def invalidate (st : ResolverState) (projectID : GoString) : ResolverState :=
  { st with cache := st.cache.erase projectID }

def exec (env : Env) : (op : ResolverOp) → ResolverState → op.Reply × ResolverState
  | .repo c, st => ((Service.exec env c st.repo).1,
    { st with repo := (Service.exec env c st.repo).2 })
  | .lookup projectID, st => st.lookup env.now projectID
  | .store projectID e, st => ((), st.store env.order env.now projectID e)
  | .invalidate projectID, st => ((), st.invalidate projectID)
  | .join projectID, st =>
    ((st.flights projectID).join.1,
      { st with flights := Function.update st.flights projectID (st.flights projectID).join.2 })
  | .land projectID n r, st =>
    ((), { st with flights :=
      Function.update st.flights projectID ((st.flights projectID).land n r) })
  | .await projectID n, st =>
    (((st.flights projectID).result? n).getD (.error { kind := .other }), st)

end ResolverState

/-! ## Requests -/

abbrev ResolverM := Prog ResolverOp ResolverOp.Reply

abbrev act (op : ResolverOp) : ResolverM op.Reply := Prog.perform op

def onRepo {α : Type} : Prog Call Reply α → ResolverM α
  | .pure a => .pure a
  | .call c next => .call (.repo c) fun r => onRepo (next r)

/-- The load that one caller performs for all. -/
def fly (projectID : GoString) : ResolverM Resolution := do
  match ← act (.lookup projectID) with
  | some e => return .ok e
  | none =>
    match ← onRepo (load projectID).run with
    | .error err => return .error err
    | .ok e =>
      act (.store projectID e)
      return .ok e

def resolve (projectID : GoString) : ResolverM Resolution := do
  match ← act (.lookup projectID) with
  | some e => return .ok e
  | none =>
    match ← act (.join projectID) with
    | .follower n => act (.await projectID n)
    | .leader n =>
      let r ← fly projectID
      act (.land projectID n r)
      return r

def updateAndInvalidate (validateModel : Model → Except ServiceError Unit) (id : GoString)
    (patch : ProjectPatch) : ResolverM (Except ServiceError Project) := do
  match ← onRepo (updateProject validateModel id patch).run with
  | .error err => return .error err
  | .ok p =>
    act (.invalidate id)
    return .ok p

end WorkspaceAuthz.Service
