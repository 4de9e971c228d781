import WorkspaceAuthz.Authz.Check

/-! # What a model and a store grant

A node is granted, or refused, to the queried subject when a finite derivation
says so. On cyclic data neither verdict need be derivable. Derivations carry a
bound on the number of nested steps from node to node.
-/
namespace WorkspaceAuthz.Authz
open Go

namespace Request

variable (r : Request)

/-- The condition of a stored subject holds in the request context. -/
def applies (s : Subject) : Bool := evalCondition s.condition r.cc

/-- A stored subject that grants by itself: the wildcard, or the queried user or userset. -/
def grants (s : Subject) : Bool :=
  s.wildcard || match s.set with
    | none => r.q.user ≠ [] && s.userID = r.q.user
    | some set => r.q.set = some set

/-- The userset through which a stored subject grants, if it does not grant by itself. -/
def follows (s : Subject) : Option SubjectSet := if r.grants s then none else s.set

/-- The node that a tuple-to-userset rewrite is sent to by a stored subject. -/
def pointsTo (relation : GoString) (s : Subject) : Option SubjectSet :=
  s.set.map fun set => ⟨set.ns, set.objectID, relation⟩

/-- `r.DerivesIn k v n rw`: the verdict `v` on the rewrite `rw` at the node `n`
is derivable with at most `k` nested steps to other nodes. A userset query is
never granted through an intersection or an exclusion. -/
inductive DerivesIn : ℕ → Bool → SubjectSet → Rewrite → Prop
  | thisGrant {k n rw ss s} : rw.view = .this → r.reader n = .ok ss → s ∈ ss → r.applies s →
      r.grants s → DerivesIn k true n rw
  | thisMember {k n rw ss s x} : rw.view = .this → r.reader n = .ok ss → s ∈ ss → r.applies s →
      r.follows s = some x → DerivesIn k true x (r.rewrite x) → DerivesIn (k + 1) true n rw
  | thisLeaf {k n rw ss} : rw.view = .this → r.reader n = .ok ss →
      (∀ s ∈ ss, r.applies s → r.grants s = false ∧ r.follows s = none) → DerivesIn k false n rw
  | thisNone {k n rw ss} : rw.view = .this → r.reader n = .ok ss →
      (∀ s ∈ ss, r.applies s → r.grants s = false) →
      (∀ s ∈ ss, r.applies s → ∀ x, r.follows s = some x → DerivesIn k false x (r.rewrite x)) →
      DerivesIn (k + 1) false n rw
  | unionSome {k n rw cs c} : rw.view = .union cs → c ∈ cs → DerivesIn k true n c →
      DerivesIn k true n rw
  | unionNone {k n rw cs} : rw.view = .union cs → (∀ c ∈ cs, DerivesIn k false n c) →
      DerivesIn k false n rw
  | intersectionAll {k n rw cs} : r.q.set = none → rw.view = .intersection cs →
      (∀ c ∈ cs, DerivesIn k true n c) → DerivesIn k true n rw
  | intersectionSome {k n rw cs c} : r.q.set = none → rw.view = .intersection cs → c ∈ cs →
      DerivesIn k false n c → DerivesIn k false n rw
  | intersectionSet {k n rw cs} : r.q.set ≠ none → rw.view = .intersection cs →
      DerivesIn k false n rw
  | exclusionBoth {k n rw inc exc} : r.q.set = none → rw.view = .exclusion inc exc →
      DerivesIn k true n inc → DerivesIn k false n exc → DerivesIn k true n rw
  | exclusionInclude {k n rw inc exc} : r.q.set = none → rw.view = .exclusion inc exc →
      DerivesIn k false n inc → DerivesIn k false n rw
  | exclusionExclude {k n rw inc exc} : r.q.set = none → rw.view = .exclusion inc exc →
      DerivesIn k true n exc → DerivesIn k false n rw
  | exclusionSet {k n rw inc exc} : r.q.set ≠ none → rw.view = .exclusion inc exc →
      DerivesIn k false n rw
  | computed {k v n rw rel} : rw.view = .computed rel →
      DerivesIn k v ⟨n.ns, n.objectID, rel⟩ (r.rewrite ⟨n.ns, n.objectID, rel⟩) →
      DerivesIn (k + 1) v n rw
  | pointerSome {k n rw ts rel ss s x} : rw.view = .tupleToUserset ts rel →
      r.reader ⟨n.ns, n.objectID, ts⟩ = .ok ss → s ∈ ss → r.applies s →
      pointsTo rel s = some x → DerivesIn k true x (r.rewrite x) → DerivesIn (k + 1) true n rw
  | pointerLeaf {k n rw ts rel ss} : rw.view = .tupleToUserset ts rel →
      r.reader ⟨n.ns, n.objectID, ts⟩ = .ok ss →
      (∀ s ∈ ss, r.applies s → pointsTo rel s = none) → DerivesIn k false n rw
  | pointerNone {k n rw ts rel ss} : rw.view = .tupleToUserset ts rel →
      r.reader ⟨n.ns, n.objectID, ts⟩ = .ok ss →
      (∀ s ∈ ss, r.applies s → ∀ x, pointsTo rel s = some x → DerivesIn k false x (r.rewrite x)) →
      DerivesIn (k + 1) false n rw

/-- The verdict `v` on the node `n` has a derivation within `k` steps. -/
def NodeDerivesIn (k : ℕ) (v : Bool) (n : SubjectSet) : Prop := r.DerivesIn k v n (r.rewrite n)

/-- The queried subject is in the userset `n`. -/
def Holds (n : SubjectSet) : Prop := ∃ k, r.NodeDerivesIn k true n

/-- The queried subject is not in the userset `n`. -/
def Fails (n : SubjectSet) : Prop := ∃ k, r.NodeDerivesIn k false n

end Request

end WorkspaceAuthz.Authz
