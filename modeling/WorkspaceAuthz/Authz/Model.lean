import WorkspaceAuthz.Go.Time

/-! # Tuples, rewrites and models

A relation tuple grants a relation on an object to a subject. A model assigns a
userset rewrite to each relation of each namespace. The types are those of the
engine; a rewrite is a record of operators, of which the evaluator takes the
first that is set.
-/
namespace WorkspaceAuthz.Authz
open Go

/-- A dynamically typed value, as condition parameters and request contexts hold them. -/
inductive Value where
  | null
  | bool (b : Bool)
  | float64 (x : Float)
  | int (n : Int64)
  | int64 (n : Int64)
  | string (s : GoString)
  | strings (ss : List GoString)
  | array (vs : List Value)
  | object

abbrev Context := GoMap Value

/-- A predicate attached to a grant. -/
structure Condition where
  name : GoString
  params : Context

/-- The userset `ns:objectID#relation`; also a node of the graph that checks walk. -/
structure SubjectSet where
  ns : GoString
  objectID : GoString
  relation : GoString
deriving DecidableEq, Repr

structure Subject where
  userID : GoString := []
  set : Option SubjectSet := none
  wildcard : Bool := false
  condition : Option Condition := none

/-- A stored relation tuple; the expiry is no part of its identity. -/
structure Tuple where
  ns : GoString
  objectID : GoString
  relation : GoString
  subject : Subject
  expiresAt : Option Time := none

def Tuple.activeAt (t : Tuple) (now : Time) : Bool :=
  match t.expiresAt with
  | none => true
  | some expiry => expiry.after now

/-- Exactly one of the three kinds is set. -/
def Subject.Valid (s : Subject) : Prop :=
  (s.userID ≠ [] ∧ s.set = none ∧ s.wildcard = false) ∨
  (s.userID = [] ∧ s.set ≠ none ∧ s.wildcard = false) ∨
  (s.userID = [] ∧ s.set = none ∧ s.wildcard = true)

instance (s : Subject) : Decidable s.Valid := by unfold Subject.Valid; infer_instance

/-- A userset-rewrite expression; `exclusion` holds Include and Exclude. -/
structure Rewrite where
  union : List Rewrite := []
  intersection : List Rewrite := []
  exclusion : Option (Rewrite × Rewrite) := none
  computed : GoString := []
  tuplesetRelation : GoString := []
  computedRelation : GoString := []

namespace Rewrite

mutual

def decEq : (a b : Rewrite) → Decidable (a = b)
  | ⟨u, i, e, c, t, r⟩, ⟨u', i', e', c', t', r'⟩ =>
    have := decEqList u u'
    have := decEqList i i'
    have : Decidable (e = e') := match e, e' with
      | none, none => .isTrue rfl
      | none, some _ | some _, none => .isFalse nofun
      | some (inc, exc), some (inc', exc') =>
        have := decEq inc inc'
        have := decEq exc exc'
        decidable_of_iff (inc = inc' ∧ exc = exc') (by simp)
    decidable_of_iff (u = u' ∧ i = i' ∧ e = e' ∧ c = c' ∧ t = t' ∧ r = r') (by simp)

def decEqList : (as bs : List Rewrite) → Decidable (as = bs)
  | [], [] => .isTrue rfl
  | [], _ :: _ | _ :: _, [] => .isFalse nofun
  | a :: as, b :: bs =>
    have := decEq a b
    have := decEqList as bs
    decidable_of_iff (a = b ∧ as = bs) (by simp)

end

instance : DecidableEq Rewrite := decEq

/-- The leaf rewrite: the relation's own stored tuples. -/
def this : Rewrite := {}

def isThis (rw : Rewrite) : Bool :=
  rw.union.isEmpty && rw.intersection.isEmpty && rw.exclusion.isNone && rw.computed.isEmpty &&
    rw.tuplesetRelation.isEmpty

/-- The operator that a rewrite stands for. -/
inductive View where
  | this
  | union (children : List Rewrite)
  | intersection (children : List Rewrite)
  | exclusion (include_ exclude : Rewrite)
  | computed (relation : GoString)
  | tupleToUserset (tupleset computedRelation : GoString)

/-- The evaluator's choice among the operators that are set. -/
def view (rw : Rewrite) : View :=
  if rw.isThis then .this
  else match rw with
    | ⟨c :: cs, _, _, _, _, _⟩ => .union (c :: cs)
    | ⟨[], c :: cs, _, _, _, _⟩ => .intersection (c :: cs)
    | ⟨[], [], some (inc, exc), _, _, _⟩ => .exclusion inc exc
    | ⟨[], [], none, computed, tupleset, computedRelation⟩ =>
      if computed ≠ [] then .computed computed else .tupleToUserset tupleset computedRelation

theorem view_intersection_ne_nil {rw : Rewrite} {cs : List Rewrite}
    (h : rw.view = .intersection cs) : cs ≠ [] := by
  rintro rfl
  unfold view at h
  split_ifs at h
  match rw with
  | ⟨c :: cs, _, _, _, _, _⟩ => cases h
  | ⟨[], c :: cs, _, _, _, _⟩ => cases h
  | ⟨[], [], some (inc, exc), _, _, _⟩ => cases h
  | ⟨[], [], none, rel, ts, cr⟩ => by_cases hrel : rel = [] <;> simp [hrel] at h

section Induction

variable {P : Rewrite → Prop} (this : ∀ rw, rw.view = .this → P rw)
  (union : ∀ rw cs, rw.view = .union cs → (∀ c ∈ cs, P c) → P rw)
  (intersection : ∀ rw cs, rw.view = .intersection cs → (∀ c ∈ cs, P c) → P rw)
  (exclusion : ∀ rw inc exc, rw.view = .exclusion inc exc → P inc → P exc → P rw)
  (computed : ∀ rw rel, rw.view = .computed rel → P rw)
  (tupleToUserset : ∀ rw ts rel, rw.view = .tupleToUserset ts rel → P rw)

include this union intersection exclusion computed tupleToUserset

/-- Induction along the operators that the evaluator takes. -/
theorem byView (rw : Rewrite) : P rw := by
  by_cases h : rw.isThis
  · exact this rw (if_pos h)
  · match rw with
    | ⟨c :: cs, _, _, _, _, _⟩ =>
      exact union _ (c :: cs) (by rw [view, if_neg h]) fun d _ => byView d
    | ⟨[], c :: cs, _, _, _, _⟩ =>
      exact intersection _ (c :: cs) (by rw [view, if_neg h]) fun d _ => byView d
    | ⟨[], [], some (inc, exc), _, _, _⟩ =>
      exact exclusion _ inc exc (by rw [view, if_neg h]) (byView inc) (byView exc)
    | ⟨[], [], none, rel, ts, cr⟩ =>
      by_cases hrel : rel ≠ []
      · exact computed _ rel (by rw [view, if_neg h]; exact if_pos hrel)
      · exact tupleToUserset _ ts cr (by rw [view, if_neg h]; exact if_neg hrel)
termination_by sizeOf rw
decreasing_by
  all_goals simp only [mk.sizeOf_spec, Option.some.sizeOf_spec, Prod.mk.sizeOf_spec]
  · have := List.sizeOf_lt_of_mem ‹d ∈ c :: cs›
    omega
  · have := List.sizeOf_lt_of_mem ‹d ∈ c :: cs›
    omega
  · omega
  · omega

end Induction

attribute [elab_as_elim] byView

mutual

/-- A leaf that reads the relation's own tuples can be reached on the same relation. -/
def readsStoredTuples : Rewrite → Bool
  | ⟨union, intersection, exclusion, computed, tupleset, computedRelation⟩ =>
    Rewrite.isThis ⟨union, intersection, exclusion, computed, tupleset, computedRelation⟩ ||
      anyReadsStoredTuples union || anyReadsStoredTuples intersection ||
      match exclusion with
      | some (inc, exc) => readsStoredTuples inc || readsStoredTuples exc
      | none => false

def anyReadsStoredTuples : List Rewrite → Bool
  | [] => false
  | c :: cs => readsStoredTuples c || anyReadsStoredTuples cs

end

end Rewrite

abbrev Namespace := GoMap Rewrite

abbrev Model := GoMap Namespace

/-- The rewrite of a relation; unknown relations default to direct tuples. -/
def Model.rewrite (m : Model) (ns relation : GoString) : Rewrite :=
  ((m.get ns).bind fun rels => rels.get relation).getD Rewrite.this

/-- A stored tuple would be read by checks; unknown namespaces and relations have direct
tuples. -/
def Model.writableRelation (m : Model) (ns relation : GoString) : Bool :=
  match m.get ns with
  | none => true
  | some rels => match rels.get relation with
    | none => true
    | some rw => rw.readsStoredTuples

/-- The built-in model: the grades of a workspace, each of which includes the one above
it, groups, and resources that inherit from their parents. -/
def defaultModel : Model := .ofList [
  ("workspace", .ofList [
    ("owner", .this),
    ("admin", { union := [.this, { computed := "owner" }] }),
    ("member", { union := [.this, { computed := "admin" }] }),
    ("guest", { union := [.this, { computed := "member" }] }),
    -- Through these, one leg of a resource serves workspaces and resources as parents.
    ("editor", { computed := "admin" }),
    ("viewer", { computed := "member" })]),
  ("group", .ofList [("member", .this)]),
  ("resource", .ofList [
    ("parent", .this),
    ("owner", .this),
    ("editor", { union := [.this, { computed := "owner" },
      { tuplesetRelation := "parent", computedRelation := "editor" }] }),
    ("viewer", { union := [.this, { computed := "editor" },
      { tuplesetRelation := "parent", computedRelation := "viewer" }] })])]

end WorkspaceAuthz.Authz
