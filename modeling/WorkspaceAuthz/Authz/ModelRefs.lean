import WorkspaceAuthz.Authz.ModelDoc
import WorkspaceAuthz.Authz.Writability

/-! # References between relations

Before a model is stored, the relations that its rewrites name are looked up in their
namespace, since an unknown relation would be evaluated as one with direct tuples and no
rewrite. The relation that is followed on the other side of a tupleset belongs to
objects of any namespace and is not looked up.
-/
namespace WorkspaceAuthz.Authz
open Go RecursiveFormula

mutual

def checkRefs (ns rel : GoString) (declared : GoString → Bool) : Rewrite → Except DocError Unit
  | ⟨union, intersection, exclusion, computed, tuplesetRelation, _⟩ => do
    if computed ≠ [] ∧ declared computed = false then
      throw ⟨"relation %s#%s references undeclared relation %q", [ns, rel, computed]⟩
    if tuplesetRelation ≠ [] ∧ declared tuplesetRelation = false then
      throw ⟨"relation %s#%s references undeclared tupleset relation %q",
        [ns, rel, tuplesetRelation]⟩
    checkAllRefs ns rel declared union
    checkAllRefs ns rel declared intersection
    match exclusion with
    | none => return ()
    | some (inc, exc) =>
      checkRefs ns rel declared inc
      checkRefs ns rel declared exc

def checkAllRefs (ns rel : GoString) (declared : GoString → Bool) :
    List Rewrite → Except DocError Unit
  | [] => return ()
  | c :: cs => do
    checkRefs ns rel declared c
    checkAllRefs ns rel declared cs

end

/-- The evaluator goes on to the relation `r` of the same object, or reads its pointers. -/
inductive Rewrite.Names (r : GoString) : Rewrite → Prop
  | computed {rw} : rw.view = .computed r → Names r rw
  | tupleset {rw c} : rw.view = .tupleToUserset r c → Names r rw
  | union {rw cs c} : rw.view = .union cs → c ∈ cs → Names r c → Names r rw
  | intersection {rw cs c} : rw.view = .intersection cs → c ∈ cs → Names r c → Names r rw
  | includes {rw inc exc} : rw.view = .exclusion inc exc → Names r inc → Names r rw
  | excludes {rw inc exc} : rw.view = .exclusion inc exc → Names r exc → Names r rw

/-- What a rewrite of the model names, its namespace has. -/
def Model.Closed (m : Model) : Prop :=
  ∀ ns rels, m.get ns = some rels → ∀ rel rw, rels.get rel = some rw →
    ∀ r, rw.Names r → (rels.get r).isSome

section Refs

variable {ns rel : GoString} {declared : GoString → Bool}

end Refs

namespace Request

variable {r : Request} {n : SubjectSet}

/-- A stored tuple of the object of `x` has the object of `y` in its subject. -/
def LeadsTo (r : Request) (x y : SubjectSet) : Prop :=
  ∃ rel ss, r.reader ⟨x.ns, x.objectID, rel⟩ = .ok ss ∧
    ∃ s ∈ ss, ∃ set, s.set = some set ∧ set.ns = y.ns ∧ set.objectID = y.objectID

theorem refs_of_names {rw : Rewrite} {declared : GoString → Prop}
    (hnames : ∀ rel, rw.Names rel → declared rel) {p : Bool × SubjectSet}
    (hp : p ∈ (r.rewriteFormula n rw).refs) :
    (∃ rel, declared rel ∧ p.2 = ⟨n.ns, n.objectID, rel⟩) ∨ r.LeadsTo n p.2 := by
  induction rw using Rewrite.byView generalizing p with
  | this rw hv =>
    rw [rewriteFormula_eq, hv] at hp
    obtain ⟨ss, hread, s, hs, hp⟩ := mem_refs_readFormula.mp hp
    have hset := set_of_follows (mem_refs_subjectFormula.mp hp).2.2
    exact .inr ⟨n.relation, ss, hread, s, hs, p.2, hset, rfl, rfl⟩
  | union rw cs hv ih =>
    rw [rewriteFormula_eq, hv] at hp
    obtain ⟨f, hf, hp⟩ := Formula.mem_refs_any.mp hp
    obtain ⟨c, hc, rfl⟩ := List.mem_map.mp hf
    exact ih c hc (fun rel h => hnames rel (.union hv hc h)) hp
  | intersection rw cs hv ih =>
    rw [rewriteFormula_eq, hv, viewFormula] at hp
    split_ifs at hp
    · exact absurd hp (Set.notMem_empty p)
    · obtain ⟨f, hf, hp⟩ := Formula.mem_refs_all.mp hp
      obtain ⟨c, hc, rfl⟩ := List.mem_map.mp hf
      exact ih c hc (fun rel h => hnames rel (.intersection hv hc h)) hp
  | exclusion rw inc exc hv ihInc ihExc =>
    rw [rewriteFormula_eq, hv, viewFormula] at hp
    split_ifs at hp
    · exact absurd hp (Set.notMem_empty p)
    · rcases hp with hp | hp
      · exact ihInc (fun rel h => hnames rel (.includes hv h)) hp
      · exact ihExc (fun rel h => hnames rel (.excludes hv h)) (p := (!p.1, p.2)) hp
  | computed rw rel hv =>
    rw [rewriteFormula_eq, hv] at hp
    obtain rfl : p = (false, ⟨n.ns, n.objectID, rel⟩) := hp
    exact .inl ⟨rel, hnames rel (.computed hv), rfl⟩
  | tupleToUserset rw ts rel hv =>
    obtain ⟨ss, hread, s, hs, hpoint⟩ := refs_of_pointer hv hp
    unfold pointsTo at hpoint
    obtain ⟨set, hset, heq⟩ := Option.map_eq_some_iff.mp hpoint
    exact .inr ⟨ts, ss, hread, s, hs, set, hset, by rw [← heq], by rw [← heq]⟩

end Request

end WorkspaceAuthz.Authz
