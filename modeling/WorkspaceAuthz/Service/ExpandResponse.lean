import WorkspaceAuthz.Authz.Denotation
import WorkspaceAuthz.Service.NodeKeys

/-! # The response to Expand

The tree of an expansion is sent as a `UsersetTree`, whose nodes carry a type. Tree
and message denote the users that the expanded node grants. With the engine's keys
this holds as long as they tell the nodes apart that the expansion may meet.
-/
namespace WorkspaceAuthz.Service
open Go Authz RecursiveFormula

/-! ## The message -/

inductive NodeType where
  | unspecified
  | union
  | leaf
  | intersection
  | exclusion
deriving DecidableEq, Repr

structure UsersetTree where
  type : NodeType := .unspecified
  userIds : List GoString := []
  sets : List SubjectSet := []
  children : List UsersetTree := []
  expanded : SubjectSet
  wildcard : Bool := false
  include_ : Option UsersetTree := none
  exclude : Option UsersetTree := none

mutual

def treeToProto : Tree → UsersetTree
  | ⟨expanded, c :: cs, _, _, _, _, _⟩ =>
    { expanded, type := .union, children := treesToProto (c :: cs) }
  | ⟨expanded, [], c :: cs, _, _, _, _⟩ =>
    { expanded, type := .intersection, children := treesToProto (c :: cs) }
  | ⟨expanded, [], [], some (inc, exc), _, _, _⟩ =>
    { expanded, type := .exclusion, include_ := some (treeToProto inc)
      exclude := some (treeToProto exc) }
  | ⟨expanded, [], [], none, users, sets, wildcard⟩ =>
    { expanded, type := .leaf, userIds := users, sets, wildcard }

def treesToProto : List Tree → List UsersetTree
  | [] => []
  | t :: ts => treeToProto t :: treesToProto ts

end

section Wire

variable (H : SubjectSet → Prop) (u : GoString)

mutual

/-- What the message says of a user, by its documentation; `H` are the usersets that the user
is in. -/
def UsersetTree.Contains : UsersetTree → Prop
  | ⟨.union, _, _, children, _, _, _, _⟩ => ContainsSome children
  | ⟨.intersection, _, _, children, _, _, _, _⟩ => ContainsAll children
  | ⟨.exclusion, _, _, _, _, _, some inc, some exc⟩ => Contains inc ∧ ¬ Contains exc
  | ⟨.leaf, userIds, sets, _, _, wildcard, _, _⟩ =>
    wildcard = true ∨ u ∈ userIds ∨ ∃ y ∈ sets, H y
  | _ => False

def UsersetTree.ContainsSome : List UsersetTree → Prop
  | [] => False
  | t :: ts => Contains t ∨ ContainsSome ts

def UsersetTree.ContainsAll : List UsersetTree → Prop
  | [] => True
  | t :: ts => Contains t ∧ ContainsAll ts

end

variable {H : SubjectSet → Prop} {u : GoString}

mutual

theorem contains_treeToProto : (t : Tree) →
    ((treeToProto t).Contains H u ↔ t.Contains H u)
  | ⟨expanded, c :: cs, _, _, _, _, _⟩ => by
    rw [treeToProto, UsersetTree.Contains, Tree.Contains]
    exact (contains_treesToProto (c :: cs)).1
  | ⟨expanded, [], c :: cs, _, _, _, _⟩ => by
    rw [treeToProto, UsersetTree.Contains, Tree.Contains]
    exact (contains_treesToProto (c :: cs)).2
  | ⟨expanded, [], [], some (inc, exc), _, _, _⟩ => by
    rw [treeToProto, UsersetTree.Contains, Tree.Contains]
    exact and_congr (contains_treeToProto inc) (not_congr (contains_treeToProto exc))
  | ⟨expanded, [], [], none, users, sets, wildcard⟩ => by
    rw [treeToProto, UsersetTree.Contains, Tree.Contains]

theorem contains_treesToProto : (ts : List Tree) →
    (UsersetTree.ContainsSome H u (treesToProto ts) ↔ Tree.ContainsSome H u ts) ∧
      (UsersetTree.ContainsAll H u (treesToProto ts) ↔ Tree.ContainsAll H u ts)
  | [] => by simp [treesToProto, UsersetTree.ContainsSome, UsersetTree.ContainsAll,
      Tree.ContainsSome, Tree.ContainsAll]
  | t :: ts => by
    obtain ⟨hsome, hall⟩ := contains_treesToProto ts
    rw [treesToProto, UsersetTree.ContainsSome, UsersetTree.ContainsAll, Tree.ContainsSome,
      Tree.ContainsAll]
    exact ⟨or_congr (contains_treeToProto t) hsome, and_congr (contains_treeToProto t) hall⟩

end

end Wire

/-! ## Runs -/

section Runs

variable {e : Engine} {m : Model} {projectID tenantID : GoString} {n : SubjectSet}
  {maxNodes maxReads : ℤ} {tree : Tree}

/-- A request without a record is an expansion without one. -/
theorem grows_of_expandWithModel {q : Meter}
    (h : (e.expandWithModel m projectID tenantID n maxNodes maxReads).result = .ok tree)
    (hq : q.count (e.expandWithModel m projectID tenantID n maxNodes maxReads).backstops =
      q.count {}) :
    Grows q (Expand.expand m (e.reader projectID tenantID) maxNodes (e.maxDepth + 1) ∅ n :
      ExpandM GoString GoString Tree) tree := by
  obtain ⟨st, hrun, hbackstops⟩ := Outcome.of_result_ok h
  rw [map_eq_pure_bind] at hrun
  obtain ⟨⟨t, count⟩, s, hx, hp⟩ := bind_ok.mp hrun
  cases hp
  refine ⟨0, count, _, st, hx, ?_⟩
  exact (congrArg q.count hbackstops.symm).trans hq

theorem expandsTo_of_depth
    (h : (e.expandWithModel m projectID tenantID n maxNodes maxReads).result = .ok tree)
    (hdepth : (e.expandWithModel m projectID tenantID n maxNodes maxReads).backstops.depth = 0) :
    ExpandsTo True m (e.reader projectID tenantID) (e.maxDepth + 1) ∅ n tree :=
  expandsTo_of_grows (q := .depth) (fun _ => Nat.succ_ne_self _) (fun h => absurd trivial h)
    (grows_of_expandWithModel h hdepth)

theorem expandsTo_of_cut
    (h : (e.expandWithModel m projectID tenantID n maxNodes maxReads).result = .ok tree)
    (hdepth : (e.expandWithModel m projectID tenantID n maxNodes maxReads).backstops.depth = 0)
    (hcycle : (e.expandWithModel m projectID tenantID n maxNodes maxReads).backstops.cycle = 0) :
    ExpandsTo False m (e.reader projectID tenantID) (e.maxDepth + 1) ∅ n tree := by
  refine expandsTo_of_grows (q := .cut) (fun b => ?_) (fun _ b => ?_)
    (grows_of_expandWithModel h ?_)
  · simp only [Meter.cut]
    omega
  · simp only [Meter.cut]
    omega
  · simp only [Meter.cut, hdepth, hcycle]

end Runs

/-! ## Denotation -/

/-- Over stores without conditions, whatever an expansion returns that is not cut off at the
depth bound denotes the users of the node, if the nodes that it may meet lie in `N`: in a
model without exclusions in all cases, and in any model where no cycle is cut off. -/
def DenotesOn (N : Set SubjectSet) : Prop :=
  ∀ (e : Engine) (m : Model) (projectID tenantID : GoString) (n : SubjectSet)
    (maxNodes maxReads : ℤ) (cc : Context) (u : GoString) (tree : Tree),
    WellFormed (e.reader projectID tenantID) → Unconditional (e.reader projectID tenantID) →
    (e.request m projectID tenantID u cc).around n ⊆ N →
    (e.expandWithModel m projectID tenantID n maxNodes maxReads).result = .ok tree →
    (e.expandWithModel m projectID tenantID n maxNodes maxReads).backstops.depth = 0 →
    let r := e.request m projectID tenantID u cc
    (m.ExclusionFree → (tree.Contains r.Holds u ↔ r.Holds n)) ∧
    ((e.expandWithModel m projectID tenantID n maxNodes maxReads).backstops.cycle = 0 →
      (r.Holds n → tree.Contains r.Holds u) ∧ (r.Fails n → ¬ tree.Contains r.Holds u)) ∧
    ((treeToProto tree).Contains r.Holds u ↔ tree.Contains r.Holds u)

theorem denotesOn_of_injOn {N : Set SubjectSet} (hkeys : Set.InjOn visitKey N) : DenotesOn N := by
  intro e m projectID tenantID n maxNodes maxReads cc u tree hwf hcond hN htree hdepth r
  refine ⟨fun hm => ⟨fun hc => ?_, fun hholds => ?_⟩,
    fun hcycle => ⟨fun hholds => ?_, fun hfails => ?_⟩, contains_treeToProto tree⟩
  · exact holds_of_contains hm hwf hcond (expandsTo_of_depth htree hdepth) hc
  · obtain ⟨k, hk⟩ := hholds
    exact admits_expandsTo hm (admits_contains r.Holds u) hwf hcond (hkeys.mono hN)
      (Request.closed_around n) (Request.self_mem_around n) (expandsTo_of_depth htree hdepth) hk
      (fun y _ hy => absurd hy (Finset.notMem_empty _)) fun y _ j _ hy => ⟨j, hy⟩
  · obtain ⟨k, hk⟩ := hholds
    exact (contains_iff_of_verdict hwf hcond (expandsTo_of_cut htree hdepth hcycle) hk).mpr rfl
  · obtain ⟨k, hk⟩ := hfails
    exact (contains_iff_of_verdict hwf hcond (expandsTo_of_cut htree hdepth hcycle) hk).not.mpr
      Bool.false_ne_true

namespace Shadow

variable {x y : SubjectSet} {u p t : GoString} {cc : Context}

theorem rewrite_eq (ns rel : GoString) : (model x y).rewrite ns rel =
    if ns = x.ns ∧ rel = x.relation
    then { tuplesetRelation := "p", computedRelation := y.relation } else .this := by
  unfold Model.rewrite model
  by_cases hns : ns = x.ns <;> by_cases hrel : rel = x.relation <;> simp [hns, hrel]

theorem exclusionFree : (model x y).ExclusionFree := by
  intro ns rel
  rw [rewrite_eq]
  split_ifs
  · exact .tupleToUserset (Alias.pointer_view _ _ (by decide))
  · exact .this rfl

theorem wellFormed (hu : u ≠ []) : WellFormed (reader x y u) := by
  rintro n ss ⟨⟩ s hs
  split_ifs at hs
  · rw [List.mem_singleton.mp hs]
    exact .inr (.inl ⟨rfl, nofun, rfl⟩)
  · rw [List.mem_singleton.mp hs]
    exact .inl ⟨hu, rfl, rfl⟩
  · cases hs

theorem unconditional : Unconditional (reader x y u) := by
  rintro n ss ⟨⟩ s hs
  split_ifs at hs
  · rw [List.mem_singleton.mp hs]
  · rw [List.mem_singleton.mp hs]
  · cases hs

theorem holds_left (hkey : visitKey x = visitKey y) (hne : x ≠ y) (hu : u ≠ []) :
    ((engine x y u).request (model x y) p t u cc).Holds x := by
  rw [Request.holds_iff, system_left]
  refine .read (.orLeft (.ref ?_))
  rw [system_right hkey hne hu]
  exact .read (.orLeft (.const true))

/-- The tree of `x` has a bare leaf in place of `y`, which looks as if it were in progress. -/
theorem expand_left (hkey : visitKey x = visitKey y) :
    (engine x y u).expandWithModel (model x y) p t x 0 0 =
      ⟨.ok { expanded := x, union := [{ expanded := y }] }, { cycle := 1 }⟩ := by
  have hleaf (c : ℕ) (st : SearchState GoString GoString) :
      Expand.expand (model x y) (reader x y u) 0 32 (insert (visitKey x) ∅) y c st =
        .ok ({ expanded := y }, c)
          { st with backstops := { st.backstops with cycle := st.backstops.cycle + 1 } } := by
    rw [Expand.expand, if_pos (hkey ▸ Finset.mem_insert_self _ _)]
    rfl
  have hrun : Expand.expand (model x y) ((engine x y u).reader p t) 0
      ((engine x y u).maxDepth + 1) ∅ x 0
      (newEvalState (expandBudget ((engine x y u).effectiveMaxReads 0) 0) :
        SearchState GoString GoString) =
        .ok ({ expanded := x, union := [{ expanded := y }] }, 1)
          { (newEvalState 0 : SearchState GoString GoString) with
            reads := 1, calls := 1, backstops := { cycle := 1 } } := by
    rw [Expand.expand, if_neg (Finset.notMem_empty _), rewrite_eq, if_pos ⟨rfl, rfl⟩]
    have hread : reader x y u ⟨x.ns, x.objectID, str "p"⟩ = .ok [{ set := some y }] := by
      rw [reader, if_pos rfl]
    exact expandRewrite_pointer (by decide) hread le_rfl (hleaf 1 _)
  rw [Engine.expandWithModel_eq, hrun]

theorem not_contains {H : SubjectSet → Prop} :
    ¬ ({ expanded := x, union := [{ expanded := y }] } : Tree).Contains H u := by
  intro h
  obtain ⟨t, ht, hc⟩ := Tree.contains_union.mp h
  rw [List.mem_singleton.mp ht] at hc
  exact Tree.contains_bare hc

end Shadow

/-- Expansions denote their nodes on all inputs whose nodes lie in `N` if and only if the
engine's keys tell the nodes in `N` apart. -/
theorem expand_denotes_iff (N : Set SubjectSet) : DenotesOn N ↔ Set.InjOn visitKey N := by
  refine ⟨fun h x hx y hy hkey => ?_, denotesOn_of_injOn⟩
  by_contra hne
  have hu : str "u" ≠ [] := by decide
  have hN : ({x, y} : Set SubjectSet) ⊆ N :=
    Set.insert_subset hx (Set.singleton_subset_iff.mpr hy)
  have hexpand := Shadow.expand_left (u := str "u") (p := []) (t := []) hkey
  have hlaw := h (Shadow.engine x y (str "u")) (Shadow.model x y) [] [] x 0 0 ∅ (str "u") _
    (Shadow.wellFormed hu) Shadow.unconditional ((Shadow.around_left hkey hne hu).trans hN)
    (by rw [hexpand]) (by rw [hexpand])
  exact Shadow.not_contains ((hlaw.1 Shadow.exclusionFree).mpr (Shadow.holds_left hkey hne hu))

/-- A member through the object `c` of the namespace `a:b` is missing from the expansion of the
object `b:c` of the namespace `a`. -/
theorem expand_omits_aliased_member :
    let x : SubjectSet := ⟨str "a", str "b:c", str "m"⟩
    let y : SubjectSet := ⟨str "a:b", str "c", str "m"⟩
    let e := Shadow.engine x y "u"
    let m := Shadow.model x y
    let r := e.request m "proj" "t" "u" ∅
    let tree : Tree := { expanded := x, union := [{ expanded := y }] }
    ValidStore (e.reader "proj" "t") ∧ Unconditional (e.reader "proj" "t") ∧ m.ExclusionFree ∧
      e.expandWithModel m "proj" "t" x 0 0 = ⟨.ok tree, { cycle := 1 }⟩ ∧
      r.Holds x ∧ ¬ tree.Contains r.Holds "u" := by
  intro x y e m r tree
  have hx : Writable x := ⟨by decide, by decide, by decide⟩
  have hy : Writable y := ⟨by decide, by decide, by decide⟩
  exact ⟨Shadow.reader_valid hx hy (by decide) rfl, Shadow.unconditional, Shadow.exclusionFree,
    Shadow.expand_left (by decide), Shadow.holds_left (by decide) (by decide) (by decide),
    Shadow.not_contains⟩

end WorkspaceAuthz.Service
