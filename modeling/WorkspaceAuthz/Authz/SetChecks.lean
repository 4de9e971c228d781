import WorkspaceAuthz.Authz.Resolution
import WorkspaceAuthz.Authz.Soundness
import WorkspaceAuthz.RecursiveFormula.Disjunctive

/-! # The three ways to say yes

A userset check that succeeds has found the set below its target, or a member of
the set that has access, or it has resolved the target of a public set. The first
is always right, the second when keys tell nodes apart; what the resolution of
members is worth is measured by the derivations about single users.
-/
namespace WorkspaceAuthz.Authz
open Go RecursiveFormula

/-! ## What resolved members are compared with -/

section Verdicts

abbrev userRequest (m : Model) (reader : Reader) (cc : Context) (u : GoString) : Request :=
  ⟨m, reader, { user := u }, cc⟩

/-- What is derivable about the users of a rewrite at a node. -/
def verdicts (m : Model) (reader : Reader) (cc : Context) (x : SubjectSet) (rw : Rewrite) :
    Verdicts := fun v u =>
  Derives (userRequest m reader cc u).system v ((userRequest m reader cc u).rewriteFormula x rw)

/-- Every stored subject is of one kind. -/
def WellFormed (reader : Reader) : Prop := ∀ n ss, reader n = .ok ss → ∀ s ∈ ss, s.Valid

/-- The conditions of the tuples that the resolution of `n` reads lie in `C`. -/
def ReadsOnly (m : Model) (reader : Reader) (maxDepth : ℕ) (n : SubjectSet)
    (C : Set (Option Condition)) : Prop :=
  ∀ path sides x rw, Resolves m reader maxDepth n path sides x rw →
    (rw.view = .this → ∀ ss, reader x = .ok ss → ∀ s ∈ ss, s.condition ∈ C) ∧
    (∀ ts rel, rw.view = .tupleToUserset ts rel → ∀ ss, reader ⟨x.ns, x.objectID, ts⟩ = .ok ss →
      ∀ s ∈ ss, s.condition ∈ C)

variable {m : Model} {reader : Reader} {cc : Context} {x : SubjectSet} {rw : Rewrite}

theorem verdicts_union {cs : List Rewrite} (hv : rw.view = .union cs) {v : Bool} {u : GoString}
    (h : Verdicts.joinAll (verdicts m reader cc x) cs v u) : verdicts m reader cc x rw v u := by
  rw [verdicts, Request.rewriteFormula_eq, hv]
  cases v with
  | true =>
    obtain ⟨c, hc, h⟩ := h
    exact .any_true (List.mem_map_of_mem hc) h
  | false => exact .any_false (List.forall_mem_map.mpr h)

theorem verdicts_intersection {cs : List Rewrite} (hv : rw.view = .intersection cs) {v : Bool}
    {u : GoString} (h : Verdicts.meetAll (verdicts m reader cc x) cs v u) :
    verdicts m reader cc x rw v u := by
  rw [verdicts, Request.rewriteFormula_eq, hv]
  cases v with
  | true => exact .all_true (List.forall_mem_map.mpr h)
  | false =>
    obtain ⟨c, hc, h⟩ := h
    exact .all_false (List.mem_map_of_mem hc) h

theorem verdicts_computed {rel : GoString} (hv : rw.view = .computed rel) {v : Bool} {u : GoString}
    (h : verdicts m reader cc ⟨x.ns, x.objectID, rel⟩ (m.rewrite x.ns rel) v u) :
    verdicts m reader cc x rw v u := by
  rw [verdicts, Request.rewriteFormula_eq, hv]
  exact .ref h

theorem subjectFormula_leaf {s : Subject} (hs : s.Valid)
    (happ : evalCondition s.condition cc = true)
    (u : GoString) :
    (userRequest m reader cc u).subjectFormula s =
      match s.leafSet with
      | some y => .ref y
      | none => .const (s.wildcard || s.leafUser = some u) := by
  rcases hs with ⟨huser, hset, hw⟩ | ⟨-, hset, hw⟩ | ⟨-, hset, hw⟩
  · rw [Request.subjectFormula_of_set_none hset]
    by_cases hu : s.userID = u
    · subst hu
      simp [Request.applies, Request.grants, Subject.leafSet, Subject.leafUser, happ,
        hset, hw, huser]
    · simp [Request.applies, Request.grants, Subject.leafSet, Subject.leafUser, happ, hset, hw, hu]
  · obtain ⟨y, hy⟩ := Option.ne_none_iff_exists'.mp hset
    simp [Request.subjectFormula, Request.follows, Request.applies, Request.grants,
      Subject.leafSet, happ, hy, hw]
  · rw [Request.subjectFormula_of_set_none hset]
    simp [Request.applies, Request.grants, Subject.leafSet, happ, hw]

end Verdicts

/-! ## The structural walk -/

section Structural

variable {r : Request}

theorem subjectFormula_disjunctive (s : Subject) : (r.subjectFormula s).Disjunctive := by
  unfold Request.subjectFormula
  split_ifs
  · trivial
  · trivial
  · split <;> trivial

theorem pointerFormula_disjunctive (rel : GoString) (s : Subject) :
    (r.pointerFormula rel s).Disjunctive := by
  unfold Request.pointerFormula
  split_ifs
  · trivial
  · split <;> trivial

theorem readFormula_disjunctive {f : Subject → NodeFormula} (hf : ∀ s, (f s).Disjunctive)
    (n : SubjectSet) : (r.readFormula n f).Disjunctive := by
  unfold Request.readFormula
  cases r.reader n with
  | ok ss => exact Formula.any_disjunctive (List.forall_mem_map.mpr fun s _ => hf s)
  | error message => trivial

/-- A userset query does not pass through intersections and exclusions. -/
theorem rewriteFormula_disjunctive (hq : r.q.set.isSome) (n : SubjectSet) (rw : Rewrite) :
    (r.rewriteFormula n rw).Disjunctive := by
  induction rw using Rewrite.byView with
  | this rw hv =>
    rw [Request.rewriteFormula_eq, hv]
    exact readFormula_disjunctive subjectFormula_disjunctive n
  | union rw cs hv ih =>
    rw [Request.rewriteFormula_eq, hv]
    exact Formula.any_disjunctive (List.forall_mem_map.mpr ih)
  | intersection rw cs hv ih =>
    rw [Request.rewriteFormula_eq, hv, Request.viewFormula, if_pos hq]
    trivial
  | exclusion rw inc exc hv ihInc ihExc =>
    rw [Request.rewriteFormula_eq, hv, Request.viewFormula, if_pos hq]
    trivial
  | computed rw rel hv =>
    rw [Request.rewriteFormula_eq, hv]
    trivial
  | tupleToUserset rw ts rel hv =>
    rw [Request.rewriteFormula_eq, hv]
    exact readFormula_disjunctive (pointerFormula_disjunctive rel) _

/-- The structural walk finds what is there, whatever the keys. -/
theorem holds_of_structural (hq : r.q.set.isSome) {left : ℕ} {n : SubjectSet}
    {st st' : SearchState GoString GoString} (hempty : ∀ k, st.memo k = none)
    (h : r.check stringKeys left n false st = .ok true st') : r.Holds n := by
  rw [Request.check_eq_search] at h
  exact Request.holds_iff.mpr (search_decides (fun x => rewriteFormula_disjunctive hq x _)
    (fun k hk => by simp [hempty k] at hk) h)

end Structural

/-! ## The three ways to say yes -/

section Ways

variable {e : Engine} {m : Model} {projectID tenantID : GoString} {n set : SubjectSet}
  {cc : Context}

/-- The first step of a userset check succeeds: the evaluator itself meets the set, or
the public, below the target. -/
def Engine.FindsSet (e : Engine) (m : Model) (projectID tenantID : GoString) (n : SubjectSet)
    (cc : Context) (set : SubjectSet) (maxReads : ℤ) : Prop :=
  ∃ st, (e.setRequest m projectID tenantID set cc).check stringKeys (e.maxDepth + 1) n false
    (newEvalState (e.fanOutBudget (e.effectiveMaxReads maxReads) e.maxListObjectsOrDefault)) =
      .ok true st

end Ways

/-! ## Runs -/

section Runs

theorem listSubjects_run {reader : Reader} {x : SubjectSet} {ss : List Subject}
    (hread : reader x = .ok ss) {st : SearchState GoString GoString} (hmax : st.maxReads ≤ 0) :
    listSubjects reader x st = .ok ss (st.fetched 1) :=
  listSubjects_granted hread fun h => by omega

theorem expand_stored {m : Model} {reader : Reader} {x : SubjectSet} {ss : List Subject}
    (hrw : m.rewrite x.ns x.relation = .this) (hread : reader x = .ok ss) (left : ℕ)
    {visited : Finset GoString} (hkey : visitKey x ∉ visited) (c : ℕ)
    {st : SearchState GoString GoString} (hmax : st.maxReads ≤ 0) :
    Expand.expand m reader 0 (left + 1) visited x c st =
      .ok (ss.foldl Tree.addSubject { expanded := x }, c + 1 + ss.length)
        (st.fetched 1) := by
  rw [Expand.expand, if_neg hkey, expandRewrite_eq_view, hrw]
  refine expandM_bind_ok.mpr ⟨(), c + 1, st, rfl, expandM_bind_ok.mpr ⟨ss, c + 1, _, ?_,
    expandM_bind_ok.mpr ⟨(), _, _, rfl, rfl⟩⟩⟩
  exact expandM_lift_run (listSubjects_run hread hmax) (c + 1)

theorem expandRewrite_pointer {reader : Reader}
    {visit : SubjectSet → ExpandM GoString GoString Tree}
    {x z : SubjectSet} {ts : GoString} {tree : Tree} (hts : ts ≠ [])
    (hread : reader ⟨x.ns, x.objectID, ts⟩ = .ok [{ set := some z }]) {c c' : ℕ}
    {st st' : SearchState GoString GoString} (hmax : st.maxReads ≤ 0)
    (hvisit : visit z (c + 1) (st.fetched 1) = .ok (tree, c') st') :
    Expand.expandRewrite reader 0 visit x
        { tuplesetRelation := ts, computedRelation := z.relation } c st =
      .ok ({ expanded := x, union := [tree] }, c') st' := by
  rw [expandRewrite_eq_view, Alias.pointer_view _ _ hts]
  refine expandM_bind_ok.mpr ⟨(), c + 1, st, rfl, ?_⟩
  refine expandM_bind_ok.mpr ⟨_, c + 1, _, expandM_lift_run (listSubjects_run hread hmax) _, ?_⟩
  refine expandM_bind_ok.mpr ⟨[tree], c', st', ?_, rfl⟩
  exact expandM_bind_ok.mpr ⟨tree, c', st', hvisit, expandM_bind_ok.mpr ⟨[], c', st', rfl, rfl⟩⟩

end Runs

end WorkspaceAuthz.Authz
