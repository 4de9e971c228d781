import WorkspaceAuthz.Authz.Semantics
import WorkspaceAuthz.RecursiveFormula.Justification

/-! # Rewrites as formulas

Fixing a model, a store, a query and a request context turns every node into a
formula over nodes. The evaluator is the guarded search through this system, and
the derivations of the semantics are those of the system.
-/
namespace WorkspaceAuthz.Authz
open Go RecursiveFormula

abbrev NodeFormula := Formula SubjectSet EngineError

namespace Request

variable (r : Request)

def subjectFormula (s : Subject) : NodeFormula :=
  if !r.applies s then .const false
  else if r.grants s then .const true
  else match r.follows s with
    | none => .const false
    | some x => .ref x

def pointerFormula (relation : GoString) (s : Subject) : NodeFormula :=
  if !r.applies s then .const false
  else match pointsTo relation s with
    | none => .const false
    | some x => .ref x

/-- A formula over the subjects that one read returns. -/
def readFormula (n : SubjectSet) (f : Subject → NodeFormula) : NodeFormula :=
  .read (match r.reader n with
    | .ok ss => .any (ss.map f)
    | .error message => .fail (.reader message))

mutual

def rewriteFormula (n : SubjectSet) (rw : Rewrite) : NodeFormula :=
  if rw.isThis then r.readFormula n r.subjectFormula
  else match rw with
    | ⟨c :: cs, _, _, _, _, _⟩ => .any (rewriteFormulas n (c :: cs))
    | ⟨[], c :: cs, _, _, _, _⟩ =>
      if r.q.set.isSome then .const false else .all (rewriteFormulas n (c :: cs))
    | ⟨[], [], some (inc, exc), _, _, _⟩ =>
      if r.q.set.isSome then .const false
      else .and (rewriteFormula n inc) (.not (rewriteFormula n exc))
    | ⟨[], [], none, computed, tuplesetRelation, computedRelation⟩ =>
      if computed ≠ [] then .ref ⟨n.ns, n.objectID, computed⟩
      else r.readFormula ⟨n.ns, n.objectID, tuplesetRelation⟩ (r.pointerFormula computedRelation)

def rewriteFormulas (n : SubjectSet) : List Rewrite → List NodeFormula
  | [] => []
  | c :: cs => rewriteFormula n c :: rewriteFormulas n cs

end

/-- The formula of every node. -/
def system (n : SubjectSet) : NodeFormula := r.rewriteFormula n (r.rewrite n)

/-! ## The operators -/

variable {r} {n : SubjectSet} {rw : Rewrite}

theorem rewriteFormulas_eq_map (n : SubjectSet) (cs : List Rewrite) :
    r.rewriteFormulas n cs = cs.map (r.rewriteFormula n) := by
  induction cs with
  | nil => rfl
  | cons c cs ih => rw [rewriteFormulas, ih, List.map_cons]

def viewFormula (r : Request) (n : SubjectSet) : Rewrite.View → NodeFormula
  | .this => r.readFormula n r.subjectFormula
  | .union cs => .any (cs.map (r.rewriteFormula n))
  | .intersection cs =>
    if r.q.set.isSome then .const false else .all (cs.map (r.rewriteFormula n))
  | .exclusion inc exc =>
    if r.q.set.isSome then .const false
    else .and (r.rewriteFormula n inc) (.not (r.rewriteFormula n exc))
  | .computed rel => .ref ⟨n.ns, n.objectID, rel⟩
  | .tupleToUserset ts rel => r.readFormula ⟨n.ns, n.objectID, ts⟩ (r.pointerFormula rel)

theorem rewriteFormula_eq (n : SubjectSet) (rw : Rewrite) :
    r.rewriteFormula n rw = r.viewFormula n rw.view := by
  unfold rewriteFormula Rewrite.view
  by_cases h : rw.isThis
  · rw [if_pos h, if_pos h]
    rfl
  · rw [if_neg h, if_neg h]
    obtain ⟨union, intersection, exclusion, computed, ts, rel⟩ := rw
    cases union with
    | cons c cs => simp only [viewFormula, rewriteFormulas_eq_map]
    | nil => cases intersection with
      | cons c cs => simp only [viewFormula, rewriteFormulas_eq_map]
      | nil => cases exclusion with
        | some sides => rfl
        | none => by_cases hc : computed = [] <;> simp [viewFormula, hc]

theorem readFormula_ok {ss : List Subject} (hread : r.reader n = .ok ss)
    (f : Subject → NodeFormula) :
    r.readFormula n f = .read (.any (ss.map f)) := by
  rw [readFormula, hread]

theorem readFormula_error {message : GoString} (hread : r.reader n = .error message)
    (f : Subject → NodeFormula) : r.readFormula n f = .read (.fail (.reader message)) := by
  rw [readFormula, hread]

theorem system_of_this {ss : List Subject} (hrw : r.rewrite n = .this)
    (hread : r.reader n = .ok ss) : r.system n = .read (.any (ss.map r.subjectFormula)) := by
  rw [system, hrw, rewriteFormula_eq]
  exact readFormula_ok hread _

theorem subjectFormula_of_set_none {s : Subject} (hset : s.set = none) :
    r.subjectFormula s = .const (r.applies s && r.grants s) := by
  unfold subjectFormula follows
  cases r.applies s <;> cases r.grants s <;> simp [hset]

theorem readFormula_congr {r' : Request} {f f' : Subject → NodeFormula}
    (hreader : r'.reader = r.reader)
    (hf : ∀ ss, r.reader n = .ok ss → ∀ s ∈ ss, f' s = f s) :
    r'.readFormula n f' = r.readFormula n f := by
  unfold readFormula
  rw [hreader]
  cases h : r.reader n with
  | ok ss => simp only [List.map_congr_left (hf ss h)]
  | error message => rfl

theorem system_congr {r' : Request} (hmodel : r'.model = r.model) (hset : r'.q.set = r.q.set)
    (hreader : r'.reader = r.reader)
    (hsubject : ∀ n ss, r.reader n = .ok ss → ∀ s ∈ ss, r'.subjectFormula s = r.subjectFormula s)
    (hpointer : ∀ n ss, r.reader n = .ok ss → ∀ s ∈ ss, ∀ rel,
      r'.pointerFormula rel s = r.pointerFormula rel s) : r'.system = r.system := by
  have hrw : ∀ x rw, r'.rewriteFormula x rw = r.rewriteFormula x rw := by
    intro x rw
    rw [rewriteFormula_eq, rewriteFormula_eq]
    induction rw using Rewrite.byView with
    | this rw hv =>
      rw [hv]
      exact readFormula_congr hreader (hsubject x)
    | union rw cs hv ih =>
      simp only [← rewriteFormula_eq] at ih
      rw [hv, viewFormula, viewFormula, List.map_congr_left ih]
    | intersection rw cs hv ih =>
      simp only [← rewriteFormula_eq] at ih
      rw [hv, viewFormula, viewFormula, List.map_congr_left ih, hset]
    | exclusion rw inc exc hv ihInc ihExc =>
      simp only [← rewriteFormula_eq] at ihInc ihExc
      rw [hv, viewFormula, viewFormula, ihInc, ihExc, hset]
    | computed rw rel hv => rw [hv]; rfl
    | tupleToUserset rw ts rel hv =>
      rw [hv]
      exact readFormula_congr hreader fun ss hss s hs => hpointer _ ss hss s hs rel
  funext x
  rw [system, system, hrw, rewrite, rewrite, hmodel]

/-! ## The evaluator is a search -/

section Evaluator

variable {κ μ : Type} (visit : SubjectSet → Bool → EvalM κ μ Bool) (negated : Bool)

theorem eval_or_false (f : NodeFormula) :
    (Formula.or (.const false) f).eval .evalBudgetExceeded visit negated =
      f.eval .evalBudgetExceeded visit negated := rfl

theorem eval_or_true (f : NodeFormula) :
    (Formula.or (.const true) f).eval .evalBudgetExceeded visit negated = pure true := rfl

theorem evalSubjects_eq (ss : List Subject) :
    r.evalSubjects visit negated ss =
      (Formula.any (ss.map r.subjectFormula)).eval .evalBudgetExceeded visit negated := by
  induction ss with
  | nil => rfl
  | cons s ss ih =>
    rw [evalSubjects, List.map_cons, Formula.any, ih]
    cases happ : evalCondition s.condition r.cc with
    | false => simp [subjectFormula, applies, happ, eval_or_false]
    | true =>
      cases hwild : s.wildcard with
      | true => simp [subjectFormula, applies, happ, grants, hwild, eval_or_true]
      | false =>
        cases hset : s.set with
        | none =>
          by_cases huser : r.q.user ≠ [] ∧ s.userID = r.q.user
          · simp [subjectFormula, applies, happ, grants, hwild, hset, huser, eval_or_true]
          · have hgrants : r.grants s = false := by simpa [grants, hwild, hset] using huser
            simp [subjectFormula, applies, happ, follows, hgrants, hset, huser, eval_or_false]
        | some x =>
          by_cases hq : r.q.set = some x
          · simp [subjectFormula, applies, happ, grants, hwild, hset, hq, eval_or_true]
          · have hgrants : r.grants s = false := by simpa [grants, hwild, hset] using hq
            simp [subjectFormula, applies, happ, follows, hgrants, hset, hq, Formula.eval]

theorem evalPointers_eq (relation : GoString) (ss : List Subject) :
    r.evalPointers visit relation negated ss =
      (Formula.any (ss.map (r.pointerFormula relation))).eval .evalBudgetExceeded visit
        negated := by
  induction ss with
  | nil => rfl
  | cons s ss ih =>
    rw [evalPointers, List.map_cons, Formula.any, ih]
    cases happ : evalCondition s.condition r.cc with
    | false => simp [pointerFormula, applies, happ, eval_or_false]
    | true =>
      cases hset : s.set with
      | none => simp [pointerFormula, applies, happ, pointsTo, hset, eval_or_false]
      | some x => simp [pointerFormula, applies, happ, pointsTo, hset, Formula.eval]

/-- A loop over the subjects of one read evaluates the formula over them. -/
theorem listSubjects_bind_eq {f : Subject → NodeFormula} {loop : List Subject → EvalM κ μ Bool}
    (hloop : ∀ ss, loop ss = (Formula.any (ss.map f)).eval .evalBudgetExceeded visit negated) :
    (listSubjects r.reader n >>= loop) =
      (r.readFormula n f).eval .evalBudgetExceeded visit negated := by
  unfold readFormula
  rw [listSubjects_eq]
  cases h : r.reader n with
  | ok ss => simp only [bind_assoc, pure_bind, hloop, Formula.eval]
  | error message => simp only [bind_assoc, Formula.eval]; rfl

theorem evalUnion_eq {cs : List Rewrite}
    (h : ∀ c ∈ cs, ∀ negated, r.evalRewrite visit n c negated =
      (r.rewriteFormula n c).eval .evalBudgetExceeded visit negated) :
    r.evalUnion visit n cs negated =
      (Formula.any (cs.map (r.rewriteFormula n))).eval .evalBudgetExceeded visit negated := by
  induction cs with
  | nil => rfl
  | cons c cs ih =>
    rw [evalUnion, List.map_cons, Formula.any, Formula.eval, h c List.mem_cons_self,
      ih fun d hd => h d (List.mem_cons_of_mem c hd)]

theorem evalIntersection_eq {cs : List Rewrite}
    (h : ∀ c ∈ cs, ∀ negated, r.evalRewrite visit n c negated =
      (r.rewriteFormula n c).eval .evalBudgetExceeded visit negated) :
    r.evalIntersection visit n cs negated =
      (Formula.all (cs.map (r.rewriteFormula n))).eval .evalBudgetExceeded visit negated := by
  induction cs with
  | nil => rfl
  | cons c cs ih =>
    rw [evalIntersection, List.map_cons, Formula.all, Formula.eval, h c List.mem_cons_self,
      ih fun d hd => h d (List.mem_cons_of_mem c hd)]

def evalView (r : Request) (visit : SubjectSet → Bool → EvalM κ μ Bool) (n : SubjectSet)
    (negated : Bool) : Rewrite.View → EvalM κ μ Bool
  | .this => r.evalThis visit n negated
  | .union cs => r.evalUnion visit n cs negated
  | .intersection cs =>
    if r.q.set.isSome then pure false else r.evalIntersection visit n cs negated
  | .exclusion inc exc =>
    if r.q.set.isSome then pure false
    else do
      let ok ← r.evalRewrite visit n inc negated
      if ok then
        let excluded ← r.evalRewrite visit n exc (!negated)
        pure (!excluded)
      else pure false
  | .computed rel => visit ⟨n.ns, n.objectID, rel⟩ negated
  | .tupleToUserset ts rel => r.evalTupleToUserset visit n ts rel negated

theorem evalRewrite_eq_view (rw : Rewrite) :
    r.evalRewrite visit n rw negated = r.evalView visit n negated rw.view := by
  unfold evalRewrite Rewrite.view
  by_cases h : rw.isThis
  · rw [if_pos h, if_pos h]
    rfl
  · rw [if_neg h, if_neg h]
    obtain ⟨union, intersection, exclusion, computed, ts, rel⟩ := rw
    cases union with
    | cons c cs => rfl
    | nil => cases intersection with
      | cons c cs => rfl
      | nil => cases exclusion with
        | some sides => rfl
        | none =>
          by_cases hc : computed = []
          · -- With no operator set the rewrite would be the zero rewrite.
            have hts : ts ≠ [] := by
              rintro rfl
              exact h (by simp [Rewrite.isThis, hc])
            simp [evalView, hc, hts]
          · simp [evalView, hc]

theorem evalRewrite_eq (rw : Rewrite) :
    r.evalRewrite visit n rw negated =
      (r.rewriteFormula n rw).eval .evalBudgetExceeded visit negated := by
  induction rw using Rewrite.byView generalizing negated with
  | this rw hv =>
    rw [evalRewrite_eq_view, rewriteFormula_eq, hv]
    exact listSubjects_bind_eq visit negated (evalSubjects_eq visit negated)
  | union rw cs hv ih =>
    rw [evalRewrite_eq_view, rewriteFormula_eq, hv]
    exact evalUnion_eq visit negated ih
  | intersection rw cs hv ih =>
    rw [evalRewrite_eq_view, rewriteFormula_eq, hv]
    simp only [evalView, viewFormula]
    split_ifs
    · rfl
    · exact evalIntersection_eq visit negated ih
  | exclusion rw inc exc hv ihInc ihExc =>
    rw [evalRewrite_eq_view, rewriteFormula_eq, hv]
    simp only [evalView, viewFormula]
    split_ifs
    · rfl
    · rw [ihInc negated, ihExc (!negated)]
      rfl
  | computed rw rel hv =>
    rw [evalRewrite_eq_view, rewriteFormula_eq, hv]
    rfl
  | tupleToUserset rw ts rel hv =>
    rw [evalRewrite_eq_view, rewriteFormula_eq, hv]
    exact listSubjects_bind_eq visit negated (evalPointers_eq visit negated rel)

end Evaluator

/-- The evaluator is the guarded search through the system of formulas. -/
theorem check_eq_search {κ μ : Type} [DecidableEq κ] [DecidableEq μ] (K : Keying SubjectSet κ μ)
    (left : ℕ) (n : SubjectSet) (negated : Bool) :
    r.check K left n negated = search K r.system .evalBudgetExceeded left n negated := by
  induction left generalizing n negated with
  | zero => rfl
  | succ left ih =>
    have hvisit : r.check K left = search K r.system .evalBudgetExceeded left := by
      funext n negated
      exact ih n negated
    rw [check, search, hvisit, evalRewrite_eq]
    rfl

/-! ## The semantics is derivability -/

section Derivations

variable {k : ℕ} {v : Bool}

theorem derivesIn_readFormula {f : Subject → NodeFormula} :
    RecursiveFormula.DerivesIn r.system k v (r.readFormula n f) ↔
      ∃ ss, r.reader n = .ok ss ∧ RecursiveFormula.DerivesIn r.system k v (.any (ss.map f)) := by
  rw [readFormula, derivesIn_read]
  cases h : r.reader n with
  | ok ss => simp
  | error message => simp [not_derivesIn_fail]

theorem derivesIn_subjectFormula_true {s : Subject} :
    RecursiveFormula.DerivesIn r.system k true (r.subjectFormula s) ↔ r.applies s ∧
      (r.grants s ∨ ∃ x, r.follows s = some x ∧
        RecursiveFormula.DerivesIn r.system k true (.ref x)) := by
  unfold subjectFormula
  cases happ : r.applies s <;> cases hgr : r.grants s <;> cases hf : r.follows s <;> simp

theorem derivesIn_subjectFormula_false {s : Subject} :
    RecursiveFormula.DerivesIn r.system k false (r.subjectFormula s) ↔ (r.applies s →
      r.grants s = false ∧ ∀ x, r.follows s = some x →
        RecursiveFormula.DerivesIn r.system k false (.ref x)) := by
  unfold subjectFormula
  cases happ : r.applies s <;> cases hgr : r.grants s <;> cases hf : r.follows s <;> simp

theorem derivesIn_pointerFormula_true {relation : GoString} {s : Subject} :
    RecursiveFormula.DerivesIn r.system k true (r.pointerFormula relation s) ↔ r.applies s ∧
      ∃ x, pointsTo relation s = some x ∧
        RecursiveFormula.DerivesIn r.system k true (.ref x) := by
  unfold pointerFormula
  cases happ : r.applies s <;> cases hp : pointsTo relation s <;> simp

theorem derivesIn_pointerFormula_false {relation : GoString} {s : Subject} :
    RecursiveFormula.DerivesIn r.system k false (r.pointerFormula relation s) ↔ (r.applies s →
      ∀ x, pointsTo relation s = some x →
        RecursiveFormula.DerivesIn r.system k false (.ref x)) := by
  unfold pointerFormula
  cases happ : r.applies s <;> cases hp : pointsTo relation s <;> simp

theorem formula_of_derivesIn (h : r.DerivesIn k v n rw) :
    RecursiveFormula.DerivesIn r.system k v (r.rewriteFormula n rw) := by
  induction h with
  | thisGrant hv hread hs happ hgr =>
    rw [rewriteFormula_eq, hv]
    refine derivesIn_readFormula.mpr ⟨_, hread, derivesIn_any_true.mpr ?_⟩
    exact ⟨_, List.mem_map_of_mem hs, derivesIn_subjectFormula_true.mpr ⟨happ, .inl hgr⟩⟩
  | thisMember hv hread hs happ hf _ ih =>
    rw [rewriteFormula_eq, hv]
    refine derivesIn_readFormula.mpr ⟨_, hread, derivesIn_any_true.mpr ?_⟩
    exact ⟨_, List.mem_map_of_mem hs,
      derivesIn_subjectFormula_true.mpr ⟨happ, .inr ⟨_, hf, .ref ih⟩⟩⟩
  | thisLeaf hv hread hnone =>
    rw [rewriteFormula_eq, hv]
    refine derivesIn_readFormula.mpr ⟨_, hread, derivesIn_any_false.mpr ?_⟩
    refine List.forall_mem_map.mpr fun s hs => derivesIn_subjectFormula_false.mpr fun happ => ?_
    exact ⟨(hnone s hs happ).1, fun x hx => by simp [(hnone s hs happ).2] at hx⟩
  | thisNone hv hread hgr _ ih =>
    rw [rewriteFormula_eq, hv]
    refine derivesIn_readFormula.mpr ⟨_, hread, derivesIn_any_false.mpr ?_⟩
    refine List.forall_mem_map.mpr fun s hs => derivesIn_subjectFormula_false.mpr fun happ => ?_
    exact ⟨hgr s hs happ, fun x hx => .ref (ih s hs happ x hx)⟩
  | unionSome hv hc _ ih =>
    rw [rewriteFormula_eq, hv]
    exact derivesIn_any_true.mpr ⟨_, List.mem_map_of_mem hc, ih⟩
  | unionNone hv _ ih =>
    rw [rewriteFormula_eq, hv]
    exact derivesIn_any_false.mpr (List.forall_mem_map.mpr ih)
  | intersectionAll hq hv _ ih =>
    rw [rewriteFormula_eq, hv, viewFormula, if_neg (by simp [hq])]
    exact derivesIn_all_true.mpr (List.forall_mem_map.mpr ih)
  | intersectionSome hq hv hc _ ih =>
    rw [rewriteFormula_eq, hv, viewFormula, if_neg (by simp [hq])]
    exact derivesIn_all_false.mpr ⟨_, List.mem_map_of_mem hc, ih⟩
  | intersectionSet hq hv =>
    rw [rewriteFormula_eq, hv, viewFormula, if_pos (Option.isSome_iff_ne_none.mpr hq)]
    exact .const _ false
  | exclusionBoth hq hv _ _ ihInc ihExc =>
    rw [rewriteFormula_eq, hv, viewFormula, if_neg (by simp [hq])]
    exact .andBoth ihInc (.not ihExc)
  | exclusionInclude hq hv _ ih =>
    rw [rewriteFormula_eq, hv, viewFormula, if_neg (by simp [hq])]
    exact .andLeft ih
  | exclusionExclude hq hv _ ih =>
    rw [rewriteFormula_eq, hv, viewFormula, if_neg (by simp [hq])]
    exact .andRight (.not ih)
  | exclusionSet hq hv =>
    rw [rewriteFormula_eq, hv, viewFormula, if_pos (Option.isSome_iff_ne_none.mpr hq)]
    exact .const _ false
  | computed hv _ ih =>
    rw [rewriteFormula_eq, hv]
    exact .ref ih
  | pointerSome hv hread hs happ hp _ ih =>
    rw [rewriteFormula_eq, hv]
    refine derivesIn_readFormula.mpr ⟨_, hread, derivesIn_any_true.mpr ?_⟩
    exact ⟨_, List.mem_map_of_mem hs, derivesIn_pointerFormula_true.mpr ⟨happ, _, hp, .ref ih⟩⟩
  | pointerLeaf hv hread hnone =>
    rw [rewriteFormula_eq, hv]
    refine derivesIn_readFormula.mpr ⟨_, hread, derivesIn_any_false.mpr ?_⟩
    refine List.forall_mem_map.mpr fun s hs => derivesIn_pointerFormula_false.mpr fun happ => ?_
    exact fun x hx => by simp [hnone s hs happ] at hx
  | pointerNone hv hread _ ih =>
    rw [rewriteFormula_eq, hv]
    refine derivesIn_readFormula.mpr ⟨_, hread, derivesIn_any_false.mpr ?_⟩
    refine List.forall_mem_map.mpr fun s hs => derivesIn_pointerFormula_false.mpr fun happ => ?_
    exact fun x hx => .ref (ih s hs happ x hx)

theorem not_derivesIn_zero_ref {x : SubjectSet} :
    ¬ RecursiveFormula.DerivesIn r.system 0 v (.ref x) := by
  intro h
  obtain ⟨j, hj, -⟩ := derivesIn_ref.mp h
  cases hj

theorem derivesIn_of_formula (h : RecursiveFormula.DerivesIn r.system k v (r.rewriteFormula n rw)) :
    r.DerivesIn k v n rw := by
  -- The steps to other nodes are counted by `k`, those inside a rewrite follow its operators.
  induction k using Nat.strong_induction_on generalizing v n rw with
  | _ k ihk =>
  have href : ∀ {v x}, RecursiveFormula.DerivesIn r.system k v (.ref x) →
      ∃ j, k = j + 1 ∧ r.DerivesIn j v x (r.rewrite x) := by
    intro v x h
    obtain ⟨j, rfl, hx⟩ := derivesIn_ref.mp h
    exact ⟨j, rfl, ihk j (Nat.lt_succ_self j) hx⟩
  induction rw using Rewrite.byView generalizing v with
  | this rw hv =>
    rw [rewriteFormula_eq, hv] at h
    obtain ⟨ss, hread, hss⟩ := derivesIn_readFormula.mp h
    cases v with
    | true =>
      obtain ⟨f, hf, hd⟩ := derivesIn_any_true.mp hss
      obtain ⟨s, hs, rfl⟩ := List.mem_map.mp hf
      obtain ⟨happ, hgr | ⟨x, hx, hd⟩⟩ := derivesIn_subjectFormula_true.mp hd
      · exact .thisGrant hv hread hs happ hgr
      · obtain ⟨j, rfl, hj⟩ := href hd
        exact .thisMember hv hread hs happ hx hj
    | false =>
      have hall := fun s (hs : s ∈ ss) =>
        derivesIn_subjectFormula_false.mp (derivesIn_any_false.mp hss _ (List.mem_map_of_mem hs))
      cases k with
      | zero =>
        refine .thisLeaf hv hread fun s hs happ => ⟨(hall s hs happ).1, ?_⟩
        cases hf : r.follows s with
        | none => rfl
        | some x => exact (not_derivesIn_zero_ref ((hall s hs happ).2 x hf)).elim
      | succ j =>
        refine .thisNone hv hread (fun s hs happ => (hall s hs happ).1) fun s hs happ x hx => ?_
        obtain ⟨i, hi, hd⟩ := href ((hall s hs happ).2 x hx)
        cases hi
        exact hd
  | union rw cs hv ih =>
    rw [rewriteFormula_eq, hv] at h
    cases v with
    | true =>
      obtain ⟨f, hf, hd⟩ := derivesIn_any_true.mp h
      obtain ⟨c, hc, rfl⟩ := List.mem_map.mp hf
      exact .unionSome hv hc (ih c hc hd)
    | false =>
      exact .unionNone hv fun c hc => ih c hc (derivesIn_any_false.mp h _ (List.mem_map_of_mem hc))
  | intersection rw cs hv ih =>
    rw [rewriteFormula_eq, hv, viewFormula] at h
    by_cases hq : r.q.set = none
    · rw [if_neg (by simp [hq])] at h
      cases v with
      | true =>
        exact .intersectionAll hq hv fun c hc =>
          ih c hc (derivesIn_all_true.mp h _ (List.mem_map_of_mem hc))
      | false =>
        obtain ⟨f, hf, hd⟩ := derivesIn_all_false.mp h
        obtain ⟨c, hc, rfl⟩ := List.mem_map.mp hf
        exact .intersectionSome hq hv hc (ih c hc hd)
    · rw [if_pos (Option.isSome_iff_ne_none.mpr hq), derivesIn_const] at h
      subst h
      exact .intersectionSet hq hv
  | exclusion rw inc exc hv ihInc ihExc =>
    rw [rewriteFormula_eq, hv, viewFormula] at h
    by_cases hq : r.q.set = none
    · rw [if_neg (by simp [hq])] at h
      cases h with
      | andBoth hinc hexc =>
        cases hexc with | not hexc => exact .exclusionBoth hq hv (ihInc hinc) (ihExc hexc)
      | andLeft hinc => exact .exclusionInclude hq hv (ihInc hinc)
      | andRight hexc => cases hexc with | not hexc => exact .exclusionExclude hq hv (ihExc hexc)
    · rw [if_pos (Option.isSome_iff_ne_none.mpr hq), derivesIn_const] at h
      subst h
      exact .exclusionSet hq hv
  | computed rw rel hv =>
    rw [rewriteFormula_eq, hv] at h
    obtain ⟨j, rfl, hd⟩ := href h
    exact .computed hv hd
  | tupleToUserset rw ts rel hv =>
    rw [rewriteFormula_eq, hv] at h
    obtain ⟨ss, hread, hss⟩ := derivesIn_readFormula.mp h
    cases v with
    | true =>
      obtain ⟨f, hf, hd⟩ := derivesIn_any_true.mp hss
      obtain ⟨s, hs, rfl⟩ := List.mem_map.mp hf
      obtain ⟨happ, x, hx, hd⟩ := derivesIn_pointerFormula_true.mp hd
      obtain ⟨j, rfl, hj⟩ := href hd
      exact .pointerSome hv hread hs happ hx hj
    | false =>
      have hall := fun s (hs : s ∈ ss) =>
        derivesIn_pointerFormula_false.mp (derivesIn_any_false.mp hss _ (List.mem_map_of_mem hs))
      cases k with
      | zero =>
        refine .pointerLeaf hv hread fun s hs happ => ?_
        cases hp : pointsTo rel s with
        | none => rfl
        | some x => exact (not_derivesIn_zero_ref (hall s hs happ x hp)).elim
      | succ j =>
        refine .pointerNone hv hread fun s hs happ x hx => ?_
        obtain ⟨i, hi, hd⟩ := href (hall s hs happ x hx)
        cases hi
        exact hd

theorem derivesIn_iff :
    r.DerivesIn k v n rw ↔ RecursiveFormula.DerivesIn r.system k v (r.rewriteFormula n rw) :=
  ⟨formula_of_derivesIn, derivesIn_of_formula⟩

/-- Verdicts on nodes are the verdicts on their formulas. -/
theorem nodeDerivesIn_iff :
    r.NodeDerivesIn k v n ↔ RecursiveFormula.DerivesIn r.system k v (r.system n) :=
  derivesIn_iff

theorem holds_iff : r.Holds n ↔ Derives r.system true (r.system n) :=
  exists_congr fun _ => nodeDerivesIn_iff

theorem fails_iff : r.Fails n ↔ Derives r.system false (r.system n) :=
  exists_congr fun _ => nodeDerivesIn_iff

/-- No node is both granted and refused. -/
theorem not_holds_and_fails : ¬ (r.Holds n ∧ r.Fails n) := by
  rintro ⟨ht, hf⟩
  cases (holds_iff.mp ht).unique (fails_iff.mp hf)

end Derivations

/-! ## The nodes a check can meet -/

theorem mem_refs_subjectFormula {s : Subject} {p : Bool × SubjectSet} :
    p ∈ (r.subjectFormula s).refs ↔ p.1 = false ∧ r.applies s ∧ r.follows s = some p.2 := by
  obtain ⟨negated, y⟩ := p
  unfold subjectFormula follows
  cases happ : r.applies s <;> cases hgr : r.grants s <;> cases hset : s.set <;>
    grind [Formula.refs]

theorem mem_refs_pointerFormula {relation : GoString} {s : Subject} {p : Bool × SubjectSet} :
    p ∈ (r.pointerFormula relation s).refs ↔
      p.1 = false ∧ r.applies s ∧ pointsTo relation s = some p.2 := by
  obtain ⟨negated, y⟩ := p
  unfold pointerFormula
  cases happ : r.applies s <;> cases hp : pointsTo relation s <;> grind [Formula.refs]

theorem mem_refs_readFormula {f : Subject → NodeFormula} {p : Bool × SubjectSet} :
    p ∈ (r.readFormula n f).refs ↔ ∃ ss, r.reader n = .ok ss ∧ ∃ s ∈ ss, p ∈ (f s).refs := by
  unfold readFormula
  cases h : r.reader n with
  | ok ss => simp [Formula.refs, Formula.mem_refs_any]
  | error message => simp [Formula.refs]

theorem set_of_follows {s : Subject} {x : SubjectSet} (h : r.follows s = some x) :
    s.set = some x := by
  unfold follows at h
  split_ifs at h
  exact h

theorem refs_of_this (hv : (r.rewrite n).view = .this) {p : Bool × SubjectSet}
    (hp : p ∈ (r.system n).refs) :
    ∃ ss, r.reader n = .ok ss ∧ ∃ s ∈ ss, s.set = some p.2 := by
  rw [system, rewriteFormula_eq, hv] at hp
  obtain ⟨ss, hread, s, hs, hp⟩ := mem_refs_readFormula.mp hp
  exact ⟨ss, hread, s, hs, set_of_follows (mem_refs_subjectFormula.mp hp).2.2⟩

theorem refs_of_pointer {ts rel : GoString} (hv : rw.view = .tupleToUserset ts rel)
    {p : Bool × SubjectSet} (hp : p ∈ (r.rewriteFormula n rw).refs) :
    ∃ ss, r.reader ⟨n.ns, n.objectID, ts⟩ = .ok ss ∧ ∃ s ∈ ss, pointsTo rel s = some p.2 := by
  rw [rewriteFormula_eq, hv] at hp
  obtain ⟨ss, hread, s, hs, hp⟩ := mem_refs_readFormula.mp hp
  exact ⟨ss, hread, s, hs, (mem_refs_pointerFormula.mp hp).2.2⟩

theorem system_refs_mono {r' : Request} (hm : r'.model = r.model) (hq : r'.q = r.q)
    (hread : ∀ x ss' s, r'.reader x = .ok ss' → s ∈ ss' → r'.applies s →
      ∃ ss, r.reader x = .ok ss ∧ s ∈ ss ∧ r.applies s) (x : SubjectSet) :
    (r'.system x).refs ⊆ (r.system x).refs := by
  have hgrants : r'.grants = r.grants := by funext s; simp only [grants, hq]
  have hfollows : r'.follows = r.follows := by funext s; simp only [follows, hgrants]
  have hrw : ∀ rw, (r'.rewriteFormula x rw).refs ⊆ (r.rewriteFormula x rw).refs := by
    intro rw
    induction rw using Rewrite.byView with
    | this rw hv =>
      rw [rewriteFormula_eq, rewriteFormula_eq, hv]
      intro p hp
      obtain ⟨ss', hss', s, hs, hp⟩ := mem_refs_readFormula.mp hp
      obtain ⟨hneg, happ, hf⟩ := mem_refs_subjectFormula.mp hp
      obtain ⟨ss, hss, hs, happ⟩ := hread _ _ s hss' hs happ
      rw [hfollows] at hf
      exact mem_refs_readFormula.mpr ⟨ss, hss, s, hs, mem_refs_subjectFormula.mpr ⟨hneg, happ, hf⟩⟩
    | union rw cs hv ih =>
      rw [rewriteFormula_eq, rewriteFormula_eq, hv]
      intro p hp
      obtain ⟨f, hf, hp⟩ := Formula.mem_refs_any.mp hp
      obtain ⟨c, hc, rfl⟩ := List.mem_map.mp hf
      exact Formula.mem_refs_any.mpr ⟨_, List.mem_map_of_mem hc, ih c hc hp⟩
    | intersection rw cs hv ih =>
      rw [rewriteFormula_eq, rewriteFormula_eq, hv, viewFormula, viewFormula, hq]
      split_ifs
      · exact subset_rfl
      · intro p hp
        obtain ⟨f, hf, hp⟩ := Formula.mem_refs_all.mp hp
        obtain ⟨c, hc, rfl⟩ := List.mem_map.mp hf
        exact Formula.mem_refs_all.mpr ⟨_, List.mem_map_of_mem hc, ih c hc hp⟩
    | exclusion rw inc exc hv ihInc ihExc =>
      rw [rewriteFormula_eq, rewriteFormula_eq, hv, viewFormula, viewFormula, hq]
      split_ifs
      · exact subset_rfl
      · exact Set.union_subset_union ihInc fun p hp => ihExc hp
    | computed rw rel hv =>
      rw [rewriteFormula_eq, rewriteFormula_eq, hv]
      exact subset_rfl
    | tupleToUserset rw ts rel hv =>
      rw [rewriteFormula_eq, rewriteFormula_eq, hv]
      intro p hp
      obtain ⟨ss', hss', s, hs, hp⟩ := mem_refs_readFormula.mp hp
      obtain ⟨hneg, happ, hf⟩ := mem_refs_pointerFormula.mp hp
      obtain ⟨ss, hss, hs, happ⟩ := hread _ _ s hss' hs happ
      exact mem_refs_readFormula.mpr ⟨ss, hss, s, hs, mem_refs_pointerFormula.mpr ⟨hneg, happ, hf⟩⟩
  rw [system, system, rewrite, rewrite, hm]
  exact hrw _

/-- The evaluation of `x` may ask for `y`. -/
def Refers (r : Request) (x y : SubjectSet) : Prop := ∃ negated, (negated, y) ∈ (r.system x).refs

/-- The nodes that the evaluation of `n` may ask for, directly or not. -/
def below (r : Request) (n : SubjectSet) : Set SubjectSet := {x | Relation.TransGen r.Refers n x}

/-- The same with `n` itself. -/
def around (r : Request) (n : SubjectSet) : Set SubjectSet :=
  {x | Relation.ReflTransGen r.Refers n x}

theorem closed_below (n : SubjectSet) : Closed r.system (r.below n) :=
  fun _ hx p hp => Relation.TransGen.tail hx ⟨p.1, hp⟩

theorem closed_around (n : SubjectSet) : Closed r.system (r.around n) :=
  fun _ hx p hp => Relation.ReflTransGen.tail hx ⟨p.1, hp⟩

theorem refs_mem_below {p : Bool × SubjectSet} (hp : p ∈ (r.system n).refs) : p.2 ∈ r.below n :=
  Relation.TransGen.single ⟨p.1, hp⟩

theorem self_mem_around (n : SubjectSet) : n ∈ r.around n := Relation.ReflTransGen.refl

theorem around_mono {r' : Request} (h : ∀ x, (r'.system x).refs ⊆ (r.system x).refs)
    (n : SubjectSet) : r'.around n ⊆ r.around n :=
  Relation.ReflTransGen.mono (fun x _ ⟨negated, hp⟩ => ⟨negated, h x hp⟩) n

theorem below_mono {r' : Request} (h : ∀ x, (r'.system x).refs ⊆ (r.system x).refs)
    (n : SubjectSet) : r'.below n ⊆ r.below n :=
  Relation.TransGen.mono (fun x _ ⟨negated, hp⟩ => ⟨negated, h x hp⟩) n

theorem below_subset_around (n : SubjectSet) : r.below n ⊆ r.around n :=
  fun _ hx => Relation.TransGen.to_reflTransGen hx

end Request

end WorkspaceAuthz.Authz
