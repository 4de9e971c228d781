import WorkspaceAuthz.Authz.Formulas

/-! # A check that grants

A granted check has a derivation, whatever cycles, depth cut-offs and negations
the evaluation met: a guard answers with the verdict that its polarity cannot
turn into a grant. This needs that the keys tell apart the nodes the check may
ask for. The engine's keys do not do so for all nodes, and any two nodes with one
key are enough to obtain a grant without a derivation.
-/
namespace WorkspaceAuthz.Authz
open Go RecursiveFormula

namespace Request

variable {κ μ : Type} [DecidableEq κ] [DecidableEq μ] {r : Request} {n : SubjectSet}

/-- A granted check of a node holds, for any depth bound and any read budget, if it
starts with an empty memo. -/
theorem holds_of_check {K : Keying SubjectSet κ μ} (hK : K.Separates (r.below n)) {left : ℕ}
    {st st' : SearchState κ μ} (hempty : ∀ k, st.memo k = none)
    (h : r.check K left n false st = .ok true st') : r.Holds n := by
  rw [check_eq_search] at h
  have hj := search_root_justified hK (closed_below n) (fun p hp => refs_mem_below hp) hempty h
  exact holds_iff.mpr (hj (.inl Bool.true_eq_false.mp))

end Request

/-! ## Two nodes with one key -/

section Member

variable {κ μ : Type}

theorem eval_stored {visit : SubjectSet → Bool → EvalM κ μ Bool} {z : SubjectSet}
    {negated : Bool} {st st' : SearchState κ μ} (hmax : st.maxReads ≤ 0) {b : Bool}
    (h : visit z negated (st.fetched 1) = .ok b st') :
    (Formula.read (.or (.ref z) (.const false))).eval .evalBudgetExceeded visit negated st =
      .ok b st' := by
  refine bind_ok.mpr ⟨(), _, fetch_unbounded hmax, bind_ok.mpr ⟨b, st', h, ?_⟩⟩
  cases b <;> rfl

variable [DecidableEq κ] [DecidableEq μ] {sys : SubjectSet → NodeFormula}

theorem search_stored {K : Keying SubjectSet κ μ} (hK : K.Remembers) {x : SubjectSet}
    {f : NodeFormula} {b : Bool} (hsys : sys x = .read f)
    (hf : ∀ visit negated (st : SearchState κ μ),
      f.eval .evalBudgetExceeded visit negated st = .ok b st)
    (left : ℕ) (st : SearchState κ μ) (hv : K.visitKey x ∉ st.visited)
    (hr : st.recalled K x false = none) (hmax : st.maxReads ≤ 0) :
    ∃ st', search K sys .evalBudgetExceeded (left + 1) x false st = .ok b st' ∧
      Extends st st' ∧ st'.recalled K x false = some b := by
  have heval : (sys x).eval .evalBudgetExceeded (search K sys .evalBudgetExceeded left)
      false (st.enter (K.visitKey x)) =
        .ok b ((st.enter (K.visitKey x)).fetched 1) := by
    rw [hsys]
    exact bind_ok.mpr ⟨(), _, fetch_unbounded hmax, hf _ _ _⟩
  have hrun := search_of_eval hv hr heval
  exact ⟨_, hrun, search_extends _ _ _ _ _ _ _ _ _ hrun, recalled_remember_self hK rfl⟩

end Member

theorem stringKeys_remembers : stringKeys.Remembers := fun k negated => ⟨memoKey k negated, rfl⟩

theorem check_of_eval {r : Request} {n : SubjectSet} {left : ℕ} {b : Bool} {f : NodeFormula}
    (hsys : r.system n = f) {st : SearchState GoString GoString} (hvisited : st.visited = ∅)
    (hempty : ∀ k, st.memo k = none)
    (h : ∃ st', f.eval .evalBudgetExceeded
      (search stringKeys r.system .evalBudgetExceeded left) false (st.enter (visitKey n)) =
        .ok b st') :
    ∃ st', r.check stringKeys (left + 1) n false st = .ok b st' := by
  subst hsys
  obtain ⟨st', h⟩ := h
  rw [Request.check_eq_search]
  exact ⟨_, search_of_eval (K := stringKeys) (hvisited ▸ Finset.notMem_empty _) (hempty _) h⟩

namespace Alias

/-- Two tuplesets, of which one leads to `x` and the other to `y`. -/
def legs (x y : SubjectSet) : List Rewrite :=
  [{ tuplesetRelation := "p", computedRelation := x.relation },
    { tuplesetRelation := "q", computedRelation := y.relation }]

/-- The only relation of the model is the one of `root`. -/
def model (root : SubjectSet) (rw : Rewrite) : Model :=
  .ofList [(root.ns, .ofList [(root.relation, rw)])]

/-- From `root` one tupleset leads to `x` on a condition and the other to `y`; the
user is a member of `w`. -/
def reader (root x y w : SubjectSet) (c : Option Condition) (u : GoString) :
    Reader := fun n => .ok (
  if n = ⟨root.ns, root.objectID, str "p"⟩ then [{ set := some x, condition := c }]
  else if n = ⟨root.ns, root.objectID, str "q"⟩ then [{ set := some y }]
  else if n = w then [{ userID := u }]
  else [])

def engine (root x y w : SubjectSet) (c : Option Condition) (u : GoString) : Engine where
  reader _ _ := reader root x y w c u

/-- `root` is a node apart from the two that it asks for. -/
structure Apart (root x y : SubjectSet) : Prop where
  key : visitKey root ≠ visitKey x
  left : root.objectID ≠ x.objectID ∧ root.relation ≠ x.relation
  right : root.objectID ≠ y.objectID ∧ root.relation ≠ y.relation

/-- What a node evaluates to that stores no tuple, or one of a user. -/
def stored (listed : Option Bool) : NodeFormula := .any (listed.toList.map .const)

theorem eval_stored_formula {κ μ : Type} {listed : Option Bool} {negated : Bool}
    {visit : SubjectSet → Bool → EvalM κ μ Bool} {st : SearchState κ μ} :
    (stored listed).eval .evalBudgetExceeded visit negated st = .ok (listed.getD false) st := by
  rcases listed with _ | _ | _ <;> rfl

theorem derives_stored {sys : SubjectSet → NodeFormula} (listed : Option Bool) :
    Derives sys (listed.getD false) (.read (stored listed)) := by
  rcases listed with _ | _ | _
  · exact .read (.const false)
  · exact .read (.orNeither (.const false) (.const false))
  · exact .read (.orLeft (.const true))

section Run

variable {root x y w : SubjectSet} {c : Option Condition} {u q : GoString} {cc : Context}

def request (rw : Rewrite) (root x y w : SubjectSet) (c : Option Condition) (u q : GoString)
    (cc : Context) : Request :=
  ⟨model root rw, reader root x y w c u, { user := q }, cc⟩

theorem model_rewrite_root (rw : Rewrite) :
    (model root rw).rewrite root.ns root.relation = rw := by
  simp [model, Model.rewrite]

theorem model_rewrite_of_ne (rw : Rewrite) {ns rel : GoString} (h : root.relation ≠ rel) :
    (model root rw).rewrite ns rel = .this := by
  simp only [model, Model.rewrite, GoMap.get_ofList_cons]
  split_ifs <;> simp [Ne.symm h]

theorem rewrite_root (rw : Rewrite) : (request rw root x y w c u q cc).rewrite root = rw :=
  model_rewrite_root rw

theorem rewrite_of_ne (rw : Rewrite) {n : SubjectSet} (h : root.relation ≠ n.relation) :
    (request rw root x y w c u q cc).rewrite n = .this :=
  model_rewrite_of_ne rw h

theorem reader_of_ne {z : SubjectSet} (hz : root.objectID ≠ z.objectID) :
    reader root x y w c u z = .ok (if z = w then [{ userID := u }] else []) := by
  have hne : ∀ rel, z ≠ ⟨root.ns, root.objectID, rel⟩ := by
    rintro rel rfl
    exact hz rfl
  simp only [reader, hne, if_false]

theorem pointer_view (ts rel : GoString) (h : ts ≠ []) :
    Rewrite.view { tuplesetRelation := ts, computedRelation := rel } = .tupleToUserset ts rel := by
  simp [Rewrite.view, Rewrite.isThis, h]

def leg (met : Bool) (z : SubjectSet) : NodeFormula :=
  .read (.or (if met then .ref z else .const false) (.const false))

theorem map_legs (rw : Rewrite) :
    (legs x y).map ((request rw root x y w c u q cc).rewriteFormula root) =
      [leg (evalCondition c cc) x, leg true y] := by
  have hqp : str "q" ≠ str "p" := by decide
  simp only [legs, List.map_cons, List.map_nil, Request.rewriteFormula_eq,
    pointer_view _ _ (by decide : str "p" ≠ []), pointer_view _ _ (by decide : str "q" ≠ [])]
  cases hc : evalCondition c cc <;>
    simp [Request.viewFormula, Request.readFormula, request, reader, Request.pointerFormula,
      Request.applies, Request.pointsTo, Formula.any, leg, hqp, hc]

theorem system_both : (request { intersection := legs x y } root x y w c u q cc).system root =
    .all [leg (evalCondition c cc) x, leg true y] := by
  have hview : Rewrite.view { intersection := legs x y } = .intersection (legs x y) := rfl
  rw [Request.system, rewrite_root, Request.rewriteFormula_eq, hview, ← map_legs]
  rfl

theorem system_either : (request { union := legs x y } root x y w c u q cc).system root =
    .any [leg (evalCondition c cc) x, leg true y] := by
  have hview : Rewrite.view { union := legs x y } = .union (legs x y) := rfl
  rw [Request.system, rewrite_root, Request.rewriteFormula_eq, hview, ← map_legs]
  rfl

theorem system_of_ne (rw : Rewrite) {z : SubjectSet}
    (hz : root.objectID ≠ z.objectID ∧ root.relation ≠ z.relation) (hu : u ≠ []) :
    (request rw root x y w c u q cc).system z =
      .read (stored (if z = w then some (decide (u = q)) else none)) := by
  have hread : (request rw root x y w c u q cc).reader z =
      .ok (if z = w then [{ userID := u }] else []) := reader_of_ne hz.1
  have hgrants : (request rw root x y w c u q cc).grants { userID := u } = decide (u = q) := by
    by_cases huq : u = q
    · subst huq
      simp [Request.grants, request, hu]
    · simp [Request.grants, request, huq]
  rw [Request.system_of_this (rewrite_of_ne rw hz.2) hread]
  by_cases hw : z = w
  · rw [if_pos hw, if_pos hw, List.map_singleton, Request.subjectFormula_of_set_none rfl, hgrants]
    rfl
  · rw [if_neg hw, if_neg hw]
    rfl

theorem refs_leg {met : Bool} {z : SubjectSet} {p : Bool × SubjectSet} (h : p ∈ (leg met z).refs) :
    met = true ∧ p.2 = z := by
  cases met <;> simp_all [leg, Formula.refs]

theorem refs_stored {listed : Option Bool} {p : Bool × SubjectSet}
    (h : p ∈ (Formula.read (stored listed)).refs) : False := by
  cases listed <;> simp [stored, Formula.any, Formula.refs] at h

theorem below_root {rw : Rewrite} (h : Apart root x y) (hu : u ≠ [])
    (hroot : ∀ p ∈ ((request rw root x y w c u q cc).system root).refs, p.2 = x ∨ p.2 = y) :
    (request rw root x y w c u q cc).below root ⊆ {x, y} := by
  intro z hz
  induction hz with
  | single hz =>
    obtain ⟨negated, hz⟩ := hz
    exact hroot _ hz
  | tail _ hz ih =>
    obtain ⟨negated, hz⟩ := hz
    rcases ih with rfl | rfl
    · rw [system_of_ne rw h.left hu] at hz
      exact (refs_stored hz).elim
    · rw [system_of_ne rw h.right hu] at hz
      exact (refs_stored hz).elim

theorem below_both (h : Apart root x y) (hu : u ≠ []) :
    (request { intersection := legs x y } root x y w c u q cc).below root ⊆ {x, y} := by
  refine below_root h hu fun p hp => ?_
  rw [system_both] at hp
  obtain ⟨f, hf, hp⟩ := Formula.mem_refs_all.mp hp
  rcases List.mem_pair.mp hf with rfl | rfl
  · exact .inl (refs_leg hp).2
  · exact .inr (refs_leg hp).2

theorem fails_both (h : Apart root x y) (hu : u ≠ []) (hyw : y ≠ w) :
    (request { intersection := legs x y } root x y w c u q cc).Fails root := by
  rw [Request.fails_iff, system_both]
  refine .andRight (.andLeft (.read (.orNeither (.ref ?_) (.const false))))
  rw [system_of_ne _ h.right hu, if_neg hyw]
  exact derives_stored none

/-- With one key for `x` and `y`, the verdict on `x` is recalled for `y`. -/
theorem legs_recalled {r : Request} (h : Apart root x y) (hkey : visitKey x = visitKey y)
    {listed : Option Bool} (hx : r.system x = .read (stored listed)) (left : ℕ)
    (st : SearchState GoString GoString) (hst : st.visited = {visitKey root})
    (hempty : st.recalled stringKeys x false = none) (hmax : st.maxReads ≤ 0) :
    ∃ st₁ st₂,
      (leg true x).eval .evalBudgetExceeded
        (search stringKeys r.system .evalBudgetExceeded (left + 1)) false st =
          .ok (listed.getD false) st₁ ∧
      (leg true y).eval .evalBudgetExceeded
        (search stringKeys r.system .evalBudgetExceeded (left + 1)) false st₁ =
          .ok (listed.getD false) st₂ := by
  have hvis : ∀ s : SearchState GoString GoString, s.visited = {visitKey root} →
      visitKey x ∉ s.visited := by
    intro s hs
    rw [hs, Finset.mem_singleton]
    exact h.key.symm
  obtain ⟨st₁, hrun, hext, hrec⟩ := search_stored stringKeys_remembers hx
    (fun _ _ _ => eval_stored_formula) left (st.fetched 1) (hvis _ hst) hempty
    hmax
  refine ⟨st₁, st₁.fetched 1, eval_stored hmax hrun,
    eval_stored (hext.maxReads.trans_le hmax) ?_⟩
  refine search_of_recalled ?_ ?_
  · change visitKey y ∉ st₁.visited
    rw [← hkey]
    exact hvis st₁ (hext.visited.trans hst)
  · change (some (memoKey (visitKey y) false)).bind st₁.memo = some (listed.getD false)
    rw [← hkey]
    exact hrec

theorem check_both (h : Apart root x y) (hkey : visitKey x = visitKey y) (hu : u ≠ [])
    (hc : evalCondition c cc = true) (st : SearchState GoString GoString)
    (hvisited : st.visited = ∅) (hempty : ∀ k, st.memo k = none) (hmax : st.maxReads ≤ 0) :
    ∃ st', (request { intersection := legs x y } root x y x c u u cc).check stringKeys 33 root false
      st = .ok true st' := by
  have hx : (request { intersection := legs x y } root x y x c u u cc).system x =
      .read (stored (some true)) := by
    rw [system_of_ne _ h.left hu, if_pos rfl, decide_eq_true rfl]
  obtain ⟨st₁, st₂, hleft, hright⟩ := legs_recalled h hkey hx 31 (st.enter (visitKey root))
    (by simp [SearchState.enter, hvisited]) (hempty _) hmax
  refine check_of_eval system_both hvisited hempty ⟨st₂, ?_⟩
  rw [hc]
  exact bind_ok.mpr ⟨true, st₁, hleft, bind_ok.mpr ⟨true, st₂, hright, rfl⟩⟩

end Run

/-- A node that is apart from any two nodes with one key. -/
def fresh (x y : SubjectSet) : SubjectSet :=
  ⟨str "doc", visitKey x, x.relation ++ y.relation ++ str "r"⟩

theorem objectID_lt_visitKey (n : SubjectSet) : n.objectID.length < (visitKey n).length := by
  have hcolon : (str ":").length = 1 := rfl
  simp only [visitKey, List.length_append, hcolon]
  omega

theorem apart_fresh {x y : SubjectSet} (hkey : visitKey x = visitKey y) :
    Apart (fresh x y) x y := by
  have hr : (str "r").length = 1 := rfl
  refine ⟨fun h => ?_, ⟨fun h => ?_, fun h => ?_⟩, ⟨fun h => ?_, fun h => ?_⟩⟩
  · have hlt := objectID_lt_visitKey (fresh x y)
    rw [h] at hlt
    exact lt_irrefl _ hlt
  · exact (objectID_lt_visitKey x).ne (congrArg List.length h.symm)
  · have := congrArg List.length h
    simp only [fresh, List.length_append, hr] at this
    omega
  · rw [fresh, hkey] at h
    exact (objectID_lt_visitKey y).ne (congrArg List.length h.symm)
  · have := congrArg List.length h
    simp only [fresh, List.length_append, hr] at this
    omega

end Alias

/-- Checks never fail open on the inputs whose nodes lie in `N` exactly if the
keys of the engine tell the nodes in `N` apart. -/
theorem checkWithModel_sound_iff (N : Set SubjectSet) :
    (∀ (e : Engine) (m : Model) (projectID tenantID : GoString) (n : SubjectSet)
      (userID : GoString) (cc : Context) (maxReads : ℤ),
      (e.request m projectID tenantID userID cc).below n ⊆ N →
      (e.checkWithModel m projectID tenantID n userID cc maxReads).result = .ok true →
      (e.request m projectID tenantID userID cc).Holds n) ↔
    Set.InjOn visitKey N := by
  constructor
  · intro hsound x hx y hy hkey
    by_contra hne
    have hapart := Alias.apart_fresh hkey
    have hu : str "u" ≠ [] := by decide
    have hN : {x, y} ⊆ N := Set.insert_subset hx (Set.singleton_subset_iff.mpr hy)
    obtain ⟨st, hrun⟩ := Alias.check_both hapart hkey hu (evalCondition_none ∅) (newEvalState 0) rfl
      (fun _ => rfl) le_rfl
    have hholds := hsound (Alias.engine (Alias.fresh x y) x y x none "u")
      (Alias.model (Alias.fresh x y) { intersection := Alias.legs x y }) [] [] (Alias.fresh x y) "u"
      ∅ 0 ((Alias.below_both hapart hu).trans hN) (congrArg (fun z => (Outcome.of z).result) hrun)
    exact Request.not_holds_and_fails ⟨hholds, Alias.fails_both hapart hu (Ne.symm hne)⟩
  · intro hN e m projectID tenantID n userID cc maxReads hbelow hok
    obtain ⟨st, hrun, -⟩ := Outcome.of_result_ok hok
    exact Request.holds_of_check (K := stringKeys) (hN.mono hbelow) (fun _ => rfl) hrun

/-- `doc:1#view` needs membership in two usersets with one key, and the user has one. -/
theorem checkWithModel_grants_aliased_node :
    let doc : SubjectSet := ⟨str "doc", str "1", str "view"⟩
    let x : SubjectSet := ⟨str "a", str "b:c", str "m"⟩
    let y : SubjectSet := ⟨str "a:b", str "c", str "m"⟩
    let e := Alias.engine doc x y x none "u"
    let m := Alias.model doc { intersection := Alias.legs x y }
    (e.checkWithModel m "p" "t" doc "u" ∅ 0).result = .ok true ∧
      (e.request m "p" "t" "u" ∅).Fails doc ∧ ¬ (e.request m "p" "t" "u" ∅).Holds doc := by
  intro doc x y e m
  have hapart : Alias.Apart doc x y := ⟨by decide, by decide, by decide⟩
  have hfails : (e.request m "p" "t" "u" ∅).Fails doc :=
    Alias.fails_both hapart (by decide) (by decide)
  exact ⟨by decide +kernel, hfails, fun hholds => Request.not_holds_and_fails ⟨hholds, hfails⟩⟩

end WorkspaceAuthz.Authz
