import WorkspaceAuthz.Authz.ModelRefs
import WorkspaceAuthz.Authz.Soundness
import WorkspaceAuthz.RecursiveFormula.KeyIndependence
import WorkspaceAuthz.Service.Tuples

/-! # The string key of a node

The engine records nodes in progress and remembered results under a
concatenated string. Compared with the evaluator that keys nodes by their three
fields, nothing changes as long as the strings tell the nodes apart. Validated
tuples do not ensure this: every two nodes with one string whose objects validated
tuples can name, stored under or not, give rise to a check that is answered
differently.
-/
namespace WorkspaceAuthz.Service
open Go Authz RecursiveFormula

/-- The evaluator's keys without the concatenation. -/
def tripleKeys : Keying SubjectSet SubjectSet (SubjectSet × Bool) where
  visitKey := id
  memoKey n negated := some (n, negated)
  memoKey_inj h h' := Prod.mk.inj (Option.some.inj (h.trans h'.symm))

theorem tripleKeys_separates (N : Set SubjectSet) : tripleKeys.Separates N :=
  Function.injective_id.injOn

theorem tripleKeys_remembers : tripleKeys.Remembers := fun n negated => ⟨(n, negated), rfl⟩

/-- All stored tuples pass the checks of the write path. -/
def ValidStore (reader : Reader) : Prop :=
  ∀ n ss, reader n = .ok ss → ∀ s ∈ ss,
    validateTuple ⟨n.ns, n.objectID, n.relation, s, none⟩ = .ok ()

/-- A node that clients can write tuples for. -/
structure Writable (n : SubjectSet) : Prop where
  nonempty : n.ns ≠ [] ∧ n.objectID ≠ [] ∧ n.relation ≠ []
  notSeat : n.ns ≠ seatNamespace
  noControl : hasControlChar n.ns = false ∧ hasControlChar n.objectID = false ∧
    hasControlChar n.relation = false

/-- A node of an object that a validated tuple can name. Its relation may come from the model. -/
structure Nameable (n : SubjectSet) : Prop where
  nonempty : n.ns ≠ [] ∧ n.objectID ≠ []
  noControl : hasControlChar n.ns = false ∧ hasControlChar n.objectID = false

theorem Nameable.of_object {n x : SubjectSet} (h : Nameable n) (hns : x.ns = n.ns)
    (hobj : x.objectID = n.objectID) : Nameable x where
  nonempty := by
    rw [hns, hobj]
    exact h.nonempty
  noControl := by
    rw [hns, hobj]
    exact h.noControl

theorem Writable.nameable {n : SubjectSet} (h : Writable n) : Nameable n :=
  ⟨⟨h.nonempty.1, h.nonempty.2.1⟩, h.noControl.1, h.noControl.2.1⟩

/-- A validated tuple names the object it is stored under, and that of its subject set. -/
theorem nameable_of_validateTuple {t : Tuple} (h : validateTuple t = .ok ()) :
    Nameable ⟨t.ns, t.objectID, t.relation⟩ ∧ ∀ set, t.subject.set = some set → Nameable set := by
  simp only [validateTuple, guarded_ok_iff, not_or] at h
  obtain ⟨hempty, -, hcontrol, hsetControl, -, hset, -⟩ := h
  simp only [List.any_cons, Bool.or_eq_true, not_or, Bool.not_eq_true] at hcontrol
  refine ⟨⟨⟨hempty.1, hempty.2.1⟩, hcontrol.1, hcontrol.2.1⟩, fun set heq => ?_⟩
  rw [heq] at hset hsetControl
  simp only [Option.any_some, decide_eq_true_eq, not_or] at hset
  simp only [Option.any_some, List.any_cons, Bool.or_eq_true, not_or, Bool.not_eq_true]
    at hsetControl
  exact ⟨hset, hsetControl.1, hsetControl.2.1⟩

theorem validateTuple_user {n : SubjectSet} (hn : Writable n) {u : GoString} (hu : u ≠ [])
    (hu' : hasControlChar u = false) :
    validateTuple ⟨n.ns, n.objectID, n.relation, { userID := u }, none⟩ = .ok () := by
  obtain ⟨⟨hns, hobj, hrel⟩, hseat, hcns, hcobj, hcrel⟩ := hn
  simp [validateTuple, subjectKinds, *]
  rfl

theorem validateTuple_set {n x : SubjectSet} (hn : Writable n) (hx : Nameable x)
    (hxrel : hasControlChar x.relation = false) :
    validateTuple ⟨n.ns, n.objectID, n.relation, { set := some x }, none⟩ = .ok () := by
  obtain ⟨⟨hns, hobj, hrel⟩, hseat, hcns, hcobj, hcrel⟩ := hn
  obtain ⟨⟨hxns, hxobj⟩, hxcns, hxcobj⟩ := hx
  have hempty : hasControlChar [] = false := rfl
  simp [validateTuple, subjectKinds, *]
  rfl

/-- Two nodes of one object are told apart by their relations. -/
theorem eq_of_visitKey {x y : SubjectSet} (hkey : visitKey x = visitKey y) (hns : x.ns = y.ns)
    (hobj : x.objectID = y.objectID) : x = y := by
  simp only [visitKey, hns, hobj, List.append_cancel_left_eq] at hkey
  cases x
  cases y
  simp_all

/-! ## One key for two nodes -/

namespace Shadow

/-- The relation of `x` is inherited from the objects it points to. -/
def model (x y : SubjectSet) : Model :=
  .ofList [(x.ns, .ofList [(x.relation,
    { tuplesetRelation := "p", computedRelation := y.relation })])]

/-- `x` points to the object of `y`, and the user is in `y`. -/
def reader (x y : SubjectSet) (u : GoString) : Reader := fun n => .ok (
  if n = ⟨x.ns, x.objectID, str "p"⟩ then [{ set := some y }]
  else if n = y then [{ userID := u }]
  else [])

def engine (x y : SubjectSet) (u : GoString) : Engine where
  reader _ _ := reader x y u

variable {x y : SubjectSet} {u p t : GoString} {cc : Context}

theorem reader_valid (hx : Writable x) (hy : Writable y) (hu : u ≠ [])
    (hu' : hasControlChar u = false) : ValidStore (reader x y u) := by
  rintro n ss ⟨⟩ s hs
  have hp : Writable ⟨x.ns, x.objectID, str "p"⟩ :=
    ⟨⟨hx.nonempty.1, hx.nonempty.2.1, (by decide : str "p" ≠ [])⟩, hx.notSeat,
      hx.noControl.1, hx.noControl.2.1, rfl⟩
  split_ifs at hs with hn hn
  · rw [List.mem_singleton.mp hs, hn]
    exact validateTuple_set hp hy.nameable hy.noControl.2.2
  · rw [List.mem_singleton.mp hs, hn]
    exact validateTuple_user hy hu hu'
  · exact absurd hs List.not_mem_nil

theorem ne_pointer (hkey : visitKey x = visitKey y) (hne : x ≠ y) (rel : GoString) :
    y ≠ ⟨x.ns, x.objectID, rel⟩ := by
  rintro rfl
  exact hne (eq_of_visitKey hkey rfl rfl)

theorem system_left : ((engine x y u).request (model x y) p t u cc).system x =
    .read (.or (.ref y) (.const false)) := by
  have hrw : ((engine x y u).request (model x y) p t u cc).rewrite x =
      { tuplesetRelation := "p", computedRelation := y.relation } := by
    simp [Request.rewrite, Engine.request, model, Model.rewrite]
  rw [Request.system, hrw, Request.rewriteFormula_eq, Alias.pointer_view _ _ (by decide)]
  simp [Request.viewFormula, Request.readFormula, Engine.request, engine, reader,
    Request.pointerFormula, Request.applies, evalCondition, Request.pointsTo, Formula.any]

theorem system_right (hkey : visitKey x = visitKey y) (hne : x ≠ y) (hu : u ≠ []) :
    ((engine x y u).request (model x y) p t u cc).system y =
      .read (.or (.const true) (.const false)) := by
  have hrw : ((engine x y u).request (model x y) p t u cc).rewrite y = .this := by
    simp only [Request.rewrite, Engine.request, model, Model.rewrite, GoMap.get_ofList_cons]
    split_ifs with hns
    · have hrel : y.relation ≠ x.relation := by
        intro hrel
        have hobj : x.objectID = y.objectID := by
          simpa [visitKey, hns, hrel] using hkey
        exact hne (eq_of_visitKey hkey hns.symm hobj)
      simp [hrel]
    · simp
  rw [Request.system, hrw, Request.rewriteFormula_eq]
  simp [Rewrite.view, Rewrite.isThis, Rewrite.this, Request.viewFormula, Request.readFormula,
    Engine.request, engine, reader, Request.subjectFormula, Request.applies, evalCondition,
    Request.grants, Formula.any, ne_pointer hkey hne, hu]

theorem around_left (hkey : visitKey x = visitKey y) (hne : x ≠ y) (hu : u ≠ []) :
    ((engine x y u).request (model x y) p t u cc).around x ⊆ {x, y} := by
  intro z hz
  induction hz with
  | refl => exact .inl rfl
  | tail _ hz ih =>
    obtain ⟨negated, hz⟩ := hz
    rcases ih with rfl | rfl
    · rw [system_left] at hz
      simp only [Formula.refs, Set.union_empty, Set.mem_singleton_iff, Prod.mk.injEq] at hz
      exact .inr hz.2
    · rw [system_right hkey hne hu] at hz
      simp [Formula.refs] at hz

/-- Under its string key the node `y` looks as if it were already in progress. -/
theorem check_stringKeys (hkey : visitKey x = visitKey y) :
    ((engine x y u).checkWithModel (model x y) p t x u cc 0).result = .ok false := by
  generalize hr : (engine x y u).request (model x y) p t u cc = r
  have hleft : r.system x = _ := hr ▸ system_left
  let st₁ : SearchState GoString GoString := (newEvalState 0).enter (visitKey x)
  let st₂ := st₁.fetched 1
  have hy : search stringKeys r.system .evalBudgetExceeded 32 y false st₂ =
      .ok false st₂.cycleHit := by
    have hvis : visitKey y ∈ st₂.visited := by
      rw [← hkey]
      exact Finset.mem_insert_self _ _
    simp only [search, guarded]
    exact if_pos hvis
  have heval : (r.system x).eval .evalBudgetExceeded
      (search stringKeys r.system .evalBudgetExceeded 32) false st₁ = .ok false st₂.cycleHit := by
    rw [hleft]
    exact eval_stored le_rfl hy
  have hrun := search_of_eval (K := stringKeys) (Finset.notMem_empty _) rfl heval
  rw [Engine.checkWithModel, Engine.checkWithKeys, hr, Request.check_eq_search]
  exact congrArg (fun z => (Outcome.of z).result) hrun

theorem check_tripleKeys (hkey : visitKey x = visitKey y) (hne : x ≠ y) (hu : u ≠ []) :
    ((engine x y u).checkWithKeys tripleKeys (model x y) p t x u cc 0).result = .ok true := by
  generalize hr : (engine x y u).request (model x y) p t u cc = r
  have hleft : r.system x = _ := hr ▸ system_left
  have hright : r.system y = _ := hr ▸ system_right hkey hne hu
  let st₁ : SearchState SubjectSet (SubjectSet × Bool) := (newEvalState 0).enter x
  have hvis : y ∉ st₁.visited := by
    intro hmem
    exact hne (Finset.mem_singleton.mp hmem).symm
  obtain ⟨st₂, hy, -, -⟩ := search_stored tripleKeys_remembers hright (fun _ _ _ => rfl) 31
    (st₁.fetched 1) hvis rfl le_rfl
  have heval : (r.system x).eval .evalBudgetExceeded
      (search tripleKeys r.system .evalBudgetExceeded 32) false st₁ = .ok true st₂ := by
    rw [hleft]
    exact eval_stored le_rfl hy
  have hrun := search_of_eval (K := tripleKeys) (Finset.notMem_empty _) rfl heval
  rw [Engine.checkWithKeys, hr, Request.check_eq_search]
  exact congrArg (fun z => (Outcome.of z).result) hrun

end Shadow

/-! ## A node that hides another -/

namespace Masked

variable (x y : SubjectSet)

/-- A relation that neither node has. -/
def loop : GoString := 99 :: (x.relation ++ y.relation)

/-- The node that `y` is computed from, and that is computed from itself. -/
def ring : SubjectSet := ⟨y.ns, y.objectID, loop x y⟩

/-- A namespace with a name that is longer than the keys of these nodes. -/
def ns : GoString := List.replicate ((visitKey x).length + (visitKey (ring x y)).length + 1) 113

def root (relation : GoString) : SubjectSet := ⟨ns x y, "o", relation⟩

/-- The user is in the relation of the root, unless they are in `x` or in `y`. -/
def model : Model := .ofList [
  (ns x y, .ofList [("r", { exclusion := some (.this, { union := [
    { tuplesetRelation := "p", computedRelation := x.relation },
    { tuplesetRelation := "t", computedRelation := y.relation }] }) })]),
  (y.ns, .ofList [(y.relation, { computed := loop x y }), (loop x y, { computed := loop x y })])]

/-- The root points to the objects of `x` and `y`, under which nothing is stored. -/
def reader (u : GoString) : Reader := fun n => .ok (
  if n = root x y "p" then [{ set := some ⟨x.ns, x.objectID, []⟩ }]
  else if n = root x y "t" then [{ set := some ⟨y.ns, y.objectID, []⟩ }]
  else if n = root x y "r" then [{ userID := u }]
  else [])

def engine (u : GoString) : Engine where
  reader _ _ := reader x y u

variable {x y}

/-! ### Names -/

theorem ns_length_le (n : SubjectSet) : n.ns.length ≤ (visitKey n).length := by
  simp [visitKey]

theorem visitKey_length_lt (relation : GoString) :
    (visitKey x).length < (visitKey (root x y relation)).length ∧
      (visitKey (ring x y)).length < (visitKey (root x y relation)).length := by
  have hle := ns_length_le (root x y relation)
  have hns : (root x y relation).ns.length =
      (visitKey x).length + (visitKey (ring x y)).length + 1 := List.length_replicate
  omega

theorem ne_ns {n : SubjectSet} (h : n.ns = x.ns ∨ n.ns = y.ns) : n.ns ≠ ns x y := by
  intro heq
  have hlength := congrArg List.length heq
  have hns : (ns x y).length = (visitKey x).length + (visitKey (ring x y)).length + 1 :=
    List.length_replicate
  have hx := ns_length_le x
  have hy : y.ns.length ≤ (visitKey (ring x y)).length := ns_length_le (ring x y)
  rcases h with h | h <;> rw [h] at hlength <;> omega

theorem ne_root {n : SubjectSet} (h : n.ns = x.ns ∨ n.ns = y.ns) (relation : GoString) :
    n ≠ root x y relation := by
  rintro rfl
  exact ne_ns h rfl

theorem loop_ne : loop x y ≠ x.relation ∧ loop x y ≠ y.relation := by
  constructor <;> intro h <;> have := congrArg List.length h <;> simp [loop] at this <;> omega

theorem ring_ne_left : ring x y ≠ x := fun h => loop_ne.1 (congrArg SubjectSet.relation h)

theorem ring_ne_right : ring x y ≠ y := fun h => loop_ne.2 (congrArg SubjectSet.relation h)

theorem writable_root {relation : GoString} (hne : relation ≠ [])
    (hcontrol : hasControlChar relation = false) : Writable (root x y relation) where
  nonempty := ⟨List.cons_ne_nil _ _, List.cons_ne_nil _ _, hne⟩
  notSeat h := by
    have hhead : (113 : UInt8) = 115 := congrArg (fun s => s.headD 0) h
    exact absurd hhead (by decide)
  noControl := by
    refine ⟨?_, rfl, hcontrol⟩
    simp [hasControlChar, root, ns]

theorem reader_valid {u : GoString} (hx : Nameable x) (hy : Nameable y) (hu : u ≠ [])
    (hu' : hasControlChar u = false) : ValidStore (reader x y u) := by
  rintro n ss ⟨⟩ s hs
  split_ifs at hs with hp ht hr
  · rw [List.mem_singleton.mp hs, hp]
    exact validateTuple_set (writable_root (by decide) rfl) ⟨hx.nonempty, hx.noControl⟩ rfl
  · rw [List.mem_singleton.mp hs, ht]
    exact validateTuple_set (writable_root (by decide) rfl) ⟨hy.nonempty, hy.noControl⟩ rfl
  · rw [List.mem_singleton.mp hs, hr]
    exact validateTuple_user (writable_root (by decide) rfl) hu hu'
  · exact absurd hs List.not_mem_nil

/-! ### The evaluation -/

variable {u projectID tenantID : GoString} {cc : Context}

abbrev request (x y : SubjectSet) (projectID tenantID u : GoString) (cc : Context) : Request :=
  (engine x y u).request (model x y) projectID tenantID u cc

theorem reader_root : reader x y u (root x y "p") = .ok [{ set := some ⟨x.ns, x.objectID, []⟩ }] ∧
    reader x y u (root x y "t") = .ok [{ set := some ⟨y.ns, y.objectID, []⟩ }] ∧
    reader x y u (root x y "r") = .ok [{ userID := u }] := by
  have htp : str "t" ≠ str "p" := by decide
  have hrp : str "r" ≠ str "p" := by decide
  have hrt : str "r" ≠ str "t" := by decide
  simp [reader, root, htp, hrp, hrt]

theorem pointerFormula_root {ts : GoString} {z : SubjectSet} (hts : ts ≠ [])
    (hread : reader x y u (root x y ts) = .ok [{ set := some ⟨z.ns, z.objectID, []⟩ }]) :
    (request x y projectID tenantID u cc).rewriteFormula (root x y "r")
      { tuplesetRelation := ts, computedRelation := z.relation } =
        .read (.or (.ref z) (.const false)) := by
  rw [Request.rewriteFormula_eq, Alias.pointer_view _ _ hts]
  change (request x y projectID tenantID u cc).readFormula (root x y ts) _ = _
  rw [Request.readFormula_ok (r := request x y projectID tenantID u cc) hread]
  simp [Request.pointerFormula, Request.applies, evalCondition, Request.pointsTo, Formula.any]

theorem system_root (hu : u ≠ []) :
    (request x y projectID tenantID u cc).system (root x y "r") =
      .and (.read (.or (.const true) (.const false))) (.not (.or
        (.read (.or (.ref x) (.const false)))
        (.or (.read (.or (.ref y) (.const false))) (.const false)))) := by
  obtain ⟨hp, ht, hr⟩ := reader_root (x := x) (y := y) (u := u)
  have hrw : (request x y projectID tenantID u cc).rewrite (root x y "r") =
      { exclusion := some (.this, { union := [
        { tuplesetRelation := "p", computedRelation := x.relation },
        { tuplesetRelation := "t", computedRelation := y.relation }] }) } := by
    simp [Request.rewrite, Engine.request, model, Model.rewrite, root]
  have hthis : (request x y projectID tenantID u cc).rewriteFormula (root x y "r") .this =
      .read (.or (.const true) (.const false)) := by
    rw [Request.rewriteFormula_eq]
    change (request x y projectID tenantID u cc).readFormula (root x y "r") _ = _
    rw [Request.readFormula_ok (r := request x y projectID tenantID u cc) hr]
    simp [Request.subjectFormula, Request.applies, evalCondition, Request.grants, Formula.any,
      Engine.request, hu]
  have hunion : (request x y projectID tenantID u cc).rewriteFormula (root x y "r") { union := [
      { tuplesetRelation := "p", computedRelation := x.relation },
      { tuplesetRelation := "t", computedRelation := y.relation }] } = .or
        (.read (.or (.ref x) (.const false)))
        (.or (.read (.or (.ref y) (.const false))) (.const false)) := by
    rw [Request.rewriteFormula_eq]
    change Formula.any [_, _] = _
    rw [pointerFormula_root (by decide) hp, pointerFormula_root (by decide) ht]
    rfl
  rw [Request.system, hrw, Request.rewriteFormula_eq]
  change Formula.and _ (.not _) = _
  rw [hthis, hunion]

theorem rewrite_left (hkey : visitKey x = visitKey y) (hne : x ≠ y) :
    (request x y projectID tenantID u cc).rewrite x = .this := by
  have hrel : x.ns = y.ns → x.relation ≠ y.relation := by
    intro hns hrel
    have hobj : x.objectID = y.objectID := by simpa [visitKey, hns, hrel] using hkey
    exact hne (eq_of_visitKey hkey hns hobj)
  simp only [Request.rewrite, Engine.request, model, Model.rewrite, GoMap.get_ofList_cons,
    GoMap.get_ofList_nil, if_neg (ne_ns (.inl rfl : x.ns = x.ns ∨ x.ns = y.ns))]
  split_ifs with hns
  · simp [GoMap.get_ofList_cons, GoMap.get_ofList_nil, hrel hns, loop_ne.1.symm]
  · rfl

theorem system_left (hkey : visitKey x = visitKey y) (hne : x ≠ y) :
    (request x y projectID tenantID u cc).system x = .read (.const false) := by
  have hread : (request x y projectID tenantID u cc).reader x = .ok [] := by
    change reader x y u x = _
    simp only [reader, if_neg (ne_root (.inl rfl) _)]
  rw [Request.system_of_this (rewrite_left hkey hne) hread]
  rfl

theorem system_right {n : SubjectSet} (hn : n = y ∨ n = ring x y) :
    (request x y projectID tenantID u cc).system n = .ref (ring x y) := by
  have hns : n.ns = y.ns := by rcases hn with rfl | rfl <;> rfl
  have hobj : n.objectID = y.objectID := by rcases hn with rfl | rfl <;> rfl
  have hrw : (request x y projectID tenantID u cc).rewrite n = { computed := loop x y } := by
    simp only [Request.rewrite, Engine.request, model, Model.rewrite, GoMap.get_ofList_cons,
      if_neg (ne_ns (.inr hns)), if_pos hns, Option.bind_some]
    rcases hn with rfl | rfl
    · simp
    · change (if loop x y = y.relation then some _ else if loop x y = loop x y then some _
        else _).getD Rewrite.this = _
      rw [if_neg loop_ne.2, if_pos rfl]
      rfl
  have hv : ({ computed := loop x y } : Rewrite).view = .computed (loop x y) := by
    simp [Rewrite.view, Rewrite.isThis, loop]
  rw [Request.system, hrw, Request.rewriteFormula_eq, hv, Request.viewFormula, hns, hobj]
  rfl

theorem around_root (hkey : visitKey x = visitKey y) (hne : x ≠ y) (hu : u ≠ []) :
    (request x y projectID tenantID u cc).around (root x y "r") ⊆
      {root x y "r", x, y, ring x y} := by
  intro z hz
  induction hz with
  | refl => exact .inl rfl
  | tail _ hz ih =>
    obtain ⟨negated, hz⟩ := hz
    rcases ih with rfl | rfl | h
    · rw [system_root hu] at hz
      simp only [Formula.refs, Set.union_empty, Set.empty_union, Set.mem_ofPred_eq,
        Set.mem_union, Set.mem_singleton_iff, Prod.mk.injEq] at hz
      rcases hz with ⟨-, rfl⟩ | ⟨-, rfl⟩
      · exact .inr (.inl rfl)
      · exact .inr (.inr (.inl rfl))
    · rw [system_left hkey hne] at hz
      exact absurd hz (Set.notMem_empty _)
    · rw [system_right h] at hz
      exact .inr (.inr (.inr (congrArg Prod.snd hz)))

/-- The only two nodes with one key are `x` and `y`. -/
theorem aliases_around (hkey : visitKey x = visitKey y) (hne : x ≠ y) (hu : u ≠ [])
    {a b : SubjectSet} (ha : a ∈ (request x y projectID tenantID u cc).around (root x y "r"))
    (hb : b ∈ (request x y projectID tenantID u cc).around (root x y "r"))
    (hab : visitKey a = visitKey b) (hdiff : a ≠ b) : a = x ∨ a = y := by
  have hroot {z : SubjectSet} (hz : z = x ∨ z = y ∨ z = ring x y) :
      visitKey (root x y "r") ≠ visitKey z := by
    intro h
    have hlength := congrArg List.length h
    have hlt := visitKey_length_lt (x := x) (y := y) "r"
    rcases hz with rfl | rfl | rfl
    · omega
    · rw [← hkey] at hlength
      omega
    · omega
  have hring : visitKey (ring x y) ≠ visitKey y := fun h => ring_ne_right (eq_of_visitKey h rfl rfl)
  rcases around_root hkey hne hu ha with rfl | rfl | rfl | rfl
  · rcases around_root hkey hne hu hb with rfl | h
    · exact absurd rfl hdiff
    · exact absurd hab (hroot h)
  · exact .inl rfl
  · exact .inr rfl
  · rcases around_root hkey hne hu hb with rfl | rfl | rfl | rfl
    · exact absurd hab.symm (hroot (.inr (.inr rfl)))
    · exact absurd (hab.trans hkey) hring
    · exact absurd hab hring
    · exact absurd rfl hdiff

section Run

variable {κ μ : Type} [DecidableEq κ] [DecidableEq μ] {K : Keying SubjectSet κ μ}

/-- What the evaluation of the Exclude side has left behind when it comes to `y`. -/
structure Reaches (K : Keying SubjectSet κ μ) (x y : SubjectSet) (st : SearchState κ μ) : Prop where
  visited : st.visited = {K.visitKey (root x y "r")}
  maxReads : st.maxReads ≤ 0
  left : st.recalled K x true = some false
  other : ∀ z, K.visitKey z ≠ K.visitKey x → st.recalled K z true = none

theorem check_root (hK : K.Remembers) (hkey : visitKey x = visitKey y) (hne : x ≠ y) (hu : u ≠ [])
    (hx : K.visitKey x ≠ K.visitKey (root x y "r")) {b : Bool}
    (hright : ∀ st, Reaches K x y st → ∃ st', search K (request x y projectID tenantID u cc).system
      .evalBudgetExceeded 32 y true st = .ok b st') :
    ((engine x y u).checkWithKeys K (model x y) projectID tenantID (root x y "r") u cc 0).result =
      .ok (!b) := by
  set r := request x y projectID tenantID u cc with hr
  let st₁ : SearchState κ μ := (newEvalState 0).enter (K.visitKey (root x y "r"))
  let st₂ : SearchState κ μ := ((st₁.fetched 2).enter (K.visitKey x)).fetched 1
  have hnone (z : SubjectSet) : (st₁.fetched 2).recalled K z true = none := by
    change (K.memoKey _ true).bind (fun _ => none) = none
    cases K.memoKey (K.visitKey z) true <;> rfl
  have hvisited : K.visitKey x ∉ (st₁.fetched 2).visited :=
    fun hmem => hx (Finset.mem_singleton.mp hmem)
  have hleft : search K r.system .evalBudgetExceeded 32 x true (st₁.fetched 2) =
      .ok false ((st₂.leave (K.visitKey x)).remember K x true 0 false) := by
    refine search_of_eval hvisited (hnone x) ?_
    rw [hr, system_left hkey hne]
    exact bind_ok.mpr ⟨(), _, fetch_unbounded le_rfl, rfl⟩
  set st₃ := (st₂.leave (K.visitKey x)).remember K x true 0 false
  have hext := search_extends _ _ _ _ _ _ _ _ _ hleft
  have hreaches : Reaches K x y (st₃.fetched 1) := by
    refine ⟨hext.visited, hext.maxReads.le, recalled_remember_self hK rfl, fun z hz => ?_⟩
    refine (recalled_remember_of_ne fun h => hz h.2.1).trans (hnone z)
  obtain ⟨st₄, hst₄⟩ := hright _ hreaches
  -- the Include side holds, and then `x` and `y` are asked for below the exclusion
  have hexclude : (r.system (root x y "r")).eval .evalBudgetExceeded
      (search K r.system .evalBudgetExceeded 32) false st₁ = .ok (!b) st₄ := by
    rw [hr, system_root hu]
    refine bind_ok.mpr ⟨true, st₁.fetched 1, bind_ok.mpr ⟨(), _, fetch_unbounded le_rfl, rfl⟩, ?_⟩
    refine bind_ok.mpr ⟨b, st₄, bind_ok.mpr ⟨false, st₃, eval_stored le_rfl hleft, ?_⟩, rfl⟩
    refine bind_ok.mpr ⟨b, st₄, eval_stored hext.maxReads.le hst₄, ?_⟩
    cases b <;> rfl
  have hrun := search_of_eval (K := K) (Finset.notMem_empty _) (by
    change (K.memoKey _ false).bind (fun _ => none) = none
    cases K.memoKey (K.visitKey (root x y "r")) false <;> rfl) hexclude
  rw [Engine.checkWithKeys, Request.check_eq_search]
  exact congrArg (fun z => (Outcome.of z).result) hrun

end Run

/-- Under its string key `y` is taken for `x`, which was not found to be excluded. -/
theorem check_stringKeys (hkey : visitKey x = visitKey y) (hne : x ≠ y) (hu : u ≠ []) :
    ((engine x y u).checkWithModel (model x y) projectID tenantID (root x y "r") u cc 0).result =
      .ok true := by
  have hroot : visitKey x ≠ visitKey (root x y "r") :=
    fun h => (visitKey_length_lt "r").1.ne (congrArg List.length h)
  refine check_root (b := false) stringKeys_remembers hkey hne hu hroot fun st hst => ⟨st, ?_⟩
  refine search_of_recalled ?_ ?_
  · rw [hst.visited, Finset.mem_singleton]
    change visitKey y ≠ _
    rwa [← hkey]
  · have hleft := hst.left
    simp only [SearchState.recalled, stringKeys] at hleft ⊢
    rwa [← hkey]

/-- On its own `y` leads into a cycle, which below an exclusion is taken to hold. -/
theorem check_tripleKeys (hkey : visitKey x = visitKey y) (hne : x ≠ y) (hu : u ≠ []) :
    ((engine x y u).checkWithKeys tripleKeys (model x y) projectID tenantID (root x y "r") u cc
      0).result = .ok false := by
  refine check_root (b := true) tripleKeys_remembers hkey hne hu (ne_root (.inl rfl) _) ?_
  intro st hst
  have hy : y ∉ st.visited := by
    rw [hst.visited, Finset.mem_singleton]
    exact ne_root (.inr rfl) _
  have hring : ring x y ∉ (st.enter y).visited := by
    change ring x y ∉ insert y st.visited
    have hroot : ring x y ≠ root x y "r" := ne_root (n := ring x y) (x := x) (y := y) (.inr rfl) _
    rw [hst.visited, Finset.mem_insert, Finset.mem_singleton]
    exact not_or.mpr ⟨ring_ne_right, hroot⟩
  generalize hr : request x y projectID tenantID u cc = r
  have hcycle : search tripleKeys r.system .evalBudgetExceeded 30 (ring x y) true
      ((st.enter y).enter (ring x y)) = .ok true ((st.enter y).enter (ring x y)).cycleHit := by
    simp only [search, guarded]
    exact if_pos (Finset.mem_insert_self _ _)
  have hinner : (r.system (ring x y)).eval .evalBudgetExceeded
      (search tripleKeys r.system .evalBudgetExceeded 30) true ((st.enter y).enter (ring x y)) =
        .ok true ((st.enter y).enter (ring x y)).cycleHit := by
    rw [← hr, system_right (.inr rfl), hr]
    exact hcycle
  obtain ⟨st', hsearch⟩ : ∃ st', search tripleKeys r.system .evalBudgetExceeded 31 (ring x y) true
      (st.enter y) = .ok true st' :=
    ⟨_, search_of_eval hring (hst.other (ring x y) ring_ne_left) hinner⟩
  have houter : (r.system y).eval .evalBudgetExceeded
      (search tripleKeys r.system .evalBudgetExceeded 31) true (st.enter y) = .ok true st' := by
    rw [← hr, system_right (.inl rfl), hr]
    exact hsearch
  exact ⟨_, search_of_eval hy (hst.other y hne.symm) houter⟩

end Masked

/-! ## Agreement -/

/-- Over validated stores and without a read budget, both evaluators answer alike
whenever the nodes that the check may meet under the key of another lie in `N`. -/
def AgreesWithAliasesIn (N : Set SubjectSet) : Prop :=
  ∀ (e : Engine) (m : Model) (projectID tenantID : GoString) (n : SubjectSet)
    (userID : GoString) (cc : Context) (maxReads : ℤ),
    ValidStore (e.reader projectID tenantID) → e.effectiveMaxReads maxReads ≤ 0 →
    (∀ x ∈ (e.request m projectID tenantID userID cc).around n,
      ∀ y ∈ (e.request m projectID tenantID userID cc).around n,
        visitKey x = visitKey y → x ≠ y → x ∈ N ∧ y ∈ N) →
    (e.checkWithModel m projectID tenantID n userID cc maxReads).result =
      (e.checkWithKeys tripleKeys m projectID tenantID n userID cc maxReads).result

theorem outcome_eq_of_simulates {κ₁ μ₁ κ₂ μ₂ α : Type}
    {R : SearchState κ₁ μ₁ → SearchState κ₂ μ₂ → Prop}
    {x₁ : EStateM.Result EngineError (SearchState κ₁ μ₁) α}
    {x₂ : EStateM.Result EngineError (SearchState κ₂ μ₂) α} (h : Simulates R x₁ x₂) :
    (Outcome.of x₁).result = (Outcome.of x₂).result := by
  cases x₁ with
  | ok a s =>
    obtain ⟨s', rfl, -⟩ := h
    rfl
  | error err s =>
    obtain ⟨s', rfl⟩ := h
    rfl

theorem agree_of_injOn {e : Engine} {m : Model} {projectID tenantID userID : GoString}
    {n : SubjectSet} {cc : Context} {maxReads : ℤ}
    (hkeys : Set.InjOn visitKey ((e.request m projectID tenantID userID cc).around n)) :
    (e.checkWithModel m projectID tenantID n userID cc maxReads).result =
      (e.checkWithKeys tripleKeys m projectID tenantID n userID cc maxReads).result := by
  have hsep : stringKeys.Separates ((e.request m projectID tenantID userID cc).around n) := hkeys
  apply outcome_eq_of_simulates
  rw [Request.check_eq_search, Request.check_eq_search]
  refine search_simulates hsep (tripleKeys_separates _) stringKeys_remembers tripleKeys_remembers
    (Request.closed_around n) _ _ n (Request.self_mem_around n) false _ _ ?_
  exact ⟨fun _ _ => iff_of_false (Finset.notMem_empty _) (Finset.notMem_empty _),
    fun _ _ _ => rfl, rfl, rfl, rfl, rfl⟩

section Around

variable {r : Request} (hvalid : ValidStore r.reader)
include hvalid

/-- A step stays on its object, or a validated tuple leads from this object to another. -/
theorem refers_cases {x y : SubjectSet} (h : r.Refers x y) :
    (y.ns = x.ns ∧ y.objectID = x.objectID) ∨ Nameable x ∧ Nameable y := by
  obtain ⟨negated, hp⟩ := h
  have hcases : (∃ rel, True ∧ y = ⟨x.ns, x.objectID, rel⟩) ∨ r.LeadsTo x y :=
    Request.refs_of_names (fun _ _ => trivial) hp
  rcases hcases with ⟨rel, -, rfl⟩ | ⟨rel, ss, hread, s, hs, set, hset, hns, hobj⟩
  · exact .inl ⟨rfl, rfl⟩
  · obtain ⟨hx, hy⟩ := nameable_of_validateTuple (hvalid _ ss hread s hs)
    exact .inr ⟨hx.of_object rfl rfl, (hy set hset).of_object hns.symm hobj.symm⟩

theorem around_cases {n x : SubjectSet} (hx : x ∈ r.around n) :
    (x.ns = n.ns ∧ x.objectID = n.objectID) ∨ Nameable n ∧ Nameable x := by
  induction hx with
  | refl => exact .inl ⟨rfl, rfl⟩
  | tail _ hrefers ih =>
    rcases refers_cases hvalid hrefers with ⟨hns, hobj⟩ | ⟨hx, hy⟩
    · exact ih.imp (fun h => ⟨hns.trans h.1, hobj.trans h.2⟩)
        fun h => ⟨h.1, h.2.of_object hns hobj⟩
    · rcases ih with ⟨hns, hobj⟩ | ⟨hn, -⟩
      · exact .inr ⟨hx.of_object hns.symm hobj.symm, hy⟩
      · exact .inr ⟨hn, hy⟩

/-- Two different nodes that a check meets under one key are of objects that validated tuples
can name. -/
theorem nameable_of_aliases {n x y : SubjectSet} (hx : x ∈ r.around n) (hy : y ∈ r.around n)
    (hkey : visitKey x = visitKey y) (hne : x ≠ y) : Nameable x ∧ Nameable y := by
  rcases around_cases hvalid hx, around_cases hvalid hy with ⟨⟨hxns, hxobj⟩ | ⟨hn, hx⟩,
    ⟨hyns, hyobj⟩ | ⟨hn', hy⟩⟩
  · exact absurd (eq_of_visitKey hkey (hxns.trans hyns.symm) (hxobj.trans hyobj.symm)) hne
  · exact ⟨hn'.of_object hxns hxobj, hy⟩
  · exact ⟨hx, hn.of_object hyns hyobj⟩
  · exact ⟨hx, hy⟩

end Around

/-- The string keys are as good as the triples where they tell apart the nodes that a check on a
validated store may meet, and only there. -/
theorem checkWithModel_agrees_tripleKeys_iff (N : Set SubjectSet) :
    AgreesWithAliasesIn N ↔ Set.InjOn visitKey {n ∈ N | Nameable n} := by
  constructor
  · intro hagree x hx y hy hkey
    by_contra hne
    have hu : str "u" ≠ [] := by decide
    have heq := hagree (Masked.engine x y "u") (Masked.model x y) [] [] (Masked.root x y "r") "u" ∅
      0 (Masked.reader_valid hx.2 hy.2 hu rfl) le_rfl fun a ha b hb hab hdiff => by
        have hmem {z : SubjectSet} (h : z = x ∨ z = y) : z ∈ N := by
          rcases h with rfl | rfl
          · exact hx.1
          · exact hy.1
        exact ⟨hmem (Masked.aliases_around hkey hne hu ha hb hab hdiff),
          hmem (Masked.aliases_around hkey hne hu hb ha hab.symm hdiff.symm)⟩
    rw [Masked.check_stringKeys hkey hne hu, Masked.check_tripleKeys hkey hne hu] at heq
    cases heq
  · intro hkeys e m projectID tenantID n userID cc maxReads hvalid _ haliases
    refine agree_of_injOn fun x hx y hy hkey => ?_
    by_contra hne
    obtain ⟨hxN, hyN⟩ := haliases x hx y hy hkey hne
    obtain ⟨hx', hy'⟩ := nameable_of_aliases hvalid hx hy hkey hne
    exact hne (hkeys ⟨hxN, hx'⟩ ⟨hyN, hy'⟩ hkey)

/-- The object `b:c` of namespace `a` points to the object `c` of namespace `a:b`. -/
theorem checkWithModel_denies_aliased_parent :
    let x : SubjectSet := ⟨str "a", str "b:c", str "m"⟩
    let y : SubjectSet := ⟨str "a:b", str "c", str "m"⟩
    let e := Shadow.engine x y "u"
    let m := Shadow.model x y
    ValidStore (e.reader "proj" "t") ∧
      (e.checkWithModel m "proj" "t" x "u" ∅ 0).result = .ok false ∧
      (e.checkWithKeys tripleKeys m "proj" "t" x "u" ∅ 0).result = .ok true := by
  intro x y e m
  have hx : Writable x := ⟨by decide, by decide, by decide⟩
  have hy : Writable y := ⟨by decide, by decide, by decide⟩
  exact ⟨Shadow.reader_valid hx hy (by decide) rfl, Shadow.check_stringKeys (by decide),
    Shadow.check_tripleKeys (by decide) (by decide) (by decide)⟩

end WorkspaceAuthz.Service
