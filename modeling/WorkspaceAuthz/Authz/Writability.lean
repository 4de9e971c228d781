import WorkspaceAuthz.Authz.Soundness

/-! # Tuples that nothing reads

A relation without a leaf for its own tuples is computed only, and writes to it are
refused: its tuples are taken to be inert. Their own relation does not read them, but
any other relation of the namespace may name it as a tupleset. The tuples are inert
where none does.
-/
namespace WorkspaceAuthz.Authz
open Go RecursiveFormula

/-! ## What a rewrite reads -/

namespace Rewrite

/-- The rewrite takes pointers from the relation `ts`, by one of the operators that the
evaluator takes. -/
inductive TakesPointers (ts : GoString) : Rewrite → Prop
  | here {rw rel} : rw.view = .tupleToUserset ts rel → TakesPointers ts rw
  | union {rw cs c} : rw.view = .union cs → c ∈ cs → TakesPointers ts c → TakesPointers ts rw
  | intersection {rw cs c} : rw.view = .intersection cs → c ∈ cs → TakesPointers ts c →
      TakesPointers ts rw
  | includes {rw inc exc} : rw.view = .exclusion inc exc → TakesPointers ts inc →
      TakesPointers ts rw
  | excludes {rw inc exc} : rw.view = .exclusion inc exc → TakesPointers ts exc →
      TakesPointers ts rw

variable {rw c inc exc : Rewrite} {cs : List Rewrite} {ts rel : GoString}

theorem not_takesPointers_this (hv : rw.view = .this) : ¬ rw.TakesPointers ts := by
  intro h
  cases h with
  | here h | union h | intersection h | includes h | excludes h => cases hv.symm.trans h

theorem not_takesPointers_computed (hv : rw.view = .computed rel) : ¬ rw.TakesPointers ts := by
  intro h
  cases h with
  | here h | union h | intersection h | includes h | excludes h => cases hv.symm.trans h

theorem eq_of_takesPointers {ts' : GoString} (hv : rw.view = .tupleToUserset ts' rel)
    (h : rw.TakesPointers ts) : ts = ts' := by
  cases h with
  | here h =>
    cases hv.symm.trans h
    rfl
  | union h | intersection h | includes h | excludes h => cases hv.symm.trans h

theorem view_isSet (rw : Rewrite) : match rw.view with
    | .this => rw.isThis
    | .union cs => rw.union = cs
    | .intersection cs => rw.intersection = cs
    | .exclusion inc exc => rw.exclusion = some (inc, exc)
    | .computed rel => rw.computed = rel
    | .tupleToUserset ts _ => rw.tuplesetRelation = ts ∧ ts ≠ [] := by
  unfold view
  split_ifs with hthis
  · exact hthis
  · obtain ⟨union, intersection, exclusion, computed, ts, cr⟩ := rw
    cases union with
    | cons c cs => rfl
    | nil => cases intersection with
      | cons c cs => rfl
      | nil => cases exclusion with
        | some sides => rfl
        | none =>
          dsimp only
          split_ifs with hc
          · rfl
          · refine ⟨rfl, ?_⟩
            rintro rfl
            exact hthis (by simp [isThis, not_not.mp hc])

theorem takesPointers_ne_nil (h : rw.TakesPointers ts) : ts ≠ [] := by
  induction h with
  | @here rw rel hv =>
    have h := view_isSet rw
    rw [hv] at h
    exact h.2
  | union _ _ _ ih | intersection _ _ _ ih | includes _ _ ih | excludes _ _ ih => exact ih

theorem anyReadsStoredTuples_eq : anyReadsStoredTuples cs = cs.any readsStoredTuples := by
  induction cs with
  | nil => rfl
  | cons c cs ih => rw [anyReadsStoredTuples, ih, List.any_cons]

theorem readsStoredTuples_iff : rw.readsStoredTuples ↔ rw.isThis ∨
    (∃ c ∈ rw.union, c.readsStoredTuples) ∨ (∃ c ∈ rw.intersection, c.readsStoredTuples) ∨
    ∃ inc exc, rw.exclusion = some (inc, exc) ∧
      (inc.readsStoredTuples ∨ exc.readsStoredTuples) := by
  obtain ⟨union, intersection, exclusion, computed, ts, cr⟩ := rw
  rw [readsStoredTuples.eq_def]
  simp only [anyReadsStoredTuples_eq, Bool.or_eq_true, List.any_eq_true, or_assoc]
  rcases exclusion with _ | ⟨inc, exc⟩ <;> simp

theorem readsStoredTuples_of_view : match rw.view with
    | .this => rw.readsStoredTuples
    | .union cs | .intersection cs => ∀ c ∈ cs, c.readsStoredTuples → rw.readsStoredTuples
    | .exclusion inc exc => inc.readsStoredTuples ∨ exc.readsStoredTuples → rw.readsStoredTuples
    | .computed _ | .tupleToUserset _ _ => True := by
  have h := view_isSet rw
  cases hv : rw.view with
  | this =>
    rw [hv] at h
    exact readsStoredTuples_iff.mpr (.inl h)
  | union cs =>
    rw [hv] at h
    exact fun c hc hreads => readsStoredTuples_iff.mpr (.inr (.inl ⟨c, h ▸ hc, hreads⟩))
  | intersection cs =>
    rw [hv] at h
    exact fun c hc hreads => readsStoredTuples_iff.mpr (.inr (.inr (.inl ⟨c, h ▸ hc, hreads⟩)))
  | exclusion inc exc =>
    rw [hv] at h
    exact fun hreads => readsStoredTuples_iff.mpr (.inr (.inr (.inr ⟨inc, exc, h, hreads⟩)))
  | computed rel => trivial
  | tupleToUserset ts rel => trivial

end Rewrite

/-- The relations from which the rewrites of a namespace take pointers. -/
def Model.tuplesets (m : Model) (ns : GoString) : Set GoString :=
  {ts | ∃ relation, (m.rewrite ns relation).TakesPointers ts}

theorem Model.not_readsStoredTuples {m : Model} {ns relation : GoString}
    (h : m.writableRelation ns relation = false) :
    (m.rewrite ns relation).readsStoredTuples = false := by
  unfold writableRelation at h
  unfold rewrite
  cases hns : m.get ns with
  | none => simp [hns] at h
  | some rels => cases hrel : rels.get relation with
    | none => simp [hns, hrel] at h
    | some rw => simpa [hns, hrel] using h

/-! ## Stores that differ in the tuples of one relation -/

section Stores

variable {r : Request} {reader' : Reader} {ns relation : GoString}

/-- The two stores hold the same tuples except on `ns:*#relation`. -/
def AgreeOff (ns relation : GoString) (reader reader' : Reader) : Prop :=
  ∀ n : SubjectSet, ¬ (n.ns = ns ∧ n.relation = relation) → reader' n = reader n

theorem readFormula_of_reader_eq {n : SubjectSet} (h : reader' n = r.reader n)
    (f : Subject → NodeFormula) :
    ({ r with reader := reader' } : Request).readFormula n f = r.readFormula n f := by
  simp only [Request.readFormula, h]

/-- A rewrite that does not read the relation has one formula in both stores. -/
theorem rewriteFormula_congr (hagree : AgreeOff ns relation r.reader reader') {n : SubjectSet}
    {rw : Rewrite}
    (hown : n.ns = ns ∧ n.relation = relation → rw.readsStoredTuples = false)
    (hpointers : n.ns = ns → ¬ rw.TakesPointers relation) :
    ({ r with reader := reader' } : Request).rewriteFormula n rw = r.rewriteFormula n rw := by
  induction rw using Rewrite.byView with
  | this rw hv =>
    have hreads := rw.readsStoredTuples_of_view
    rw [hv] at hreads
    rw [Request.rewriteFormula_eq, Request.rewriteFormula_eq, hv]
    exact readFormula_of_reader_eq (hagree n fun hn => by simp [hown hn] at hreads) _
  | union rw cs hv ih =>
    have hreads := rw.readsStoredTuples_of_view
    rw [hv] at hreads
    rw [Request.rewriteFormula_eq, Request.rewriteFormula_eq, hv]
    exact congrArg Formula.any (List.map_congr_left fun c hc => ih c hc
      (fun hn => by simpa [hown hn] using hreads c hc)
      fun hns h => hpointers hns (.union hv hc h))
  | intersection rw cs hv ih =>
    have hreads := rw.readsStoredTuples_of_view
    rw [hv] at hreads
    have hcs : cs.map (({ r with reader := reader' } : Request).rewriteFormula n) =
        cs.map (r.rewriteFormula n) :=
      List.map_congr_left fun c hc => ih c hc
        (fun hn => by simpa [hown hn] using hreads c hc)
        fun hns h => hpointers hns (.intersection hv hc h)
    rw [Request.rewriteFormula_eq, Request.rewriteFormula_eq, hv, Request.viewFormula,
      Request.viewFormula, hcs]
  | exclusion rw inc exc hv ihInc ihExc =>
    have hreads := rw.readsStoredTuples_of_view
    rw [hv] at hreads
    rw [Request.rewriteFormula_eq, Request.rewriteFormula_eq, hv, Request.viewFormula,
      Request.viewFormula,
      ihInc (fun hn => by simpa [hown hn] using fun h => hreads (.inl h))
        (fun hns h => hpointers hns (.includes hv h)),
      ihExc (fun hn => by simpa [hown hn] using fun h => hreads (.inr h))
        (fun hns h => hpointers hns (.excludes hv h))]
  | computed rw rel hv =>
    rw [Request.rewriteFormula_eq, Request.rewriteFormula_eq, hv]
    rfl
  | tupleToUserset rw ts rel hv =>
    rw [Request.rewriteFormula_eq, Request.rewriteFormula_eq, hv]
    refine readFormula_of_reader_eq (hagree _ ?_) _
    rintro ⟨hns, rfl⟩
    exact hpointers hns (.here hv)

/-- If no relation of the namespace takes pointers from it, a relation that is not writable
has no part in the formula of any node. -/
theorem system_congr (hagree : AgreeOff ns relation r.reader reader')
    (hwritable : r.model.writableRelation ns relation = false)
    (hpointers : relation ∉ r.model.tuplesets ns) :
    ({ r with reader := reader' } : Request).system = r.system := by
  funext n
  refine rewriteFormula_congr hagree ?_ ?_
  · rintro ⟨rfl, rfl⟩
    exact r.model.not_readsStoredTuples hwritable
  · rintro rfl h
    exact hpointers ⟨n.relation, h⟩

end Stores

/-- The tuples on `ns:*#relation` have no influence on unbounded checks. -/
def Model.Inert (m : Model) (ns relation : GoString) : Prop :=
  ∀ (e : Engine) (reader' : GoString → GoString → Reader) (projectID tenantID : GoString),
    AgreeOff ns relation (e.reader projectID tenantID) (reader' projectID tenantID) →
    e.maxReads ≤ 0 → ∀ (n : SubjectSet) (userID : GoString) (cc : Context),
      (({ e with reader := reader' } : Engine).checkWithModel m projectID tenantID n userID cc
        0).result = (e.checkWithModel m projectID tenantID n userID cc 0).result

theorem Model.inert_of_notMem_tuplesets {m : Model} {ns relation : GoString}
    (hwritable : m.writableRelation ns relation = false) (h : relation ∉ m.tuplesets ns) :
    m.Inert ns relation := by
  intro e reader' projectID tenantID hagree _ n userID cc
  have hsystem := system_congr (r := e.request m projectID tenantID userID cc) hagree hwritable h
  rw [Engine.checkWithModel, Engine.checkWithModel, Engine.checkWithKeys, Engine.checkWithKeys,
    Request.check_eq_search, Request.check_eq_search]
  exact congrArg (fun sys => (Outcome.of (search stringKeys sys .evalBudgetExceeded _ n false
    _)).result) hsystem

/-! ## A computed relation as a tupleset -/

namespace Signpost

def gate (relation : GoString) : GoString := relation ++ [1]

def holder (relation : GoString) : GoString := relation ++ [2]

def model (ns relation : GoString) : Model := .ofList [(ns, .ofList [
  (relation, { computed := holder relation }),
  (gate relation, { tuplesetRelation := relation, computedRelation := holder relation })])]

/-- Objects point to what is stored on `ns:*#relation`, and all hold one user. -/
def reader (ns relation : GoString) (pointers : List Subject) : Reader := fun n => .ok (
  if n.ns = ns ∧ n.relation = relation then pointers
  else if n.relation = holder relation then [{ userID := "u" }]
  else [])

def engine (ns relation : GoString) (pointers : List Subject) : Engine where
  reader _ _ := reader ns relation pointers

variable {ns relation : GoString}

theorem gate_ne : gate relation ≠ relation := by simp [gate]

theorem rewrite_eq (r : GoString) : (model ns relation).rewrite ns r =
    if r = relation then { computed := holder relation }
    else if r = gate relation then
      { tuplesetRelation := relation, computedRelation := holder relation }
    else .this := by
  unfold Model.rewrite model
  split_ifs with h₁ h₂
  · simp [h₁]
  · simp [h₂, gate_ne]
  · simp [h₁, h₂]

theorem view_computed : ({ computed := holder relation } : Rewrite).view =
    .computed (holder relation) := by
  simp [Rewrite.view, Rewrite.isThis, holder]

theorem not_writable : (model ns relation).writableRelation ns relation = false := by
  simp [Model.writableRelation, model, Rewrite.readsStoredTuples.eq_def, Rewrite.isThis, holder,
    Rewrite.anyReadsStoredTuples]

theorem tuplesets_subset (h : relation ≠ []) : (model ns relation).tuplesets ns ⊆ {relation} := by
  rintro ts ⟨r, hr⟩
  rw [rewrite_eq] at hr
  split_ifs at hr
  · exact (Rewrite.not_takesPointers_computed view_computed hr).elim
  · exact Rewrite.eq_of_takesPointers (Alias.pointer_view _ _ h) hr
  · exact (Rewrite.not_takesPointers_this rfl hr).elim

theorem agree (pointers pointers' : List Subject) :
    AgreeOff ns relation (reader ns relation pointers) (reader ns relation pointers') := by
  intro n hn
  rw [reader, reader, if_neg hn, if_neg hn]

section Run

variable {pointers : List Subject}

abbrev request (ns relation : GoString) (pointers : List Subject) : Request :=
  (engine ns relation pointers).request (model ns relation) [] [] "u" ∅

theorem system_gate (h : relation ≠ []) (o : GoString) :
    (request ns relation pointers).system ⟨ns, o, gate relation⟩ =
      .read (.any (pointers.map ((request ns relation pointers).pointerFormula
        (holder relation)))) := by
  have hrewrite : (request ns relation pointers).rewrite ⟨ns, o, gate relation⟩ =
      { tuplesetRelation := relation, computedRelation := holder relation } := by
    rw [Request.rewrite]
    exact (rewrite_eq _).trans (by rw [if_neg gate_ne, if_pos rfl])
  rw [Request.system, hrewrite, Request.rewriteFormula_eq, Alias.pointer_view _ _ h]
  have hread : (request ns relation pointers).reader ⟨ns, o, relation⟩ = .ok pointers :=
    congrArg Except.ok (if_pos ⟨rfl, rfl⟩)
  exact Request.readFormula_ok hread _

theorem system_holder (o : GoString) :
    (request ns relation pointers).system ⟨ns, o, holder relation⟩ =
      .read (.any [.const true]) := by
  have hne : holder relation ≠ relation := by simp [holder]
  have hrewrite : (request ns relation pointers).rewrite ⟨ns, o, holder relation⟩ = .this := by
    rw [Request.rewrite]
    exact (rewrite_eq _).trans (by rw [if_neg hne, if_neg (by simp [holder, gate])])
  have hread : (request ns relation pointers).reader ⟨ns, o, holder relation⟩ =
      .ok [{ userID := "u" }] :=
    congrArg Except.ok ((if_neg fun h => hne h.2).trans (if_pos rfl))
  rw [Request.system_of_this hrewrite hread, List.map_singleton,
    Request.subjectFormula_of_set_none rfl]
  rfl

theorem check_gate (h : relation ≠ []) {b : Bool}
    (heval : ∃ st, (Formula.read (.any (pointers.map
        ((request ns relation pointers).pointerFormula (holder relation))))).eval
      .evalBudgetExceeded (search stringKeys (request ns relation pointers).system
        .evalBudgetExceeded maxRecursionDepth) false
      ((newEvalState 0).enter (visitKey ⟨ns, [], gate relation⟩)) = .ok b st) :
    ((engine ns relation pointers).checkWithModel (model ns relation) [] []
      ⟨ns, [], gate relation⟩ "u" ∅ 0).result = .ok b := by
  obtain ⟨st, hrun⟩ := check_of_eval (system_gate h []) rfl (fun _ => rfl) heval
  rw [Engine.checkWithModel, Engine.checkWithKeys]
  exact congrArg (fun x => (Outcome.of x).result) hrun

theorem check_marked (h : relation ≠ []) :
    ((engine ns relation [{ set := some ⟨ns, [], relation⟩ }]).checkWithModel (model ns relation)
      [] [] ⟨ns, [], gate relation⟩ "u" ∅ 0).result = .ok true := by
  have hkey : visitKey ⟨ns, [], holder relation⟩ ≠ visitKey ⟨ns, [], gate relation⟩ := by
    simp [visitKey, holder, gate]
  have hholder : (request ns relation [{ set := some ⟨ns, [], relation⟩ }]).system
      ⟨ns, [], holder relation⟩ = .read (.any [.const true]) := system_holder []
  obtain ⟨st, hst, -⟩ := search_stored stringKeys_remembers hholder (fun _ _ _ => rfl)
    (maxRecursionDepth - 1)
    (((newEvalState 0).enter (visitKey ⟨ns, [], gate relation⟩)).fetched 1)
    (by simpa [newEvalState, SearchState.enter, SearchState.fetched, stringKeys] using hkey) rfl
    le_rfl
  exact check_gate h ⟨st, eval_stored le_rfl hst⟩

end Run

end Signpost

/-- Among the models whose namespace `ns` takes pointers only from the relations in `T`, the
tuples of every relation that is not writable are inert if and only if the relation is not
one of these. (The empty name is never one: a rewrite cannot take pointers from it.) -/
theorem unwritable_inert_iff (ns relation : GoString) (T : Set GoString) :
    (∀ m : Model, m.writableRelation ns relation = false → m.tuplesets ns ⊆ T →
      m.Inert ns relation) ↔ (relation ∈ T → relation = []) := by
  constructor
  · intro hinert hT
    by_contra hne
    have hsub : (Signpost.model ns relation).tuplesets ns ⊆ T :=
      (Signpost.tuplesets_subset hne).trans (Set.singleton_subset_iff.mpr hT)
    have hsame := hinert (Signpost.model ns relation) Signpost.not_writable hsub
      (Signpost.engine ns relation []) (Signpost.engine ns relation _).reader [] []
      (Signpost.agree [] [{ set := some ⟨ns, [], relation⟩ }]) le_rfl ⟨ns, [],
        Signpost.gate relation⟩
      "u" ∅
    rw [Signpost.check_gate hne ⟨_, rfl⟩] at hsame
    exact absurd ((Signpost.check_marked hne).symm.trans hsame) (by simp)
  · intro hrelation m hwritable hsub
    refine m.inert_of_notMem_tuplesets hwritable fun hmem => ?_
    obtain ⟨r, hr⟩ := hmem
    exact Rewrite.takesPointers_ne_nil hr (hrelation (hsub ⟨r, hr⟩))

namespace Filing

/-- A document is seen by those who see its parent, and its parent is its folder. -/
def model : Model := .ofList [("doc", .ofList [("parent", { computed := "folder" }),
  ("viewer", { tuplesetRelation := "parent", computedRelation := "viewer" })])]

/-- Ann sees the folder; the plan has the parents that are stored for it. -/
def engine (parents : List Subject) : Engine where
  reader _ _ n := .ok (
    if n = ⟨str "doc", str "plan", str "parent"⟩ then parents
    else if n = ⟨str "folder", str "f", str "viewer"⟩ then [{ userID := "ann" }]
    else [])

end Filing

open Filing in
/-- The relation of parents is not writable, and a tuple that is stored on it grants access. -/
theorem unwritable_parent_grants : model.writableRelation "doc" "parent" = false ∧
    ((engine []).checkWithModel model "proj" "t" ⟨"doc", "plan", "viewer"⟩ "ann" ∅ 0).result =
      .ok false ∧
    ((engine [{ set := some ⟨"folder", "f", "self"⟩ }]).checkWithModel model "proj" "t"
      ⟨"doc", "plan", "viewer"⟩ "ann" ∅ 0).result = .ok true := by
  decide +kernel

end WorkspaceAuthz.Authz
