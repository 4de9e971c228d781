import WorkspaceAuthz.Authz.Exactness
import WorkspaceAuthz.Authz.Walks
import WorkspaceAuthz.RecursiveFormula.Comparison

/-! # Less request context

A condition without its input does not hold, and then the tuple is skipped,
whether it grants access or withholds it. So leaving out request context grants
no more only as long as the tuples read below an odd number of Exclude sides do
not depend on what is left out.
-/
namespace WorkspaceAuthz.Authz
open Go RecursiveFormula

/-- The conditions that hold in both contexts or in neither. -/
def Alike (cc' cc : Context) : Set (Option Condition) :=
  {c | evalCondition c cc' = evalCondition c cc}

theorem of_not_alike {cc' cc : Context} {c : Option Condition} (h : GoMap.Trims cc' cc)
    (hc : c ∉ Alike cc' cc) : evalCondition c cc' = false ∧ evalCondition c cc = true := by
  have hmono := evalCondition_trims h c
  change evalCondition c cc' ≠ evalCondition c cc at hc
  cases hcc : evalCondition c cc <;> cases hcc' : evalCondition c cc' <;> simp_all

namespace Request

def withContext (r : Request) (cc : Context) : Request := { r with cc := cc }

variable {r : Request} {cc : Context} {n : SubjectSet}

theorem applies_of_withContext (h : GoMap.Trims cc r.cc) {s : Subject}
    (hs : (r.withContext cc).applies s) : r.applies s :=
  evalCondition_trims h s.condition hs

theorem withContext_grants (s : Subject) : (r.withContext cc).grants s = r.grants s := rfl

theorem withContext_follows (s : Subject) : (r.withContext cc).follows s = r.follows s := rfl

/-- A node that the check of `n` may ask for below sides of parity `neg`. -/
def AsksFor (r : Request) (n : SubjectSet) (neg : Bool) (x : SubjectSet) : Prop :=
  ∃ sides, negative sides = neg ∧ r.Evaluates n sides x (r.rewrite x)

/-- The tuples that withhold access carry conditions in `C` only. -/
def Withholds (r : Request) (n : SubjectSet) (C : Set (Option Condition)) : Prop :=
  ∀ sides t ss, negative sides = true → r.Reads n sides t → r.reader t = .ok ss → ∀ s ∈ ss,
    s.condition ∈ C

theorem subjectFormula_below {neg : Bool} {sides : List Side} (hneg : negative sides = neg)
    (h : GoMap.Trims cc r.cc) {x : SubjectSet} {rw : Rewrite} (hev : r.Evaluates n sides x rw)
    (hv : rw.view = .this) {ss : List Subject} (hread : r.reader x = .ok ss) {s : Subject}
    (hs : s ∈ ss) (hsame : neg = true → (r.withContext cc).applies s = r.applies s) :
    Below (r.AsksFor n) neg ((r.withContext cc).subjectFormula s) (r.subjectFormula s) := by
  unfold subjectFormula
  rw [withContext_grants, withContext_follows]
  cases happ' : (r.withContext cc).applies s with
  | false =>
    cases neg with
    | false => exact .least _
    | true =>
      rw [← hsame rfl, happ']
      exact .const true false
  | true =>
    have happ := applies_of_withContext h happ'
    rw [happ]
    cases hgr : r.grants s with
    | true => exact .const neg true
    | false =>
      cases hf : r.follows s with
      | none => exact .const neg false
      | some y => exact .ref ⟨sides, hneg, .member hev hv hread hs happ hf⟩

theorem pointerFormula_below {neg : Bool} {sides : List Side} (hneg : negative sides = neg)
    (h : GoMap.Trims cc r.cc) {x : SubjectSet} {rw : Rewrite} (hev : r.Evaluates n sides x rw)
    {ts rel : GoString} (hv : rw.view = .tupleToUserset ts rel) {ss : List Subject}
    (hread : r.reader ⟨x.ns, x.objectID, ts⟩ = .ok ss) {s : Subject} (hs : s ∈ ss)
    (hsame : neg = true → (r.withContext cc).applies s = r.applies s) :
    Below (r.AsksFor n) neg ((r.withContext cc).pointerFormula rel s) (r.pointerFormula rel s) := by
  unfold pointerFormula
  cases happ' : (r.withContext cc).applies s with
  | false =>
    cases neg with
    | false => exact .least _
    | true =>
      rw [← hsame rfl, happ']
      exact .const true false
  | true =>
    have happ := applies_of_withContext h happ'
    rw [happ]
    cases hp : pointsTo rel s with
    | none => exact .const neg false
    | some y => exact .ref ⟨sides, hneg, .pointer hev hv hread hs happ hp⟩

theorem readFormula_below {neg : Bool} {x : SubjectSet} {f' f : Subject → NodeFormula}
    (h : ∀ ss, r.reader x = .ok ss → ∀ s ∈ ss, Below (r.AsksFor n) neg (f' s) (f s)) :
    Below (r.AsksFor n) neg ((r.withContext cc).readFormula x f') (r.readFormula x f) := by
  cases hread : r.reader x with
  | ok ss =>
    rw [readFormula_ok (r := r.withContext cc) hread, readFormula_ok hread]
    exact .read (below_any (h ss hread))
  | error message =>
    rw [readFormula_error (r := r.withContext cc) hread, readFormula_error hread]
    exact .read (.fail neg _)

theorem rewriteFormula_below (h : GoMap.Trims cc r.cc)
    (hw : r.Withholds n (Alike cc r.cc)) {neg : Bool}
    {sides : List Side} (hneg : negative sides = neg) {x : SubjectSet} {rw : Rewrite}
    (hev : r.Evaluates n sides x rw) :
    Below (r.AsksFor n) neg ((r.withContext cc).rewriteFormula x rw) (r.rewriteFormula x rw) := by
  induction rw using Rewrite.byView generalizing neg sides with
  | this rw hv =>
    rw [rewriteFormula_eq, rewriteFormula_eq, hv]
    refine readFormula_below fun ss hread s hs => ?_
    refine subjectFormula_below hneg h hev hv hread hs fun hodd => ?_
    exact hw sides x ss (hneg.trans hodd) ⟨x, rw, hev, .inl ⟨hv, rfl⟩⟩ hread s hs
  | union rw cs hv ih =>
    rw [rewriteFormula_eq, rewriteFormula_eq, hv]
    exact below_any fun c hc => ih c hc hneg (.union hev hv hc)
  | intersection rw cs hv ih =>
    rw [rewriteFormula_eq, rewriteFormula_eq, hv]
    by_cases hq : r.q.set = none
    · simp only [viewFormula, withContext, hq, Option.isSome_none, Bool.false_eq_true, if_false]
      exact below_all fun c hc => ih c hc hneg (.intersection hev hq hv hc)
    · simp only [viewFormula, withContext, Option.isSome_iff_ne_none.mpr hq, if_true]
      exact .const neg false
  | exclusion rw inc exc hv ihInc ihExc =>
    rw [rewriteFormula_eq, rewriteFormula_eq, hv]
    by_cases hq : r.q.set = none
    · simp only [viewFormula, withContext, hq, Option.isSome_none, Bool.false_eq_true, if_false]
      have hinc : negative (.includes :: sides) = neg := hneg
      have hexc : negative (.excludes :: sides) = !neg := by rw [negative, hneg]
      exact .and (ihInc hinc (.includes hev hq hv)) (.not (ihExc hexc (.excludes hev hq hv)))
    · simp only [viewFormula, withContext, Option.isSome_iff_ne_none.mpr hq, if_true]
      exact .const neg false
  | computed rw rel hv =>
    rw [rewriteFormula_eq, rewriteFormula_eq, hv]
    exact .ref ⟨sides, hneg, .computed hev hv⟩
  | tupleToUserset rw ts rel hv =>
    rw [rewriteFormula_eq, rewriteFormula_eq, hv]
    refine readFormula_below fun ss hread s hs => ?_
    refine pointerFormula_below hneg h hev hv hread hs fun hodd => ?_
    exact hw sides _ ss (hneg.trans hodd) ⟨x, rw, hev, .inr ⟨ts, rel, hv, rfl⟩⟩ hread s hs

/-- What holds with less context is not refused with more. -/
theorem not_fails_of_holds (h : GoMap.Trims cc r.cc) (hw : r.Withholds n (Alike cc r.cc))
    (hholds : (r.withContext cc).Holds n) : ¬ r.Fails n := by
  rintro hfails
  obtain ⟨k, hk⟩ := holds_iff.mp hholds
  obtain ⟨l, hl⟩ := fails_iff.mp hfails
  have hR : ∀ neg x, r.AsksFor n neg x →
      Below (r.AsksFor n) neg ((r.withContext cc).system x) (r.system x) := by
    rintro neg x ⟨sides, hneg, hev⟩
    exact rewriteFormula_below h hw hneg hev
  exact (hR false n ⟨[], rfl, .start⟩).not_contradicted hR hk hl

/-- With less context a check asks for no further nodes. -/
theorem withContext_refs_subset (h : GoMap.Trims cc r.cc) (x : SubjectSet) :
    ((r.withContext cc).system x).refs ⊆ (r.system x).refs := by
  refine system_refs_mono ?_ ?_ (fun _ ss' _ hss' hs happ => ?_) x
  · rfl
  · rfl
  · exact ⟨ss', hss', hs, applies_of_withContext h happ⟩

/-- A context in which the same conditions hold gives the same system. -/
theorem withContext_system (h : ∀ c, c ∈ Alike cc r.cc) : (r.withContext cc).system = r.system := by
  have happlies : (r.withContext cc).applies = r.applies := funext fun s => h s.condition
  apply system_congr
  · rfl
  · rfl
  · rfl
  · intro n ss _ s _
    unfold subjectFormula
    rw [happlies]
    rfl
  · intro n ss _ s _ rel
    unfold pointerFormula
    rw [happlies]

end Request

/-- On the inputs in `P`, a check without a read budget during which no guard
fires grants no more under `cc'` than under `cc`. -/
def GrantsNoMore (cc' cc : Context) (P : Request → SubjectSet → Prop) : Prop :=
  ∀ (e : Engine) (m : Model) (projectID tenantID : GoString) (n : SubjectSet) (userID : GoString)
    (maxReads : ℤ), (e.reader projectID tenantID).Total → e.effectiveMaxReads maxReads ≤ 0 →
    P (e.request m projectID tenantID userID cc) n →
    (∀ ctx ∈ [cc', cc],
      (e.checkWithModel m projectID tenantID n userID ctx maxReads).backstops.cycle = 0 ∧
      (e.checkWithModel m projectID tenantID n userID ctx maxReads).backstops.depth = 0) →
    (e.checkWithModel m projectID tenantID n userID cc' maxReads).result = .ok true →
    (e.checkWithModel m projectID tenantID n userID cc maxReads).result = .ok true

variable {cc' cc : Context}

theorem GrantsNoMore.mono {P Q : Request → SubjectSet → Prop} (h : GrantsNoMore cc' cc Q)
    (hPQ : ∀ r n, P r n → Q r n) : GrantsNoMore cc' cc P :=
  fun e m projectID tenantID n userID maxReads hstore hreads hP =>
    h e m projectID tenantID n userID maxReads hstore hreads (hPQ _ _ hP)

theorem grantsNoMore_of_withholds (htrims : GoMap.Trims cc' cc) :
    GrantsNoMore cc' cc fun r n =>
      Set.InjOn visitKey (r.below n) ∧ r.Withholds n (Alike cc' cc) := by
  rintro e m projectID tenantID n userID maxReads hstore hreads ⟨hkeys, hw⟩ hquiet hok
  obtain ⟨st', hrun', -⟩ := Outcome.of_result_ok hok
  have hsub := Request.below_mono
    (Request.withContext_refs_subset (r := e.request m projectID tenantID userID cc) htrims) n
  have hholds : (e.request m projectID tenantID userID cc').Holds n :=
    Request.holds_of_check (K := stringKeys) (hkeys.mono hsub) (fun _ => rfl) hrun'
  have hnot := Request.not_fails_of_holds htrims hw hholds
  obtain ⟨b, st, hrun⟩ := Request.check_succeeds (r := e.request m projectID tenantID userID cc)
    stringKeys (e.maxDepth + 1) n hstore hreads
  obtain ⟨hcycle, hdepth⟩ := hquiet cc (by simp)
  rw [Engine.checkWithModel, Engine.checkWithKeys, hrun] at hcycle hdepth ⊢
  have hexact := Request.check_exact (K := stringKeys) hkeys hrun hcycle hdepth
  cases b with
  | true => rfl
  | false => exact absurd (Request.fails_iff.mpr hexact) hnot

theorem grantsNoMore_of_alike (h : ∀ c, c ∈ Alike cc' cc) (P : Request → SubjectSet → Prop) :
    GrantsNoMore cc' cc P := by
  intro e m projectID tenantID n userID maxReads _ _ _ _ hok
  have hsys : (e.request m projectID tenantID userID cc').system =
      (e.request m projectID tenantID userID cc).system :=
    Request.withContext_system (r := e.request m projectID tenantID userID cc) h
  rw [Engine.checkWithModel, Engine.checkWithKeys, Request.check_eq_search] at hok ⊢
  rwa [← hsys]

/-! ## A conditional ban -/

namespace Ban

def active : SubjectSet := ⟨"doc", "1", "active"⟩

def banned : SubjectSet := ⟨"doc", "1", "banned"⟩

def exclusion : Rewrite := { exclusion := some (.this, { computed := "banned" }) }

def model : Model := .ofList [("doc", .ofList [("active", exclusion)])]

/-- The user is active, and on a condition is banned. -/
def engine (c : Option Condition) : Engine where
  reader _ _ n := .ok (
    if n = active then [{ userID := "u" }]
    else if n = banned then [{ userID := "u", condition := c }]
    else [])

section Run

variable {c : Option Condition}

def request (c : Option Condition) (cc : Context) : Request := (engine c).request model [] [] "u" cc

theorem rewrite_banned : (request c cc).rewrite banned = .this := rfl

theorem system_banned :
    (request c cc).system banned = .read (.any [.const (evalCondition c cc)]) := by
  rw [Request.system_of_this rewrite_banned rfl]
  have hgrants : (request c cc).grants { userID := "u", condition := c } = true := rfl
  change Formula.read (.any [(request c cc).subjectFormula { userID := "u", condition := c }]) = _
  rw [Request.subjectFormula_of_set_none rfl, hgrants, Bool.and_true]
  rfl

theorem system_active : (request c cc).system active =
    .and (.read (.any [.const true])) (.not (.ref banned)) := rfl

theorem derives_active : Derives (request c cc).system (!evalCondition c cc)
    ((request c cc).system active) := by
  have hbanned : Derives (request c cc).system (evalCondition c cc)
      ((request c cc).system banned) := by
    rw [system_banned]
    cases evalCondition c cc with
    | true => exact .read (.orLeft (.const true))
    | false => exact .read (.orNeither (.const false) (.const false))
  rw [system_active]
  cases hc : evalCondition c cc with
  | true =>
    rw [hc] at hbanned
    exact .andRight (.not (.ref hbanned))
  | false =>
    rw [hc] at hbanned
    exact .andBoth (.read (.orLeft (.const true))) (.not (.ref hbanned))

theorem ranked : Ranked stringKeys (request c cc).system {active, banned}
    (fun k => if k = visitKey active then 1 else 0) := by
  rintro x (rfl | rfl) ⟨negated, y⟩ hp
  · rw [system_active] at hp
    obtain ⟨rfl, rfl⟩ : negated = true ∧ y = banned := by
      simpa [Formula.any, Formula.refs] using hp
    exact ⟨.inr rfl, by decide⟩
  · rw [system_banned] at hp
    simp [Formula.any, Formula.refs] at hp

theorem below_active : (request c cc).below active ⊆ {active, banned} :=
  (Request.below_subset_around active).trans
    (Request.around_subset (.inl rfl) fun x hx p hp => (ranked x hx p hp).1)

theorem visitKey_injOn : Set.InjOn visitKey {active, banned} := by
  rintro x (rfl | rfl) y (rfl | rfl) h
  · rfl
  · exact absurd h (by decide)
  · exact absurd h (by decide)
  · rfl

theorem check_active (c : Option Condition) (cc : Context) :
    ((engine c).checkWithModel model [] [] active "u" cc 0).result = .ok (!evalCondition c cc) ∧
      ((engine c).checkWithModel model [] [] active "u" cc 0).backstops.cycle = 0 ∧
      ((engine c).checkWithModel model [] [] active "u" cc 0).backstops.depth = 0 := by
  obtain ⟨b, st, hrun⟩ := Request.check_succeeds (r := request c cc) stringKeys 33 active
    (fun n => ⟨_, rfl⟩) (le_refl 0)
  obtain ⟨hcycle, hdepth⟩ := Request.check_quiet ranked (.inl rfl) (by decide) hrun
  have hexact := Request.check_exact (K := stringKeys) (visitKey_injOn.mono below_active) hrun
    hcycle hdepth
  have hof : (engine c).checkWithModel model [] [] active "u" cc 0 = ⟨.ok b, st.backstops⟩ :=
    congrArg Outcome.of hrun
  rw [hof]
  exact ⟨congrArg Except.ok (hexact.unique derives_active), hcycle, hdepth⟩

theorem set_none {x : SubjectSet} {ss : List Subject} {s : Subject}
    (hread : (request c cc).reader x = .ok ss) (hs : s ∈ ss) : s.set = none := by
  cases hread
  split_ifs at hs
  · rw [List.mem_singleton.mp hs]
  · rw [List.mem_singleton.mp hs]
  · exact absurd hs List.not_mem_nil

theorem evaluates {sides : List Side} {x : SubjectSet} {rw : Rewrite}
    (h : (request c cc).Evaluates active sides x rw) :
    (sides = [] ∧ x = active ∧ rw = exclusion) ∨ (sides = [.includes] ∧ x = active ∧ rw = .this) ∨
      (sides = [.excludes] ∧ x = active ∧ rw = { computed := "banned" }) ∨
      (sides = [.excludes] ∧ x = banned ∧ rw = .this) := by
  induction h with
  | start => exact .inl ⟨rfl, rfl, rfl⟩
  | union _ hv _ ih =>
    rcases ih with ⟨-, -, rfl⟩ | ⟨-, -, rfl⟩ | ⟨-, -, rfl⟩ | ⟨-, -, rfl⟩ <;> cases hv
  | intersection _ _ hv _ ih =>
    rcases ih with ⟨-, -, rfl⟩ | ⟨-, -, rfl⟩ | ⟨-, -, rfl⟩ | ⟨-, -, rfl⟩ <;> cases hv
  | includes _ _ hv ih =>
    rcases ih with ⟨rfl, rfl, rfl⟩ | ⟨-, -, rfl⟩ | ⟨-, -, rfl⟩ | ⟨-, -, rfl⟩ <;> cases hv
    exact .inr (.inl ⟨rfl, rfl, rfl⟩)
  | excludes _ _ hv ih =>
    rcases ih with ⟨rfl, rfl, rfl⟩ | ⟨-, -, rfl⟩ | ⟨-, -, rfl⟩ | ⟨-, -, rfl⟩ <;> cases hv
    exact .inr (.inr (.inl ⟨rfl, rfl, rfl⟩))
  | computed _ hv ih =>
    rcases ih with ⟨-, -, rfl⟩ | ⟨-, -, rfl⟩ | ⟨rfl, rfl, rfl⟩ | ⟨-, -, rfl⟩ <;> cases hv
    exact .inr (.inr (.inr ⟨rfl, rfl, rfl⟩))
  | member _ _ hread hs _ hf _ =>
    cases (set_none hread hs).symm.trans (Request.set_of_follows hf)
  | pointer _ hv _ _ _ _ ih =>
    rcases ih with ⟨-, -, rfl⟩ | ⟨-, -, rfl⟩ | ⟨-, -, rfl⟩ | ⟨-, -, rfl⟩ <;> cases hv

theorem withholds {C : Set (Option Condition)} (hc : c ∈ C) :
    (request c cc).Withholds active C := by
  rintro sides t ss hneg ⟨x, rw, hev, hreads⟩ hread s hs
  rcases evaluates hev with ⟨rfl, -, -⟩ | ⟨rfl, -, -⟩ | ⟨-, -, rfl⟩ | ⟨-, rfl, rfl⟩
  · cases hneg
  · cases hneg
  · rcases hreads with ⟨hv, -⟩ | ⟨_, _, hv, -⟩ <;> cases hv
  · rcases hreads with ⟨-, rfl⟩ | ⟨_, _, hv, -⟩
    · cases hread
      rw [if_neg (by decide), if_pos rfl] at hs
      rwa [List.mem_singleton.mp hs]
    · cases hv

/-- Without the condition's input the ban is lifted, and more is granted. -/
theorem not_grantsNoMore {C : Set (Option Condition)} (hC : c ∈ C)
    (hc' : evalCondition c cc' = false) (hc : evalCondition c cc = true) :
    ¬ GrantsNoMore cc' cc (fun r n => Set.InjOn visitKey (r.below n) ∧ r.Withholds n C) := by
  intro h
  have hok := h (engine c) model [] [] active "u" 0 (fun n => ⟨_, rfl⟩) le_rfl
    ⟨visitKey_injOn.mono below_active, withholds hC⟩ (fun ctx _ => (check_active c ctx).2)
    (by rw [(check_active c cc').1, hc']; rfl)
  rw [(check_active c cc).1, hc] at hok
  cases hok

end Run

end Ban

/-! ## A conditional detour through a node with the key of another -/

namespace Alias

variable {root x y : SubjectSet} {c : Option Condition} {u : GoString}

/-- The evaluation of two legs of which one has to grant, with a member of `y`. -/
abbrev either (root x y : SubjectSet) (c : Option Condition) (u : GoString) (cc : Context) :
    Request := request { union := legs x y } root x y y c u u cc

theorem refs_either {p : Bool × SubjectSet} (hp : p ∈ ((either root x y c u cc).system root).refs) :
    (evalCondition c cc = true ∧ p.2 = x) ∨ p.2 = y := by
  rw [system_either] at hp
  obtain ⟨f, hf, hp⟩ := Formula.mem_refs_any.mp hp
  rcases List.mem_pair.mp hf with rfl | rfl
  · exact .inl (refs_leg hp)
  · exact .inr (refs_leg hp).2

theorem below_either (h : Apart root x y) (hu : u ≠ []) :
    (either root x y c u cc).below root ⊆ {x, y} :=
  below_root h hu fun _ hp => (refs_either hp).imp_left And.right

theorem ranked_either (h : Apart root x y) (hkey : visitKey x = visitKey y) (hu : u ≠ []) :
    Ranked stringKeys (either root x y c u cc).system {root, x, y}
      (fun k => if k = visitKey root then 1 else 0) := by
  have hx : visitKey x ≠ visitKey root := h.key.symm
  have hy : visitKey y ≠ visitKey root := hkey ▸ hx
  rintro z (rfl | rfl | rfl) p hp
  · rcases refs_either hp with ⟨-, hp⟩ | hp
    · exact ⟨.inr (.inl hp), by simp [stringKeys, hp, hx]⟩
    · exact ⟨.inr (.inr hp), by simp [stringKeys, hp, hy]⟩
  · rw [system_of_ne _ h.left hu] at hp
    exact (refs_stored hp).elim
  · rw [system_of_ne _ h.right hu] at hp
    exact (refs_stored hp).elim

/-- When the condition is met, the refusal of `x` is recalled for `y`. -/
theorem check_either_met (h : Apart root x y) (hkey : visitKey x = visitKey y) (hne : x ≠ y)
    (hu : u ≠ []) (hc : evalCondition c cc = true) :
    ∃ st, (either root x y c u cc).check stringKeys 33 root false (newEvalState 0) =
      .ok false st := by
  have hx : (either root x y c u cc).system x = .read (stored none) := by
    rw [system_of_ne _ h.left hu, if_neg hne]
  obtain ⟨st₁, st₂, hleft, hright⟩ := legs_recalled h hkey hx 31
    ((newEvalState 0).enter (visitKey root)) rfl rfl (le_refl 0)
  refine check_of_eval system_either rfl (fun _ => rfl) ⟨st₂, ?_⟩
  rw [hc]
  exact bind_ok.mpr ⟨false, st₁, hleft, bind_ok.mpr ⟨false, st₂, hright, rfl⟩⟩

/-- When it is not, `x` is not looked at, and `y` grants. -/
theorem check_either_unmet (h : Apart root x y) (hkey : visitKey x = visitKey y) (hu : u ≠ [])
    (hc : evalCondition c cc = false) :
    ∃ st, (either root x y c u cc).check stringKeys 33 root false (newEvalState 0) =
      .ok true st := by
  have hy : (either root x y c u cc).system y = .read (stored (some true)) := by
    rw [system_of_ne _ h.right hu, if_pos rfl, decide_eq_true rfl]
  let st : SearchState GoString GoString := (newEvalState 0).enter (visitKey root)
  have hvis : visitKey y ∉ st.visited := by
    change visitKey y ∉ {visitKey root}
    rw [← hkey, Finset.mem_singleton]
    exact h.key.symm
  obtain ⟨st₁, hrun, -, -⟩ := search_stored stringKeys_remembers hy
    (fun _ _ _ => eval_stored_formula) 31 (st.fetched 2) hvis rfl (le_refl 0)
  refine check_of_eval system_either rfl (fun _ => rfl) ⟨st₁, ?_⟩
  rw [hc]
  have hleft : (leg false x).eval .evalBudgetExceeded
      (search stringKeys (either root x y c u cc).system .evalBudgetExceeded 32) false st =
        .ok false (st.fetched 1) :=
    bind_ok.mpr ⟨(), _, fetch_unbounded (le_refl 0), rfl⟩
  have hright : (leg true y).eval .evalBudgetExceeded
      (search stringKeys (either root x y c u cc).system .evalBudgetExceeded 32) false
        (st.fetched 1) = .ok true st₁ := eval_stored (le_refl 0) hrun
  exact bind_ok.mpr ⟨false, _, hleft, bind_ok.mpr ⟨true, st₁, hright, rfl⟩⟩

theorem legs_exclusionFree {c : Rewrite} (hc : c ∈ legs x y) : c.ExclusionFree := by
  rcases List.mem_pair.mp hc with rfl | rfl
  · exact .tupleToUserset (pointer_view _ _ (by decide : str "p" ≠ []))
  · exact .tupleToUserset (pointer_view _ _ (by decide : str "q" ≠ []))

theorem model_exclusionFree {rw : Rewrite} (h : rw.ExclusionFree) :
    (model root rw).ExclusionFree := by
  have hrw : ∀ rw' : Option Rewrite, rw' = none ∨ rw' = some rw →
      (rw'.getD .this).ExclusionFree := by
    rintro rw' (rfl | rfl)
    · exact .this rfl
    · exact h
  intro ns rel
  apply hrw
  by_cases hns : ns = root.ns <;> by_cases hrel : rel = root.relation <;> simp [model, hns, hrel]

/-- Without the condition's input the detour is not taken, and more is granted. -/
theorem not_grantsNoMore {N : Set SubjectSet} (hx : x ∈ N) (hy : y ∈ N)
    (hkey : visitKey x = visitKey y) (hne : x ≠ y) (hc' : evalCondition c cc' = false)
    (hc : evalCondition c cc = true) (C : Set (Option Condition)) :
    ¬ GrantsNoMore cc' cc (fun r n => r.below n ⊆ N ∧ r.Withholds n C) := by
  intro h
  have hapart := apart_fresh hkey
  have hu : str "u" ≠ [] := by decide
  obtain ⟨st', hrun'⟩ := check_either_unmet hapart hkey hu hc'
  obtain ⟨st, hrun⟩ := check_either_met hapart hkey hne hu hc
  have hN : {x, y} ⊆ N := Set.insert_subset hx (Set.singleton_subset_iff.mpr hy)
  have hok := h (engine (fresh x y) x y y c "u") (model (fresh x y) { union := legs x y }) [] []
    (fresh x y) "u" 0 (fun n => ⟨_, rfl⟩) le_rfl ⟨(below_either hapart hu).trans hN, ?_⟩ ?_
    (congrArg (fun z => (Outcome.of z).result) hrun')
  · cases (congrArg (fun z => (Outcome.of z).result) hrun).symm.trans hok
  · rintro sides t ss hneg ⟨z, rw, hev, -⟩
    rw [(hev.exclusionFree
      (model_exclusionFree (.union rfl fun c => legs_exclusionFree))).1] at hneg
    cases hneg
  · have hquiet : ∀ {ctx b st}, (either (fresh x y) x y c "u" ctx).check stringKeys 33 (fresh x y)
        false (newEvalState 0) = .ok b st → st.backstops.cycle = 0 ∧ st.backstops.depth = 0 :=
      fun hrun => Request.check_quiet (ranked_either hapart hkey hu) (.inl rfl)
        (by simp [stringKeys]) hrun
    have hof : ∀ {ctx b st}, (either (fresh x y) x y c "u" ctx).check stringKeys 33 (fresh x y)
        false (newEvalState 0) = .ok b st →
        (engine (fresh x y) x y y c "u").checkWithModel (model (fresh x y) { union := legs x y })
          [] [] (fresh x y) "u" ctx 0 = ⟨.ok b, st.backstops⟩ := fun hrun =>
            congrArg Outcome.of hrun
    intro ctx hctx
    rcases List.mem_pair.mp hctx with rfl | rfl
    · rw [hof hrun']
      exact hquiet hrun'
    · rw [hof hrun]
      exact hquiet hrun

end Alias

/-- Leaving out context grants no more as long as keys tell nodes apart and the
tuples that withhold access carry conditions that hold alike; neither can be
weakened for contexts that make a difference at all. -/
theorem checkWithModel_trims_iff (htrims : GoMap.Trims cc' cc) :
    (∀ C, GrantsNoMore cc' cc (fun r n => Set.InjOn visitKey (r.below n) ∧ r.Withholds n C) ↔
      C ⊆ Alike cc' cc) ∧
    (∀ N, GrantsNoMore cc' cc (fun r n => r.below n ⊆ N ∧ r.Withholds n (Alike cc' cc)) ↔
      Set.InjOn visitKey N ∨ Alike cc' cc = Set.univ) := by
  refine ⟨fun C => ⟨fun h c hc => ?_, fun hC => ?_⟩, fun N => ⟨fun h => ?_, ?_⟩⟩
  · by_contra hdiff
    obtain ⟨hc', hcc⟩ := of_not_alike htrims hdiff
    exact Ban.not_grantsNoMore hc hc' hcc h
  · exact (grantsNoMore_of_withholds htrims).mono fun r n ⟨hkeys, hw⟩ =>
      ⟨hkeys, fun sides t ss hneg ht hread s hs => hC (hw sides t ss hneg ht hread s hs)⟩
  · refine or_iff_not_imp_right.mpr fun hall x hx y hy hkey => ?_
    obtain ⟨c, hdiff⟩ := (Set.ne_univ_iff_exists_notMem _).mp hall
    by_contra hne
    obtain ⟨hc', hc⟩ := of_not_alike htrims hdiff
    exact Alias.not_grantsNoMore hx hy hkey hne hc' hc _ h
  · rintro (hN | hall)
    · exact (grantsNoMore_of_withholds htrims).mono fun r n ⟨hsub, hw⟩ => ⟨hN.mono hsub, hw⟩
    · exact grantsNoMore_of_alike (fun c => hall ▸ Set.mem_univ c) _

/-- Whatever is left out, tuples without a condition keep on withholding access. -/
theorem checkWithModel_trims_unconditional :
    GrantsNoMore ∅ (.ofList [("consent", .bool true)])
      (fun r n => Set.InjOn visitKey (r.below n) ∧ r.Withholds n {none}) :=
  ((checkWithModel_trims_iff (GoMap.empty_trims _)).1 {none}).mpr
    (Set.singleton_subset_iff.mpr rfl)

/-- Whoever leaves out their consent evades a ban that is subject to it. -/
theorem checkWithModel_grants_without_context :
    let e := Ban.engine (some ⟨"consent_granted", ∅⟩)
    let cc : Context := .ofList [("consent", .bool true)]
    GoMap.Trims ∅ cc ∧
      e.checkWithModel Ban.model "p" "t" Ban.active "u" ∅ 0 = ⟨.ok true, {}⟩ ∧
      e.checkWithModel Ban.model "p" "t" Ban.active "u" cc 0 = ⟨.ok false, {}⟩ :=
  ⟨GoMap.empty_trims _, by decide +kernel, by decide +kernel⟩

end WorkspaceAuthz.Authz
