import Mathlib.Data.List.TakeWhile
import WorkspaceAuthz.Interleaving.Sequential
import WorkspaceAuthz.Service.Authorization

/-! # The export of a user's grants

What a user holds in a project: the tuples that name the user, in all tenants, and
those that name a group in a tenant in which the user is a member of it. The
export looks for the groups in one tenant and for their tuples in all of them.
-/
namespace WorkspaceAuthz.Service
open Go Authz Interleaving FiniteMaps

namespace Store

/-- All tuples of a project, each with the tenant it is stored in. -/
def tuplesOf (s : Store) (projectID : GoString) : Multiset TupleAt :=
  (s.tuples.keys.val.filter (inProject projectID ·)).bind fun sk =>
    (s.tuples.inner sk).entries.map fun e => ⟨sk.drop (projectID.length + 1), e.2⟩

def isMemberIn (s : Store) (now : Time) (projectID userID tenantID groupID : GoString) : Bool :=
  (s.tuples.inner (scope projectID tenantID)).any fun _ t =>
    t.activeAt now && isConcrete userID t && memberOf? t = some ⟨"group", groupID, "member"⟩

/-- The tuple names a group that the user is a member of in its tenant. -/
def throughGroup (s : Store) (now : Time) (projectID userID : GoString) (ta : TupleAt) : Bool :=
  ta.tuple.subject.set.any fun set => set.ns = str "group" && set.relation = str "member" &&
    s.isMemberIn now projectID userID ta.tenantID set.objectID

/-- What the user holds directly, and what they hold through the groups of each tenant. -/
def subjectGrants (s : Store) (now : Time) (projectID userID : GoString) :
    Multiset SubjectGrant :=
  (((s.tuplesOf projectID).filter fun ta =>
    ta.tuple.activeAt now && isConcrete userID ta.tuple).map fun ta =>
      { tenantID := ta.tenantID
        ns := ta.tuple.ns
        objectID := ta.tuple.objectID
        relation := ta.tuple.relation
        viaGroup := [] }) +
  ((s.tuplesOf projectID).filter fun ta =>
    ta.tuple.activeAt now && s.throughGroup now projectID userID ta).map fun ta =>
      { tenantID := ta.tenantID
        ns := ta.tuple.ns
        objectID := ta.tuple.objectID
        relation := ta.tuple.relation
        viaGroup := (ta.tuple.subject.set.map (·.objectID)).getD [] }

end Store

/-! ## Tenants of shards -/

/-- What the tenants of a project are reported with in front. -/
def mislabel (projectID : GoString) : GoString :=
  if 0 ∈ projectID then (projectID.dropWhile (· ≠ 0)).drop 1 ++ [0] else []

theorem mislabel_eq_nil {projectID : GoString} : mislabel projectID = [] ↔ 0 ∉ projectID := by
  unfold mislabel
  split_ifs with h <;> simp [h]

theorem tenantOfScope_scope (projectID tenantID : GoString) :
    Store.tenantOfScope (scope projectID tenantID) = mislabel projectID ++ tenantID := by
  unfold Store.tenantOfScope scope mislabel
  rw [List.dropWhile_append]
  have hnil : (projectID.dropWhile (· ≠ 0)).isEmpty ↔ 0 ∉ projectID := by
    rw [List.isEmpty_iff, List.dropWhile_eq_nil_iff]
    simp only [decide_eq_true_eq]
    exact ⟨fun h h0 => h 0 h0 rfl, fun h b hb h0 => h (h0 ▸ hb)⟩
  by_cases h : 0 ∈ projectID
  · have hcons : ¬ (projectID.dropWhile (· ≠ 0)).isEmpty := by simpa [hnil] using h
    rw [if_neg hcons, if_pos h]
    rw [List.isEmpty_iff] at hcons
    rw [List.drop_append_of_le_length (List.length_pos_iff.mpr hcons), List.append_assoc]
    rfl
  · rw [if_pos (hnil.mpr h), if_neg h]
    simp

theorem drop_scope (projectID tenantID : GoString) :
    (scope projectID tenantID).drop (projectID.length + 1) = tenantID := by
  simp [scope]

/-! ## What is listed -/

section Listings

variable {s : Store} {projectID : GoString} {order : MapOrder}

theorem mem_tuplesOf {ta : TupleAt} :
    ta ∈ s.tuplesOf projectID ↔ s.Stored projectID ta.tenantID ta.tuple := by
  simp only [Store.tuplesOf, Multiset.mem_bind, Multiset.mem_filter, Multiset.mem_map]
  constructor
  · rintro ⟨sk, ⟨-, hsk⟩, ⟨k, t⟩, he, rfl⟩
    obtain ⟨tenantID, rfl⟩ := Store.inProject_iff.mp hsk
    have hget : s.tuples.get₂ (scope projectID tenantID) k = some t := GoMap.mem_entries.mp he
    simp only [drop_scope, Store.Stored]
    rw [s.tuples_keyed _ k t hget, hget]
  · intro hget
    refine ⟨scope projectID ta.tenantID, ⟨?_, Store.inProject_iff.mpr ⟨_, rfl⟩⟩,
      ⟨tupleKey ta.tuple, ta.tuple⟩, GoMap.mem_entries.mpr hget, by rw [drop_scope]⟩
    rw [Finset.mem_val, Finmap.mem_keys, ← not_not (a := _ ∈ _), ← Finmap.lookup_eq_none]
    intro hnone
    simp [Store.Stored, GoMap.get₂, GoMap.inner, GoMap.get, hnone] at hget

/-- The tenants of a listing have the same mistake. -/
theorem coe_tuplesInProject (cond : Tuple → Bool) :
    (s.tuplesInProject order projectID cond : Multiset TupleAt) =
      ((s.tuplesOf projectID).filter (cond ·.tuple)).map fun ta =>
        ⟨mislabel projectID ++ ta.tenantID, ta.tuple⟩ := by
  rw [Store.tuplesInProject, Store.sortTupleAt,
    Multiset.coe_eq_coe.mpr (List.perm_insertionSort _ _), ← Multiset.coe_bind,
    coe_filter, order.coe_list, Store.tuplesOf, Multiset.filter_bind, Multiset.map_bind]
  apply Multiset.bind_congr
  intro sk hsk
  obtain ⟨tenantID, rfl⟩ := Store.inProject_iff.mp (Multiset.mem_filter.mp hsk).2
  rw [← Multiset.map_coe, coe_filter, GoMap.coe_values]
  simp only [tenantOfScope_scope, drop_scope, Multiset.filter_map, Multiset.map_map]
  rfl

theorem isMemberIn_iff {now : Time} {userID tenantID groupID : GoString} :
    s.isMemberIn now projectID userID tenantID groupID = true ↔
      ∃ t, s.Stored projectID tenantID t ∧ t.activeAt now ∧ Store.isConcrete userID t ∧
        memberOf? t = some ⟨"group", groupID, "member"⟩ := by
  simp only [Store.isMemberIn, GoMap.any_iff, Bool.and_eq_true, decide_eq_true_eq, and_assoc]
  constructor
  · rintro ⟨k, t, hget, ht⟩
    have hget : s.tuples.get₂ (scope projectID tenantID) k = some t := hget
    rw [← s.tuples_keyed _ k t hget] at hget
    exact ⟨t, hget, ht⟩
  · rintro ⟨t, hget, ht⟩
    exact ⟨_, t, hget, ht⟩

end Listings

/-! ## The export -/

section Exported

variable (s : Store) (env : Env) (projectID userID : GoString)

def directTuples : Multiset TupleAt :=
  (s.tuplesOf projectID).filter fun ta =>
    ta.tuple.activeAt env.now && Store.isConcrete userID ta.tuple

/-- The groups of any tenant that the user is a direct member of. -/
def memberSets : List SubjectSet :=
  (s.listSubjectTuplesInProject env.order env.now projectID userID).filterMap
    fun ta => memberOf? ta.tuple

/-- The tuples of all tenants that name one of these groups. -/
def setTuples : Multiset TupleAt :=
  (s.tuplesOf projectID).filter fun ta =>
    ta.tuple.activeAt env.now &&
      ta.tuple.subject.set.any (· ∈ memberSets s env projectID userID)

/-- What the user holds through the groups of one tenant in it. -/
def groupTuples : Multiset TupleAt :=
  (s.tuplesOf projectID).filter fun ta =>
    ta.tuple.activeAt env.now && s.throughGroup env.now projectID userID ta

/-- A grant with something in front of its tenant. -/
def SubjectGrant.relabel (label : GoString) (g : SubjectGrant) : SubjectGrant :=
  { g with tenantID := label ++ g.tenantID }

def exportedGrants : List SubjectGrant :=
  (s.listSubjectTuplesInProject env.order env.now projectID userID).map directGrant ++
    (s.listTuplesForSubjectSetsInProject env.order env.now projectID
      (memberSets s env projectID userID)).map groupGrant

variable {s env projectID userID}

theorem outcome_exportSubjectGrants {p : Principal} (huser : userID ≠ [])
    (hregion : env.region = .ok ()) :
    (exportSubjectGrants p userID).run.outcome exec env s =
      (.ok (exportedGrants s env p.projectID userID), s) := by
  have hensures : (exportSubjectGrants p userID).run.Ensures (fun _ : Unit => exec env)
      (fun r s' => r = .ok (exportedGrants s env p.projectID userID) ∧ s' = s) s := by
    apply ensures_ite (fun hempty => absurd hempty huser)
    intro _
    apply ensures_attempt_of_eq (fun _ => Prod.ext hregion rfl)
    apply ensures_attempt_of_eq (fun _ => rfl)
    apply ensures_ite
    · intro hnone
      have hnone : memberSets s env p.projectID userID = [] := hnone
      have hgrants : exportedGrants s env p.projectID userID =
          (s.listSubjectTuplesInProject env.order env.now p.projectID userID).map directGrant := by
        simp [exportedGrants, hnone, Store.listTuplesForSubjectSetsInProject]
      rw [hgrants]
      exact ⟨rfl, rfl⟩
    · intro _
      apply ensures_attempt_of_eq (fun _ => rfl)
      exact ⟨rfl, rfl⟩
  obtain ⟨hr, hs⟩ := hensures.outcome
  exact Prod.ext hr hs

theorem of_outcome_exportSubjectGrants {p : Principal} {grants : List SubjectGrant}
    (h : (exportSubjectGrants p userID).run.outcome exec env s = (.ok grants, s)) :
    userID ≠ [] ∧ env.region = .ok () := by
  have hensures : (exportSubjectGrants p userID).run.Ensures (fun _ : Unit => exec env)
      (fun r _ => ∀ grants, r = .ok grants → userID ≠ [] ∧ env.region = .ok ()) s := by
    refine ensures_ite (fun _ _ => nofun) fun huser => ?_
    apply ensures_attempt_then (fun _ _ _ _ => nofun)
    intro _ _ hregion
    apply ensures_attempt_of_eq (fun _ => rfl)
    refine ensures_ite (fun _ _ _ => ⟨huser, hregion⟩) fun _ => ?_
    exact ensures_attempt_of_eq (fun _ => rfl) fun _ _ => ⟨huser, hregion⟩
  exact hensures.outcome grants (congrArg Prod.fst h)

theorem coe_listSubjectTuplesInProject :
    (s.listSubjectTuplesInProject env.order env.now projectID userID : Multiset TupleAt) =
      (directTuples s env projectID userID).map fun ta =>
        ⟨mislabel projectID ++ ta.tenantID, ta.tuple⟩ := by
  simp only [Store.listSubjectTuplesInProject, coe_tuplesInProject, directTuples, Bool.and_comm]

theorem coe_listTuplesForSubjectSetsInProject :
    (s.listTuplesForSubjectSetsInProject env.order env.now projectID
      (memberSets s env projectID userID) : Multiset TupleAt) =
      (setTuples s env projectID userID).map fun ta =>
        ⟨mislabel projectID ++ ta.tenantID, ta.tuple⟩ := by
  unfold Store.listTuplesForSubjectSetsInProject setTuples
  split_ifs with hnone
  · simp [hnone]
  · simp only [coe_tuplesInProject, Bool.and_comm]

theorem coe_exportedGrants :
    (exportedGrants s env projectID userID : Multiset SubjectGrant) =
      ((directTuples s env projectID userID).map directGrant +
        (setTuples s env projectID userID).map groupGrant).map
          (SubjectGrant.relabel (mislabel projectID)) := by
  rw [exportedGrants, ← Multiset.coe_add, ← Multiset.map_coe, ← Multiset.map_coe,
    coe_listSubjectTuplesInProject, coe_listTuplesForSubjectSetsInProject]
  simp only [Multiset.map_add, Multiset.map_map]
  rfl

theorem mem_directTuples {ta : TupleAt} :
    ta ∈ directTuples s env projectID userID ↔ s.Stored projectID ta.tenantID ta.tuple ∧
      ta.tuple.activeAt env.now ∧ Store.isConcrete userID ta.tuple := by
  simp [directTuples, mem_tuplesOf]

theorem memberOf?_eq_some {t : Tuple} {set : SubjectSet} (h : memberOf? t = some set) :
    set = ⟨"group", t.objectID, "member"⟩ := by
  unfold memberOf? at h
  split_ifs at h
  exact (Option.some.inj h).symm

theorem mem_memberSets {set : SubjectSet} :
    set ∈ memberSets s env projectID userID ↔
      ∃ tenantID groupID, set = ⟨"group", groupID, "member"⟩ ∧
        s.isMemberIn env.now projectID userID tenantID groupID := by
  rw [memberSets, List.mem_filterMap]
  simp only [← Multiset.mem_coe, coe_listSubjectTuplesInProject, Multiset.mem_map,
    mem_directTuples, isMemberIn_iff]
  constructor
  · rintro ⟨-, ⟨ta, ⟨hstored, hactive, huser⟩, rfl⟩, hset⟩
    obtain rfl := memberOf?_eq_some hset
    exact ⟨ta.tenantID, _, rfl, ta.tuple, hstored, hactive, huser, hset⟩
  · rintro ⟨tenantID, groupID, rfl, t, hstored, hactive, huser, hset⟩
    exact ⟨_, ⟨⟨tenantID, t⟩, ⟨hstored, hactive, huser⟩, rfl⟩, hset⟩

theorem throughGroup_iff {now : Time} {ta : TupleAt} :
    s.throughGroup now projectID userID ta = true ↔
      ∃ groupID, ta.tuple.subject.set = some ⟨"group", groupID, "member"⟩ ∧
        s.isMemberIn now projectID userID ta.tenantID groupID := by
  rw [Store.throughGroup]
  cases hset : ta.tuple.subject.set with
  | none => simp
  | some set =>
    obtain ⟨ns, objectID, relation⟩ := set
    simp only [Option.any_some, Bool.and_eq_true, decide_eq_true_eq, Option.some.injEq,
      SubjectSet.mk.injEq]
    constructor
    · rintro ⟨⟨rfl, rfl⟩, hmember⟩
      exact ⟨objectID, ⟨rfl, rfl, rfl⟩, hmember⟩
    · rintro ⟨groupID, ⟨rfl, rfl, rfl⟩, hmember⟩
      exact ⟨⟨rfl, rfl⟩, hmember⟩

theorem mem_setTuples {ta : TupleAt} :
    ta ∈ setTuples s env projectID userID ↔ s.Stored projectID ta.tenantID ta.tuple ∧
      ta.tuple.activeAt env.now ∧
        ∃ groupID, ta.tuple.subject.set = some ⟨"group", groupID, "member"⟩ ∧
          ∃ tenantID, s.isMemberIn env.now projectID userID tenantID groupID := by
  simp only [setTuples, Multiset.mem_filter, mem_tuplesOf, Bool.and_eq_true]
  cases hset : ta.tuple.subject.set with
  | none => simp
  | some set =>
    simp only [Option.any_some, decide_eq_true_eq, mem_memberSets, Option.some.injEq]
    tauto

theorem mem_groupTuples {ta : TupleAt} :
    ta ∈ groupTuples s env projectID userID ↔ s.Stored projectID ta.tenantID ta.tuple ∧
      ta.tuple.activeAt env.now ∧
        ∃ groupID, ta.tuple.subject.set = some ⟨"group", groupID, "member"⟩ ∧
          s.isMemberIn env.now projectID userID ta.tenantID groupID := by
  simp [groupTuples, mem_tuplesOf, throughGroup_iff]

theorem groupTuples_le : groupTuples s env projectID userID ≤ setTuples s env projectID userID := by
  apply Multiset.monotone_filter_right
  intro ta hta
  simp only [Bool.and_eq_true, throughGroup_iff] at hta ⊢
  obtain ⟨hactive, groupID, hset, hmember⟩ := hta
  refine ⟨hactive, ?_⟩
  simp only [hset, Option.any_some, decide_eq_true_eq, mem_memberSets]
  exact ⟨_, _, rfl, hmember⟩

theorem setTuples_eq_groupTuples
    (h : ∀ ta ∈ setTuples s env projectID userID, ta ∈ groupTuples s env projectID userID) :
    setTuples s env projectID userID = groupTuples s env projectID userID := by
  apply Multiset.filter_congr
  intro ta hta
  constructor
  · intro hset
    exact (Multiset.mem_filter.mp (h ta (Multiset.mem_filter.mpr ⟨hta, hset⟩))).2
  · intro hgroup
    have hmem := Multiset.mem_of_le groupTuples_le (Multiset.mem_filter.mpr ⟨hta, hgroup⟩)
    exact (Multiset.mem_filter.mp hmem).2

theorem relabel_eq_self {label : GoString} {grants : Multiset SubjectGrant} :
    grants.map (SubjectGrant.relabel label) = grants ↔ label = [] ∨ grants = 0 := by
  constructor
  · intro h
    have hlengths := congrArg (fun m => (m.map fun g => g.tenantID.length).sum) h
    simp only [Multiset.map_map, Function.comp_def, SubjectGrant.relabel, List.length_append,
      Multiset.sum_map_add, Multiset.map_const', Multiset.sum_replicate] at hlengths
    have hzero : grants.card * label.length = 0 := by
      rw [← smul_eq_mul]
      omega
    rcases Nat.mul_eq_zero.mp hzero with hcard | hlabel
    · exact .inr (Multiset.card_eq_zero.mp hcard)
    · exact .inl (List.length_eq_zero_iff.mp hlabel)
  · rintro (rfl | rfl)
    · exact Multiset.map_id' _
    · rfl

/-- A list without direct grants has none through groups either. -/
theorem setTuples_eq_zero (h : directTuples s env projectID userID = 0) :
    setTuples s env projectID userID = 0 := by
  apply Multiset.eq_zero_of_forall_notMem
  intro ta hta
  obtain ⟨-, -, groupID, -, tenantID, hmember⟩ := mem_setTuples.mp hta
  obtain ⟨t, hstored, hactive, huser, -⟩ := isMemberIn_iff.mp hmember
  have hdirect : ⟨tenantID, t⟩ ∈ directTuples s env projectID userID :=
    mem_directTuples.mpr ⟨hstored, hactive, huser⟩
  rw [h] at hdirect
  exact Multiset.notMem_zero _ hdirect

theorem coe_exportedGrants_eq_iff :
    (exportedGrants s env projectID userID : Multiset SubjectGrant) =
        s.subjectGrants env.now projectID userID ↔
      directTuples s env projectID userID = 0 ∨
        (mislabel projectID = [] ∧
          setTuples s env projectID userID = groupTuples s env projectID userID) := by
  have hspec : s.subjectGrants env.now projectID userID =
      (directTuples s env projectID userID).map directGrant +
        (groupTuples s env projectID userID).map groupGrant := rfl
  rw [coe_exportedGrants, hspec]
  constructor
  · intro h
    have hcard := congrArg Multiset.card h
    simp only [Multiset.card_map, Multiset.card_add, Nat.add_left_cancel_iff] at hcard
    have hgroups : setTuples s env projectID userID = groupTuples s env projectID userID :=
      (Multiset.eq_of_le_of_card_le groupTuples_le hcard.le).symm
    rw [hgroups, relabel_eq_self] at h
    rcases h with hlabel | hnone
    · exact .inr ⟨hlabel, hgroups⟩
    · exact .inl (Multiset.map_eq_zero.mp (add_eq_zero.mp hnone).1)
  · rintro (hnone | ⟨hlabel, hgroups⟩)
    · have hset := setTuples_eq_zero hnone
      have hgroup : groupTuples s env projectID userID = 0 :=
        Multiset.le_zero.mp (hset ▸ groupTuples_le)
      simp [hnone, hset, hgroup]
    · rw [hgroups, hlabel]
      exact relabel_eq_self.mpr (.inl rfl)

end Exported

/-- The export says what the user holds in the cases in which there is nothing, or in which
the user is a member of their groups in all tenants that use the ids of these groups. -/
theorem exportSubjectGrants_eq_iff (s : Store) (env : Env) (p : Principal) (userID : GoString) :
    (∃ grants, (exportSubjectGrants p userID).run.outcome exec env s = (.ok grants, s) ∧
      (grants : Multiset SubjectGrant) = s.subjectGrants env.now p.projectID userID) ↔
    userID ≠ [] ∧ env.region = .ok () ∧
      ((∀ tenantID t, s.Stored p.projectID tenantID t → t.activeAt env.now →
          ¬ Store.isConcrete userID t) ∨
        (0 ∉ p.projectID ∧ ∀ groupID tenantID tenantID' t,
          s.isMemberIn env.now p.projectID userID tenantID groupID →
          s.Stored p.projectID tenantID' t → t.activeAt env.now →
          t.subject.set = some ⟨"group", groupID, "member"⟩ →
          s.isMemberIn env.now p.projectID userID tenantID' groupID)) := by
  have hnone : directTuples s env p.projectID userID = 0 ↔
      ∀ tenantID t, s.Stored p.projectID tenantID t → t.activeAt env.now →
        ¬ Store.isConcrete userID t := by
    rw [Multiset.eq_zero_iff_forall_notMem]
    simp only [mem_directTuples, not_and]
    exact ⟨fun h tenantID t => h ⟨tenantID, t⟩, fun h ta => h ta.tenantID ta.tuple⟩
  have hgroups : setTuples s env p.projectID userID = groupTuples s env p.projectID userID ↔
      ∀ groupID tenantID tenantID' t, s.isMemberIn env.now p.projectID userID tenantID groupID →
        s.Stored p.projectID tenantID' t → t.activeAt env.now →
        t.subject.set = some ⟨"group", groupID, "member"⟩ →
        s.isMemberIn env.now p.projectID userID tenantID' groupID := by
    constructor
    · intro h groupID tenantID tenantID' t hmember hstored hactive hset
      have hta : ⟨tenantID', t⟩ ∈ groupTuples s env p.projectID userID := by
        rw [← h]
        exact mem_setTuples.mpr ⟨hstored, hactive, groupID, hset, tenantID, hmember⟩
      obtain ⟨-, -, groupID', hset', hmember'⟩ := mem_groupTuples.mp hta
      simp only [hset, Option.some.injEq, SubjectSet.mk.injEq, true_and, and_true] at hset'
      rwa [hset']
    · intro h
      apply setTuples_eq_groupTuples
      intro ta hta
      obtain ⟨hstored, hactive, groupID, hset, tenantID, hmember⟩ := mem_setTuples.mp hta
      exact mem_groupTuples.mpr ⟨hstored, hactive, groupID, hset,
        h groupID tenantID ta.tenantID ta.tuple hmember hstored hactive hset⟩
  rw [← hnone, ← hgroups, ← mislabel_eq_nil, ← coe_exportedGrants_eq_iff]
  constructor
  · rintro ⟨grants, houtcome, hgrants⟩
    obtain ⟨huser, hregion⟩ := of_outcome_exportSubjectGrants houtcome
    rw [outcome_exportSubjectGrants huser hregion] at houtcome
    cases houtcome
    exact ⟨huser, hregion, hgrants⟩
  · rintro ⟨huser, hregion, hgrants⟩
    exact ⟨_, outcome_exportSubjectGrants huser hregion, hgrants⟩

/-! ## A group id in two tenants -/

namespace TwoTenants

def south : Store :=
  Store.empty.writeTuples "p" "south"
    [{ ns := "group", objectID := "eng", relation := "member", subject := { userID := "ann" } }] []

def store : Store :=
  south.writeTuples "p" "north"
    [{ ns := "document", objectID := "plan", relation := "viewer",
       subject := { set := some ⟨"group", "eng", "member"⟩ } }] []

end TwoTenants

open TwoTenants in
/-- What the group of the other tenant may read is reported as a grant of the user. -/
theorem export_reports_other_tenants :
    store.isMemberIn 0 "p" "ann" "north" "eng" = false ∧
      ((exportSubjectGrants ⟨"root", "p", "south"⟩ "ann").run.outcome exec {} store).1.toOption =
        some [⟨"south", "group", "eng", "member", []⟩,
          ⟨"north", "document", "plan", "viewer", "eng"⟩] ∧
      store.subjectGrants 0 "p" "ann" = {⟨"south", "group", "eng", "member", []⟩} := by
  decide +kernel

end WorkspaceAuthz.Service
