import WorkspaceAuthz.Interleaving.Noninterference
import WorkspaceAuthz.Service.DriverAgreement
import WorkspaceAuthz.Service.Instance
import WorkspaceAuthz.Service.ListingOrder
import WorkspaceAuthz.Service.Scoping

/-! # What belongs to a project

The row of a project and its shards. All that an instance does for a principal is local to
the project of the principal: calls about one shard, the listings and the deletion that go
through all shards of the project, and evaluations, which read the row and one shard.
-/
namespace WorkspaceAuthz.Service
open Go Authz Interleaving Postgres.Serial

/-- The row and the shards. No shard belongs to an id with the separator in it. -/
structure ProjectPart where
  row : Option Project
  shards : GoString → Option Shard

def Store.projectPart (projectID : GoString) (s : Store) : ProjectPart where
  row := s.projects.get projectID
  shards tenantID := if 0 ∈ projectID then none else some (s.shard (scope projectID tenantID))

section Parts

variable {projectID : GoString} {s s' : Store}

theorem row_of_part (h : s.projectPart projectID = s'.projectPart projectID) :
    s.projects.get projectID = s'.projects.get projectID := congrArg ProjectPart.row h

theorem shard_of_part (hproject : 0 ∉ projectID)
    (h : s.projectPart projectID = s'.projectPart projectID) (tenantID : GoString) :
    s.shard (scope projectID tenantID) = s'.shard (scope projectID tenantID) := by
  have hshards := congrFun (congrArg ProjectPart.shards h) tenantID
  simpa [Store.projectPart, hproject] using hshards

theorem part_eq (hrow : s.projects.get projectID = s'.projects.get projectID)
    (hshards : 0 ∉ projectID → ∀ tenantID,
      s.shard (scope projectID tenantID) = s'.shard (scope projectID tenantID)) :
    s.projectPart projectID = s'.projectPart projectID := by
  unfold Store.projectPart
  rw [hrow]
  congr 1
  funext tenantID
  split_ifs with hproject
  · rfl
  · rw [hshards hproject tenantID]

end Parts

section Calls

variable {projectID tenantID : GoString} {s s' : Store}

theorem local_of_shard {α : Type} {f : Store → α × Store} {sk : GoString} (hproject : 0 ∉ projectID)
    (hsk : sk = scope projectID tenantID) (h : LocalAt Store.region (some sk) f) :
    LocalAt Store.projectPart projectID f := by
  subst hsk
  have hprojects (s : Store) : (f s).2.projects = s.projects :=
    h.updates.frame s none (Option.some_ne_none _).symm
  have hframe {projectID' tenantID' : GoString} (s : Store) (hproject' : 0 ∉ projectID')
      (hne : ¬ (projectID' = projectID ∧ tenantID' = tenantID)) :
      (f s).2.shard (scope projectID' tenantID') = s.shard (scope projectID' tenantID') :=
    h.updates.frame s (some (scope projectID' tenantID')) fun heq =>
      hne ((scope_eq_scope_iff hproject' hproject).mp (Option.some.inj heq))
  refine ⟨fun s s' hpart => h.reply s s' (shard_of_part hproject hpart tenantID), ?_, ?_⟩
  · intro s projectID' hne
    refine part_eq (congrArg (GoMap.get · projectID') (hprojects s)) fun hproject' tenantID' => ?_
    exact hframe s hproject' fun heq => hne heq.1
  · intro s s' hpart
    refine part_eq ?_ fun _ tenantID' => ?_
    · rw [hprojects, hprojects, row_of_part hpart]
    · by_cases htenant : tenantID' = tenantID
      · subst htenant
        exact h.updates.effect s s' (shard_of_part hproject hpart tenantID')
      · rw [hframe s hproject fun heq => htenant heq.2, hframe s' hproject fun heq => htenant heq.2,
          shard_of_part hproject hpart tenantID']

/-! ## All shards of a project -/

theorem tuplesOf_of_part (hproject : 0 ∉ projectID)
    (h : s.projectPart projectID = s'.projectPart projectID) :
    s.tuplesOf projectID = s'.tuplesOf projectID := by
  have hget (sk : GoString) (hsk : Store.inProject projectID sk) :
      s.tuples.get sk = s'.tuples.get sk := by
    obtain ⟨tenantID, rfl⟩ := Store.inProject_iff.mp hsk
    exact congrArg Shard.tuples (shard_of_part hproject h tenantID)
  have hkeys : s.tuples.keys.val.filter (Store.inProject projectID ·) =
      s'.tuples.keys.val.filter (Store.inProject projectID ·) := by
    have hfilter : s.tuples.keys.filter (Store.inProject projectID ·) =
        s'.tuples.keys.filter (Store.inProject projectID ·) := by
      ext sk
      simp only [Finset.mem_filter, and_congr_left_iff]
      intro hsk
      rw [Finmap.mem_keys, Finmap.mem_keys, ← Finmap.lookup_isSome, ← Finmap.lookup_isSome]
      exact iff_of_eq (congrArg (fun o => Option.isSome o = true) (hget sk hsk))
    exact congrArg Finset.val hfilter
  rw [Store.tuplesOf, Store.tuplesOf, hkeys]
  apply Multiset.bind_congr
  intro sk hsk
  rw [GoMap.inner, GoMap.inner, hget sk (Multiset.mem_filter.mp hsk).2]

theorem precedes_antisymm {a b : TupleAt} (hab : precedes a b) (hba : precedes b a) :
    a.tenantID = b.tenantID ∧ tupleKey a.tuple = tupleKey b.tuple := by
  obtain hlt | ⟨htenant, hkey⟩ := hab <;> obtain hlt' | ⟨htenant', hkey'⟩ := hba
  · exact absurd hlt' (Std.Asymm.asymm _ _ hlt)
  · exact absurd hlt (htenant' ▸ List.lt_irrefl _)
  · exact absurd hlt' (htenant ▸ List.lt_irrefl _)
  · exact ⟨htenant, List.le_antisymm hkey hkey'⟩

/-- Listings across tenants are sorted by what no two of their tuples share. -/
theorem tuplesInProject_of_part (hproject : 0 ∉ projectID)
    (h : s.projectPart projectID = s'.projectPart projectID) (order : MapOrder)
    (cond : Tuple → Bool) :
    s.tuplesInProject order projectID cond = s'.tuplesInProject order projectID cond := by
  have hperm : (s.tuplesInProject order projectID cond).Perm
      (s'.tuplesInProject order projectID cond) := by
    rw [← Multiset.coe_eq_coe, coe_tuplesInProject, coe_tuplesInProject,
      tuplesOf_of_part hproject h]
  refine hperm.eq_of_pairwise ?_ (pairwise_tuplesInProject cond) (pairwise_tuplesInProject cond)
  intro a b ha hb hab hba
  obtain ⟨tenantID, hstored, -, htenant⟩ := mem_tuplesInProject.mp ha
  obtain ⟨tenantID', hstored', -, htenant'⟩ := mem_tuplesInProject.mp hb
  obtain ⟨heq, hkey⟩ := precedes_antisymm hab hba
  rw [htenant, htenant'] at heq
  cases List.append_cancel_left heq
  have hinner := (inner_of_shard (shard_of_part hproject h tenantID)).2.2.2.2.2.2.2.1
  rw [Store.Stored, GoMap.get₂, hinner, hkey] at hstored
  have htuple : a.tuple = b.tuple := Option.some.inj (hstored.symm.trans hstored')
  cases a
  cases b
  rw [TupleAt.mk.injEq]
  exact ⟨htenant.trans htenant'.symm, htuple⟩

theorem local_deleteAllSubjectTuplesInProject (hproject : 0 ∉ projectID) (userID : GoString) :
    LocalAt Store.projectPart projectID
      fun s => s.deleteAllSubjectTuplesInProject projectID userID where
  reply s s' hpart := by
    simp only [count_deleteAllSubjectTuplesInProject, tuplesOf_of_part hproject hpart]
  updates.frame s projectID' hne := by
    refine part_eq rfl fun hproject' tenantID' => shard_deleteAllSubjectTuplesInProject ?_
    rw [Bool.eq_false_iff]
    intro hin
    obtain ⟨tenantID, heq⟩ := Store.inProject_iff.mp hin
    exact hne ((scope_eq_scope_iff hproject' hproject).mp heq).1
  updates.effect s s' hpart := by
    have hrow : s.projects.get projectID = s'.projects.get projectID := row_of_part hpart
    refine part_eq hrow fun _ tenantID => ?_
    have hshard := shard_of_part hproject hpart tenantID
    simp only [Store.shard, Shard.mk.injEq] at hshard
    simp [Store.shard, Store.deleteAllSubjectTuplesInProject, Store.withoutSubject,
      Store.withoutSeats, hshard]

end Calls

/-! ## Instances -/

namespace Instance

variable {inst : Instance} {env : EvalEnv} {p : Principal} {s s' : Store}

theorem resolve_eq (projectID : GoString) :
    resolve env s projectID = match s.getProject projectID with
      | .ok p => .ok (.of p env.now)
      | .error err => if isNotFound err then .ok { loadedAt := env.now }
        else .error ⟨err.kind, str "authz: resolve project %q: " ++ err.format,
          projectID :: err.args⟩ := by
  refine Prog.Ensures.outcome (Q := fun r _ => r = _) (ensures_observe_then fun _ => ?_)
  have hget : exec env.toEnv (.getProject projectID) s = (s.getProject projectID, s) := rfl
  rw [hget]
  cases s.getProject projectID with
  | ok p => exact fun _ => rfl
  | error err =>
    refine ensures_ite (fun hmissing _ => ?_) fun hother => ?_
    · exact (if_pos hmissing).symm
    · exact (if_neg hother).symm

theorem resolve_of_part {projectID : GoString}
    (h : s.projectPart projectID = s'.projectPart projectID) :
    resolve env s projectID = resolve env s' projectID := by
  rw [resolve_eq, resolve_eq, Store.getProject, Store.getProject, row_of_part h]

theorem servable_of_part (h : s.projectPart p.projectID = s'.projectPart p.projectID) :
    inst.servable env s p = inst.servable env s' p := by
  rw [servable, servable, resolve_of_part h]

/-- The engine decides alike in stores with the same shard. -/
theorem decideAlike_of_part (inst : Instance) (env : EvalEnv) (hproject : 0 ∉ p.projectID)
    (h : s.projectPart p.projectID = s'.projectPart p.projectID) (lister : Lister) :
    DecideAlike p.projectID p.tenantID (inst.engine env s) (inst.engine env s') lister lister :=
  decideAlike_of_reader (inst.engine env s)
    (reader_of_shard (shard_of_part hproject h p.tenantID) env.readOrder env.readTime)

theorem allowed_of_part (hproject : 0 ∉ p.projectID)
    (h : s.projectPart p.projectID = s'.projectPart p.projectID) (n : SubjectSet) :
    inst.allowed env s p n = inst.allowed env s' p n := by
  have halike := decideAlike_of_part inst env hproject h fun _ => .ok []
  simp only [allowed, resolve_of_part h, halike.check]

theorem evaluate_of_part (hproject : 0 ∉ p.projectID)
    (h : s.projectPart p.projectID = s'.projectPart p.projectID) (q : Query) :
    inst.evaluate env s p q = inst.evaluate env s' p q := by
  have hlister := lister_of_shard (shard_of_part hproject h p.tenantID) env.order env.now
  have halike := decideAlike_of_part inst env hproject h
    (s'.lister env.order env.now p.projectID p.tenantID)
  cases q with
  | check n subjectUserID reqContext =>
    simp only [evaluate, servable_of_part h, halike.check]
  | checkSet n set reqContext =>
    simp only [evaluate, servable_of_part h, halike.checkSet]
  | expand n =>
    simp only [evaluate, servable_of_part h, halike.expand]
  | listObjects ns relation subjectUserID =>
    simp only [evaluate, servable_of_part h, hlister, halike.listObjects]

theorem local_serve {projectID tenantID : GoString} (hproject : 0 ∉ projectID) {c : Call}
    (hc : c.Within projectID tenantID) :
    LocalAt Store.projectPart projectID fun s => inst.serve env s c := by
  cases c with
  | deleteAllSubjectTuplesInProject projectID' userID =>
    have heq : projectID' = projectID := hc
    subst heq
    have hlocal := local_deleteAllSubjectTuplesInProject hproject userID
    exact ⟨fun s s' hpart => congrArg Except.ok (hlocal.reply s s' hpart), hlocal.updates⟩
  | listSubjectTuplesInProject projectID' userID =>
    have heq : projectID' = projectID := hc
    subst heq
    exact .read fun s s' hpart => congrArg Except.ok (tuplesInProject_of_part hproject hpart _ _)
  | listTuplesForSubjectSetsInProject projectID' sets =>
    have heq : projectID' = projectID := hc
    subst heq
    refine .read fun s s' hpart => congrArg Except.ok ?_
    simp only [Store.listTuplesForSubjectSetsInProject, tuplesInProject_of_part hproject hpart]
  | check p n =>
    obtain ⟨rfl, rfl⟩ : p.projectID = projectID ∧ p.tenantID = tenantID := hc
    exact .read fun s s' hpart => allowed_of_part hproject hpart n
  | ensureProjectActive p =>
    obtain ⟨rfl, rfl⟩ : p.projectID = projectID ∧ p.tenantID = tenantID := hc
    refine .read fun s s' hpart => ?_
    simp only [ensureProjectActive, resolve_of_part hpart]
  | ensureRegion p =>
    obtain ⟨rfl, rfl⟩ : p.projectID = projectID ∧ p.tenantID = tenantID := hc
    refine .read fun s s' hpart => ?_
    simp only [ensureRegion, resolve_of_part hpart]
  | modelOrDefault p =>
    obtain ⟨rfl, rfl⟩ : p.projectID = projectID ∧ p.tenantID = tenantID := hc
    refine .read fun s s' hpart => ?_
    simp only [resolve_of_part hpart]
  | now | newID | randToken => exact .read fun s s' hpart => rfl
  | createProject | getProject | updateProject | listProjects => exact hc.elim
  | _ => exact local_of_shard hproject hc (local_exec env.toEnv rfl)

end Instance

end WorkspaceAuthz.Service
