import WorkspaceAuthz.Service.Requests

/-! # Suspended projects

A request on a project that is reported as suspended adds no tuple if it looks at
the project before it inserts any. Four kinds of requests do not look, and add the
tuple of a role: for these it is said exactly when they do.
-/
namespace WorkspaceAuthz.Service
open Go Authz Interleaving

section Requests

variable {s s' : Store} {env : Env} {p : Principal} {e : ServiceError}
  {hashToken : GoString → GoString}

/-- What is stored in one store, in any shard, is stored in another. -/
def Store.Within (s' s : Store) : Prop :=
  ∀ sk k t, s'.tuples.get₂ sk k = some t → s.tuples.get₂ sk k = some t

theorem Store.within_of_tuples (h : s'.tuples = s.tuples) : s'.Within s := fun _ _ _ ht => h ▸ ht

theorem Store.Within.trans {s'' : Store} (h : s''.Within s') (h' : s'.Within s) : s''.Within s :=
  fun sk k t ht => h' sk k t (h sk k t ht)

theorem Store.within_writeTuples (s : Store) (projectID tenantID : GoString)
    (deletes : List Tuple) :
    (s.writeTuples projectID tenantID [] deletes).Within s := fun _ _ _ ht =>
  (mem_or_get_of_writeTuples ht).resolve_left List.not_mem_nil

theorem Store.within_keepTuples (s : Store) (projectID tenantID : GoString) (keep : Tuple → Bool) :
    (s.keepTuples projectID tenantID keep).Within s := by
  intro sk k t ht
  rw [get_tuples_keepTuples] at ht
  split_ifs at ht
  · exact (Option.filter_eq_some_iff.mp ht).1
  · exact ht

theorem within_exec {c : Call} (h : c.inserts = false) (env : Env) (s : Store) :
    (exec env c s).2.Within s := by
  cases c with
  | writeTuples projectID tenantID inserts deletes =>
    obtain rfl : inserts = [] := by simpa [Call.inserts] using h
    exact s.within_writeTuples projectID tenantID deletes
  | putMembershipAndTuples m inserts deletes =>
    obtain rfl : inserts = [] := by simpa [Call.inserts] using h
    exact (s.putMembership m).within_writeTuples m.projectID m.tenantID deletes
  | setEnrollmentAndTuples enr inserts deletes =>
    obtain rfl : inserts = [] := by simpa [Call.inserts] using h
    exact (s.setEnrollment enr).within_writeTuples enr.projectID enr.tenantID deletes
  | assignSeatAndTuple => cases h
  | revokeSeatAndTuple projectID tenantID sku user tuple =>
    exact (s.revokeSeat projectID tenantID sku user).within_writeTuples projectID tenantID [tuple]
  | deleteMembershipAndTuples projectID tenantID ws user deletes =>
    rw [exec]
    cases hrow : s.row projectID tenantID ws user with
    | none =>
      rw [Store.deleteMembershipAndTuples_of_none hrow]
      exact Store.within_of_tuples rfl
    | some m =>
      obtain ⟨s', htuples, -, heq⟩ := Store.deleteMembershipAndTuples_of_some hrow
      rw [heq]
      exact (s'.within_writeTuples projectID tenantID deletes).trans
        (Store.within_of_tuples htuples)
  | deleteWorkspace projectID tenantID id =>
    rw [exec, Store.deleteWorkspace]
    split_ifs
    · exact Store.within_of_tuples rfl
    · exact s.within_keepTuples projectID tenantID _
  | deleteGroup projectID tenantID id =>
    rw [exec, Store.deleteGroup]
    split_ifs
    · exact Store.within_of_tuples rfl
    · exact s.within_keepTuples projectID tenantID _
  | deleteAllSubjectTuplesInProject projectID user =>
    intro sk k t ht
    change (Store.withoutSubject projectID user s.tuples).get₂ sk k = some t at ht
    rw [Store.get_withoutSubject] at ht
    split_ifs at ht
    · exact (Option.filter_eq_some_iff.mp ht).1
    · exact ht
  | _ =>
    refine Store.within_of_tuples (exec_of_leavesTuples ?_ env s).1
    trivial

/-! ## Requests that look at the project -/

theorem within_of_guarded (henv : env.active = .error e) {request : Request}
    (hguarded : request.unguarded = false) :
    ((request.serve hashToken p).run.outcome exec env s).2.Within s := by
  have hregular : Regular false true false (request.serve hashToken p) :=
    request.regular (fun _ => hguarded) nofun
  have hensures : (request.serve hashToken p).run.Ensures (fun _ : Unit => exec env)
      (fun _ s' => ∃ t, (s'.Within s ∧ guarded t = false) ∧ (false → guarded t)) s := by
    refine (hregular [] nofun).ensures (fun _ s' trace c hinv hissues => ?_)
      ⟨Store.within_of_tuples rfl, rfl⟩
    have hinserts : c.inserts = false := by
      cases hc : c.inserts with
      | false => rfl
      | true => cases hinv.2.symm.trans (hissues.2 rfl hc)
    refine ⟨trivial, (within_exec hinserts env s').trans hinv.1, ?_⟩
    -- The only thing that could lift the guard is a project found active.
    cases c with
    | ensureProjectActive =>
      change (env.active.isOk || guarded trace) = false
      rw [henv, hinv.2]
      rfl
    | _ => exact hinv.2
  obtain ⟨t, ⟨hwithin, -⟩, -⟩ := hensures.outcome
  exact hwithin

/-! ## Requests that do not -/

/-- The tuple that a request inserts without a look at the project. -/
def Request.Grants (env : Env) (p : Principal) (s : Store) (t : Tuple) : Request → Prop
  | .updateMemberRole ws user name => ∃ role w m, grantable? name = some role ∧
      s.getWorkspace p.projectID p.tenantID ws = .ok w ∧ env.allowed = .ok true ∧
      s.row p.projectID p.tenantID ws user = some m ∧ m.role ≠ .owner ∧ m.status ≠ .suspended ∧
      m.role ≠ role ∧ t = roleTuple ws user role
  | .reinstateMember ws user => ∃ w m, s.getWorkspace p.projectID p.tenantID ws = .ok w ∧
      env.allowed = .ok true ∧ s.row p.projectID p.tenantID ws user = some m ∧
      m.status = .suspended ∧ t = roleTuple ws user m.role
  | .ensurePersonalWorkspace | .listWorkspaces =>
      (∃ e, s.personalWorkspace env.order p.projectID p.tenantID p.userID = .error e) ∧
      s.workspaces.get₂ (scope p.projectID p.tenantID) env.id = none ∧
      t = roleTuple env.id p.userID .owner
  | _ => False

/-- One store has the tuples of another and, in one shard, those that are granted. -/
structure Store.Adds (s s' : Store) (sk : GoString) (grants : Tuple → Prop) : Prop where
  granted : ∀ t, grants t → s'.tuples.get₂ sk (tupleKey t) = some t
  old_or_granted : ∀ sk' k t, s'.tuples.get₂ sk' k = some t →
    s.tuples.get₂ sk' k = some t ∨ (sk' = sk ∧ grants t)

section Adds

variable {sk : GoString} {grants : Tuple → Prop} {m : Membership} {t : Tuple} {deletes : List Tuple}

theorem Store.Within.adds (h : s'.Within s) (hgrants : ∀ t, ¬ grants t) : s.Adds s' sk grants where
  granted t ht := absurd ht (hgrants t)
  old_or_granted sk' k t ht := .inl (h sk' k t ht)

theorem Store.adds_self (hgrants : ∀ t, ¬ grants t) : s.Adds s sk grants :=
  (Store.within_of_tuples rfl).adds hgrants

theorem Store.adds_put (hscope : scope m.projectID m.tenantID = sk)
    (hgrants : ∀ t', grants t' ↔ t' = t) :
    s.Adds (s.putMembershipAndTuples m [t] deletes) sk grants where
  granted t' ht' := by
    obtain rfl := (hgrants t').mp ht'
    rw [Store.putMembershipAndTuples, Store.get_tuples_writeTuples, if_pos hscope.symm]
    simp
  old_or_granted sk' k t' ht' := by
    by_cases hsk : sk' = sk
    · rcases Store.mem_or_get_of_writeTuples ht' with hmem | hold
      · exact .inr ⟨hsk, (hgrants t').mpr (List.mem_singleton.mp hmem)⟩
      · exact .inl hold
    · rw [Store.putMembershipAndTuples, Store.get_tuples_writeTuples, hscope, if_neg hsk] at ht'
      exact .inl ht'

end Adds

abbrev AddsGrants {α : Type} (env : Env) (p : Principal) (s : Store) (request : Request)
    (x : ServiceM α) : Prop :=
  x.run.Ensures (fun _ : Unit => exec env)
    (fun _ s' => s.Adds s' (scope p.projectID p.tenantID) (request.Grants env p s ·)) s

theorem ensures_rights_then {α : Type} {ws : GoString} {rel : Role} {f : Workspace → ServiceM α}
    {Q : Except ServiceError α → Store → Prop}
    (hdenied : (∀ w, s.getWorkspace p.projectID p.tenantID ws = .ok w → env.allowed ≠ .ok true) →
      ∀ e, Q (.error e) s)
    (hok : ∀ w, s.getWorkspace p.projectID p.tenantID ws = .ok w → env.allowed = .ok true →
      (f w).run.Ensures (fun _ : Unit => exec env) Q s) :
    (requireWorkspace p ws rel >>= f).run.Ensures (fun _ : Unit => exec env) Q s := by
  refine ensures_requireWorkspace (fun _ => rfl) (fun _ => rfl) (fun e he => ?_) (fun _ hne => ?_)
    fun _ w hw hallowed => hok w hw hallowed
  · exact hdenied (fun w hw => by cases he.symm.trans hw) e
  · exact hdenied fun _ _ hallowed => hne hallowed

theorem addsGrants_updateMemberRole {ws user name : GoString} :
    AddsGrants env p s (.updateMemberRole ws user name) (updateMemberRole p ws user name) := by
  unfold updateMemberRole
  cases hgrantable : grantable? name with
  | none =>
    refine Store.adds_self fun t ht => ?_
    obtain ⟨role, w, m, hrole, -⟩ := ht
    cases hgrantable.symm.trans hrole
  | some role =>
    refine ensures_rights_then (fun hdenied e => Store.adds_self fun t ht => ?_)
      fun w hw hallowed => ?_
    · obtain ⟨-, w, -, -, hw, hallowed, -⟩ := ht
      exact hdenied w hw hallowed
    refine ensures_attempt_then (fun _ e he => Store.adds_self fun t ht => ?_) fun _ m hm => ?_
    · obtain ⟨-, -, m, -, -, -, hrow, -⟩ := ht
      cases he.symm.trans (found_eq_ok.mpr hrow)
    have hrow := found_eq_ok.mp hm
    obtain ⟨hscope, -, -⟩ := Store.row_keyed hrow
    have hgrants : ∀ t, Request.Grants env p s t (.updateMemberRole ws user name) ↔
        (m.role ≠ .owner ∧ m.status ≠ .suspended ∧ m.role ≠ role) ∧ t = roleTuple ws user role := by
      intro t
      constructor
      · rintro ⟨role', -, m', hrole', -, -, hrow', howner, hstatus, hne, rfl⟩
        obtain rfl := Option.some.inj (hgrantable.symm.trans hrole')
        obtain rfl := Option.some.inj (hrow.symm.trans hrow')
        exact ⟨⟨howner, hstatus, hne⟩, rfl⟩
      · rintro ⟨⟨howner, hstatus, hne⟩, rfl⟩
        exact ⟨role, w, m, hgrantable, hw, hallowed, hrow, howner, hstatus, hne, rfl⟩
    refine ensures_ite (fun howner => Store.adds_self fun t ht => ?_) fun howner => ?_
    · exact ((hgrants t).mp ht).1.1 howner
    refine ensures_ite (fun hstatus => Store.adds_self fun t ht => ?_) fun hstatus => ?_
    · exact ((hgrants t).mp ht).1.2.1 hstatus
    refine ensures_ite (fun hrole => Store.adds_self fun t ht => ?_) fun hrole => ?_
    · exact ((hgrants t).mp ht).1.2.2 hrole
    refine ensures_attempt_of_eq (fun _ => rfl) (ensures_attempt_of_eq (fun _ => rfl) ?_)
    refine Store.adds_put hscope fun t => ?_
    rw [hgrants]
    exact and_iff_right ⟨howner, hstatus, hrole⟩

theorem addsGrants_reinstateMember {ws user : GoString} :
    AddsGrants env p s (.reinstateMember ws user) (reinstateMember p ws user) := by
  refine ensures_rights_then (fun hdenied e => Store.adds_self fun t ht => ?_)
    fun w hw hallowed => ?_
  · obtain ⟨w, -, hw, hallowed, -⟩ := ht
    exact hdenied w hw hallowed
  refine ensures_attempt_then (fun _ e he => Store.adds_self fun t ht => ?_) fun _ m hm => ?_
  · obtain ⟨-, m, -, -, hrow, -⟩ := ht
    cases he.symm.trans (found_eq_ok.mpr hrow)
  have hrow := found_eq_ok.mp hm
  obtain ⟨hscope, -, -⟩ := Store.row_keyed hrow
  have hgrants : ∀ t, Request.Grants env p s t (.reinstateMember ws user) ↔
      m.status = .suspended ∧ t = roleTuple ws user m.role := by
    intro t
    constructor
    · rintro ⟨-, m', -, -, hrow', hstatus, rfl⟩
      obtain rfl := Option.some.inj (hrow.symm.trans hrow')
      exact ⟨hstatus, rfl⟩
    · rintro ⟨hstatus, rfl⟩
      exact ⟨w, m, hw, hallowed, hrow, hstatus, rfl⟩
  refine ensures_ite (fun hstatus => Store.adds_self fun t ht => ?_) fun hstatus => ?_
  · exact hstatus ((hgrants t).mp ht).1
  refine ensures_attempt_of_eq (fun _ => rfl) (ensures_attempt_of_eq (fun _ => rfl) ?_)
  refine Store.adds_put hscope fun t => ?_
  rw [hgrants]
  exact and_iff_right (not_not.mp hstatus)

theorem addsGrants_ensurePersonalWorkspace :
    AddsGrants env p s .ensurePersonalWorkspace (ensurePersonalWorkspace p) := by
  refine ensures_observe_then fun _ => ?_
  cases hpersonal : (exec env (.personalWorkspace p.projectID p.tenantID p.userID) s).1 with
  | ok w =>
    refine Store.adds_self fun t ht => ?_
    obtain ⟨⟨e, he⟩, -⟩ := ht
    cases hpersonal.symm.trans he
  | error e =>
    have hnotFound : isNotFound e := isNotFound_of_found hpersonal
    refine ensures_ite (fun _ => ?_) fun hne => absurd hnotFound hne
    refine ensures_attempt_of_eq (fun _ => rfl) (ensures_attempt_of_eq (fun _ => rfl) ?_)
    rw [ensures_tryCatch, ensures_sequence]
    let w : Workspace := ⟨env.id, p.projectID, p.tenantID, "personal", "Personal", .personal,
      p.userID, env.now, env.now⟩
    have hgrants : ∀ t, Request.Grants env p s t .ensurePersonalWorkspace ↔
        s.workspaces.get₂ (scope w.projectID w.tenantID) w.id = none ∧
          t = roleTuple w.id w.ownerUserID .owner := fun t => and_iff_right ⟨e, hpersonal⟩
    obtain ⟨e', heq⟩ | ⟨hnone, heq⟩ := s.createWorkspace_cases w
    · have hsome : s.workspaces.get₂ (scope w.projectID w.tenantID) w.id ≠ none := fun hnone => by
        cases heq.symm.trans (Store.createWorkspace_of_error hpersonal hnone)
      have hself : s.Adds s (scope p.projectID p.tenantID)
          (Request.Grants env p s · .ensurePersonalWorkspace) :=
        Store.adds_self fun t ht => hsome ((hgrants t).mp ht).1
      refine ensures_attempt_of_error (fun _ => heq) ?_
      exact ensures_ite (fun _ _ => hself) fun _ => hself
    · refine ensures_attempt_of_eq (fun _ => heq) fun _ => ?_
      let m : Membership :=
        ⟨p.projectID, p.tenantID, w.id, p.userID, .owner, .active, env.now, env.now⟩
      have hadds : (s.putWorkspace w).Adds
          ((s.putWorkspace w).putMembershipAndTuples m [roleTuple w.id w.ownerUserID .owner] [])
          (scope p.projectID p.tenantID) (Request.Grants env p s · .ensurePersonalWorkspace) :=
        Store.adds_put rfl fun t => (hgrants t).trans (and_iff_right hnone)
      exact ⟨hadds.granted, hadds.old_or_granted⟩

theorem addsGrants_listWorkspaces : AddsGrants env p s .listWorkspaces (listWorkspaces p) := by
  rw [AddsGrants, listWorkspaces, ensures_sequence]
  refine addsGrants_ensurePersonalWorkspace.mono fun r s' hs' => ?_
  cases r with
  | ok w => exact fun _ => ⟨hs'.granted, hs'.old_or_granted⟩
  | error e => exact ⟨hs'.granted, hs'.old_or_granted⟩

theorem AddsGrants.served {α : Type} {x : ServiceM α} {request : Request}
    (h : AddsGrants env p s request x) : AddsGrants env p s request (served x) :=
  ensures_served h

theorem adds_of_unguarded {request : Request} (h : request.unguarded) :
    s.Adds ((request.serve hashToken p).run.outcome exec env s).2 (scope p.projectID p.tenantID)
      (request.Grants env p s ·) := by
  have hadds : AddsGrants env p s request (request.serve hashToken p) := by
    cases request with
    | ensurePersonalWorkspace => exact AddsGrants.served addsGrants_ensurePersonalWorkspace
    | listWorkspaces => exact AddsGrants.served addsGrants_listWorkspaces
    | updateMemberRole => exact AddsGrants.served addsGrants_updateMemberRole
    | reinstateMember => exact AddsGrants.served addsGrants_reinstateMember
    | _ => cases h
  exact hadds.outcome

end Requests

/-- A request on a project that is reported as suspended adds no tuple, in any tenant, if and only
if what it grants without a look at the project is there already. -/
theorem suspended_project_gains_nothing_iff (hashToken : GoString → GoString) (p : Principal)
    (request : Request) (s : Store) (env : Env) (e : ServiceError) (henv : env.active = .error e) :
    (∀ tenantID t,
        ((request.serve hashToken p).run.outcome exec env s).2.Stored p.projectID tenantID t →
          s.Stored p.projectID tenantID t) ↔
      ∀ t, request.Grants env p s t → s.Stored p.projectID p.tenantID t := by
  have hadds : s.Adds ((request.serve hashToken p).run.outcome exec env s).2
      (scope p.projectID p.tenantID) (request.Grants env p s ·) := by
    cases hunguarded : request.unguarded with
    | true => exact adds_of_unguarded hunguarded
    | false =>
      refine (within_of_guarded henv hunguarded).adds fun t ht => ?_
      cases request <;> first | exact ht | cases hunguarded
  constructor
  · intro h t ht
    exact h p.tenantID t (hadds.granted t ht)
  · intro h tenantID t ht
    rcases hadds.old_or_granted _ _ t ht with hold | ⟨hscope, hgrants⟩
    · exact hold
    · rw [Store.Stored, hscope]
      exact h t hgrants

namespace Suspended

/-- Alice owns a workspace in which Bob is a member. -/
def initial : Store :=
  let s := Store.empty.putWorkspace ⟨"w", "p", "t", "acme", "Acme", .team, "alice", 0, 0⟩
  let s := s.putMembershipAndTuples ⟨"p", "t", "w", "alice", .owner, .active, 0, 0⟩
    [roleTuple "w" "alice" .owner] []
  s.putMembershipAndTuples ⟨"p", "t", "w", "bob", .member, .active, 0, 0⟩
    [roleTuple "w" "bob" .member] []

def env : Env :=
  { active := .error ⟨.failedPrecondition, "project %q is suspended", ["p"]⟩ }

def serve (request : Request) (s : Store) : Except ServiceError Unit × Store :=
  (request.serve (fun token => token) ⟨"alice", "p", "t"⟩).run.outcome exec env s

def suspended : Store := (serve (.suspendMember "w" "bob") initial).2

end Suspended

open Suspended in
theorem suspended_project_gains_tuples :
    (initial.allows .ascending 0 ⟨"alice", "p", "t"⟩ ⟨"workspace", "w", "admin"⟩ ∧
      (serve (.updateMemberRole "w" "bob" "admin") initial).1 = .ok () ∧
      ¬ initial.Holds "p" "t" (roleTuple "w" "bob" .admin) ∧
      (serve (.updateMemberRole "w" "bob" "admin") initial).2.Holds "p" "t"
        (roleTuple "w" "bob" .admin)) ∧
    (¬ suspended.Holds "p" "t" (roleTuple "w" "bob" .member) ∧
      (serve (.reinstateMember "w" "bob") suspended).2.Holds "p" "t"
        (roleTuple "w" "bob" .member)) ∧
    ¬ initial.Holds "p" "t" (roleTuple "id" "alice" .owner) ∧
      (serve .ensurePersonalWorkspace initial).2.Holds "p" "t" (roleTuple "id" "alice" .owner) := by
  decide +kernel

open Suspended in
theorem suspended_project_rejects_member :
    (serve (.addMember "w" "carol" "guest") initial).1 ≠ .ok () ∧
      ∀ tenantID t, (serve (.addMember "w" "carol" "guest") initial).2.Stored "p" tenantID t →
        initial.Stored "p" tenantID t :=
  ⟨by decide +kernel, (suspended_project_gains_nothing_iff _ ⟨"alice", "p", "t"⟩
    (.addMember "w" "carol" "guest") initial env _ rfl).mpr nofun⟩

end WorkspaceAuthz.Service
