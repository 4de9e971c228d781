import WorkspaceAuthz.Service.Isolation
import WorkspaceAuthz.Service.Projects
import WorkspaceAuthz.Service.WorkspaceAccess

/-! # Privileges

Who changes the members or the tuples of a workspace has passed a check for it in the
state before, unless they come in by an invitation; and who changes its owner tuples
has passed the check for owners. The verdicts are the engine's own here, on the store
as a request finds it. Tuples may be written raw and users deprovisioned in between: all
that is needed of the past is that no suspended row and no invitation is an owner's.
-/
namespace WorkspaceAuthz.Service
open Go Authz Interleaving

/-! ## Requests with the checks of the engine -/

/-- `mapBudgetErr`: what the service makes of an error of the engine. -/
def mapBudgetErr : EngineError → ServiceError
  | .evalBudgetExceeded => ⟨.resourceExhausted,
      str "evaluation exceeded the per-request read budget; " ++
        str "the model graph for this query is too deep/branching/cyclic", []⟩
  | .reader message => { kind := .other, format := message }
  | .expandTooLarge | .tooManyObjects => { kind := .other }

/-- How checks are made: with the model that the resolver gives for a project, with a budget of
reads, and with every read at its own time and in its own order. -/
structure Checks where
  modelFor : GoString → Except ServiceError Model := fun _ => .ok defaultModel
  maxReads : ℤ := defaultMaxCheckReads
  order : SubjectSet → MapOrder := fun _ => .ascending
  now : SubjectSet → Time := fun _ => 0

/-- `allowed`, on a store that stays as it is. -/
def Store.check (s : Store) (k : Checks) (p : Principal) (n : SubjectSet) :
    Except ServiceError Bool := do
  let m ← k.modelFor p.projectID
  let e : Engine := { reader := s.reader k.order k.now, maxReads := k.maxReads }
  (e.checkWithModel m p.projectID p.tenantID n p.userID ∅ 0).result.mapError mapBudgetErr

/-- A call of a request that began at some time, where checks are made on the store. -/
def checking (k : Checks) (began : Time) (env : { env : Env // began ≤ env.now }) (c : Call)
    (s : Store) : Reply c × Store :=
  exec { env.1 with allowed := match c with
    | .check p n => s.check k p n
    | _ => env.1.allowed } c s

/-- The stores that requests lead to, one after the other and each with checks of its own, and
changes of projects among them. -/
inductive Store.Reachable (hashToken : GoString → GoString)
    (validateModel : Model → Except ServiceError Unit) : Store → Prop
  | empty : Reachable hashToken validateModel .empty
  | request {s s' : Store} {r : Except ServiceError Unit} (p : Principal) (request : Request)
      (k : Checks) (began : Time) : Reachable hashToken validateModel s →
      Runs (checking k began) (request.serve hashToken p).run s r s' →
      Reachable hashToken validateModel s'
  | createProject {s s' : Store} {r : Except ServiceError Project} (id name : GoString)
      (model : Model) (dataRegion : GoString) (maxCheckReads : ℤ) (k : Checks) (began : Time) :
      Reachable hashToken validateModel s →
      Runs (checking k began)
        (Service.createProject validateModel id name model dataRegion maxCheckReads).run s r s' →
      Reachable hashToken validateModel s'
  | updateProject {s s' : Store} {r : Except ServiceError Project} (id : GoString)
      (patch : ProjectPatch) (k : Checks) (began : Time) : Reachable hashToken validateModel s →
      Runs (checking k began) (Service.updateProject validateModel id patch).run s r s' →
      Reachable hashToken validateModel s'

/-! ## Members and tuples of a workspace -/

namespace Store

variable {s s' s'' : Store} {projectID tenantID ws user : GoString} {t : Tuple}

/-- The rows and the tuples of a workspace are the same in two stores. -/
structure SameWorkspace (s s' : Store) (projectID tenantID ws : GoString) : Prop where
  rows : ∀ user, s'.row projectID tenantID ws user = s.row projectID tenantID ws user
  tuples : ∀ t, t.ns = str "workspace" → t.objectID = ws →
    (s'.Stored projectID tenantID t ↔ s.Stored projectID tenantID t)

/-- So are those that make owners. -/
def SameOwners (s s' : Store) (projectID tenantID ws : GoString) : Prop :=
  ∀ t, t.ns = str "workspace" → t.objectID = ws → t.relation = Role.owner.name →
    (s'.Stored projectID tenantID t ↔ s.Stored projectID tenantID t)

/-- At most one workspace is not the same. -/
def ChangesOnly (s s' : Store) (sk ws : GoString) : Prop :=
  ∀ projectID tenantID ws', (scope projectID tenantID = sk → ws' ≠ ws) →
    s.SameWorkspace s' projectID tenantID ws'

theorem sameWorkspace_of_eq (hrows : s'.memberships = s.memberships)
    (htuples : s'.tuples = s.tuples)
    (projectID tenantID ws : GoString) : s.SameWorkspace s' projectID tenantID ws where
  rows user := by rw [row, row, hrows]
  tuples t _ _ := by rw [Stored, Stored, htuples]

theorem SameWorkspace.trans (h : s.SameWorkspace s' projectID tenantID ws)
    (h' : s'.SameWorkspace s'' projectID tenantID ws) :
    s.SameWorkspace s'' projectID tenantID ws where
  rows user := (h'.rows user).trans (h.rows user)
  tuples t hns hobject := (h'.tuples t hns hobject).trans (h.tuples t hns hobject)

theorem ChangesOnly.trans {sk : GoString} (h : s.ChangesOnly s' sk ws)
    (h' : s'.ChangesOnly s'' sk ws) : s.ChangesOnly s'' sk ws := fun projectID tenantID ws' hne =>
  (h projectID tenantID ws' hne).trans (h' projectID tenantID ws' hne)

theorem stored_writeTuples_of_ne {projectID' tenantID' : GoString} {inserts deletes : List Tuple}
    (h : scope projectID tenantID = scope projectID' tenantID' →
      ∀ t' ∈ inserts ++ deletes, tupleKey t' ≠ tupleKey t) :
    (s.writeTuples projectID' tenantID' inserts deletes).Stored projectID tenantID t ↔
      s.Stored projectID tenantID t := by
  rw [Stored, get_tuples_writeTuples_of_ne h]
  rfl

/-- The role tuples of a member are tuples of the workspace, in their roles. -/
theorem tupleKey_ne_of_roles {ins del : List Role}
    (h : t.objectID = ws → ∀ r ∈ ins ++ del, t.relation ≠ r.name) :
    ∀ t' ∈ ins.map (roleTuple ws user) ++ del.map (roleTuple ws user), tupleKey t' ≠
      tupleKey t := by
  intro t' ht' hkey
  rw [← List.map_append] at ht'
  obtain ⟨r, hr, rfl⟩ := List.mem_map.mp ht'
  obtain ⟨-, hobject, hrelation, -⟩ := tupleKey_inj hkey
  exact h hobject.symm r hr hrelation.symm

section Writes

variable {m : Membership} (ins del : List Role)

theorem changesOnly_writeRoles (s : Store) (projectID tenantID ws user : GoString) :
    s.ChangesOnly (s.writeTuples projectID tenantID (ins.map (roleTuple ws user))
      (del.map (roleTuple ws user))) (scope projectID tenantID) ws := by
  intro projectID' tenantID' ws' hne
  refine ⟨fun _ => rfl, fun t _ hobject => stored_writeTuples_of_ne fun hscope => ?_⟩
  exact tupleKey_ne_of_roles fun hws => absurd (hobject.symm.trans hws) (hne hscope)

theorem sameOwners_writeRoles (s : Store) (projectID tenantID ws user : GoString)
    (hroles : .owner ∉ ins ++ del) (projectID' tenantID' ws' : GoString) :
    s.SameOwners (s.writeTuples projectID tenantID (ins.map (roleTuple ws user))
      (del.map (roleTuple ws user))) projectID' tenantID' ws' := by
  intro t _ _ hrelation
  refine stored_writeTuples_of_ne fun _ => tupleKey_ne_of_roles fun _ r hr hname => ?_
  exact hroles (Role.name_injective (hrelation.symm.trans hname) ▸ hr)

theorem changesOnly_put (s : Store) (m : Membership) :
    s.ChangesOnly (s.putMembershipAndTuples m (ins.map (roleTuple m.workspaceID m.userID))
      (del.map (roleTuple m.workspaceID m.userID))) (scope m.projectID m.tenantID)
      m.workspaceID := by
  have hrow : s.ChangesOnly (s.putMembership m) (scope m.projectID m.tenantID) m.workspaceID := by
    intro projectID tenantID ws hne
    refine ⟨fun user => ?_, fun _ _ _ => Iff.rfl⟩
    have hget : (s.putMembership m).row projectID tenantID ws user = _ :=
      GoMap.get₃_put₃ _ _ _ _ _ _ _ _
    rw [hget, if_neg fun hkey => hne hkey.1 hkey.2.1]
    rfl
  exact hrow.trans (changesOnly_writeRoles ins del _ _ _ _ _)

theorem changesOnly_deleteMembershipAndTuples (hrow : s.row projectID tenantID ws user = some m) :
    s.ChangesOnly (s.deleteMembershipAndTuples projectID tenantID ws user
      (del.map (roleTuple ws user))).2 (scope projectID tenantID) ws := by
  intro projectID' tenantID' ws' hne
  refine ⟨fun user' => ?_, fun t hns hobject => ?_⟩
  · rw [row_deleteMembershipAndTuples hrow, if_neg fun hkey => hne hkey.1 hkey.2.1]
  · obtain ⟨s₁, htuples, -, heq⟩ := deleteMembershipAndTuples_of_some hrow
    have hwrite := (changesOnly_writeRoles [] del s₁ projectID tenantID ws user projectID' tenantID'
      ws' hne).tuples t hns hobject
    rw [heq]
    exact hwrite.trans (by rw [Stored, Stored, htuples])

theorem sameOwners_deleteMembershipAndTuples (hrow : s.row projectID tenantID ws user = some m)
    (hroles : .owner ∉ del) (projectID' tenantID' ws' : GoString) :
    s.SameOwners (s.deleteMembershipAndTuples projectID tenantID ws user
      (del.map (roleTuple ws user))).2 projectID' tenantID' ws' := by
  intro t hns hobject hrelation
  obtain ⟨s₁, htuples, -, heq⟩ := deleteMembershipAndTuples_of_some hrow
  have hwrite := sameOwners_writeRoles [] del s₁ projectID tenantID ws user hroles projectID'
    tenantID' ws' t hns hobject hrelation
  rw [heq]
  exact hwrite.trans (by rw [Stored, Stored, htuples])

end Writes

theorem changesOnly_deleteWorkspace (s : Store) (projectID tenantID id : GoString) :
    s.ChangesOnly (s.deleteWorkspace projectID tenantID id).2 (scope projectID tenantID) id := by
  cases hw : s.workspaces.get₂ (scope projectID tenantID) id with
  | none =>
    intro projectID' tenantID' ws' _
    rw [deleteWorkspace, if_pos (by simp [hw])]
    exact sameWorkspace_of_eq rfl rfl _ _ _
  | some w =>
    obtain ⟨s₁, heq, -, hrows, -, -, -, htuples⟩ := deleteWorkspace_of_some hw
    rw [heq]
    intro projectID' tenantID' ws' hne
    refine ⟨fun user => ?_, fun t hns hobject => ?_⟩
    · rw [row, hrows, GoMap.get₃_erase₂, if_neg fun hkey => hne hkey.1 hkey.2]
      rfl
    · rw [Stored, htuples, get_tuples_keepTuples]
      split_ifs with hscope
      · rw [Option.filter_eq_some_iff]
        exact and_iff_left (by simp [hobject, hne hscope])
      · rfl

/-! ## Owners to come -/

/-- No suspended row and no invitation is an owner's. -/
structure NoLatentOwners (s : Store) : Prop where
  rows : ∀ sk ws user m, s.memberships.get₃ sk ws user = some m → m.role = .owner →
    m.status ≠ .suspended
  invitations : ∀ sk id inv, s.invitations.get₂ sk id = some inv → inv.role ≠ .owner

namespace NoLatentOwners

theorem empty : Store.empty.NoLatentOwners where
  rows _ _ _ _ h := by simp [Store.empty] at h
  invitations _ _ _ h := by simp [Store.empty] at h

variable (h : s.NoLatentOwners)
include h

theorem congr (hrows : s'.memberships = s.memberships)
    (hinvitations : s'.invitations = s.invitations) :
    s'.NoLatentOwners where
  rows := hrows ▸ h.rows
  invitations := hinvitations ▸ h.invitations

theorem put {m : Membership} (hm : m.role = .owner → m.status ≠ .suspended)
    (inserts deletes : List Tuple) :
    (s.putMembershipAndTuples m inserts deletes).NoLatentOwners where
  rows := GoMap.forall_put₃ h.rows hm
  invitations := h.invitations

theorem putInvitation {inv : Invitation} (hinv : inv.role ≠ .owner) :
    (s.putInvitation inv).NoLatentOwners where
  rows := h.rows
  invitations := GoMap.forall_put₂ h.invitations hinv

theorem createInvitation {inv : Invitation} (hinv : inv.role ≠ .owner) :
    (s.createInvitation inv).2.NoLatentOwners := by
  rw [Store.createInvitation]
  split_ifs
  · exact h
  · exact h.putInvitation hinv

theorem updateInvitation {inv : Invitation} (hinv : inv.role ≠ .owner) :
    (s.updateInvitation inv).2.NoLatentOwners := by
  rw [Store.updateInvitation]
  split_ifs
  · exact h
  · exact h.putInvitation hinv

theorem deleteMembershipAndTuples (projectID tenantID ws user : GoString) (deletes : List Tuple) :
    (s.deleteMembershipAndTuples projectID tenantID ws user deletes).2.NoLatentOwners := by
  cases hrow : s.row projectID tenantID ws user with
  | none =>
    rw [deleteMembershipAndTuples_of_none hrow]
    exact h
  | some m =>
    simp only [Store.deleteMembershipAndTuples, deleteMembership, hrow, Option.isNone_some,
      Bool.false_eq_true, if_false]
    exact ⟨GoMap.forall_erase₃ h.rows, h.invitations⟩

theorem deleteWorkspace (projectID tenantID id : GoString) :
    (s.deleteWorkspace projectID tenantID id).2.NoLatentOwners := by
  cases hw : s.workspaces.get₂ (scope projectID tenantID) id with
  | none =>
    rw [Store.deleteWorkspace, if_pos (by simp [hw])]
    exact h
  | some w =>
    obtain ⟨s₁, heq, -, hrows, hinvitations, -⟩ := deleteWorkspace_of_some hw
    rw [heq]
    refine ⟨fun sk ws user m hm => ?_, ?_⟩
    · rw [hrows, GoMap.get₃_erase₂] at hm
      split_ifs at hm
      exact h.rows sk ws user m hm
    · rw [hinvitations]
      exact GoMap.forall_filter h.invitations

end NoLatentOwners

end Store

/-- The calls that leave rows and invitations as they are. -/
def Call.LeavesRows : Call → Prop
  | .deleteWorkspace .. | .putMembership _ | .deleteMembership .. | .putMembershipAndTuples ..
  | .deleteMembershipAndTuples .. | .createInvitation _ | .updateInvitation _ => False
  | _ => True

theorem exec_of_leavesRows {c : Call} (h : c.LeavesRows) (env : Env) (s : Store) :
    (exec env c s).2.memberships = s.memberships ∧ (exec env c s).2.invitations =
      s.invitations := by
  cases c with
  | createProject p =>
    rw [exec, Store.createProject]
    split_ifs <;> exact ⟨rfl, rfl⟩
  | updateProject p =>
    rw [exec, Store.updateProject]
    split_ifs <;> exact ⟨rfl, rfl⟩
  | createWorkspace w =>
    rw [exec, Store.createWorkspace]
    split_ifs <;> exact ⟨rfl, rfl⟩
  | updateWorkspace w =>
    rw [exec, Store.updateWorkspace]
    split_ifs <;> exact ⟨rfl, rfl⟩
  | createGroup g =>
    rw [exec, Store.createGroup]
    split_ifs <;> exact ⟨rfl, rfl⟩
  | deleteGroup projectID tenantID id =>
    rw [exec, Store.deleteGroup]
    split_ifs <;> exact ⟨rfl, rfl⟩
  | setSeatLimit projectID tenantID sku limit => cases limit <;> exact ⟨rfl, rfl⟩
  | assignSeatAndTuple a tuple =>
    obtain ⟨-, heq⟩ | ⟨-, heq⟩ | ⟨-, -, heq⟩ := s.assignSeatAndTuple_cases a tuple <;>
      rw [exec, heq] <;> exact ⟨rfl, rfl⟩
  | _ => first | exact ⟨rfl, rfl⟩ | exact h.elim

/-! ## What a request may change -/

/-- Somebody without a row joins a workspace in the role that an invitation offers, and nothing
else changes in it. The invitation is pending, and had not expired when the request began. -/
structure Store.Joins (s s' : Store) (p : Principal) (began : Time) (inv : Invitation) : Prop where
  invited : ∃ id, s.getInvitation p.projectID p.tenantID id = .ok inv
  pending : inv.status = .pending
  unexpired : ¬ began.after inv.expiresAt
  grantable : inv.role ≠ .owner
  stranger : s.row p.projectID p.tenantID inv.workspaceID p.userID = none
  row : ∃ m, s'.row p.projectID p.tenantID inv.workspaceID p.userID = some m ∧ m.role = inv.role ∧
    m.status = .active
  rows : ∀ user ≠ p.userID, s'.row p.projectID p.tenantID inv.workspaceID user =
    s.row p.projectID p.tenantID inv.workspaceID user
  tuple : s'.Stored p.projectID p.tenantID (roleTuple inv.workspaceID p.userID inv.role)
  tuples : ∀ t, tupleKey t ≠ tupleKey (roleTuple inv.workspaceID p.userID inv.role) →
    (s'.Stored p.projectID p.tenantID t ↔ s.Stored p.projectID p.tenantID t)

/-- What a request makes of a store, with the check that it has passed or the reason why it needs
none; only a request that accepts an invitation may join. -/
inductive Store.Changes (accepts : Prop) (k : Checks) (began : Time) (p : Principal)
    (s s' : Store) : Prop
  | nothing (h : ∀ projectID tenantID ws, s.SameWorkspace s' projectID tenantID ws)
  | founds (ws : GoString) (hnew : s.workspaces.get₂ (scope p.projectID p.tenantID) ws = none)
      (honly : s.ChangesOnly s' (scope p.projectID p.tenantID) ws)
  | manages (ws : GoString) (hcheck : s.check k p ⟨"workspace", ws, Role.admin.name⟩ = .ok true)
      (honly : s.ChangesOnly s' (scope p.projectID p.tenantID) ws)
      (howners : ∀ projectID tenantID ws', s.SameOwners s' projectID tenantID ws')
  | owns (ws : GoString) (hcheck : s.check k p ⟨"workspace", ws, Role.owner.name⟩ = .ok true)
      (honly : s.ChangesOnly s' (scope p.projectID p.tenantID) ws)
  | joins (haccepts : accepts) (inv : Invitation) (h : s.Joins s' p began inv)
      (honly : s.ChangesOnly s' (scope p.projectID p.tenantID) inv.workspaceID)

theorem Store.Joins.congr {s s' s'' : Store} {p : Principal} {began : Time} {inv : Invitation}
    (h : s.Joins s' p began inv) (hrows : s''.memberships = s'.memberships)
    (htuples : s''.tuples = s'.tuples) : s.Joins s'' p began inv := by
  have hrow (user : GoString) : s''.row p.projectID p.tenantID inv.workspaceID user =
      s'.row p.projectID p.tenantID inv.workspaceID user := by rw [Store.row, Store.row, hrows]
  have htuple (t : Tuple) : s''.Stored p.projectID p.tenantID t ↔
      s'.Stored p.projectID p.tenantID t := by rw [Store.Stored, Store.Stored, htuples]
  exact { h with
    row := by
      rw [hrow]
      exact h.row
    rows := fun user hne => (hrow user).trans (h.rows user hne)
    tuple := (htuple _).mpr h.tuple
    tuples := fun t hne => (htuple t).trans (h.tuples t hne) }

section Requests

variable {accepts : Prop} {k : Checks} {began : Time} {p : Principal} {s : Store}
  {ws user : GoString} {α : Type}
  {hashToken : GoString → GoString}

/-- Whatever a request returns, it has changed what it may. -/
abbrev Lawful (accepts : Prop) (k : Checks) (began : Time) (p : Principal) (x : ServiceM α)
    (s : Store) : Prop :=
  x.run.Ensures (checking k began) (fun _ s' => s'.NoLatentOwners ∧
    s.Changes accepts k began p s') s

theorem Store.Changes.of_eq {s' : Store} (hrows : s'.memberships = s.memberships)
    (htuples : s'.tuples = s.tuples) : s.Changes accepts k began p s' :=
  .nothing (sameWorkspace_of_eq hrows htuples)

theorem Lawful.served {x : ServiceM α} (h : Lawful accepts k began p x s) :
    Lawful accepts k began p (served x) s :=
  ensures_served h

theorem ensures_check_then {rel : Role} {f : Workspace → ServiceM α}
    {Q : Except ServiceError α → Store → Prop} (herror : ∀ e, Q (.error e) s)
    (hok : ∀ w, s.workspaces.get₂ (scope p.projectID p.tenantID) ws = some w →
      s.check k p ⟨"workspace", ws, rel.name⟩ = .ok true →
      (f w).run.Ensures (checking k began) Q s) :
    (requireWorkspace p ws rel >>= f).run.Ensures (checking k began) Q s := by
  exact ensures_requireWorkspace (fun _ => rfl) (fun _ => rfl) (fun e _ => herror e)
    (fun _ _ => herror) fun _ w hw hcheck => hok w (found_eq_ok.mp hw) hcheck

theorem ensures_checked_member_then {f : Membership → ServiceM α}
    {Q : Except ServiceError α → Store → Prop} (herror : ∀ e, Q (.error e) s)
    (hok : ∀ m, s.check k p ⟨"workspace", m.workspaceID, Role.admin.name⟩ = .ok true →
      s.row p.projectID p.tenantID m.workspaceID m.userID = some m → m.workspaceID = ws →
      m.userID = user → (f m).run.Ensures (checking k began) Q s) :
    (do
      let _ ← requireWorkspace p ws .admin
      let m ← call (.getMembership p.projectID p.tenantID ws user)
      f m : ServiceM α).run.Ensures (checking k began) Q s := by
  refine ensures_check_then herror fun w _ hcheck => ?_
  refine ensures_attempt_then (fun _ e _ => herror e) fun _ m hm => ?_
  have hrow := found_eq_ok.mp hm
  obtain ⟨-, hws, huser⟩ := Store.row_keyed hrow
  refine hok m (hws ▸ hcheck) ?_ hws huser
  rw [hws, huser]
  exact hrow

theorem ensures_putMember_checking {role : Role} {Q : Except ServiceError Membership → Store → Prop}
    (herror : ∀ e, Q (.error e) s)
    (hok : ∀ now, Q (.ok ⟨p.projectID, p.tenantID, ws, user, role, .active, now, now⟩)
      (s.putMembershipAndTuples ⟨p.projectID, p.tenantID, ws, user, role, .active, now, now⟩
        [roleTuple ws user role] [])) :
    (putMember p ws user role).run.Ensures (checking k began) Q s := by
  refine ensures_attempt_then (fun _ e _ => herror e) fun _ _ _ => ?_
  refine ensures_attempt_then (fun _ e _ => herror e) fun _ now _ => ?_
  exact ensures_attempt_of_eq (fun _ => rfl) (hok now)

section Members

variable (h : s.NoLatentOwners)
include h

/-- A row of a member is written with the tuples of roles below the owner's. -/
theorem lawful_put {m : Membership} (ins del : List Role)
    (hscope : scope m.projectID m.tenantID = scope p.projectID p.tenantID)
    (hcheck : s.check k p ⟨"workspace", m.workspaceID, Role.admin.name⟩ = .ok true)
    (hm : m.role = .owner → m.status ≠ .suspended) (hroles : .owner ∉ ins ++ del) :
    (s.putMembershipAndTuples m (ins.map (roleTuple m.workspaceID m.userID))
        (del.map (roleTuple m.workspaceID m.userID))).NoLatentOwners ∧
      s.Changes accepts k began p
        (s.putMembershipAndTuples m (ins.map (roleTuple m.workspaceID m.userID))
        (del.map (roleTuple m.workspaceID m.userID))) := by
  refine ⟨h.put hm _ _, .manages m.workspaceID hcheck ?_ ?_⟩
  · rw [← hscope]
    exact Store.changesOnly_put ins del s m
  · exact Store.sameOwners_writeRoles ins del (s.putMembership m) _ _ _ _ hroles

theorem lawful_addMember {role : GoString} :
    Lawful accepts k began p (addMember p ws user role) s := by
  have hidle : s.NoLatentOwners ∧ s.Changes accepts k began p s := ⟨h, .of_eq rfl rfl⟩
  unfold addMember
  cases hgrantable : grantable? role with
  | none => exact hidle
  | some role =>
    have hrole := ne_owner_of_grantable? hgrantable
    refine ensures_ite (fun _ => hidle) fun _ => ?_
    refine ensures_check_then (fun _ => hidle) fun w hw hcheck => ?_
    refine ensures_ite (fun _ => hidle) fun _ => ?_
    refine ensures_getMembership (fun _ => rfl) (fun _ => ?_) fun m _ => hidle
    refine ensures_putMember_checking (fun _ => hidle) fun now => ?_
    exact lawful_put h (m := ⟨p.projectID, p.tenantID, ws, user, role, .active, now, now⟩) [role] []
      rfl hcheck (fun howner => absurd howner hrole) (by simpa using hrole.symm)

theorem lawful_updateMemberRole {role : GoString} :
    Lawful accepts k began p (updateMemberRole p ws user role) s := by
  have hidle : s.NoLatentOwners ∧ s.Changes accepts k began p s := ⟨h, .of_eq rfl rfl⟩
  unfold updateMemberRole
  cases hgrantable : grantable? role with
  | none => exact hidle
  | some role =>
    have hrole := ne_owner_of_grantable? hgrantable
    refine ensures_checked_member_then (fun _ => hidle) fun m hcheck hrow hws huser => ?_
    subst hws huser
    refine ensures_ite (fun _ => hidle) fun howner => ?_
    refine ensures_ite (fun _ => hidle) fun _ => ?_
    refine ensures_ite (fun _ => hidle) fun _ => ?_
    refine ensures_attempt_then (fun _ _ _ => hidle) fun _ now _ => ?_
    refine ensures_attempt_of_eq (fun _ => rfl) ?_
    exact lawful_put h (m := { m with role, updatedAt := now }) [role] [m.role]
      (Store.row_keyed hrow).1 hcheck (fun hnew => absurd hnew hrole)
      (by simp [hrole.symm, Ne.symm howner])

theorem lawful_removeMember : Lawful accepts k began p (removeMember p ws user) s := by
  have hidle : s.NoLatentOwners ∧ s.Changes accepts k began p s := ⟨h, .of_eq rfl rfl⟩
  refine ensures_checked_member_then (fun _ => hidle) fun m hcheck hrow hws huser => ?_
  subst hws huser
  refine ensures_ite (fun _ => hidle) fun howner env => ?_
  refine ⟨h.deleteMembershipAndTuples _ _ _ _ _, .manages m.workspaceID hcheck ?_ ?_⟩
  · exact Store.changesOnly_deleteMembershipAndTuples [m.role] hrow
  · exact Store.sameOwners_deleteMembershipAndTuples [m.role] hrow (by simpa using Ne.symm howner)

theorem lawful_suspendMember : Lawful accepts k began p (suspendMember p ws user) s := by
  have hidle : s.NoLatentOwners ∧ s.Changes accepts k began p s := ⟨h, .of_eq rfl rfl⟩
  refine ensures_checked_member_then (fun _ => hidle) fun m hcheck hrow hws huser => ?_
  subst hws huser
  refine ensures_ite (fun _ => hidle) fun howner => ?_
  refine ensures_ite (fun _ => hidle) fun _ => ?_
  refine ensures_attempt_then (fun _ _ _ => hidle) fun _ now _ => ?_
  refine ensures_attempt_of_eq (fun _ => rfl) ?_
  exact lawful_put h (m := { m with status := .suspended, updatedAt := now }) [] [m.role]
    (Store.row_keyed hrow).1 hcheck (fun hrole => absurd hrole howner)
    (by simpa using Ne.symm howner)

/-- It is not an owner who is reinstated, since no owner is suspended. -/
theorem lawful_reinstateMember : Lawful accepts k began p (reinstateMember p ws user) s := by
  have hidle : s.NoLatentOwners ∧ s.Changes accepts k began p s := ⟨h, .of_eq rfl rfl⟩
  refine ensures_checked_member_then (fun _ => hidle) fun m hcheck hrow hws huser => ?_
  subst hws huser
  refine ensures_ite (fun _ => hidle) fun hstatus => ?_
  have howner : m.role ≠ .owner := fun howner =>
    h.rows _ _ _ m hrow howner (not_not.mp hstatus)
  refine ensures_attempt_then (fun _ _ _ => hidle) fun _ now _ => ?_
  refine ensures_attempt_of_eq (fun _ => rfl) ?_
  exact lawful_put h (m := { m with status := .active, updatedAt := now }) [m.role] []
    (Store.row_keyed hrow).1 hcheck (fun _ => by simp) (by simpa using Ne.symm howner)

/-! Invitations -/

theorem lawful_createInvitation {email role : GoString} :
    Lawful accepts k began p (createInvitation p hashToken ws email role) s := by
  have hidle : s.NoLatentOwners ∧ s.Changes accepts k began p s := ⟨h, .of_eq rfl rfl⟩
  refine ensures_attempt_then (fun _ _ _ => hidle) fun _ _ _ => ?_
  cases hgrantable : grantable? role with
  | none => exact hidle
  | some role =>
    refine ensures_ite (fun _ => hidle) fun _ => ?_
    refine ensures_check_then (fun _ => hidle) fun w hw _ => ?_
    refine ensures_ite (fun _ => hidle) fun _ => ?_
    refine ensures_attempt_then (fun _ _ _ => hidle) fun _ now _ => ?_
    refine ensures_attempt_then (fun _ _ _ => hidle) fun _ token _ => ?_
    refine ensures_attempt_then (fun _ _ _ => hidle) fun _ id _ => ?_
    let inv : Invitation := ⟨id, p.projectID, p.tenantID, ws, trimSpace email, role, .pending,
      p.userID, hashToken token, now, now + invitationTTL⟩
    have hcreated : (s.createInvitation inv).2.NoLatentOwners ∧
        s.Changes accepts k began p (s.createInvitation inv).2 := by
      refine ⟨h.createInvitation (ne_owner_of_grantable? hgrantable), ?_⟩
      rw [Store.createInvitation]
      split_ifs <;> exact .of_eq rfl rfl
    exact ensures_attempt_then (fun _ _ _ => hcreated) fun _ _ _ => hcreated

omit h in
theorem updateInvitation_frame (s : Store) (inv : Invitation) :
    (s.updateInvitation inv).2.memberships = s.memberships ∧
      (s.updateInvitation inv).2.tuples = s.tuples := by
  rw [Store.updateInvitation]
  split_ifs <;> exact ⟨rfl, rfl⟩

theorem lawful_updateInvitation {inv : Invitation} (hinv : inv.role ≠ .owner) :
    (s.updateInvitation inv).2.NoLatentOwners ∧
      s.Changes accepts k began p (s.updateInvitation inv).2 :=
  have ⟨hrows, htuples⟩ := updateInvitation_frame s inv
  ⟨h.updateInvitation hinv, .of_eq hrows htuples⟩

theorem lawful_revokeInvitation {id : GoString} :
    Lawful accepts k began p (revokeInvitation p id) s := by
  have hidle : s.NoLatentOwners ∧ s.Changes accepts k began p s := ⟨h, .of_eq rfl rfl⟩
  refine ensures_attempt_then (fun _ _ _ => hidle) fun _ inv hinv => ?_
  have hrole : inv.role ≠ .owner := h.invitations _ id inv (found_eq_ok.mp hinv)
  refine ensures_check_then (fun _ => hidle) fun w _ _ => ?_
  refine ensures_ite (fun _ _ => ?_) fun _ => hidle
  exact lawful_updateInvitation h hrole

omit h in
/-- Whoever comes in by an invitation gains its role. -/
theorem joins_put {inv : Invitation} {id : GoString} (now : Time)
    (hget : s.invitations.get₂ (scope p.projectID p.tenantID) id = some inv)
    (hpending : inv.status = .pending) (hunexpired : ¬ began.after inv.expiresAt)
    (hrole : inv.role ≠ .owner)
    (hnone : s.row p.projectID p.tenantID inv.workspaceID p.userID = none) :
    s.Joins (s.putMembershipAndTuples ⟨p.projectID, p.tenantID, inv.workspaceID, p.userID, inv.role,
      .active, now, now⟩ [roleTuple inv.workspaceID p.userID inv.role] []) p began inv where
  invited := ⟨id, found_eq_ok.mpr hget⟩
  pending := hpending
  unexpired := hunexpired
  grantable := hrole
  stranger := hnone
  row := by
    rw [Store.row_putMembershipAndTuples, if_pos ⟨rfl, rfl, rfl⟩]
    exact ⟨_, rfl, rfl, rfl⟩
  rows user hne := by
    rw [Store.row_putMembershipAndTuples, if_neg fun hkey => hne hkey.2.2]
  tuple := by
    rw [Store.Stored, Store.putMembershipAndTuples, Store.get_tuples_writeTuples, if_pos rfl]
    simp
  tuples t hne := by
    refine Store.stored_writeTuples_of_ne fun _ t' ht' => ?_
    rw [List.append_nil, List.mem_singleton] at ht'
    rw [ht']
    exact hne.symm

theorem lawful_acceptInvitation {token : GoString} (haccepts : accepts) :
    Lawful accepts k began p (acceptInvitation p hashToken token) s := by
  have hidle : s.NoLatentOwners ∧ s.Changes accepts k began p s := ⟨h, .of_eq rfl rfl⟩
  refine ensures_ite (fun _ => hidle) fun _ => ?_
  refine ensures_attempt_then (fun _ _ _ => hidle) fun env inv hinv => ?_
  obtain ⟨id, hget⟩ := GoMap.mem_values.mp (List.mem_of_find?_eq_some (found_eq_ok.mp hinv))
  have hrole : inv.role ≠ .owner := h.invitations _ id inv hget
  refine ensures_ite (fun _ => hidle) fun hpending => ?_
  refine ensures_attempt_then (fun _ _ _ => hidle) fun env now hnow => ?_
  have hbegan : began ≤ now := by
    cases hnow
    exact env.2
  refine ensures_ite (fun _ => ?_) fun hexpired => ?_
  · refine ensures_observe_then fun _ => ?_
    exact lawful_updateInvitation h hrole
  refine ensures_getMembership (fun _ => rfl) (fun hnone => ?_) fun m _ => ?_
  · refine ensures_ite (fun _ => hidle) fun _ => ?_
    rw [ensures_sequence]
    refine ensures_putMember_checking (fun _ => hidle) fun now => ?_
    have hunexpired : ¬ began.after inv.expiresAt := fun hafter =>
      hexpired (decide_eq_true ((of_decide_eq_true hafter).trans_le hbegan))
    have hjoins := joins_put now hget (not_not.mp hpending) hunexpired hrole hnone
    have honly := Store.changesOnly_put [inv.role] [] s
      ⟨p.projectID, p.tenantID, inv.workspaceID, p.userID, inv.role, .active, now, now⟩
    refine ensures_attempt_then (fun _ _ _ => ?_) fun _ _ _ => ?_
    all_goals
      obtain ⟨hrows, htuples⟩ := updateInvitation_frame _ { inv with status := .accepted }
      refine ⟨(h.put (fun howner => absurd howner hrole) _ _).updateInvitation hrole, ?_⟩
      exact .joins haccepts inv (hjoins.congr hrows htuples) (honly.trans fun _ _ _ _ =>
        Store.sameWorkspace_of_eq hrows htuples _ _ _)
  · have hmarked : (s.updateInvitation { inv with status := .accepted }).2.NoLatentOwners ∧
        s.Changes accepts k began p (s.updateInvitation { inv with status := .accepted }).2 :=
      lawful_updateInvitation h hrole
    exact ensures_attempt_then (fun _ _ _ => hmarked) fun _ _ _ => hmarked

/-! Workspaces -/

variable (accepts) in
/-- A workspace is founded under an id that no other has. -/
theorem lawful_createWorkspaceWithOwner {w : Workspace}
    (hscope : scope w.projectID w.tenantID = scope p.projectID p.tenantID) :
    Lawful accepts k began p (createWorkspaceWithOwner w) s := by
  obtain ⟨e, heq⟩ | ⟨hnone, heq⟩ := s.createWorkspace_cases w
  · exact ensures_attempt_of_error (fun _ => heq) ⟨h, .of_eq rfl rfl⟩
  · refine ensures_attempt_of_eq (fun _ => heq) fun _ => ?_
    have hput : (s.putWorkspace w).NoLatentOwners := h.congr rfl rfl
    refine ⟨hput.put (fun _ => by simp) _ _, .founds w.id (hscope ▸ hnone) ?_⟩
    rw [← hscope]
    have hfirst : s.ChangesOnly (s.putWorkspace w) (scope w.projectID w.tenantID) w.id :=
      fun _ _ _ _ => ⟨fun _ => rfl, fun _ _ _ => Iff.rfl⟩
    exact hfirst.trans (Store.changesOnly_put [.owner] [] (s.putWorkspace w) _)

theorem lawful_createWorkspace {displayName slug : GoString} :
    Lawful accepts k began p (createWorkspace p displayName slug) s := by
  have hidle : s.NoLatentOwners ∧ s.Changes accepts k began p s := ⟨h, .of_eq rfl rfl⟩
  refine ensures_attempt_then (fun _ _ _ => hidle) fun _ _ _ => ?_
  refine ensures_ite (fun _ => hidle) fun _ => ?_
  refine ensures_attempt_then (fun _ _ _ => hidle) fun _ now _ => ?_
  refine ensures_attempt_then (fun _ _ _ => hidle) fun _ id _ => ?_
  rw [ensures_sequence]
  refine (lawful_createWorkspaceWithOwner accepts h rfl).mono fun r s' hs' => ?_
  cases r <;> exact hs'

variable (accepts) in
theorem lawful_ensurePersonalWorkspace :
    Lawful accepts k began p (ensurePersonalWorkspace p) s := by
  have hidle : s.NoLatentOwners ∧ s.Changes accepts k began p s := ⟨h, .of_eq rfl rfl⟩
  refine ensures_observe_then fun env => ?_
  cases (checking k began env (.personalWorkspace p.projectID p.tenantID p.userID) s).1 with
  | ok w => exact hidle
  | error e =>
    refine ensures_ite (fun _ => ?_) fun _ => hidle
    refine ensures_attempt_then (fun _ _ _ => hidle) fun _ now _ => ?_
    refine ensures_attempt_then (fun _ _ _ => hidle) fun _ id _ => ?_
    rw [ensures_tryCatch, ensures_sequence]
    refine (lawful_createWorkspaceWithOwner accepts h rfl).mono fun r s' hs' => ?_
    cases r with
    | ok _ => exact hs'
    | error e => exact ensures_ite (fun _ _ => hs') fun _ => hs'

theorem lawful_listWorkspaces : Lawful accepts k began p (listWorkspaces p) s := by
  rw [Lawful, listWorkspaces, ensures_sequence]
  refine (lawful_ensurePersonalWorkspace accepts h).mono fun r s' hs' => ?_
  cases r with
  | ok w => exact fun _ => hs'
  | error e => exact hs'

theorem lawful_updateWorkspace {id displayName : GoString} :
    Lawful accepts k began p (updateWorkspace p id displayName) s := by
  have hidle : s.NoLatentOwners ∧ s.Changes accepts k began p s := ⟨h, .of_eq rfl rfl⟩
  refine ensures_check_then (fun _ => hidle) fun w _ _ => ?_
  refine ensures_ite (fun _ => hidle) fun _ => ?_
  refine ensures_attempt_then (fun _ _ _ => hidle) fun _ now _ => ?_
  have hupdated (w' : Workspace) : (s.updateWorkspace w').2.NoLatentOwners ∧
      s.Changes accepts k began p (s.updateWorkspace w').2 := by
    rw [Store.updateWorkspace]
    split_ifs
    · exact hidle
    · exact ⟨h.congr rfl rfl, .of_eq rfl rfl⟩
  exact ensures_attempt_then (fun _ _ _ => hupdated _) fun _ _ _ => hupdated _

theorem lawful_deleteWorkspace {id : GoString} :
    Lawful accepts k began p (deleteWorkspace p id) s := by
  have hidle : s.NoLatentOwners ∧ s.Changes accepts k began p s := ⟨h, .of_eq rfl rfl⟩
  refine ensures_check_then (fun _ => hidle) fun w _ hcheck => ?_
  refine ensures_ite (fun _ => hidle) fun _ _ => ?_
  exact ⟨h.deleteWorkspace _ _ _, .owns id hcheck (s.changesOnly_deleteWorkspace _ _ id)⟩

abbrev Confined (k : Checks) (began : Time) (p : Principal) (ws : GoString) (x : ServiceM α)
    (s : Store) : Prop :=
  x.run.Ensures (checking k began) (fun _ s' => s'.NoLatentOwners ∧
    s.ChangesOnly s' (scope p.projectID p.tenantID) ws) s

theorem confined_promote {new : GoString} {now : Time} :
    Confined k began p ws (promote p ws new now) s := by
  have hput (createdAt : Time) (del : List Role) :
      (s.putMembershipAndTuples ⟨p.projectID, p.tenantID, ws, new, .owner, .active, createdAt, now⟩
        [roleTuple ws new .owner] (del.map (roleTuple ws new))).NoLatentOwners ∧
      s.ChangesOnly (s.putMembershipAndTuples
        ⟨p.projectID, p.tenantID, ws, new, .owner, .active, createdAt, now⟩
        [roleTuple ws new .owner] (del.map (roleTuple ws new))) (scope p.projectID p.tenantID) ws :=
    ⟨h.put (fun _ => by simp) _ _, Store.changesOnly_put [.owner] del s _⟩
  refine ensures_getMembership (fun _ => rfl) (fun _ => ?_) fun existing _ => ?_
  · exact fun _ => hput now []
  · exact fun _ => hput existing.createdAt _

theorem confined_demote {old : GoString} {now : Time} :
    Confined k began p ws (demote p ws old now) s := by
  refine ensures_getMembership (fun _ => rfl) (fun _ => ?_) fun m hrow => ?_
  · exact fun _ => ⟨h.congr rfl rfl, Store.changesOnly_writeRoles [.admin] [.owner] s _ _ ws old⟩
  · obtain ⟨hscope, rfl, rfl⟩ := Store.row_keyed hrow
    refine fun _ => ⟨h.put (fun hrole => by cases hrole) _ _, ?_⟩
    rw [← hscope]
    exact Store.changesOnly_put [.admin] [.owner] s { m with role := .admin, updatedAt := now }

theorem lawful_transferOwnership {new : GoString} :
    Lawful accepts k began p (transferOwnership p ws new) s := by
  have hidle : s.NoLatentOwners ∧ s.Changes accepts k began p s := ⟨h, .of_eq rfl rfl⟩
  refine ensures_ite (fun _ => hidle) fun _ => ?_
  refine ensures_check_then (fun _ => hidle) fun w hw hcheck => ?_
  refine ensures_attempt_then (fun _ _ _ => hidle) fun _ _ _ => ?_
  refine ensures_ite (fun _ => hidle) fun _ => ?_
  refine ensures_ite (fun _ => hidle) fun _ => ?_
  refine ensures_attempt_then (fun _ _ _ => hidle) fun _ now _ => ?_
  rw [ensures_sequence]
  refine (confined_promote h).mono fun r s₁ hpromoted => ?_
  obtain ⟨hs₁, honly₁⟩ := hpromoted
  cases r with
  | error e => exact ⟨hs₁, .owns ws hcheck honly₁⟩
  | ok _ =>
    have hupdated (w' : Workspace) : (s₁.updateWorkspace w').2.NoLatentOwners ∧
        s.ChangesOnly (s₁.updateWorkspace w').2 (scope p.projectID p.tenantID) ws := by
      rw [Store.updateWorkspace]
      split_ifs
      · exact ⟨hs₁, honly₁⟩
      · exact ⟨hs₁.congr rfl rfl, honly₁.trans fun _ _ _ _ => ⟨fun _ => rfl, fun _ _ _ => Iff.rfl⟩⟩
    refine ensures_attempt_then (fun _ e _ => ?_) fun _ _ _ => ?_
    · exact ⟨(hupdated _).1, .owns ws hcheck (hupdated _).2⟩
    rw [ensures_sequence]
    refine (confined_demote (hupdated _).1).mono fun r s₃ hdemoted => ?_
    obtain ⟨hs₃, honly₃⟩ := hdemoted
    have hchanges : s.Changes accepts k began p s₃ := .owns ws hcheck ((hupdated _).2.trans honly₃)
    cases r <;> exact ⟨hs₃, hchanges⟩

end Members

/-! ## All requests -/

/-- The requests on workspaces, members and invitations that may write. -/
def Request.onMembers : Request → Bool
  | .createWorkspace .. | .ensurePersonalWorkspace | .updateWorkspace .. | .deleteWorkspace _
  | .addMember .. | .updateMemberRole .. | .removeMember .. | .suspendMember ..
  | .reinstateMember .. | .createInvitation .. | .acceptInvitation _ | .revokeInvitation _
  | .transferOwnership .. => true
  | _ => false

theorem lawful_serve (h : s.NoLatentOwners) (request : Request) (hmembers : request.onMembers) :
    Lawful (∃ token, request = .acceptInvitation token) k began p
      (request.serve hashToken p) s := by
  cases request with
  | createWorkspace => exact (lawful_createWorkspace h).served
  | ensurePersonalWorkspace => exact (lawful_ensurePersonalWorkspace _ h).served
  | updateWorkspace => exact (lawful_updateWorkspace h).served
  | deleteWorkspace => exact lawful_deleteWorkspace h
  | addMember => exact (lawful_addMember h).served
  | updateMemberRole => exact (lawful_updateMemberRole h).served
  | removeMember => exact lawful_removeMember h
  | suspendMember => exact (lawful_suspendMember h).served
  | reinstateMember => exact (lawful_reinstateMember h).served
  | createInvitation => exact (lawful_createInvitation h).served
  | acceptInvitation token => exact (lawful_acceptInvitation h ⟨token, rfl⟩).served
  | revokeInvitation => exact lawful_revokeInvitation h
  | transferOwnership => exact (lawful_transferOwnership h).served
  | _ => cases hmembers

def rowless : Protocol Call Reply where
  issues _ c := c.LeavesRows

theorem noLatentOwners_of_rowless {x : ServiceM α} (hx : Conforms rowless (fun _ => True) x)
    (h : s.NoLatentOwners) :
    x.run.Ensures (checking k began) (fun _ s' => s'.NoLatentOwners) s :=
  (hx [] trivial).preserves (fun _ s _ _ hs hissues =>
    have ⟨hrows, hinvitations⟩ := exec_of_leavesRows hissues _ s
    ⟨trivial, hs.congr hrows hinvitations⟩) h

theorem rowless_writeTuples {ops : List TupleOp} :
    Conforms rowless (fun _ => True) (served (writeTuples p ops)) := by
  have hwrite (inserts deletes : List Tuple) : Conforms rowless (fun _ => True) (do
      call (.writeTuples p.projectID p.tenantID inserts deletes)
      call (.consistencyToken p.projectID p.tenantID)) :=
    .bind (.step fun _ => trivial) fun _ => .step fun _ => trivial
  refine .bind (.bind .settled fun _ => .bind (.step fun _ => trivial) fun _ => ?_) fun _ => .pure
  refine .ite (fun _ => .bind (.step fun _ => trivial) fun _ => ?_) fun _ => hwrite _ _
  exact .bind .settled fun _ => hwrite _ _

theorem rowless_deprovisionUser :
    Conforms rowless (fun _ => True) (served (deprovisionUser p user)) :=
  .bind (.ite (fun _ => .throw) fun _ => .bind (.step fun _ => trivial) fun _ =>
    .step fun _ => trivial) fun _ => .pure

section Projects

variable {validateModel : Model → Except ServiceError Unit} {id name dataRegion : GoString}

theorem rowless_createProject {model : Model} {maxCheckReads : ℤ} : Conforms rowless (fun _ => True)
    (createProject validateModel id name model dataRegion maxCheckReads) := by
  refine .ite (fun _ => .throw) fun _ => .ite (fun _ => .throw) fun _ => ?_
  refine .bind .settled fun _ => .bind .settled fun _ => .bind .settled fun _ => ?_
  exact .bind (.step fun _ => trivial) fun _ => .bind (.step fun _ => trivial) fun _ => .pure

theorem rowless_updateProject {patch : ProjectPatch} :
    Conforms rowless (fun _ => True) (updateProject validateModel id patch) := by
  refine .ite (fun _ => .throw) fun _ => .ite (fun _ => .throw) fun _ => .bind .settled fun _ => ?_
  refine .bind (.step fun _ => trivial) fun _ => .bind (.step fun _ => trivial) fun _ => ?_
  exact .bind (.step fun _ => trivial) fun _ => .pure

end Projects

theorem Call.Proper.leavesRows {c : Call} (h : c.Proper true) : c.LeavesRows := by
  cases c with
  | putMembershipAndTuples => cases h.1
  | deleteMembershipAndTuples => cases h.1
  | _ => trivial

theorem noLatentOwners_serve (h : s.NoLatentOwners) (request : Request) :
    (request.serve hashToken p).run.Ensures (checking k began) (fun _ s' =>
      s'.NoLatentOwners) s := by
  cases hmembers : request.onMembers with
  | true => exact (lawful_serve h request hmembers).mono fun _ _ hs' => hs'.1
  | false =>
    cases hapart : request.apart with
    | true =>
      have hregular : Regular true false false (request.serve hashToken p) :=
        request.regular nofun fun _ => hapart
      refine (hregular [] nofun).preserves (fun _ s _ _ hs hissues => ?_) h
      obtain ⟨hrows, hinvitations⟩ := exec_of_leavesRows hissues.1.leavesRows _ s
      exact ⟨trivial, hs.congr hrows hinvitations⟩
    | false =>
      cases request with
      | listWorkspaces =>
        have hlist : Lawful False k began p (listWorkspaces p) s := lawful_listWorkspaces h
        exact hlist.served.mono fun _ _ hs' => hs'.1
      | writeTuples => exact noLatentOwners_of_rowless rowless_writeTuples h
      | deprovisionUser => exact noLatentOwners_of_rowless rowless_deprovisionUser h
      | _ => first | (cases hmembers; done) | cases hapart

theorem Store.Reachable.noLatentOwners {validateModel : Model → Except ServiceError Unit}
    (h : s.Reachable hashToken validateModel) : s.NoLatentOwners := by
  induction h with
  | empty => exact .empty
  | request p request k began _ hrun ih => exact hrun.of_ensures (noLatentOwners_serve ih request)
  | createProject id name model dataRegion maxCheckReads k began _ hrun ih =>
    exact hrun.of_ensures (noLatentOwners_of_rowless rowless_createProject ih)
  | updateProject id patch k began _ hrun ih =>
    exact hrun.of_ensures (noLatentOwners_of_rowless rowless_updateProject ih)

end Requests

/-- In a reachable state, a request that changes rows or tuples of an existing workspace has passed
the check for admins or for owners in this state, or accepts an invitation and changes nothing but
that the caller joins in the role that was offered; and if it changes tuples of owners, it has
passed the check for owners. -/
theorem members_change_by_right (hashToken : GoString → GoString)
    (validateModel : Model → Except ServiceError Unit) (s : Store)
    (h : s.Reachable hashToken validateModel) (p : Principal) (request : Request)
    (hmembers : request.onMembers) (k : Checks) (began : Time) (r : Except ServiceError Unit)
    (s' : Store) (hrun : Runs (checking k began) (request.serve hashToken p).run s r s')
    (projectID tenantID ws : GoString) (w : Workspace)
    (hw : s.getWorkspace projectID tenantID ws = .ok w) :
    (¬ s.SameWorkspace s' projectID tenantID ws →
      scope projectID tenantID = scope p.projectID p.tenantID ∧
      (s.check k p ⟨"workspace", ws, "admin"⟩ = .ok true ∨
        s.check k p ⟨"workspace", ws, "owner"⟩ = .ok true ∨
        ((∃ token, request = .acceptInvitation token) ∧
          ∃ inv, inv.workspaceID = ws ∧ s.Joins s' p began inv))) ∧
    (¬ s.SameOwners s' projectID tenantID ws →
      scope projectID tenantID = scope p.projectID p.tenantID ∧
      s.check k p ⟨"workspace", ws, "owner"⟩ = .ok true) := by
  obtain ⟨-, hchanges⟩ := hrun.of_ensures (lawful_serve h.noLatentOwners request hmembers)
  have howners : ¬ s.SameOwners s' projectID tenantID ws →
      ¬ s.SameWorkspace s' projectID tenantID ws := fun hne hsame =>
    hne fun t hns hobject _ => hsame.tuples t hns hobject
  -- A workspace that is not the same is the one that the request is about.
  have hhere {sk ws' : GoString} (honly : s.ChangesOnly s' sk ws')
      (hne : ¬ s.SameWorkspace s' projectID tenantID ws) :
      scope projectID tenantID = sk ∧ ws = ws' := by
    by_contra hother
    exact hne (honly _ _ _ fun hscope hws => hother ⟨hscope, hws⟩)
  cases hchanges with
  | nothing hsame =>
    exact ⟨fun hne => absurd (hsame _ _ _) hne, fun hne => absurd (hsame _ _ _) (howners hne)⟩
  | founds ws' hnew honly =>
    have hsame : s.SameWorkspace s' projectID tenantID ws := by
      by_contra hne
      obtain ⟨hscope, rfl⟩ := hhere honly hne
      rw [Store.getWorkspace, hscope, hnew] at hw
      cases hw
    exact ⟨fun hne => absurd hsame hne, fun hne => absurd hsame (howners hne)⟩
  | manages ws' hcheck honly hsame =>
    refine ⟨fun hne => ?_, fun hne => absurd (hsame _ _ _) hne⟩
    obtain ⟨hscope, rfl⟩ := hhere honly hne
    exact ⟨hscope, .inl hcheck⟩
  | owns ws' hcheck honly =>
    refine ⟨fun hne => ?_, fun hne => ?_⟩
    · obtain ⟨hscope, rfl⟩ := hhere honly hne
      exact ⟨hscope, .inr (.inl hcheck)⟩
    · obtain ⟨hscope, rfl⟩ := hhere honly (howners hne)
      exact ⟨hscope, hcheck⟩
  | joins haccepts inv hjoins honly =>
    refine ⟨fun hne => ?_, fun hne => absurd ?_ hne⟩
    · obtain ⟨hscope, rfl⟩ := hhere honly hne
      exact ⟨hscope, .inr (.inr ⟨haccepts, inv, rfl, hjoins⟩)⟩
    · intro t hns hobject hrelation
      by_cases hscope : scope projectID tenantID = scope p.projectID p.tenantID
      · rw [Store.Stored, Store.Stored, hscope]
        refine hjoins.tuples t fun hkey => hjoins.grantable (Role.name_injective ?_)
        exact (tupleKey_inj hkey).2.2.1.symm.trans hrelation
      · exact (honly _ _ _ fun h => absurd h hscope).tuples t hns hobject

namespace Founding

def alice : Principal := ⟨"alice", "p", "t"⟩

def env : { env : Env // (0 : Time) ≤ env.now } := ⟨{}, le_rfl⟩

def serve (request : Request) (s : Store) : Except ServiceError Unit × Store :=
  (request.serve (fun token => token) alice).run.outcome (checking {} 0) env s

def founded : Store := (serve (.createWorkspace "Acme" []) .empty).2

def staffed : Store := (serve (.addMember "id" "bob" "member") founded).2

theorem reachable_founded : founded.Reachable (fun token => token) fun _ => .ok () :=
  .request alice (.createWorkspace "Acme" []) {} 0 .empty (runs_outcome env _ _)

end Founding

open Founding in
/-- Alice adds Bob by the right of a founder. -/
theorem founder_adds_member_by_right :
    ¬ founded.SameWorkspace staffed "p" "t" "id" ∧
      (founded.check {} alice ⟨"workspace", "id", "admin"⟩ = .ok true ∨
        founded.check {} alice ⟨"workspace", "id", "owner"⟩ = .ok true ∨
        ((∃ token, Request.addMember "id" "bob" "member" = .acceptInvitation token) ∧
          ∃ inv, inv.workspaceID = str "id" ∧ founded.Joins staffed alice 0 inv)) := by
  have hchanged : ¬ founded.SameWorkspace staffed "p" "t" "id" := by
    intro hsame
    have hrow := hsame.rows "bob"
    revert hrow
    decide +kernel
  have hw : founded.getWorkspace "p" "t" "id" =
      .ok ⟨"id", "p", "t", "acme", "Acme", .team, "alice", 0, 0⟩ := by decide +kernel
  exact ⟨hchanged, ((members_change_by_right _ _ founded reachable_founded alice
    (.addMember "id" "bob" "member") rfl {} 0 _ staffed (runs_outcome env _ _) "p" "t" "id" _
    hw).1 hchanged).2⟩

end WorkspaceAuthz.Service
