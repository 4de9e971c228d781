import WorkspaceAuthz.Authz.Denial
import WorkspaceAuthz.Service.Rosters

/-! # Access to workspaces

When requests come one after the other, every workspace has its owner and nobody
else as a member in that role, personal workspaces have no other members at all,
and the tuples on workspaces are those that the active members stand for. So those
who are suspended or removed have no access in any relation.
-/
namespace WorkspaceAuthz.Service
open Go Authz Interleaving

/-! ## Requests -/

section Requests

variable {p : Principal} {s : Store} {ws user : GoString} {α : Type}
  {hashToken : GoString → GoString}

theorem ne_owner_of_grantable? {name : GoString} {role : Role} (h : grantable? name = some role) :
    role ≠ .owner := by
  simpa using (Option.filter_eq_some_iff.mp h).2

theorem ensures_requireWorkspace_then {rel : Role} {f : Workspace → ServiceM α}
    {Q : Except ServiceError α → Store → Prop} (herror : ∀ e, Q (.error e) s)
    (hok : ∀ w, s.workspaces.get₂ (scope p.projectID p.tenantID) ws = some w →
      (f w).run.Ensures exec Q s) :
    (requireWorkspace p ws rel >>= f).run.Ensures exec Q s := by
  exact ensures_requireWorkspace (fun _ => rfl) (fun _ => rfl) (fun e _ => herror e)
    (fun _ _ => herror) fun _ w hw _ => hok w (found_eq_ok.mp hw)

theorem ensures_member_then {f : Membership → ServiceM α}
    {Q : Except ServiceError α → Store → Prop} (herror : ∀ e, Q (.error e) s)
    (hf : ∀ m, scope m.projectID m.tenantID = scope p.projectID p.tenantID → m.workspaceID = ws →
      m.userID = user → s.row p.projectID p.tenantID ws user = some m →
      (f m).run.Ensures exec Q s) :
    (do
      let _ ← requireWorkspace p ws .admin
      let m ← call (.getMembership p.projectID p.tenantID ws user)
      f m : ServiceM α).run.Ensures exec Q s := by
  refine ensures_requireWorkspace_then herror fun w _ => ?_
  refine ensures_attempt_then (fun _ e _ => herror e) fun _ m hm => ?_
  have hrow := found_eq_ok.mp hm
  obtain ⟨hscope, hws, huser⟩ := Store.row_keyed hrow
  exact hf m hscope hws huser hrow

/-- Somebody is written as the owner, and the tuple goes that they may have had. -/
theorem ensures_promote {new : GoString} {now : Time} :
    (promote p ws new now).run.Ensures exec (fun r s' => r = .ok () ∧
      ∃ (createdAt : Time) (del : List Role),
        (∀ r, s.standing p.projectID p.tenantID ws new = some (r, .active) → r = .owner ∨ r ∈ del) ∧
          s' = s.putMembershipAndTuples
            ⟨p.projectID, p.tenantID, ws, new, .owner, .active, createdAt, now⟩
            [roleTuple ws new .owner] (del.map (roleTuple ws new))) s := by
  refine ensures_getMembership (fun _ => rfl) (fun hrow => ?_) fun existing hrow => ?_
  · refine fun env => ⟨rfl, now, [], fun r hr => ?_, rfl⟩
    rw [Store.standing, hrow] at hr
    cases hr
  · refine fun env => ⟨rfl, existing.createdAt, _, fun r hr => ?_, rfl⟩
    rw [Store.standing, hrow] at hr
    have hrole : existing.role = r := congrArg Prod.fst (Option.some.inj hr)
    by_cases howner : r = .owner
    · exact .inl howner
    · rw [hrole, if_pos howner]
      exact .inr List.mem_cons_self

abbrev EnsuresOrder (x : ServiceM α) (s : Store) : Prop :=
  x.run.Ensures exec (fun _ s' => s'.InOrder) s

section Order

variable (h : s.InOrder)
include h

theorem ensures_putMember {role : Role} {w : Workspace}
    (hw : s.workspaces.get₂ (scope p.projectID p.tenantID) ws = some w) (htype : w.type ≠ .personal)
    (hrow : s.row p.projectID p.tenantID ws user = none) (hrole : role ≠ .owner) :
    (putMember p ws user role).run.Ensures exec
      (fun _ s' => s'.InOrder ∧ s'.invitations = s.invitations) s := by
  refine ensures_attempt_then (fun _ _ _ => ⟨h, rfl⟩) fun _ _ _ => ?_
  refine ensures_attempt_then (fun _ _ _ => ⟨h, rfl⟩) fun _ now _ => ?_
  exact ensures_attempt_of_eq (fun _ => rfl) ⟨h.join hw htype hrow hrole rfl, rfl⟩

theorem ensures_addMember {role : GoString} : EnsuresOrder (addMember p ws user role) s := by
  unfold addMember
  cases hgrantable : grantable? role with
  | none => exact h
  | some role =>
    refine ensures_ite (fun _ => h) fun _ => ?_
    refine ensures_requireWorkspace_then (fun _ => h) fun w hw => ?_
    refine ensures_ite (fun _ => h) fun htype => ?_
    refine ensures_getMembership (fun _ => rfl) (fun hrow => ?_) fun m _ => h
    exact (ensures_putMember h hw htype hrow (ne_owner_of_grantable? hgrantable)).mono
      fun _ _ hs' => hs'.1

theorem ensures_writeRow {m : Membership} (m' : Time → Membership) (ins del : List Role)
    (hrow : s.row p.projectID p.tenantID m.workspaceID m.userID = some m)
    (hkeys : ∀ now, (m' now).projectID = m.projectID ∧ (m' now).tenantID = m.tenantID ∧
      (m' now).workspaceID = m.workspaceID ∧ (m' now).userID = m.userID)
    (hold : m.role ≠ .owner) (hrole : ∀ now, (m' now).role ≠ .owner)
    (hchange : ∀ now, Change (some m.standing) (m' now).standing ins del)
    {Q : Except ServiceError Membership → Store → Prop}
    (herror : ∀ e, Q (.error e) s)
    (hQ : ∀ now s', s'.InOrder → s'.standing p.projectID p.tenantID m.workspaceID m.userID =
      some (m' now).standing → Q (.ok (m' now)) s') :
    (do
      let now ← call .now
      call (.putMembershipAndTuples (m' now) (ins.map (roleTuple m.workspaceID m.userID))
        (del.map (roleTuple m.workspaceID m.userID)))
      return m' now : ServiceM Membership).run.Ensures exec Q s := by
  refine ensures_attempt_then (fun _ e _ => herror e) fun _ now _ => ?_
  obtain ⟨hproject, htenant, hws, huser⟩ := hkeys now
  have hscope := (Store.row_keyed hrow).1
  have hrow' : s.row (m' now).projectID (m' now).tenantID (m' now).workspaceID (m' now).userID =
      some m := by
    rw [hproject, htenant, hws, huser, Store.row, hscope]
    exact hrow
  have hs' := h.change hrow' hold (hrole now) (hchange now)
  rw [hws, huser] at hs'
  refine ensures_attempt_of_eq (fun _ => rfl) (hQ now _ hs' ?_)
  rw [Store.standing, Store.row_putMembershipAndTuples, if_pos]
  · rfl
  · rw [hproject, htenant, hws, huser]
    exact ⟨hscope.symm, rfl, rfl⟩

theorem ensures_updateMemberRole {role : GoString} :
    EnsuresOrder (updateMemberRole p ws user role) s := by
  unfold updateMemberRole
  cases hgrantable : grantable? role with
  | none => exact h
  | some role =>
    refine ensures_member_then (fun _ => h) fun m _ hws huser hrow => ?_
    subst hws huser
    refine ensures_ite (fun _ => h) fun howner => ?_
    refine ensures_ite (fun _ => h) fun hsuspended => ?_
    refine ensures_ite (fun _ => h) fun hrole => ?_
    exact ensures_writeRow h (fun now => { m with role, updatedAt := now }) [role] [m.role] hrow
      (fun _ => ⟨rfl, rfl, rfl, rfl⟩) howner (fun _ => ne_owner_of_grantable? hgrantable)
      (fun _ => .regrade hrole hsuspended) (fun _ => h) fun _ _ hs' _ => hs'

theorem ensures_removeMember :
    (removeMember p ws user).run.Ensures exec (fun r s' => s'.InOrder ∧
      (r = .ok () → s'.standing p.projectID p.tenantID ws user = none)) s := by
  refine ensures_member_then (fun _ => ⟨h, nofun⟩) fun m _ hws huser hrow => ?_
  refine ensures_ite (fun _ => ⟨h, nofun⟩) fun howner env => ?_
  refine ⟨h.removeMember hrow howner, fun _ => ?_⟩
  change (s.deleteMembershipAndTuples _ _ _ _ _).2.standing _ _ _ _ = none
  rw [Store.standing, Store.row_deleteMembershipAndTuples hrow, if_pos ⟨rfl, rfl, rfl⟩]
  rfl

theorem ensures_suspendMember :
    (suspendMember p ws user).run.Ensures exec (fun r s' => s'.InOrder ∧
      ∀ m, r = .ok m → (s'.standing p.projectID p.tenantID ws user).map Prod.snd =
        some .suspended) s := by
  refine ensures_member_then (fun _ => ⟨h, nofun⟩) fun m _ hws huser hrow => ?_
  subst hws huser
  refine ensures_ite (fun _ => ⟨h, nofun⟩) fun howner => ?_
  refine ensures_ite (fun hsuspended => ⟨h, fun _ _ => ?_⟩) fun _ => ?_
  · rw [Store.standing, hrow]
    exact congrArg some hsuspended
  · refine ensures_writeRow h (fun now => { m with status := .suspended, updatedAt := now }) []
      [m.role] hrow (fun _ => ⟨rfl, rfl, rfl, rfl⟩) howner (fun _ => howner)
      (fun _ => .suspend m.role m.status) (fun _ => ⟨h, nofun⟩) fun now s' hs' hst => ?_
    exact ⟨hs', fun _ _ => by rw [hst]; rfl⟩

theorem ensures_reinstateMember : EnsuresOrder (reinstateMember p ws user) s := by
  refine ensures_member_then (fun _ => h) fun m _ hws huser hrow => ?_
  subst hws huser
  refine ensures_ite (fun _ => h) fun hsuspended => ?_
  have hstatus : m.status = .suspended := not_not.mp hsuspended
  have hstanding : s.standing p.projectID p.tenantID m.workspaceID m.userID = some m.standing := by
    rw [Store.standing, hrow]
    rfl
  -- The owner is active, so that it is somebody else who was suspended.
  have howner : m.role ≠ .owner := by
    intro howner
    have hvalid := h.rosters p.projectID p.tenantID m.workspaceID
    obtain ⟨w, hw, hmember⟩ := hvalid.member _ _ hstanding
    have hactive := hvalid.owner w hw
    rw [← hmember (.inl howner)] at hactive
    have hst := congrArg Prod.snd (Option.some.inj (hstanding.symm.trans hactive))
    cases hstatus.symm.trans hst
  refine ensures_writeRow h (fun now => { m with status := .active, updatedAt := now }) [m.role] []
    hrow (fun _ => ⟨rfl, rfl, rfl, rfl⟩) howner (fun _ => howner) (fun _ => ?_) (fun _ => h)
    fun _ _ hs' _ => hs'
  rw [Membership.standing, hstatus]
  exact .reinstate m.role

theorem ensures_acceptInvitation {token : GoString} :
    EnsuresOrder (acceptInvitation p hashToken token) s := by
  refine ensures_ite (fun _ => h) fun _ => ?_
  refine ensures_attempt_then (fun _ _ _ => h) fun env inv hinv => ?_
  obtain ⟨id, hid⟩ := GoMap.mem_values.mp (List.mem_of_find?_eq_some (found_eq_ok.mp hinv))
  have hget : s.invitations.get₂ (scope p.projectID p.tenantID) id = some inv := hid
  obtain ⟨hrole, w, hw, htype⟩ := h.invitations p.projectID p.tenantID id inv hget
  refine ensures_ite (fun _ => h) fun _ => ?_
  refine ensures_attempt_then (fun _ _ _ => h) fun _ now _ => ?_
  refine ensures_ite (fun _ => ?_) fun _ => ?_
  · exact ensures_observe_then fun _ => h.updateInvitation hget .expired
  refine ensures_getMembership (fun _ => rfl) (fun hrow => ?_) fun m _ => ?_
  · refine ensures_ite (fun _ => h) fun _ => ?_
    rw [ensures_sequence]
    refine (ensures_putMember h hw htype hrow hrole).mono fun r s' hs' => ?_
    cases r with
    | error e => exact hs'.1
    | ok m =>
      have hmarked := hs'.1.updateInvitation (hs'.2 ▸ hget) .accepted
      exact ensures_attempt_then (fun _ _ _ => hmarked) fun _ _ _ => hmarked
  · have hmarked := h.updateInvitation hget .accepted
    exact ensures_attempt_then (fun _ _ _ => hmarked) fun _ _ _ => hmarked

theorem ensures_createInvitation {email role : GoString} :
    EnsuresOrder (createInvitation p hashToken ws email role) s := by
  refine ensures_attempt_then (fun _ _ _ => h) fun _ _ _ => ?_
  cases hgrantable : grantable? role with
  | none => exact h
  | some role =>
    refine ensures_ite (fun _ => h) fun _ => ?_
    refine ensures_requireWorkspace_then (fun _ => h) fun w hw => ?_
    refine ensures_ite (fun _ => h) fun htype => ?_
    refine ensures_attempt_then (fun _ _ _ => h) fun _ now _ => ?_
    refine ensures_attempt_then (fun _ _ _ => h) fun _ token _ => ?_
    refine ensures_attempt_then (fun _ _ _ => h) fun _ id _ => ?_
    let inv : Invitation := ⟨id, p.projectID, p.tenantID, ws, trimSpace email, role, .pending,
      p.userID, hashToken token, now, now + invitationTTL⟩
    have hcreated : (s.createInvitation inv).2.InOrder :=
      h.createInvitation (ne_owner_of_grantable? hgrantable) hw htype
    exact ensures_attempt_then (fun _ _ _ => hcreated) fun _ _ _ => hcreated

theorem ensures_revokeInvitation {id : GoString} : EnsuresOrder (revokeInvitation p id) s := by
  refine ensures_attempt_then (fun _ _ _ => h) fun _ inv hinv => ?_
  refine ensures_requireWorkspace_then (fun _ => h) fun w _ => ?_
  exact ensures_ite (fun _ _ => h.updateInvitation (found_eq_ok.mp hinv) .revoked) fun _ => h

/-! Workspaces -/

theorem ensures_createWorkspaceWithOwner {w : Workspace} :
    EnsuresOrder (createWorkspaceWithOwner w) s := by
  obtain ⟨e, heq⟩ | ⟨hnone, heq⟩ := s.createWorkspace_cases w
  · exact ensures_attempt_of_error (fun _ => heq) h
  · refine ensures_attempt_of_eq (fun _ => heq) fun _ => ?_
    exact h.createWorkspace hnone w.createdAt w.updatedAt

theorem ensures_createWorkspace {displayName slug : GoString} :
    EnsuresOrder (createWorkspace p displayName slug) s := by
  refine ensures_attempt_then (fun _ _ _ => h) fun _ _ _ => ?_
  refine ensures_ite (fun _ => h) fun _ => ?_
  refine ensures_attempt_then (fun _ _ _ => h) fun _ now _ => ?_
  refine ensures_attempt_then (fun _ _ _ => h) fun _ id _ => ?_
  rw [ensures_sequence]
  refine (ensures_createWorkspaceWithOwner h).mono fun r s' hs' => ?_
  cases r <;> exact hs'

theorem ensures_ensurePersonalWorkspace : EnsuresOrder (ensurePersonalWorkspace p) s := by
  refine ensures_observe_then fun env => ?_
  cases (exec env (.personalWorkspace p.projectID p.tenantID p.userID) s).1 with
  | ok w => exact h
  | error e =>
    refine ensures_ite (fun _ => ?_) fun _ => h
    refine ensures_attempt_then (fun _ _ _ => h) fun _ now _ => ?_
    refine ensures_attempt_then (fun _ _ _ => h) fun _ id _ => ?_
    rw [ensures_tryCatch, ensures_sequence]
    refine (ensures_createWorkspaceWithOwner h).mono fun r s' hs' => ?_
    cases r with
    | ok _ => exact hs'
    | error e => exact ensures_ite (fun _ _ => hs') fun _ => hs'

theorem ensures_listWorkspaces : EnsuresOrder (listWorkspaces p) s := by
  rw [EnsuresOrder, listWorkspaces, ensures_sequence]
  refine (ensures_ensurePersonalWorkspace h).mono fun r s' hs' => ?_
  cases r with
  | ok w => exact fun _ => hs'
  | error e => exact hs'

theorem ensures_updateWorkspace {id displayName : GoString} :
    EnsuresOrder (updateWorkspace p id displayName) s := by
  refine ensures_requireWorkspace_then (fun _ => h) fun w hw => ?_
  refine ensures_ite (fun _ => h) fun _ => ?_
  refine ensures_attempt_then (fun _ _ _ => h) fun _ now _ => ?_
  let w' : Workspace := { w with displayName := trimSpace displayName, updatedAt := now }
  have hupdated : (s.updateWorkspace w').2.InOrder := h.updateWorkspace hw ⟨rfl, rfl, rfl⟩ rfl rfl
  exact ensures_attempt_then (fun _ _ _ => hupdated) fun _ _ _ => hupdated

theorem ensures_deleteWorkspace {id : GoString} : EnsuresOrder (deleteWorkspace p id) s := by
  refine ensures_requireWorkspace_then (fun _ => h) fun w hw => ?_
  exact ensures_ite (fun _ => h) fun _ _ => h.deleteWorkspace p.projectID p.tenantID id

theorem ensures_transferOwnership {new : GoString} :
    EnsuresOrder (transferOwnership p ws new) s := by
  refine ensures_ite (fun _ => h) fun _ => ?_
  refine ensures_requireWorkspace_then (fun _ => h) fun w hw => ?_
  refine ensures_attempt_then (fun _ _ _ => h) fun _ _ _ => ?_
  refine ensures_ite (fun _ => h) fun htype => ?_
  refine ensures_ite (fun _ => h) fun hne => ?_
  refine ensures_attempt_then (fun _ _ _ => h) fun _ now _ => ?_
  rw [ensures_sequence]
  refine ensures_promote.mono fun r s₁ hs₁ => ?_
  obtain ⟨rfl, createdAt, del, hdel, hs₁⟩ := hs₁
  obtain ⟨hscope, hid⟩ := s.workspaces_keyed _ _ _ hw
  have howner := (h.rosters p.projectID p.tenantID ws).owner w hw
  -- The former owner is still one after the promotion.
  have hstanding : s₁.standing p.projectID p.tenantID ws w.ownerUserID =
    some (.owner, .active) := by
    rw [hs₁, Store.standing, Store.row_putMembershipAndTuples, if_neg fun hkey => hne hkey.2.2.symm]
    exact howner
  have hpromoted : s₁.Backed := hs₁ ▸ h.toBacked.promote rfl hdel
  let w' : Workspace := { w with ownerUserID := new, updatedAt := now }
  have hw' : s₁.workspaces.get₂ (scope w'.projectID w'.tenantID) w'.id = some w := by
    rw [hs₁, hscope, hid]
    exact hw
  have hrecorded : (s₁.putWorkspace w').Backed := hpromoted.congr rfl rfl
  have hupdate : ∀ env, exec env (.updateWorkspace w') s₁ = (.ok (), s₁.putWorkspace w') := by
    intro env
    rw [exec, Store.updateWorkspace, hw']
    rfl
  refine ensures_attempt_of_eq hupdate ?_
  rw [ensures_sequence]
  refine ensures_getMembership (fun _ => rfl) (fun hrow => ?_) fun old hrow env => ?_
  · change s₁.row p.projectID p.tenantID ws w.ownerUserID = none at hrow
    rw [Store.standing, hrow] at hstanding
    cases hstanding
  · change s₁.row p.projectID p.tenantID ws w.ownerUserID = some old at hrow
    obtain ⟨hscope', hws', huser'⟩ := Store.row_keyed hrow
    have hstatus : old.status = .active := by
      rw [Store.standing, hrow] at hstanding
      exact congrArg Prod.snd (Option.some.inj hstanding)
    let m' : Membership := { old with role := .admin, updatedAt := now }
    have hst' : m'.standing = (.admin, .active) := by rw [Membership.standing, hstatus]
    have hold : s₁.standing m'.projectID m'.tenantID m'.workspaceID m'.userID =
        some (.owner, .active) := by
      rw [Store.standing, Store.row, hscope', hws', huser']
      exact hstanding
    have hdemoted := hrecorded.demote hst' hold
    rw [hws', huser'] at hdemoted
    subst hs₁
    exact h.transfer _ m' w' hw' htype rfl hne ⟨rfl, rfl, hid.symm, hscope.symm⟩
      ⟨hst', huser', hws'.trans hid.symm, hscope'.trans hscope.symm⟩ hdemoted

theorem ensures_inactive {request : Request}
    (hrequest : request = .suspendMember ws user ∨ request = .removeMember ws user) :
    (request.serve hashToken p).run.Ensures exec (fun r s' => s'.InOrder ∧ (r = .ok () →
      ∀ role, s'.standing p.projectID p.tenantID ws user ≠ some (role, .active))) s := by
  rcases hrequest with rfl | rfl
  · rw [Request.serve, served, ensures_sequence]
    refine (ensures_suspendMember h).mono fun r s' hs' => ?_
    cases r with
    | error e => exact ⟨hs'.1, fun hok => by cases hok⟩
    | ok m =>
      refine ⟨hs'.1, fun _ role hactive => ?_⟩
      have hsuspended := hs'.2 m rfl
      rw [hactive] at hsuspended
      cases hsuspended
  · refine (ensures_removeMember h).mono fun r s' hs' => ⟨hs'.1, fun hr role hactive => ?_⟩
    cases (hs'.2 hr).symm.trans hactive

/-- Any request but those that write tuples on workspaces as they are given, or delete them. -/
theorem ensures_serve (request : Request) (hordinary : request.ordinary) :
    EnsuresOrder (request.serve hashToken p) s := by
  cases hapart : request.apart with
  | true =>
    have hregular : Regular true false false (request.serve hashToken p) :=
      request.regular nofun fun _ => hapart
    refine (hregular [] nofun).preserves (fun env s trace c hs hissues => ?_) h
    exact ⟨trivial, hs.exec_of_apart env hissues.1⟩
  | false =>
    cases request with
    | ensurePersonalWorkspace => exact ensures_served (ensures_ensurePersonalWorkspace h)
    | createWorkspace => exact ensures_served (ensures_createWorkspace h)
    | listWorkspaces => exact ensures_served (ensures_listWorkspaces h)
    | updateWorkspace => exact ensures_served (ensures_updateWorkspace h)
    | deleteWorkspace => exact ensures_deleteWorkspace h
    | transferOwnership => exact ensures_served (ensures_transferOwnership h)
    | addMember => exact ensures_served (ensures_addMember h)
    | updateMemberRole => exact ensures_served (ensures_updateMemberRole h)
    | removeMember => exact (ensures_removeMember h).mono fun _ _ hs' => hs'.1
    | suspendMember =>
      exact ensures_served ((ensures_suspendMember h).mono fun _ _ hs' => hs'.1)
    | reinstateMember => exact ensures_served (ensures_reinstateMember h)
    | createInvitation => exact ensures_served (ensures_createInvitation h)
    | acceptInvitation => exact ensures_served (ensures_acceptInvitation h)
    | revokeInvitation => exact ensures_revokeInvitation h
    | writeTuples => cases hordinary.symm.trans hapart
    | deprovisionUser => cases hordinary
    | _ => cases hapart

end Order

def servingOrdinary (hashToken : GoString → GoString)
    (x : Prog Call Reply (Except ServiceError Unit)) : Prop :=
  ∃ (p : Principal) (request : Request), request.ordinary ∧ x = (request.serve hashToken p).run

theorem inOrder_of_sequence (h : Sequence exec (servingOrdinary hashToken) .empty s) :
    s.InOrder := by
  refine h.preserves (fun x s hx hs => ?_) Store.inOrder_empty
  obtain ⟨p, request, hordinary, rfl⟩ := hx
  exact ensures_serve hs request hordinary

end Requests

/-! ## Checks -/

/-- Of somebody without an active row the engine finds no trace on the workspace. -/
theorem Store.InOrder.strangers {s : Store} {projectID tenantID ws user relation : GoString}
    {order : MapOrder} {now : Time} (h : s.InOrder)
    (hinactive : ∀ role, s.standing projectID tenantID ws user ≠ some (role, .active)) :
    ∀ sub ∈ s.listSubjects order now projectID tenantID ⟨"workspace", ws, relation⟩,
      sub.set = none ∧ sub.wildcard = false ∧ sub.userID ≠ user := by
  intro sub hsub
  obtain ⟨t, ht, rfl⟩ := List.mem_map.mp hsub
  obtain ⟨hmem, hcond⟩ := List.mem_filter.mp ht
  obtain ⟨hns, hobj, -, -⟩ := of_decide_eq_true hcond
  obtain ⟨k, hk⟩ := GoMap.mem_values.mp hmem
  obtain rfl := s.tuples_keyed _ _ _ hk
  obtain ⟨ws', user', role, rfl⟩ := h.only projectID tenantID t hk hns
  obtain rfl : ws' = ws := hobj
  refine ⟨rfl, rfl, ?_⟩
  rintro rfl
  exact hinactive role ((h.agrees projectID tenantID ws' _ role).mp (Option.isSome_of_eq_some hk))

/-- After ordinary requests, role tuples are stored exactly for active members in that role, every
workspace has its owner and no other member in that role, a personal one no other member at all,
and nothing is left of workspaces that do not exist. Who is suspended or removed is denied. -/
theorem workspaces_stay_in_order (hashToken : GoString → GoString) (s : Store)
    (h : Sequence exec (servingOrdinary hashToken) .empty s) (projectID tenantID : GoString) :
    (∀ ws user role, s.Holds projectID tenantID (roleTuple ws user role) ↔
      ∃ m, s.row projectID tenantID ws user = some m ∧ m.role = role ∧ m.status = .active) ∧
    (∀ ws w, s.getWorkspace projectID tenantID ws = .ok w →
      (∀ user, (∃ m, s.row projectID tenantID ws user = some m ∧ m.role = .owner) ↔
        user = w.ownerUserID) ∧
      (w.type = .personal → ∀ user, (s.row projectID tenantID ws user).isSome ↔
        user = w.ownerUserID)) ∧
    (∀ ws user, (s.row projectID tenantID ws user).isSome →
      ∃ w, s.getWorkspace projectID tenantID ws = .ok w) ∧
    (∀ t, s.Stored projectID tenantID t → t.ns = str "workspace" →
      (∃ user role, t = roleTuple t.objectID user role) ∧
      ∃ w, s.getWorkspace projectID tenantID t.objectID = .ok w) ∧
    ∀ actor ws user (request : Request),
      request = .suspendMember ws user ∨ request = .removeMember ws user →
      ∀ s', Runs exec (request.serve hashToken ⟨actor, projectID, tenantID⟩).run s (.ok ()) s' →
      ∀ (e : Engine) (relation : GoString) (cc : Context) (maxReads : ℤ),
        (∀ n, ∃ order now, e.reader projectID tenantID n =
          .ok (s'.listSubjects order now projectID tenantID n)) →
        e.effectiveMaxReads maxReads ≤ 0 ∨ minMaxCheckReads ≤ e.effectiveMaxReads maxReads →
        (e.checkWithModel defaultModel projectID tenantID ⟨"workspace", ws, relation⟩ user cc
          maxReads).result = .ok false := by
  have hs := inOrder_of_sequence h
  have hstanding : ∀ ws user m, s.row projectID tenantID ws user = some m →
      s.standing projectID tenantID ws user = some m.standing := fun ws user m hrow =>
    congrArg (Option.map Membership.standing) hrow
  have hmember : ∀ ws user m, s.row projectID tenantID ws user = some m →
      ∃ w, s.getWorkspace projectID tenantID ws = .ok w ∧
        (m.role = .owner ∨ w.type = .personal → user = w.ownerUserID) := fun ws user m hrow =>
    have ⟨w, hw, howner⟩ :=
      (hs.rosters projectID tenantID ws).member user _ (hstanding ws user m hrow)
    ⟨w, found_eq_ok.mpr hw, howner⟩
  have howner : ∀ ws w, s.getWorkspace projectID tenantID ws = .ok w →
      ∃ m, s.row projectID tenantID ws w.ownerUserID = some m ∧ m.role = .owner := fun ws w hw =>
    have ⟨m, hrow, hst⟩ := Option.map_eq_some_iff.mp
      ((hs.rosters projectID tenantID ws).owner w (found_eq_ok.mp hw))
    ⟨m, hrow, congrArg Prod.fst hst⟩
  refine ⟨fun ws user role => ?_, fun ws w hw => ⟨fun user => ?_, fun hpersonal user => ?_⟩,
    fun ws user hrow => ?_, fun t ht hns => ?_,
    fun actor ws user request hrequest s' hrun e relation cc maxReads hreader hbudget => ?_⟩
  · rw [hs.agrees projectID tenantID ws user role, Store.standing, Option.map_eq_some_iff]
    simp [Membership.standing]
  · constructor
    · rintro ⟨m, hrow, hrole⟩
      obtain ⟨w', hw', hm⟩ := hmember ws user m hrow
      cases hw.symm.trans hw'
      exact hm (.inl hrole)
    · rintro rfl
      exact howner ws w hw
  · rw [Option.isSome_iff_exists]
    constructor
    · rintro ⟨m, hrow⟩
      obtain ⟨w', hw', hm⟩ := hmember ws user m hrow
      cases hw.symm.trans hw'
      exact hm (.inr hpersonal)
    · rintro rfl
      obtain ⟨m, hrow, -⟩ := howner ws w hw
      exact ⟨m, hrow⟩
  · obtain ⟨m, hm⟩ := Option.isSome_iff_exists.mp hrow
    obtain ⟨w, hw, -⟩ := hmember ws user m hm
    exact ⟨w, hw⟩
  · obtain ⟨ws, user, role, rfl⟩ := hs.only projectID tenantID t ht hns
    have hactive := (hs.agrees projectID tenantID ws user role).mp (Option.isSome_of_eq_some ht)
    obtain ⟨m, hrow, -⟩ := Option.map_eq_some_iff.mp hactive
    obtain ⟨w, hw, -⟩ := hmember ws user m hrow
    exact ⟨⟨user, role, rfl⟩, w, hw⟩
  · obtain ⟨hs', hinactive⟩ := hrun.of_ensures (ensures_inactive hs hrequest)
    have hfloor : (4 : ℤ) ≤ minMaxCheckReads := by decide
    refine checkWithModel_eq_false relation (hbudget.imp_right hfloor.trans) fun relation => ?_
    obtain ⟨order, now, hread⟩ := hreader ⟨"workspace", ws, relation⟩
    exact ⟨_, hread, hs'.strangers (hinactive rfl)⟩

namespace Team

def serve (request : Request) (s : Store) : Store :=
  ((request.serve (fun token => token) ⟨"alice", "p", "t"⟩).run.outcome exec {} s).2

/-- Bob is a member of Alice's workspace. -/
def staffed : Store :=
  serve (.addMember "id" "bob" "member") (serve (.createWorkspace "Acme" []) .empty)

theorem sequence_serve_ordinary {s s' : Store}
    (h : Sequence exec (servingOrdinary fun token => token) s s') (request : Request)
    (hordinary : request.ordinary) :
    Sequence exec (servingOrdinary fun token => token) s (serve request s') :=
  h.tail ⟨_, _, ⟨_, request, hordinary, rfl⟩, runs_outcome ({} : Env) _ _⟩

theorem sequence_staffed : Sequence exec (servingOrdinary fun token => token) .empty staffed :=
  sequence_serve_ordinary (sequence_serve_ordinary .refl (.createWorkspace "Acme" []) rfl)
    (.addMember "id" "bob" "member") rfl

def suspended : Store := serve (.suspendMember "id" "bob") staffed

theorem runs_suspended : Runs exec ((Request.suspendMember "id" "bob").serve (fun token => token)
    ⟨"alice", "p", "t"⟩).run staffed (.ok ()) suspended := by
  have hok : (((Request.suspendMember "id" "bob").serve (fun token => token)
      ⟨"alice", "p", "t"⟩).run.outcome exec {} staffed).1 = .ok () := by decide +kernel
  exact hok ▸ runs_outcome ({} : Env) _ staffed

def engine : Engine where
  reader projectID tenantID n := .ok (suspended.listSubjects .ascending 0 projectID tenantID n)
  maxReads := defaultMaxCheckReads

end Team

open Team in
theorem suspended_member_is_denied :
    staffed.Holds "p" "t" (roleTuple "id" "bob" .member) ∧
      (engine.checkWithModel defaultModel "p" "t" ⟨"workspace", "id", "guest"⟩ "bob" ∅ 0).result =
        .ok false :=
  ⟨((workspaces_stay_in_order _ staffed sequence_staffed "p" "t").1 "id" "bob" .member).mpr
      ⟨⟨"p", "t", "id", "bob", .member, .active, 0, 0⟩, by decide +kernel, rfl, rfl⟩,
    (workspaces_stay_in_order _ staffed sequence_staffed "p" "t").2.2.2.2 "alice" "id" "bob"
      (.suspendMember "id" "bob") (.inl rfl) suspended runs_suspended
      engine "guest" ∅ 0 (fun _ => ⟨_, _, rfl⟩) (.inr (by decide))⟩

end WorkspaceAuthz.Service
