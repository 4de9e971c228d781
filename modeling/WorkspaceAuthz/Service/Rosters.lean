import WorkspaceAuthz.Service.Requests
import WorkspaceAuthz.Service.ResidualAccess

/-! # Rosters

A roster is a workspace with the standings of its members. In a store in order all
rosters are valid, the tuples on workspaces are those that the active members stand
for, and invitations are to workspaces that can be shared. Every call that a request
makes about a workspace changes one roster.
-/
namespace WorkspaceAuthz.Service
open Go Authz Interleaving

/-! ## Rosters -/

/-- A workspace, if there is one, and the standings of its members. -/
structure Roster where
  workspace : Option Workspace
  standing : GoString → Option Standing

namespace Roster

variable {R : Roster} {w w' : Workspace} {user : GoString} {st : Standing}

def put (R : Roster) (user : GoString) (st : Standing) : Roster :=
  { R with standing := Function.update R.standing user (some st) }

def remove (R : Roster) (user : GoString) : Roster :=
  { R with standing := Function.update R.standing user none }

def record (R : Roster) (w : Workspace) : Roster := { R with workspace := some w }

/-- The owner is an active member, and the only one of a personal workspace; nobody else is a
member in that role, and without a workspace there are no members. -/
structure Valid (R : Roster) : Prop where
  owner : ∀ w ∈ R.workspace, R.standing w.ownerUserID = some (.owner, .active)
  member : ∀ user st, R.standing user = some st →
    ∃ w ∈ R.workspace, st.1 = .owner ∨ w.type = .personal → user = w.ownerUserID

theorem valid_empty : Valid ⟨none, fun _ => none⟩ where
  owner _ hw := by cases hw
  member _ _ hst := by cases hst

theorem Valid.standing_eq_none (h : R.Valid) (hnone : R.workspace = none) (user : GoString) :
    R.standing user = none := by
  cases hst : R.standing user with
  | none => rfl
  | some st =>
    obtain ⟨w, hw, -⟩ := h.member user st hst
    cases hnone.symm.trans hw

theorem Valid.ne_owner (h : R.Valid) (hw : R.workspace = some w) (hst : R.standing user = some st)
    (hrole : st.1 ≠ .owner) : user ≠ w.ownerUserID := by
  rintro rfl
  obtain rfl := Option.some.inj ((h.owner w hw).symm.trans hst)
  exact hrole rfl

theorem Valid.not_personal (h : R.Valid) (hw : R.workspace = some w)
    (hst : R.standing user = some st) (hrole : st.1 ≠ .owner) : w.type ≠ .personal := by
  intro hpersonal
  obtain ⟨w', hw', howner⟩ := h.member user st hst
  obtain rfl := Option.some.inj (hw.symm.trans hw')
  exact h.ne_owner hw hst hrole (howner (.inr hpersonal))

theorem Valid.put (h : R.Valid) (hw : R.workspace = some w)
    (howner : user = w.ownerUserID → st = (.owner, .active))
    (hmember : st.1 = .owner ∨ w.type = .personal → user = w.ownerUserID) :
    (R.put user st).Valid where
  owner w' hw' := by
    obtain rfl := Option.some.inj (hw.symm.trans hw')
    by_cases huser : w.ownerUserID = user
    · simp [Roster.put, huser, howner huser.symm]
    · simpa [Roster.put, huser] using h.owner w hw
  member user' st' hst := by
    by_cases huser : user' = user
    · subst huser
      obtain rfl : st = st' := by simpa [Roster.put] using hst
      exact ⟨w, hw, hmember⟩
    · exact h.member user' st' (by simpa [Roster.put, huser] using hst)

theorem Valid.remove (h : R.Valid) (hst : R.standing user = some st) (hrole : st.1 ≠ .owner) :
    (R.remove user).Valid where
  owner w hw := by
    have hne : w.ownerUserID ≠ user := (h.ne_owner hw hst hrole).symm
    simpa [Roster.remove, hne] using h.owner w hw
  member user' st' hst' := by
    by_cases huser : user' = user
    · simp [Roster.remove, huser] at hst'
    · exact h.member user' st' (by simpa [Roster.remove, huser] using hst')

theorem Valid.record (h : R.Valid) (hw : R.workspace = some w)
    (howner : w'.ownerUserID = w.ownerUserID) (htype : w'.type = w.type) : (R.record w').Valid where
  owner _ hw' := by
    cases hw'
    exact howner ▸ h.owner w hw
  member user st hst := by
    obtain ⟨w₀, hw₀, hmember⟩ := h.member user st hst
    obtain rfl := Option.some.inj (hw.symm.trans hw₀)
    exact ⟨w', rfl, by rwa [howner, htype]⟩

theorem Valid.create (h : R.Valid) (hnone : R.workspace = none) :
    ((R.record w).put w.ownerUserID (.owner, .active)).Valid where
  owner _ hw' := by
    cases hw'
    simp [Roster.put]
  member user st hst := by
    refine ⟨w, rfl, fun _ => ?_⟩
    by_contra huser
    have hst' : R.standing user = some st := by simpa [Roster.put, Roster.record, huser] using hst
    cases (h.standing_eq_none hnone user).symm.trans hst'

/-- Another member, or somebody new, becomes the owner, and the former owner an admin. -/
theorem Valid.transfer {new : GoString} (h : R.Valid) (hw : R.workspace = some w)
    (htype : w.type ≠ .personal) (hw' : w'.ownerUserID = new) (htype' : w'.type = w.type)
    (hne : new ≠ w.ownerUserID) :
    (((R.put new (.owner, .active)).record w').put w.ownerUserID (.admin, .active)).Valid where
  owner _ hsome := by
    cases hsome
    simp [Roster.put, Roster.record, hw', hne]
  member user st hst := by
    refine ⟨w', rfl, fun hrole => ?_⟩
    rw [htype'] at hrole
    rw [hw']
    by_cases hold : user = w.ownerUserID
    · subst hold
      obtain rfl : (.admin, .active) = st := by simpa [Roster.put] using hst
      simp [htype] at hrole
    · by_contra hnew
      have hst' : R.standing user = some st := by
        simpa [Roster.put, Roster.record, hold, hnew] using hst
      obtain ⟨w₀, hw₀, hmember⟩ := h.member user st hst'
      obtain rfl := Option.some.inj (hw.symm.trans hw₀)
      exact hold (hmember hrole)

end Roster

/-! ## Rows and tuples in the store -/

namespace Store

variable {s s' : Store} {projectID tenantID id ws user : GoString} {m : Membership}
  {w w' : Workspace}
  {inv : Invitation}

def roster (s : Store) (projectID tenantID id : GoString) : Roster :=
  ⟨s.workspaces.get₂ (scope projectID tenantID) id, s.standing projectID tenantID id⟩

theorem roster_putMembershipAndTuples (inserts deletes : List Tuple) :
    (s.putMembershipAndTuples m inserts deletes).roster projectID tenantID id =
      if scope projectID tenantID = scope m.projectID m.tenantID ∧ id = m.workspaceID then
        (s.roster projectID tenantID id).put m.userID m.standing
      else s.roster projectID tenantID id := by
  have hstanding : (s.putMembershipAndTuples m inserts deletes).standing projectID tenantID id =
      if scope projectID tenantID = scope m.projectID m.tenantID ∧ id = m.workspaceID then
        Function.update (s.standing projectID tenantID id) m.userID (some m.standing)
      else s.standing projectID tenantID id := by
    funext user
    rw [standing, row_putMembershipAndTuples]
    by_cases hkey : scope projectID tenantID = scope m.projectID m.tenantID ∧ id = m.workspaceID
    · by_cases huser : user = m.userID <;> simp [hkey, huser, standing]
    · rw [if_neg fun h => hkey ⟨h.1, h.2.1⟩, if_neg hkey]
      rfl
  simp only [roster, hstanding]
  split_ifs <;> rfl

theorem roster_putWorkspace : (s.putWorkspace w).roster projectID tenantID id =
    if scope projectID tenantID = scope w.projectID w.tenantID ∧ id = w.id then
      (s.roster projectID tenantID id).record w
    else s.roster projectID tenantID id := by
  have hget : (s.putWorkspace w).workspaces.get₂ (scope projectID tenantID) id = _ :=
    GoMap.get₂_put₂ _ _ _ _ _ _
  simp only [roster, hget]
  split_ifs <;> rfl

theorem roster_deleteMembershipAndTuples {projectID' tenantID' : GoString} {deletes : List Tuple}
    (hrow : s.row projectID tenantID ws user = some m) :
    (s.deleteMembershipAndTuples projectID tenantID ws user deletes).2.roster projectID' tenantID'
        id =
      if scope projectID' tenantID' = scope projectID tenantID ∧ id = ws then
        (s.roster projectID' tenantID' id).remove user
      else s.roster projectID' tenantID' id := by
  have hworkspaces : (s.deleteMembershipAndTuples projectID tenantID ws user deletes).2.workspaces =
      s.workspaces := by
    simp only [deleteMembershipAndTuples, deleteMembership, hrow, Option.isNone_some,
      Bool.false_eq_true, if_false]
    rfl
  have hstanding : (s.deleteMembershipAndTuples projectID tenantID ws user deletes).2.standing
      projectID' tenantID' id =
        if scope projectID' tenantID' = scope projectID tenantID ∧ id = ws then
          Function.update (s.standing projectID' tenantID' id) user none
        else s.standing projectID' tenantID' id := by
    funext user'
    rw [standing, row_deleteMembershipAndTuples hrow]
    by_cases hkey : scope projectID' tenantID' = scope projectID tenantID ∧ id = ws
    · by_cases huser : user' = user <;> simp [hkey, huser, standing]
    · rw [if_neg fun h => hkey ⟨h.1, h.2.1⟩, if_neg hkey]
      rfl
  simp only [roster, hworkspaces, hstanding]
  split_ifs <;> rfl

/-- The role tuples on workspaces are those that the members stand for, and there are no other
tuples on workspaces. -/
structure Backed (s : Store) : Prop where
  agrees : ∀ projectID tenantID ws user, s.Agrees projectID tenantID ws user
  joined : ∀ projectID tenantID ws user, ∀ st ∈ s.standing projectID tenantID ws user,
    st.2 ≠ .invited
  only : ∀ projectID tenantID t, s.Stored projectID tenantID t → t.ns = str "workspace" →
    ∃ ws user r, t = roleTuple ws user r

/-- Besides, rosters are valid, and invitations are to workspaces that can be shared. -/
structure InOrder (s : Store) : Prop extends s.Backed where
  rosters : ∀ projectID tenantID id, (s.roster projectID tenantID id).Valid
  invitations : ∀ projectID tenantID id, ∀ inv ∈ s.invitations.get₂ (scope projectID tenantID) id,
    inv.role ≠ .owner ∧
      ∃ w ∈ s.workspaces.get₂ (scope projectID tenantID) inv.workspaceID, w.type ≠ .personal

theorem inOrder_empty : Store.empty.InOrder where
  agrees _ _ _ _ _ := by simp [Holds, standing, row, Store.empty]
  joined _ _ _ _ _ h := by simp [standing, row, Store.empty] at h
  only _ _ _ h := by simp [Stored, Store.empty] at h
  rosters _ _ _ := ⟨by simp [roster, Store.empty], by simp [roster, standing, row, Store.empty]⟩
  invitations _ _ _ _ h := by simp [Store.empty] at h

theorem Backed.put (h : s.Backed) (ins del : List Role) (hstatus : m.status ≠ .invited)
    (hroles : ∀ r, (r ∈ ins ∨
      (s.standing m.projectID m.tenantID m.workspaceID m.userID = some (r, .active) ∧ r ∉ del)) ↔
        some m.standing = some (r, .active)) :
    (s.putMembershipAndTuples m (ins.map (roleTuple m.workspaceID m.userID))
      (del.map (roleTuple m.workspaceID m.userID))).Backed where
  agrees projectID tenantID ws user := by
    refine (h.agrees projectID tenantID ws user).put fun hscope hws huser r => ?_
    subst hws huser
    rw [h.agrees, standing, row, hscope]
    exact hroles r
  joined projectID tenantID ws user st hst := by
    rw [standing, row_putMembershipAndTuples] at hst
    split_ifs at hst
    · cases hst
      exact hstatus
    · exact h.joined projectID tenantID ws user st hst
  only projectID tenantID t ht hns := by
    rcases mem_or_get_of_writeTuples ht with hmem | hold
    · obtain ⟨r, -, rfl⟩ := List.mem_map.mp hmem
      exact ⟨_, _, r, rfl⟩
    · exact h.only projectID tenantID t hold hns

theorem Backed.congr (h : s.Backed) (htuples : s'.tuples = s.tuples)
    (hrows : s'.memberships = s.memberships) : s'.Backed where
  agrees := by
    simpa only [Agrees, Holds, standing, row, htuples, hrows] using h.agrees
  joined := by
    simpa only [standing, row, hrows] using h.joined
  only := by
    simpa only [Stored, htuples] using h.only

theorem InOrder.put (h : s.InOrder) (ins del : List Role)
    (hw : s.workspaces.get₂ (scope m.projectID m.tenantID) m.workspaceID = some w)
    (howner : m.userID = w.ownerUserID → m.standing = (.owner, .active))
    (hmember : m.role = .owner ∨ w.type = .personal → m.userID = w.ownerUserID)
    (hstatus : m.status ≠ .invited)
    (hroles : ∀ r, (r ∈ ins ∨
      (s.standing m.projectID m.tenantID m.workspaceID m.userID = some (r, .active) ∧ r ∉ del)) ↔
        some m.standing = some (r, .active)) :
    (s.putMembershipAndTuples m (ins.map (roleTuple m.workspaceID m.userID))
      (del.map (roleTuple m.workspaceID m.userID))).InOrder where
  toBacked := h.toBacked.put ins del hstatus hroles
  rosters projectID tenantID id := by
    rw [roster_putMembershipAndTuples]
    split_ifs with hkey
    · refine (h.rosters projectID tenantID id).put ?_ howner hmember
      rw [roster, hkey.1, hkey.2]
      exact hw
    · exact h.rosters projectID tenantID id
  invitations := h.invitations

theorem InOrder.join (h : s.InOrder)
    (hw : s.workspaces.get₂ (scope m.projectID m.tenantID) m.workspaceID = some w)
    (htype : w.type ≠ .personal)
    (hnone : s.row m.projectID m.tenantID m.workspaceID m.userID = none) (hrole : m.role ≠ .owner)
    (hstatus : m.status = .active) :
    (s.putMembershipAndTuples m [roleTuple m.workspaceID m.userID m.role] []).InOrder := by
  have hstanding : s.standing m.projectID m.tenantID m.workspaceID m.userID = none := by
    rw [standing, hnone]
    rfl
  refine h.put [m.role] [] hw (fun huser => ?_) (fun hm => ?_) ?_ fun r => ?_
  · rw [huser] at hstanding
    cases hstanding.symm.trans ((h.rosters m.projectID m.tenantID m.workspaceID).owner w hw)
  · exact absurd hm (by simp [hrole, htype])
  · simp [hstatus]
  · simp [hstanding, Membership.standing, hstatus, eq_comm]

theorem InOrder.change {old : Membership} (h : s.InOrder) {ins del : List Role}
    (hrow : s.row m.projectID m.tenantID m.workspaceID m.userID = some old)
    (hold : old.role ≠ .owner) (hrole : m.role ≠ .owner)
    (hchange : Change (some old.standing) m.standing ins del) :
    (s.putMembershipAndTuples m (ins.map (roleTuple m.workspaceID m.userID))
      (del.map (roleTuple m.workspaceID m.userID))).InOrder := by
  have hstanding : s.standing m.projectID m.tenantID m.workspaceID m.userID =
    some old.standing := by
    rw [standing, hrow]
    rfl
  have hvalid := h.rosters m.projectID m.tenantID m.workspaceID
  have hjoined : ∀ st ∈ some old.standing, st.2 ≠ .invited :=
    fun st hst => h.joined _ _ _ _ st (hstanding.trans hst)
  obtain ⟨w, hw, -⟩ := hvalid.member _ _ hstanding
  refine h.put ins del hw (fun huser => ?_) (fun hm => ?_) ?_ fun r => ?_
  · exact absurd huser (hvalid.ne_owner hw hstanding hold)
  · exact absurd hm (not_or.mpr ⟨hrole, hvalid.not_personal hw hstanding hold⟩)
  · exact hchange.joined hjoined
  · rw [hstanding]
    exact hchange.agrees hjoined (fun r => Iff.rfl) r

theorem InOrder.removeMember (h : s.InOrder) (hrow : s.row projectID tenantID ws user = some m)
    (hrole : m.role ≠ .owner) :
    (s.deleteMembershipAndTuples projectID tenantID ws user
      [roleTuple ws user m.role]).2.InOrder where
  agrees projectID' tenantID' ws' user' :=
    (h.agrees projectID' tenantID' ws' user').remove hrow fun _ _ _ => rfl
  joined projectID' tenantID' ws' user' st hst := by
    rw [standing, row_deleteMembershipAndTuples hrow] at hst
    split_ifs at hst
    · cases hst
    · exact h.joined projectID' tenantID' ws' user' st hst
  only projectID' tenantID' t ht hns := by
    obtain ⟨s', htuples, -, heq⟩ := deleteMembershipAndTuples_of_some hrow
    rw [heq] at ht
    refine h.only projectID' tenantID' t ?_ hns
    rw [Stored, ← htuples]
    exact (mem_or_get_of_writeTuples ht).resolve_left List.not_mem_nil
  rosters projectID' tenantID' id := by
    rw [roster_deleteMembershipAndTuples hrow]
    split_ifs with hkey
    · have hst : (s.roster projectID' tenantID' id).standing user = some m.standing := by
        change s.standing projectID' tenantID' id user = _
        rw [standing, row, hkey.1, hkey.2]
        exact congrArg (Option.map Membership.standing) hrow
      exact (h.rosters projectID' tenantID' id).remove hst hrole
    · exact h.rosters projectID' tenantID' id
  invitations := by
    simp only [deleteMembershipAndTuples, deleteMembership, hrow, Option.isNone_some,
      Bool.false_eq_true, if_false]
    exact h.invitations

/-- Workspace and owner are written one after the other. -/
theorem InOrder.createWorkspace (h : s.InOrder)
    (hnone : s.workspaces.get₂ (scope w.projectID w.tenantID) w.id = none)
    (createdAt updatedAt : Time) :
    ((s.putWorkspace w).putMembershipAndTuples
      ⟨w.projectID, w.tenantID, w.id, w.ownerUserID, .owner, .active, createdAt, updatedAt⟩
      [roleTuple w.id w.ownerUserID .owner] []).InOrder where
  toBacked := by
    have hbacked : (s.putWorkspace w).Backed := h.toBacked.congr rfl rfl
    refine hbacked.put [.owner] [] nofun fun r => ?_
    have hstanding : (s.putWorkspace w).standing w.projectID w.tenantID w.id w.ownerUserID = none :=
      (h.rosters w.projectID w.tenantID w.id).standing_eq_none hnone w.ownerUserID
    simp [hstanding, Membership.standing, eq_comm]
  rosters projectID tenantID id := by
    rw [roster_putMembershipAndTuples, roster_putWorkspace]
    split_ifs with hkey
    · refine (h.rosters projectID tenantID id).create ?_
      rw [roster, hkey.1, hkey.2]
      exact hnone
    · exact h.rosters projectID tenantID id
  invitations projectID tenantID id inv hinv := by
    obtain ⟨hrole, w₀, hw₀, htype⟩ := h.invitations projectID tenantID id inv hinv
    refine ⟨hrole, w₀, ?_, htype⟩
    have hget : (s.putWorkspace w).workspaces.get₂ (scope projectID tenantID) inv.workspaceID = _ :=
      GoMap.get₂_put₂ _ _ _ _ _ _
    refine hget.trans ?_
    rw [if_neg, hw₀]
    rintro ⟨hscope, hid⟩
    rw [hscope, hid, hnone] at hw₀
    cases hw₀

theorem invitations_putWorkspace
    (h : ∀ projectID tenantID id, ∀ inv ∈ s.invitations.get₂ (scope projectID tenantID) id,
      inv.role ≠ .owner ∧
        ∃ w ∈ s.workspaces.get₂ (scope projectID tenantID) inv.workspaceID, w.type ≠ .personal)
    (hw : s.workspaces.get₂ (scope w'.projectID w'.tenantID) w'.id = some w)
    (htype : w'.type = w.type) (projectID tenantID id : GoString) :
    ∀ inv ∈ s.invitations.get₂ (scope projectID tenantID) id, inv.role ≠ .owner ∧
      ∃ w ∈ (s.putWorkspace w').workspaces.get₂ (scope projectID tenantID) inv.workspaceID,
        w.type ≠ .personal := by
  intro inv hinv
  obtain ⟨hrole, w₀, hw₀, htype₀⟩ := h projectID tenantID id inv hinv
  refine ⟨hrole, ?_⟩
  have hget : (s.putWorkspace w').workspaces.get₂ (scope projectID tenantID) inv.workspaceID = _ :=
    GoMap.get₂_put₂ _ _ _ _ _ _
  rw [hget]
  split_ifs with hkey
  · refine ⟨w', rfl, ?_⟩
    rw [hkey.1, hkey.2] at hw₀
    obtain rfl := Option.some.inj (hw.symm.trans hw₀)
    rwa [htype]
  · exact ⟨w₀, hw₀, htype₀⟩

theorem InOrder.putWorkspace (h : s.InOrder)
    (hw : s.workspaces.get₂ (scope w'.projectID w'.tenantID) w'.id = some w)
    (howner : w'.ownerUserID = w.ownerUserID) (htype : w'.type = w.type) :
    (s.putWorkspace w').InOrder where
  toBacked := h.toBacked.congr rfl rfl
  rosters projectID tenantID id := by
    rw [roster_putWorkspace]
    split_ifs with hkey
    · refine (h.rosters projectID tenantID id).record ?_ howner htype
      rw [roster, hkey.1, hkey.2]
      exact hw
    · exact h.rosters projectID tenantID id
  invitations projectID tenantID id :=
    (invitations_putWorkspace h.invitations hw htype projectID tenantID id :)

theorem InOrder.updateWorkspace (h : s.InOrder)
    (hw : s.workspaces.get₂ (scope projectID tenantID) id = some w)
    (hkeys : w'.projectID = w.projectID ∧ w'.tenantID = w.tenantID ∧ w'.id = w.id)
    (howner : w'.ownerUserID = w.ownerUserID) (htype : w'.type = w.type) :
    (s.updateWorkspace w').2.InOrder := by
  obtain ⟨hscope, rfl⟩ := s.workspaces_keyed _ _ _ hw
  obtain ⟨hproject, htenant, hid⟩ := hkeys
  rw [← hscope, ← hproject, ← htenant, ← hid] at hw
  rw [Store.updateWorkspace, hw]
  exact h.putWorkspace hw howner htype

/-- Somebody who is not the owner is given the owner's role and tuple. -/
theorem Backed.promote (h : s.Backed) {del : List Role} (hm : m.standing = (.owner, .active))
    (hdel : ∀ r, s.standing m.projectID m.tenantID m.workspaceID m.userID = some (r, .active) →
      r = .owner ∨ r ∈ del) :
    (s.putMembershipAndTuples m [roleTuple m.workspaceID m.userID .owner]
      (del.map (roleTuple m.workspaceID m.userID))).Backed := by
  refine h.put [.owner] del (fun hinvited => ?_) fun r => ?_
  · cases (congrArg Prod.snd hm).symm.trans hinvited
  · have hr := hdel r
    rw [hm]
    grind

/-- The owner is given the role and the tuple of an admin. -/
theorem Backed.demote (h : s.Backed) (hm : m.standing = (.admin, .active))
    (hold : s.standing m.projectID m.tenantID m.workspaceID m.userID = some (.owner, .active)) :
    (s.putMembershipAndTuples m [roleTuple m.workspaceID m.userID .admin]
      [roleTuple m.workspaceID m.userID .owner]).Backed := by
  refine h.put [.admin] [.owner] (fun hinvited => ?_) fun r => ?_
  · cases (congrArg Prod.snd hm).symm.trans hinvited
  · rw [hm, hold]
    grind

/-- The new owner is promoted, recorded on the workspace, and the former owner demoted. -/
theorem InOrder.transfer (h : s.InOrder) (m m' : Membership) (w' : Workspace)
    (hw : s.workspaces.get₂ (scope w'.projectID w'.tenantID) w'.id = some w)
    (htype : w.type ≠ .personal) (htype' : w'.type = w.type) (hne : w'.ownerUserID ≠ w.ownerUserID)
    (hm : m.standing = (.owner, .active) ∧ m.userID = w'.ownerUserID ∧ m.workspaceID = w'.id ∧
      scope m.projectID m.tenantID = scope w'.projectID w'.tenantID)
    (hm' : m'.standing = (.admin, .active) ∧ m'.userID = w.ownerUserID ∧ m'.workspaceID = w'.id ∧
      scope m'.projectID m'.tenantID = scope w'.projectID w'.tenantID)
    {inserts deletes inserts' deletes' : List Tuple}
    (hbacked : ((((s.putMembershipAndTuples m inserts deletes).putWorkspace
      w').putMembershipAndTuples m' inserts' deletes')).Backed) :
    (((s.putMembershipAndTuples m inserts deletes).putWorkspace
      w').putMembershipAndTuples m' inserts' deletes').InOrder where
  toBacked := hbacked
  rosters projectID tenantID id := by
    obtain ⟨hst, huser, hws, hscope⟩ := hm
    obtain ⟨hst', huser', hws', hscope'⟩ := hm'
    rw [roster_putMembershipAndTuples, roster_putWorkspace,
      roster_putMembershipAndTuples, hst, hst',
      hscope, hscope', hws, hws', huser, huser']
    split_ifs with hkey
    · refine (h.rosters projectID tenantID id).transfer ?_ htype rfl htype' hne
      rw [roster, hkey.1, hkey.2]
      exact hw
    · exact h.rosters projectID tenantID id
  invitations projectID tenantID id :=
    (invitations_putWorkspace h.invitations hw htype' projectID tenantID id :)

/-- What is stored under the key of a role tuple is a tuple on that workspace. -/
theorem get_roleTuple {t : Tuple} {sk : GoString} {r : Role}
    (h : s.tuples.get₂ sk (tupleKey (roleTuple ws user r)) = some t) :
    t.ns = str "workspace" ∧ t.objectID = ws :=
  have hkey := tupleKey_inj (s.tuples_keyed _ _ _ h)
  ⟨hkey.1, hkey.2.1⟩

section Delete

variable (hw : s.workspaces.get₂ (scope projectID tenantID) id = some w)
  {projectID' tenantID' : GoString}
include hw

theorem standing_deleteWorkspace :
    (s.deleteWorkspace projectID tenantID id).2.standing projectID' tenantID' ws user =
      if scope projectID' tenantID' = scope projectID tenantID ∧ ws = id then none
      else s.standing projectID' tenantID' ws user := by
  obtain ⟨s', heq, -, hrows, -⟩ := deleteWorkspace_of_some hw
  rw [heq, standing, row, hrows, GoMap.get₃_erase₂]
  split_ifs <;> rfl

theorem holds_roleTuple_deleteWorkspace {r : Role} :
    (s.deleteWorkspace projectID tenantID id).2.Holds projectID' tenantID' (roleTuple ws user r) ↔
      s.Holds projectID' tenantID' (roleTuple ws user r) ∧
        ¬ (scope projectID' tenantID' = scope projectID tenantID ∧ ws = id) := by
  obtain ⟨s', heq, -, -, -, -, -, htuples⟩ := deleteWorkspace_of_some hw
  rw [heq, Holds, Holds, htuples, get_tuples_keepTuples]
  by_cases hscope : scope projectID' tenantID' = scope projectID tenantID
  · rw [if_pos hscope]
    cases ht : s.tuples.get₂ (scope projectID' tenantID') (tupleKey (roleTuple ws user r)) with
    | none => simp
    | some t =>
      obtain ⟨hns, hobj⟩ := get_roleTuple ht
      by_cases hws : ws = id <;> simp [hns, hobj, hws, hscope]
  · simp [hscope]

theorem Backed.deleteWorkspace (h : s.Backed) :
    (s.deleteWorkspace projectID tenantID id).2.Backed where
  agrees projectID' tenantID' ws user r := by
    rw [holds_roleTuple_deleteWorkspace hw, standing_deleteWorkspace hw, h.agrees]
    split_ifs with hkey <;> simp [hkey]
  joined projectID' tenantID' ws user st hst := by
    rw [standing_deleteWorkspace hw] at hst
    split_ifs at hst
    · cases hst
    · exact h.joined projectID' tenantID' ws user st hst
  only projectID' tenantID' t ht hns := by
    obtain ⟨s', heq, -, -, -, -, -, htuples⟩ := deleteWorkspace_of_some hw
    rw [heq, Stored, htuples, get_tuples_keepTuples] at ht
    refine h.only projectID' tenantID' t ?_ hns
    split_ifs at ht
    · exact (Option.filter_eq_some_iff.mp ht).1
    · exact ht

theorem roster_deleteWorkspace {id' : GoString} :
    (s.deleteWorkspace projectID tenantID id).2.roster projectID' tenantID' id' =
      if scope projectID' tenantID' = scope projectID tenantID ∧ id' = id then ⟨none, fun _ => none⟩
      else s.roster projectID' tenantID' id' := by
  have hstanding : (s.deleteWorkspace projectID tenantID id).2.standing projectID' tenantID' id' =
      if scope projectID' tenantID' = scope projectID tenantID ∧ id' = id then fun _ => none
      else s.standing projectID' tenantID' id' := by
    funext user
    rw [standing_deleteWorkspace hw]
    split_ifs <;> rfl
  obtain ⟨s', heq, hworkspaces, -⟩ := deleteWorkspace_of_some hw
  rw [heq] at hstanding ⊢
  simp only [roster, hstanding, hworkspaces, GoMap.get₂_erase₂]
  split_ifs <;> rfl

end Delete

theorem InOrder.deleteWorkspace (h : s.InOrder) (projectID tenantID id : GoString) :
    (s.deleteWorkspace projectID tenantID id).2.InOrder := by
  cases hw : s.workspaces.get₂ (scope projectID tenantID) id with
  | none =>
    rw [Store.deleteWorkspace, hw]
    exact h
  | some w =>
    refine ⟨h.toBacked.deleteWorkspace hw, fun projectID' tenantID' id' => ?_,
      fun projectID' tenantID' id' inv hinv => ?_⟩
    · rw [roster_deleteWorkspace hw]
      split_ifs
      · exact Roster.valid_empty
      · exact h.rosters projectID' tenantID' id'
    · obtain ⟨s', heq, hworkspaces, -, hinvitations, -⟩ := deleteWorkspace_of_some hw
      rw [heq] at hinv ⊢
      have hold : s.invitations.get₂ (scope projectID' tenantID') id' = some inv ∧
          ¬ (scope projectID' tenantID' = scope projectID tenantID ∧ inv.workspaceID = id) := by
        rw [hinvitations, GoMap.get₂, GoMap.inner_insert] at hinv
        split_ifs at hinv with hscope
        · rw [GoMap.get_filter, Option.mem_def, Option.filter_eq_some_iff, ← hscope] at hinv
          exact ⟨hinv.1, fun hkey => by simp [hkey.2] at hinv⟩
        · exact ⟨hinv, fun hkey => hscope hkey.1⟩
      rw [hworkspaces, GoMap.get₂_erase₂, if_neg hold.2]
      exact h.invitations projectID' tenantID' id' inv hold.1

/-! Invitations -/

theorem InOrder.putInvitation (h : s.InOrder) (hrole : inv.role ≠ .owner)
    (hw : s.workspaces.get₂ (scope inv.projectID inv.tenantID) inv.workspaceID = some w)
    (htype : w.type ≠ .personal) : (s.putInvitation inv).InOrder where
  toBacked := h.toBacked.congr rfl rfl
  rosters := h.rosters
  invitations projectID tenantID id inv' hinv' := by
    have hget : (s.putInvitation inv).invitations.get₂ (scope projectID tenantID) id = _ :=
      GoMap.get₂_put₂ _ _ _ _ _ _
    rw [hget] at hinv'
    split_ifs at hinv' with hkey
    · cases hinv'
      refine ⟨hrole, w, ?_, htype⟩
      rw [hkey.1]
      exact hw
    · exact h.invitations projectID tenantID id inv' hinv'

theorem InOrder.createInvitation (h : s.InOrder) (hrole : inv.role ≠ .owner)
    (hw : s.workspaces.get₂ (scope inv.projectID inv.tenantID) inv.workspaceID = some w)
    (htype : w.type ≠ .personal) : (s.createInvitation inv).2.InOrder := by
  rw [Store.createInvitation]
  split_ifs
  · exact h
  · exact h.putInvitation hrole hw htype

theorem InOrder.updateInvitation (h : s.InOrder)
    (hinv : s.invitations.get₂ (scope projectID tenantID) id = some inv)
    (status : InvitationStatus) :
    (s.updateInvitation { inv with status }).2.InOrder := by
  obtain ⟨hscope, rfl⟩ := s.invitations_keyed _ _ _ hinv
  obtain ⟨hrole, w, hw, htype⟩ := h.invitations projectID tenantID inv.id inv hinv
  rw [← hscope] at hw
  rw [Store.updateInvitation]
  split_ifs
  · exact h
  · exact h.putInvitation hrole hw htype

/-! Calls apart from workspaces -/

theorem InOrder.frame (h : s.InOrder) (hworkspaces : s'.workspaces = s.workspaces)
    (hrows : s'.memberships = s.memberships) (hinvitations : s'.invitations = s.invitations)
    (hsame : SameIn (str "workspace") s s') : s'.InOrder where
  agrees projectID tenantID ws user r := by
    rw [Holds, hsame _ (roleTuple ws user r) rfl, standing, row, hrows]
    exact h.agrees projectID tenantID ws user r
  joined := by
    simpa only [standing, row, hrows] using h.joined
  only projectID tenantID t ht hns := by
    rw [Stored, hsame _ t hns] at ht
    exact h.only projectID tenantID t ht hns
  rosters projectID tenantID id := by
    rw [roster, hworkspaces, show s'.standing projectID tenantID id =
      s.standing projectID tenantID id
      from funext fun user => by rw [standing, standing, row, row, hrows]]
    exact h.rosters projectID tenantID id
  invitations := by
    simpa only [hworkspaces, hinvitations] using h.invitations

theorem InOrder.writeTuples (h : s.InOrder) {inserts deletes : List Tuple}
    (hns : ∀ t ∈ inserts ++ deletes, t.ns ≠ str "workspace") :
    (s.writeTuples projectID tenantID inserts deletes).InOrder :=
  h.frame rfl rfl rfl (s.sameIn_writeTuples projectID tenantID hns)

theorem InOrder.exec_of_apart (h : s.InOrder) (env : Env) {c : Call} (hproper : c.Proper true) :
    (exec env c s).2.InOrder := by
  have hseat : str "seat" ≠ str "workspace" := by decide
  cases c with
  | writeTuples projectID tenantID inserts deletes =>
    exact h.writeTuples fun t ht => (hproper t ht).2 rfl
  | setEnrollmentAndTuples e inserts deletes =>
    have hset : (s.setEnrollment e).InOrder := h.frame rfl rfl rfl fun _ _ _ => rfl
    exact hset.writeTuples fun t ht => (hproper t ht).2 rfl
  | assignSeatAndTuple a tuple =>
    obtain rfl : tuple = seatTuple a.sku a.userID := hproper
    have htuple : ∀ t ∈ [seatTuple a.sku a.userID] ++ [], t.ns ≠ str "workspace" := by
      simpa [userTuple] using hseat
    have hassign : (s.assignSeat a).InOrder := h.frame rfl rfl rfl fun _ _ _ => rfl
    obtain ⟨-, heq⟩ | ⟨-, heq⟩ | ⟨-, -, heq⟩ :=
      s.assignSeatAndTuple_cases a (seatTuple a.sku a.userID)
    · rw [exec, heq]
      exact h.writeTuples htuple
    · rw [exec, heq]
      exact h
    · rw [exec, heq]
      exact hassign.writeTuples htuple
  | revokeSeatAndTuple projectID tenantID sku user tuple =>
    obtain rfl : tuple = seatTuple sku user := hproper
    have hrevoke : (s.revokeSeat projectID tenantID sku user).InOrder :=
      h.frame rfl rfl rfl fun _ _ _ => rfl
    refine hrevoke.writeTuples ?_
    simpa [userTuple] using hseat
  | deleteGroup projectID tenantID id =>
    have hgroup : str "workspace" ≠ str "group" := by decide
    rw [exec, Store.deleteGroup]
    split_ifs
    · exact h
    · refine h.frame rfl rfl rfl (s.sameIn_keepTuples projectID tenantID fun t ht => ?_)
      simp [ht, hgroup]
  | createGroup g =>
    rw [exec, Store.createGroup]
    split_ifs
    · exact h
    · exact h.frame rfl rfl rfl fun _ _ _ => rfl
  | createProject p =>
    rw [exec, Store.createProject]
    split_ifs
    · exact h
    · exact h.frame rfl rfl rfl fun _ _ _ => rfl
  | updateProject p =>
    rw [exec, Store.updateProject]
    split_ifs
    · exact h
    · exact h.frame rfl rfl rfl fun _ _ _ => rfl
  | setSeatLimit projectID tenantID sku limit =>
    cases limit <;> exact h.frame rfl rfl rfl fun _ _ _ => rfl
  | putMembershipAndTuples => cases hproper.1
  | deleteMembershipAndTuples => cases hproper.1
  | _ => first | exact h | cases hproper

end Store

end WorkspaceAuthz.Service
