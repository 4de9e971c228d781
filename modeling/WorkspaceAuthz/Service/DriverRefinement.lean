import WorkspaceAuthz.Interleaving.Refinement
import WorkspaceAuthz.Service.Isolation
import WorkspaceAuthz.Service.RowReads

/-! # The database refines the memory store

Requests of any number of processes run over the database, each call in a
transaction of its own. As long as their calls lose nothing on the way to the
database, the run is one over the memory store, with the same replies; so what is
proved of all runs over the memory store holds of these runs too.
-/
namespace WorkspaceAuthz.Service
open Go Authz Interleaving FiniteMaps

namespace Postgres

namespace Serial

/-! ## Writes -/

section Writes

variable {codecs : Codecs} {s : Store} {T : Contents} {projectID tenantID : GoString}

theorem agrees_putMembership {codec : ParamsCodec} {m : Membership} (h : Mirrors codec s T)
    (htexts : ∀ x ∈ [m.projectID, m.tenantID, m.workspaceID, m.userID], isText x) :
    Agrees codec (putMembershipExec m) T (.ok (), s.putMembership m) := by
  refine .of_ok (txExec_of_isText htexts T) rfl ?_
  exact { h with
    memberships := Tracks.insert (· = (m.workspaceID, m.userID)) (m.workspaceID, m.userID)
      (zero_notMem_of_isText (htexts _ (by simp))) (by simp [Prod.ext_iff]) h.memberships (by
        intro sk i
        simp only [Store.putMembership, GoMap.get₃_put₃, Prod.ext_iff]) }

theorem agrees_deleteMembership {codec : ParamsCodec} {workspaceID userID : GoString}
    (h : Mirrors codec s T)
    (htexts : ∀ x ∈ [projectID, tenantID, workspaceID, userID], isText x) :
    Agrees codec (deleteMembershipExec projectID tenantID workspaceID userID) T
      (s.deleteMembership projectID tenantID workspaceID userID) := by
  have hproject := zero_notMem_of_isText (htexts projectID (by simp))
  have hrow : T.memberships.lookup ⟨projectID, tenantID, workspaceID, userID⟩ =
      (s.row projectID tenantID workspaceID userID).map membershipRow :=
    h.memberships projectID tenantID (workspaceID, userID) hproject
      (zero_notMem_of_isText (htexts tenantID (by simp)))
  cases hs : s.row projectID tenantID workspaceID userID with
  | none =>
    refine .of_error (e := errNotFound) ?_ ?_ h
    · rw [deleteMembershipExec, txExec_bind htexts, hrow, hs]
      rfl
    · simp [Store.deleteMembership, hs]
  | some m =>
    have hr : s.deleteMembership projectID tenantID workspaceID userID =
        (.ok (), (s.deleteMembership projectID tenantID workspaceID userID).2) := by
      simp [Store.deleteMembership, hs]
    have hdelete : deleteMembershipExec projectID tenantID workspaceID userID T =
        .ok ((), { T with
          memberships := T.memberships.erase ⟨projectID, tenantID, workspaceID, userID⟩ }) := by
      rw [deleteMembershipExec, txExec_bind htexts, hrow, hs]
      rfl
    refine .of_ok hdelete hr ?_
    simp only [Store.deleteMembership, hs, Option.isNone_some, Bool.false_eq_true, if_false]
    exact { h with
      memberships := Tracks.erase (· = (workspaceID, userID)) (workspaceID, userID) hproject
        (by simp [Prod.ext_iff]) h.memberships (by
          intro sk i
          simp only [GoMap.get₃_erase₃, Prod.ext_iff]) }

theorem Mirrors.putInvitation {codec : ParamsCodec} {inv : Invitation} (h : Mirrors codec s T)
    (hproject : 0 ∉ inv.projectID) : Mirrors codec (s.putInvitation inv) { T with
      invitations := T.invitations.insert (invitationKey inv) (invitationRow inv) } :=
  { h with
    invitations := Tracks.insert (· = inv.id) inv.id hproject (by simp) h.invitations
      (GoMap.get₂_put₂ _ _ _ _) }

theorem isSome_invitation {codec : ParamsCodec} {inv : Invitation} (h : Mirrors codec s T)
    (htexts : ∀ x ∈ invitationArgs inv, isText x) :
    (T.invitations.lookup (invitationKey inv)).isSome =
      (s.invitations.get₂ (scope inv.projectID inv.tenantID) inv.id).isSome := by
  rw [invitationKey, h.invitations inv.projectID inv.tenantID inv.id
    (zero_notMem_of_isText (htexts _ (by simp [invitationArgs])))
    (zero_notMem_of_isText (htexts _ (by simp [invitationArgs]))), Option.isSome_map]

theorem agrees_createInvitation {codec : ParamsCodec} {inv : Invitation} (h : Mirrors codec s T)
    (htexts : ∀ x ∈ invitationArgs inv, isText x) :
    Agrees codec (createInvitation inv) T (s.createInvitation inv) := by
  have hrow := isSome_invitation h htexts
  by_cases hs : (s.invitations.get₂ (scope inv.projectID inv.tenantID) inv.id).isSome
  · refine .of_error ?_ (if_pos hs) h
    rw [createInvitation, txExec_bind htexts, if_pos (hrow.trans hs)]
    rfl
  · refine .of_ok ?_ (if_neg hs)
      (h.putInvitation (zero_notMem_of_isText (htexts _ (by simp [invitationArgs]))))
    rw [← hrow] at hs
    rw [createInvitation, txExec_bind htexts, if_neg hs]
    rfl

theorem agrees_updateInvitation {codec : ParamsCodec} {inv : Invitation} (h : Mirrors codec s T)
    (htexts : ∀ x ∈ invitationArgs inv, isText x) :
    Agrees codec (updateInvitation inv) T (s.updateInvitation inv) := by
  have hrow : (T.invitations.lookup (invitationKey inv)).isNone =
      (s.invitations.get₂ (scope inv.projectID inv.tenantID) inv.id).isNone := by
    rw [← Option.not_isSome, ← Option.not_isSome, isSome_invitation h htexts]
  by_cases hs : (s.invitations.get₂ (scope inv.projectID inv.tenantID) inv.id).isNone
  · refine .of_error ?_ (if_pos hs) h
    rw [updateInvitation, txExec_bind htexts, if_pos (hrow.trans hs)]
    rfl
  · refine .of_ok ?_ (if_neg hs)
      (h.putInvitation (zero_notMem_of_isText (htexts _ (by simp [invitationArgs]))))
    rw [← hrow] at hs
    rw [updateInvitation, txExec_bind htexts, if_neg hs]
    rfl

theorem agrees_updateWorkspace {codec : ParamsCodec} {w : Workspace} (h : Mirrors codec s T)
    (htexts : ∀ x ∈ [w.projectID, w.tenantID, w.id, w.slug, w.displayName, w.ownerUserID],
      isText x) (hpersonal : ¬ violatesPersonal T w) :
    Agrees codec (updateWorkspace w) T (s.updateWorkspace w) := by
  have hproject := zero_notMem_of_isText (htexts w.projectID (by simp))
  have hrow : (T.workspaces.lookup (workspaceKey w)).isNone =
      (s.workspaces.get₂ (scope w.projectID w.tenantID) w.id).isNone := by
    rw [workspaceKey, h.workspaces w.projectID w.tenantID w.id hproject
      (zero_notMem_of_isText (htexts w.tenantID (by simp))), Option.isNone_map]
  by_cases hs : (s.workspaces.get₂ (scope w.projectID w.tenantID) w.id).isNone
  · refine .of_error ?_ (if_pos hs) h
    rw [updateWorkspace, txExec_bind htexts, if_pos (hrow.trans hs)]
    rfl
  · have hput : Mirrors codec (s.putWorkspace w) { T with
        workspaces := T.workspaces.insert (workspaceKey w) (workspaceRow w) } :=
      { h with
        workspaces := Tracks.insert (· = w.id) w.id hproject (by simp) h.workspaces
          (GoMap.get₂_put₂ _ _ _ _) }
    refine .of_ok ?_ (if_neg hs) hput
    rw [← hrow] at hs
    rw [updateWorkspace, txExec_bind htexts, if_neg hs, if_neg hpersonal]
    rfl

end Writes

end Serial

/-! ## What is not lost -/

namespace Exact

variable {codecs : Codecs} {s : Store} {projectID tenantID : GoString}

theorem empty (codecs : Codecs) : Exact codecs .empty where
  projects _ _ h := by simp [Store.empty] at h
  workspaces _ _ _ h := by simp [Store.empty] at h
  memberships _ _ _ _ h := by simp [Store.empty] at h
  invitations _ _ _ h := by simp [Store.empty] at h
  groups _ _ _ h := by simp [Store.empty] at h
  enrollments _ _ _ _ h := by simp [Store.empty] at h
  seats _ _ _ _ h := by simp [Store.empty] at h
  tuples _ _ _ h := by simp [Store.empty] at h

theorem writeTuples (h : Exact codecs s) {inserts : List Tuple}
    (hinserts : ∀ t ∈ inserts, normalTuple t = t) (deletes : List Tuple) :
    Exact codecs (s.writeTuples projectID tenantID inserts deletes) :=
  { h with
    tuples := by
      intro sk k t ht
      rw [Store.get_tuples_writeTuples] at ht
      split_ifs at ht with hsk hdeleted
      · rw [Option.or_none] at ht
        exact hinserts t (List.mem_reverse.mp (List.mem_of_find?_eq_some ht))
      · obtain hfind | ⟨-, hget⟩ := Option.or_eq_some_iff.mp ht
        · exact hinserts t (List.mem_reverse.mp (List.mem_of_find?_eq_some hfind))
        · exact h.tuples sk k t hget
      · exact h.tuples sk k t ht }

theorem keepTuples (h : Exact codecs s) (keep : Tuple → Bool) :
    Exact codecs (s.keepTuples projectID tenantID keep) :=
  { h with
    tuples := by
      intro sk k t ht
      rw [Store.get_tuples_keepTuples] at ht
      split_ifs at ht
      · exact h.tuples sk k t (Option.filter_eq_some_iff.mp ht).1
      · exact h.tuples sk k t ht }

theorem putProject {p : Project} (h : Exact codecs s) (hp : ProjectExact codecs.config p) :
    Exact codecs (s.putProject p) :=
  { h with projects := GoMap.forall_insert h.projects hp }

theorem putWorkspace {w : Workspace} (h : Exact codecs s) (hw : workspaceRow w = w) :
    Exact codecs (s.putWorkspace w) :=
  { h with workspaces := GoMap.forall_put₂ h.workspaces hw }

theorem putMembership {m : Membership} (h : Exact codecs s) (hm : membershipRow m = m) :
    Exact codecs (s.putMembership m) :=
  { h with memberships := GoMap.forall_put₃ h.memberships hm }

theorem putInvitation {inv : Invitation} (h : Exact codecs s) (hinv : invitationRow inv = inv) :
    Exact codecs (s.putInvitation inv) :=
  { h with invitations := GoMap.forall_put₂ h.invitations hinv }

theorem putGroup {g : Group} (h : Exact codecs s) (hg : groupRow g = g) :
    Exact codecs (s.putGroup g) :=
  { h with groups := GoMap.forall_put₂ h.groups hg }

theorem setEnrollment {e : Enrollment} (h : Exact codecs s) (he : EnrollmentExact e) :
    Exact codecs (s.setEnrollment e) :=
  { h with enrollments := GoMap.forall_put₃ h.enrollments he }

theorem assignSeat {a : SeatAssignment} (h : Exact codecs s) (ha : seatRow a = a) :
    Exact codecs (s.assignSeat a) :=
  { h with seats := GoMap.forall_put₃ h.seats ha }

theorem revokeSeat (h : Exact codecs s) (sku userID : GoString) :
    Exact codecs (s.revokeSeat projectID tenantID sku userID) :=
  { h with seats := GoMap.forall_erase₃ h.seats }

theorem deleteMembership (h : Exact codecs s)
    (projectID tenantID workspaceID userID : GoString) :
    Exact codecs (s.deleteMembership projectID tenantID workspaceID userID).2 := by
  unfold Store.deleteMembership
  dsimp only
  split_ifs
  · exact h
  · exact { h with memberships := GoMap.forall_erase₃ h.memberships }

theorem deleteMembershipAndTuples (h : Exact codecs s) (workspaceID userID : GoString)
    (deletes : List Tuple) : Exact codecs
      (s.deleteMembershipAndTuples projectID tenantID workspaceID userID deletes).2 := by
  have hdelete := h.deleteMembership projectID tenantID workspaceID userID
  unfold Store.deleteMembershipAndTuples
  split
  · rename_i heq
    rw [heq] at hdelete
    exact hdelete
  · rename_i heq
    rw [heq] at hdelete
    exact hdelete.writeTuples (List.forall_mem_nil _) deletes

theorem deleteWorkspace (h : Exact codecs s) (id : GoString) :
    Exact codecs (s.deleteWorkspace projectID tenantID id).2 := by
  unfold Store.deleteWorkspace
  dsimp only
  split_ifs
  · exact h
  · exact { h.keepTuples _ with
      workspaces := GoMap.forall_erase₂ h.workspaces
      memberships := by
        intro sk ws user m hm
        rw [GoMap.get₃_erase₂] at hm
        split_ifs at hm
        exact h.memberships sk ws user m hm
      invitations := GoMap.forall_filter h.invitations }

theorem deleteGroup (h : Exact codecs s) (id : GoString) :
    Exact codecs (s.deleteGroup projectID tenantID id).2 := by
  unfold Store.deleteGroup
  dsimp only
  split_ifs
  · exact h
  · exact { h.keepTuples _ with
      groups := GoMap.forall_erase₂ h.groups
      enrollments := by
        intro sk group k e he
        rw [GoMap.get₃_erase₂] at he
        split_ifs at he
        exact h.enrollments sk group k e he }

theorem assignSeatAndTuple {a : SeatAssignment} {tuple : Tuple} (h : Exact codecs s)
    (ha : seatRow a = a) (htuple : normalTuple tuple = tuple) :
    Exact codecs (s.assignSeatAndTuple a tuple).2 := by
  have htuples : ∀ t ∈ [tuple], normalTuple t = t := by simp [htuple]
  obtain ⟨-, heq⟩ | ⟨-, heq⟩ | ⟨-, -, heq⟩ := s.assignSeatAndTuple_cases a tuple
  · rw [heq]
    exact h.writeTuples htuples []
  · rw [heq]
    exact h
  · rw [heq]
    exact (h.assignSeat ha).writeTuples htuples []

theorem deleteAllSubjectTuplesInProject (h : Exact codecs s) (userID : GoString) :
    Exact codecs (s.deleteAllSubjectTuplesInProject projectID userID).2 :=
  { h with
    seats := by
      intro sk sku user a ha
      have hget : (Store.withoutSeats projectID userID s.seatAssigns).get₃ sk sku user = some a :=
        ha
      rw [Store.get_withoutSeats] at hget
      split_ifs at hget
      exact h.seats sk sku user a hget
    tuples := by
      intro sk k t ht
      have hget : (Store.withoutSubject projectID userID s.tuples).get₂ sk k = some t := ht
      rw [Store.get_withoutSubject] at hget
      split_ifs at hget
      · exact h.tuples sk k t (Option.filter_eq_some_iff.mp hget).1
      · exact h.tuples sk k t hget }

end Exact

/-! ## Members that have names -/

def MembersNamed (T : Contents) : Prop :=
  ∀ k c, T.enrollments.lookup k = some c → ∃ member, memberKey member = k.member

/-- If a transaction commits, it has kept what holds of the tables. -/
def Preserves {α : Type} (P : Contents → Prop) (x : Tx α) : Prop :=
  ∀ T a T', P T → x T = .ok (a, T') → P T'

namespace Preserves

variable {α β : Type} {P : Contents → Prop}

theorem statement {args : List GoString} {run : Contents → α × Contents}
    (h : ∀ T, P T → P (run T).2) : Preserves P (Serial.txExec args run) := by
  intro T a T' hT heq
  rw [Serial.txExec, query] at heq
  split_ifs at heq
  have hT' : (run T).2 = T' := congrArg Prod.snd (Except.ok.inj heq)
  exact hT' ▸ h T hT

theorem pure (a : α) : Preserves P (Pure.pure a : Tx α) := by
  intro T a' T' hT heq
  cases heq
  exact hT

theorem throw (e : ServiceError) : Preserves P (MonadExcept.throw e : Tx α) := by
  intro T a T' _ heq
  cases heq

theorem bind {x : Tx α} {f : α → Tx β} (hx : Preserves P x) (hf : ∀ a, Preserves P (f a)) :
    Preserves P (x >>= f) := by
  intro T b T' hT heq
  cases hr : x T with
  | error e =>
    rw [Serial.bind_of_error hr] at heq
    cases heq
  | ok r =>
    rw [Serial.bind_of_ok hr] at heq
    exact hf r.1 r.2 b T' (hx T r.1 r.2 hT hr) heq

theorem ite {c : Prop} [Decidable c] {x y : Tx α} (hx : Preserves P x) (hy : Preserves P y) :
    Preserves P (if c then x else y) := by
  split_ifs
  · exact hx
  · exact hy

theorem forM {l : List α} {body : α → Tx Unit} (h : ∀ a, Preserves P (body a)) :
    Preserves P (l.forM body) := by
  induction l with
  | nil => exact pure ()
  | cons a l ih => exact bind (h a) fun _ => ih

end Preserves

namespace Serial

theorem membersNamed_writeTuplesExec (codec : ParamsCodec) (projectID tenantID : GoString)
    (inserts deletes : List Tuple) :
    Preserves MembersNamed (writeTuplesExec codec projectID tenantID inserts deletes) := by
  refine .bind (.forM fun t => .statement fun _ h => h) fun _ => .bind (.forM fun t => ?_) fun _ =>
    .statement fun _ h => h
  exact .ite (.statement fun _ h => h) (.throw _)

theorem membersNamed_createWorkspace (w : Workspace) :
    Preserves MembersNamed (createWorkspace w) := by
  refine .bind (.statement fun T h => ?_) fun _ => .ite (.pure _) (.throw _)
  split_ifs <;> exact h

theorem membersNamed_updateWorkspace (w : Workspace) :
    Preserves MembersNamed (updateWorkspace w) := by
  refine .bind (.statement fun T h => ?_) fun failure => ?_
  · split_ifs <;> exact h
  · cases failure with
    | none => exact .pure _
    | some e => exact .throw e

theorem membersNamed_deleteWorkspace (projectID tenantID id : GoString) :
    Preserves MembersNamed (deleteWorkspace projectID tenantID id) :=
  .bind (.statement fun _ h => h) fun _ => .ite
    (.bind (.statement fun _ h => h) fun _ => .bind (.statement fun _ h => h) fun _ =>
      .bind (.statement fun _ h => h) fun _ => .statement fun _ h => h) (.throw _)

theorem membersNamed_deleteMembershipExec (projectID tenantID workspaceID userID : GoString) :
    Preserves MembersNamed (deleteMembershipExec projectID tenantID workspaceID userID) :=
  .bind (.statement fun _ h => h) fun _ => .ite (.pure _) (.throw _)

theorem membersNamed_createInvitation (inv : Invitation) :
    Preserves MembersNamed (createInvitation inv) := by
  refine .bind (.statement fun T h => ?_) fun _ => .ite (.pure _) (.throw _)
  split_ifs <;> exact h

theorem membersNamed_updateInvitation (inv : Invitation) :
    Preserves MembersNamed (updateInvitation inv) := by
  refine .bind (.statement fun T h => ?_) fun _ => .ite (.pure _) (.throw _)
  split_ifs <;> exact h

theorem membersNamed_createGroup (g : Group) : Preserves MembersNamed (createGroup g) := by
  refine .bind (.statement fun T h => ?_) fun _ => .ite (.pure _) (.throw _)
  split_ifs <;> exact h

theorem membersNamed_deleteGroup (projectID tenantID id : GoString) :
    Preserves MembersNamed (deleteGroup projectID tenantID id) := by
  refine .bind (.statement fun _ h => h) fun _ => .ite
    (.bind (.statement fun _ h => h) fun _ => .bind (.statement fun T h k c hk => ?_) fun _ =>
      .statement fun _ h => h) (.throw _)
  rw [Table.lookup_filter, Option.filter_eq_some_iff] at hk
  exact h k c hk.1

theorem membersNamed_setEnrollmentAndTuples (codec : ParamsCodec) (e : Enrollment)
    (inserts deletes : List Tuple) :
    Preserves MembersNamed (setEnrollmentAndTuples codec e inserts deletes) := by
  refine .bind (.statement fun T h k c hk => ?_) fun _ => membersNamed_writeTuplesExec _ _ _ _ _
  rw [Table.lookup_insert_ite] at hk
  split_ifs at hk with heq
  · exact ⟨e.member, by rw [heq]; rfl⟩
  · exact h k c hk

theorem membersNamed_setSeatLimit (q : SkuKey) (limit : Option ℤ) :
    Preserves MembersNamed (setSeatLimit q limit) := by
  cases limit with
  | none => exact .statement fun _ h => h
  | some n => exact .ite (.statement fun _ h => h) (.throw _)

theorem membersNamed_enforceLimit (q : SkuKey) : Preserves MembersNamed (enforceLimit q) := by
  refine .bind (.statement fun _ h => h) fun limit => ?_
  cases limit with
  | none => exact .pure _
  | some n => exact .bind (.statement fun _ h => h) fun _ => .ite (.throw _) (.pure _)

theorem membersNamed_assignSeatAndTuple (codec : ParamsCodec) (a : SeatAssignment)
    (tuple : Tuple) : Preserves MembersNamed (assignSeatAndTuple codec a tuple) := by
  refine .bind (.statement fun _ h => h) fun _ => .bind (.statement fun _ h => h) fun _ => .ite
    (.bind (membersNamed_writeTuplesExec _ _ _ _ _) fun _ => .pure _)
    (.bind (membersNamed_enforceLimit _) fun _ => .bind ?_ fun _ =>
      .bind (membersNamed_writeTuplesExec _ _ _ _ _) fun _ => .pure _)
  refine .bind (.statement fun T h => ?_) fun _ => .ite (.pure _) (.throw _)
  split_ifs <;> exact h

theorem membersNamed_deleteAllSubjectTuplesInProject (projectID userID : GoString) :
    Preserves MembersNamed (deleteAllSubjectTuplesInProject projectID userID) :=
  .bind (.statement fun _ h => h) fun _ => .bind (.statement fun _ h => h) fun _ => .pure _

end Serial

/-! ## Calls -/

/-- What a call writes comes back as it was. -/
def ExactCall (codecs : Codecs) : Call → Prop
  | .createProject p | .updateProject p => ProjectExact codecs.config p
  | .writeTuples _ _ inserts _ => ∀ t ∈ inserts, normalTuple t = t
  | .createWorkspace w | .updateWorkspace w => workspaceRow w = w
  | .putMembership m => membershipRow m = m
  | .putMembershipAndTuples m inserts _ =>
    membershipRow m = m ∧ ∀ t ∈ inserts, normalTuple t = t
  | .createInvitation inv | .updateInvitation inv => invitationRow inv = inv
  | .createGroup g => groupRow g = g
  | .setEnrollmentAndTuples e inserts _ => EnrollmentExact e ∧ ∀ t ∈ inserts, normalTuple t = t
  | .assignSeatAndTuple a tuple => seatRow a = a ∧ normalTuple tuple = tuple
  | _ => True

theorem Exact.exec {codecs : Codecs} {s : Store} {c : Call} (h : Exact codecs s)
    (hc : ExactCall codecs c) (env : Env) : Exact codecs (Service.exec env c s).2 := by
  have hite : ∀ (b : Bool) (r r' : Except ServiceError Unit) {s' : Store}, Exact codecs s' →
      Exact codecs (if b then (r, s) else (r', s')).2 := by
    intro b r r' s' hs'
    cases b
    · exact hs'
    · exact h
  cases c with
  | createProject p => exact hite _ _ _ (h.putProject hc)
  | updateProject p => exact hite _ _ _ (h.putProject hc)
  | writeTuples projectID tenantID inserts deletes => exact h.writeTuples hc deletes
  | deleteAllSubjectTuplesInProject projectID userID =>
    exact h.deleteAllSubjectTuplesInProject userID
  | createWorkspace w =>
    obtain ⟨e, he⟩ | ⟨-, he⟩ := s.createWorkspace_cases w
    · rw [Service.exec, he]
      exact h
    · rw [Service.exec, he]
      exact h.putWorkspace hc
  | updateWorkspace w => exact hite _ _ _ (h.putWorkspace hc)
  | deleteWorkspace projectID tenantID id => exact h.deleteWorkspace id
  | putMembership m => exact h.putMembership hc
  | deleteMembership projectID tenantID workspaceID userID => exact h.deleteMembership _ _ _ _
  | putMembershipAndTuples m inserts deletes =>
    exact (h.putMembership hc.1).writeTuples hc.2 deletes
  | deleteMembershipAndTuples projectID tenantID workspaceID userID deletes =>
    exact h.deleteMembershipAndTuples workspaceID userID deletes
  | createInvitation inv => exact hite _ _ _ (h.putInvitation hc)
  | updateInvitation inv => exact hite _ _ _ (h.putInvitation hc)
  | createGroup g => exact hite _ _ _ (h.putGroup hc)
  | deleteGroup projectID tenantID id => exact h.deleteGroup id
  | setEnrollmentAndTuples e inserts deletes =>
    exact (h.setEnrollment hc.1).writeTuples hc.2 deletes
  | setSeatLimit projectID tenantID sku limit => cases limit <;> exact { h with }
  | assignSeatAndTuple a tuple => exact h.assignSeatAndTuple hc.1 hc.2
  | revokeSeatAndTuple projectID tenantID sku userID tuple =>
    exact (h.revokeSeat sku userID).writeTuples (List.forall_mem_nil _) [tuple]
  | _ => exact h

abbrev Texts (l : List GoString) : Prop := ∀ x ∈ l, isText x

/-- The database takes the arguments of a call. The three listings of tuples are left out, since
the two drivers order them differently. -/
def Accepted (codec : ParamsCodec) (D : Database) : Call → Prop
  | .createProject p => Texts [p.id, p.name]
  | .updateProject p => Texts [p.id, p.name] ∧
    ∀ row, D.projects.lookup p.id = some row → row.createdAt = micros p.createdAt
  | .getProject id => Texts [id]
  | .writeTuples projectID tenantID inserts deletes =>
    (Mutation.writeTuples projectID tenantID inserts deletes).Validated codec
  | .consistencyToken projectID tenantID => Texts [projectID, tenantID]
  | .listSubjects projectID tenantID n =>
    Texts [projectID, tenantID, n.ns, n.objectID, n.relation]
  | .listObjectIDs projectID tenantID ns => Texts [projectID, tenantID, ns]
  | .deleteAllSubjectTuplesInProject projectID userID => Texts [projectID, userID]
  | .readTuples .. | .listSubjectTuplesInProject .. | .listTuplesForSubjectSetsInProject .. =>
    False
  | .createWorkspace w =>
    Texts [w.projectID, w.tenantID, w.id, w.slug, w.displayName, w.ownerUserID]
  | .updateWorkspace w =>
    Texts [w.projectID, w.tenantID, w.id, w.slug, w.displayName, w.ownerUserID] ∧
      ¬ Serial.violatesPersonal D.toContents w
  | .putMembership m => Texts [m.projectID, m.tenantID, m.workspaceID, m.userID]
  | .getMembership projectID tenantID workspaceID userID
  | .deleteMembership projectID tenantID workspaceID userID =>
    Texts [projectID, tenantID, workspaceID, userID]
  | .putMembershipAndTuples m inserts deletes =>
    (Mutation.putMembershipAndTuples m inserts deletes).Validated codec
  | .deleteMembershipAndTuples projectID tenantID workspaceID userID deletes =>
    (Mutation.deleteMembershipAndTuples projectID tenantID workspaceID userID deletes).Validated
      codec
  | .createInvitation inv | .updateInvitation inv => Texts (Serial.invitationArgs inv)
  | .getWorkspace projectID tenantID x | .deleteWorkspace projectID tenantID x
  | .personalWorkspace projectID tenantID x | .workspacesForUser projectID tenantID x
  | .listMembers projectID tenantID x | .getInvitation projectID tenantID x
  | .getInvitationByTokenHash projectID tenantID x | .listInvitations projectID tenantID x
  | .getGroup projectID tenantID x | .listGroups projectID tenantID x
  | .deleteGroup projectID tenantID x | .listEnrollments projectID tenantID x
  | .getSeatUsage projectID tenantID x | .listSeats projectID tenantID x =>
    Texts [projectID, tenantID, x]
  | .createGroup g =>
    Texts [g.projectID, g.tenantID, g.id, g.workspaceID, g.slug, g.displayName, g.createdBy]
  | .setEnrollmentAndTuples e inserts deletes =>
    (Mutation.setEnrollmentAndTuples e inserts deletes).Validated codec
  | .getEnrollment projectID tenantID groupID member =>
    Texts [projectID, tenantID, groupID, member.userID, member.groupID]
  | .setSeatLimit projectID tenantID sku limit =>
    (Mutation.setSeatLimit projectID tenantID sku limit).Validated codec
  | .assignSeatAndTuple a tuple => (Mutation.assignSeatAndTuple a tuple).Validated codec
  | .revokeSeatAndTuple projectID tenantID sku userID tuple =>
    (Mutation.revokeSeatAndTuple projectID tenantID sku userID tuple).Validated codec
  | .listProjects | .check .. | .ensureProjectActive _ | .ensureRegion _ | .modelOrDefault _ | .now
  | .newID | .randToken => True

/-- The calls that lose nothing on their way to the database. -/
def Portable (codecs : Codecs) (D : Database) (c : Call) : Prop :=
  Accepted codecs.params D c ∧ ExactCall codecs c

section Refinement

variable {codecs : Codecs} {s : Store} {D : Database}

theorem represents_empty (codecs : Codecs) : Represents codecs .empty {} where
  contents := Serial.mirrors_empty codecs.params
  projects _ := by simp [Store.empty]
  members _ _ h := by simp at h
  exact := .empty codecs

theorem Represents.of_agrees {α : Type} {tx : Tx α} {r : Except ServiceError α × Store}
    (h : Represents codecs s D) (hagrees : Serial.Agrees codecs.params tx D.toContents r)
    (hmembers : Preserves MembersNamed tx) (hprojects : r.2.projects = s.projects)
    (hexact : Exact codecs r.2) :
    r.1 = (D.transact tx).1 ∧ Represents codecs r.2 (D.transact tx).2 := by
  obtain ⟨hreply, hcontents⟩ := hagrees
  refine ⟨hreply.symm, hcontents, ?_, ?_, hexact⟩
  · rw [hprojects]
    exact h.projects
  · change MembersNamed (Postgres.transact tx D.toContents).2
    unfold Postgres.transact
    cases htx : tx D.toContents with
    | error e => exact h.members
    | ok p => exact hmembers _ p.1 p.2 h.members htx

theorem projectExec_eq {codec : ConfigCodec} {p : Project} (hp : ProjectExact codec p)
    (htexts : Texts [p.id, p.name]) (D : Database)
    (run : Except ServiceError Unit × Database) : Serial.projectExec codec D p run = run := by
  obtain ⟨stored, hstored, -⟩ := hp.config
  refine if_pos ?_
  rw [encodeProjectConfig, hstored, List.all_eq_true.mpr htexts]
  rfl

theorem Represents.putProject {p : Project} (h : Represents codecs s D)
    (hp : ProjectExact codecs.config p) : Represents codecs (s.putProject p)
      { D with projects := D.projects.insert p.id (projectCells codecs.config p) } where
  contents := { h.contents with }
  projects id := by
    rw [Table.lookup_insert_ite, h.projects, Store.putProject, GoMap.get_insert]
    split_ifs <;> rfl
  members := h.members
  exact := h.exact.putProject hp

theorem Represents.createProject {p : Project} (h : Represents codecs s D)
    (hp : ProjectExact codecs.config p) (htexts : Texts [p.id, p.name]) :
    (s.createProject p).1 = (Serial.createProject codecs.config D p).1 ∧
      Represents codecs (s.createProject p).2 (Serial.createProject codecs.config D p).2 := by
  rw [Serial.createProject, projectExec_eq hp htexts, Store.createProject, h.projects,
    Option.isSome_map]
  split_ifs
  · exact ⟨rfl, h⟩
  · exact ⟨rfl, h.putProject hp⟩

/-- The time of creation that is kept is the one that would be written. -/
theorem Represents.updateProject {p : Project} (h : Represents codecs s D)
    (hp : ProjectExact codecs.config p) (htexts : Texts [p.id, p.name])
    (hcreated : ∀ row, D.projects.lookup p.id = some row → row.createdAt = micros p.createdAt) :
    (s.updateProject p).1 = (Serial.updateProject codecs.config D p).1 ∧
      Represents codecs (s.updateProject p).2 (Serial.updateProject codecs.config D p).2 := by
  rw [Serial.updateProject, projectExec_eq hp htexts, Store.updateProject]
  cases hq : s.projects.get p.id with
  | none =>
    have hrow : D.projects.lookup p.id = none := by rw [h.projects, hq, Option.map_none]
    rw [hrow]
    exact ⟨rfl, h⟩
  | some q =>
    have hrow : D.projects.lookup p.id = some (projectCells codecs.config q) := by
      rw [h.projects, hq, Option.map_some]
    have hcells : { projectCells codecs.config p with
        createdAt := (projectCells codecs.config q).createdAt } = projectCells codecs.config p := by
      rw [hcreated _ hrow]
      rfl
    rw [hrow]
    dsimp only
    rw [hcells]
    exact ⟨rfl, h.putProject hp⟩

/-- Every portable call is one of the memory store. -/
theorem refines_exec (codecs : Codecs) :
    Refines (exec codecs id) Service.exec (fun D _ _ c => Portable codecs D c)
      (Represents codecs) := by
  intro env s D others trace c h hc
  obtain ⟨haccepted, hexact⟩ := hc
  have hstored := h.exact.exec hexact env.1
  have hprojects {projectID tenantID : GoString} (hshard : c.shard? = some (projectID, tenantID)) :
      (Service.exec env.1 c s).2.projects = s.projects :=
    (local_exec env.1 hshard).updates.frame s none (by simp)
  cases c with
  | createProject p => exact ⟨env.1, h.createProject hexact haccepted⟩
  | updateProject p => exact ⟨env.1, h.updateProject hexact haccepted.1 haccepted.2⟩
  | getProject id => exact ⟨env.1, (Serial.getProject_eq h haccepted _).symm, h⟩
  | listProjects => exact ⟨env.1, (Serial.listProjects_eq h _ _ _).symm, h⟩
  | writeTuples projectID tenantID inserts deletes =>
    exact ⟨env.1, h.of_agrees (Serial.agrees_perform h.contents haccepted env.1)
      (Serial.membersNamed_writeTuplesExec _ _ _ _ _) rfl hstored⟩
  | consistencyToken projectID tenantID =>
    exact ⟨env.1, (Serial.consistencyToken_eq h.contents haccepted).symm, h⟩
  | listSubjects projectID tenantID n =>
    obtain ⟨order, horder⟩ := Serial.exists_listSubjects_eq h haccepted env.2.tuples env.1.now
    exact ⟨{ env.1 with order }, horder, h⟩
  | listObjectIDs projectID tenantID ns =>
    obtain ⟨ids, hids, -, heq⟩ := Serial.listObjectIDs_perm h.contents env.2.tuples id env.1.order
      env.1.now haccepted
    exact ⟨env.1, (hids.trans (congrArg Except.ok (heq rfl))).symm, h⟩
  | readTuples | listSubjectTuplesInProject | listTuplesForSubjectSetsInProject =>
    exact haccepted.elim
  | deleteAllSubjectTuplesInProject projectID userID =>
    exact ⟨env.1, h.of_agrees
      (Serial.agrees_deleteAllSubjectTuplesInProject h.contents haccepted)
      (Serial.membersNamed_deleteAllSubjectTuplesInProject _ _) rfl hstored⟩
  | createWorkspace w =>
    exact ⟨env.1, h.of_agrees (Serial.agrees_createWorkspace h.contents haccepted)
      (Serial.membersNamed_createWorkspace w) (hprojects rfl) hstored⟩
  | getWorkspace projectID tenantID id =>
    exact ⟨env.1, (Serial.getWorkspace_eq h haccepted).symm, h⟩
  | updateWorkspace w =>
    exact ⟨env.1, h.of_agrees
      (Serial.agrees_updateWorkspace h.contents haccepted.1 haccepted.2)
      (Serial.membersNamed_updateWorkspace w) (hprojects rfl) hstored⟩
  | deleteWorkspace projectID tenantID id =>
    exact ⟨env.1, h.of_agrees (Serial.agrees_deleteWorkspace h.contents haccepted)
      (Serial.membersNamed_deleteWorkspace _ _ _) (hprojects rfl) hstored⟩
  | personalWorkspace projectID tenantID userID =>
    obtain ⟨order, horder⟩ := Serial.exists_personalWorkspace_eq h haccepted env.2.workspaces
    exact ⟨{ env.1 with order }, horder, h⟩
  | workspacesForUser projectID tenantID userID =>
    exact ⟨env.1, (Serial.workspacesForUser_eq h haccepted _ _).symm, h⟩
  | getMembership projectID tenantID workspaceID userID =>
    exact ⟨env.1, (Serial.getMembership_eq h haccepted).symm, h⟩
  | listMembers projectID tenantID workspaceID =>
    exact ⟨env.1, (Serial.listMembers_eq h haccepted _ _).symm, h⟩
  | putMembership m =>
    exact ⟨env.1, h.of_agrees (Serial.agrees_putMembership h.contents haccepted)
      (.statement fun _ hT => hT) rfl hstored⟩
  | deleteMembership projectID tenantID workspaceID userID =>
    exact ⟨env.1, h.of_agrees (Serial.agrees_deleteMembership h.contents haccepted)
      (Serial.membersNamed_deleteMembershipExec _ _ _ _) (hprojects rfl) hstored⟩
  | putMembershipAndTuples m inserts deletes =>
    exact ⟨env.1, h.of_agrees (Serial.agrees_perform h.contents haccepted env.1)
      (.bind (.statement fun _ hT => hT) fun _ => Serial.membersNamed_writeTuplesExec _ _ _ _ _)
      rfl hstored⟩
  | deleteMembershipAndTuples projectID tenantID workspaceID userID deletes =>
    exact ⟨env.1, h.of_agrees (Serial.agrees_perform h.contents haccepted env.1)
      (.bind (Serial.membersNamed_deleteMembershipExec _ _ _ _) fun _ =>
        Serial.membersNamed_writeTuplesExec _ _ _ _ _) (hprojects rfl) hstored⟩
  | createInvitation inv =>
    exact ⟨env.1, h.of_agrees (Serial.agrees_createInvitation h.contents haccepted)
      (Serial.membersNamed_createInvitation inv) (hprojects rfl) hstored⟩
  | getInvitation projectID tenantID id =>
    exact ⟨env.1, (Serial.getInvitation_eq h haccepted).symm, h⟩
  | getInvitationByTokenHash projectID tenantID tokenHash =>
    obtain ⟨order, horder⟩ :=
      Serial.exists_getInvitationByTokenHash_eq h haccepted env.2.invitations
    exact ⟨{ env.1 with order }, horder, h⟩
  | updateInvitation inv =>
    exact ⟨env.1, h.of_agrees (Serial.agrees_updateInvitation h.contents haccepted)
      (Serial.membersNamed_updateInvitation inv) (hprojects rfl) hstored⟩
  | listInvitations projectID tenantID workspaceID =>
    exact ⟨env.1, (Serial.listInvitations_eq h haccepted _ _).symm, h⟩
  | createGroup g =>
    exact ⟨env.1, h.of_agrees (Serial.agrees_createGroup h.contents haccepted)
      (Serial.membersNamed_createGroup g) (hprojects rfl) hstored⟩
  | getGroup projectID tenantID id => exact ⟨env.1, (Serial.getGroup_eq h haccepted).symm, h⟩
  | listGroups projectID tenantID workspaceID =>
    exact ⟨env.1, (Serial.listGroups_eq h haccepted _ _).symm, h⟩
  | deleteGroup projectID tenantID id =>
    exact ⟨env.1, h.of_agrees (Serial.agrees_deleteGroup h.contents haccepted)
      (Serial.membersNamed_deleteGroup _ _ _) (hprojects rfl) hstored⟩
  | setEnrollmentAndTuples e inserts deletes =>
    exact ⟨env.1, h.of_agrees (Serial.agrees_perform h.contents haccepted env.1)
      (Serial.membersNamed_setEnrollmentAndTuples _ _ _ _) rfl hstored⟩
  | getEnrollment projectID tenantID groupID member =>
    exact ⟨env.1, (Serial.getEnrollment_eq h haccepted).symm, h⟩
  | listEnrollments projectID tenantID groupID =>
    exact ⟨env.1, (Serial.listEnrollments_eq h haccepted _ _).symm, h⟩
  | setSeatLimit projectID tenantID sku limit =>
    exact ⟨env.1, h.of_agrees (Serial.agrees_perform h.contents haccepted env.1)
      (Serial.membersNamed_setSeatLimit _ _) (hprojects rfl) hstored⟩
  | getSeatUsage projectID tenantID sku =>
    exact ⟨env.1, (Serial.getSeatUsage_eq h.contents haccepted).symm, h⟩
  | assignSeatAndTuple a tuple =>
    exact ⟨env.1, h.of_agrees (Serial.agrees_perform h.contents haccepted env.1)
      (Serial.membersNamed_assignSeatAndTuple _ _ _) (hprojects rfl) hstored⟩
  | revokeSeatAndTuple projectID tenantID sku userID tuple =>
    exact ⟨env.1, h.of_agrees (Serial.agrees_perform h.contents haccepted env.1)
      (.bind (.statement fun _ hT => hT) fun _ => Serial.membersNamed_writeTuplesExec _ _ _ _ _)
      rfl hstored⟩
  | listSeats projectID tenantID sku =>
    exact ⟨env.1, (Serial.listSeats_eq h haccepted _ _).symm, h⟩
  | _ => exact ⟨env.1, rfl, h⟩

/-- Programs that run interleaved over the database, each call in a transaction of its own, run as
they do over the memory store. -/
theorem postgres_runs_refine (codecs : Codecs) {α : Type} (programs : List (Prog Call Reply α))
    {c : Config Database Call Reply α}
    (h : Reaches (exec codecs id) (fun D _ _ c => Portable codecs D c) (.start {} programs) c) :
    ∃ s, Represents codecs s c.state ∧ Serial.SameListings codecs s c.state.toContents ∧
      Reaches Service.exec (fun _ _ _ _ => True) (.start .empty programs) ⟨s, c.processes⟩ := by
  obtain ⟨s, hs, hrun⟩ := h.refines (refines_exec codecs) (represents_empty codecs)
  exact ⟨s, hs, Serial.sameListings hs, hrun⟩

end Refinement

namespace LastSeat

def project : Project := ⟨"p", "P", .active, ∅, [], 0, 0, 0⟩

/-- Parameters are empty, and the only configuration is that of the project. -/
def codecs : Codecs where
  params := Serial.emptyObjects
  config := {
    marshal := fun _ => "\x7b\x7d"
    jsonb := Serial.emptyObjects.jsonb
    unmarshal := fun _ => some (projectConfig project)
    jsonb_ne_nil := Serial.emptyObjects.jsonb_ne_nil }

def assign (user : String) : Call :=
  .assignSeatAndTuple ⟨"p", "t", "pro", str user, 0⟩ (userTuple "sku" "pro" "holder" (str user))

/-- A project with one seat, and two users who want it. -/
def programs : List (Prog Call Reply Unit) :=
  [.call (.createProject project) fun _ =>
      .call (.setSeatLimit "p" "t" "pro" (some 1)) fun _ => .pure (),
    .call (assign "ann") fun _ => .pure (), .call (assign "bob") fun _ => .pure ()]

theorem nonempty_plan : Nonempty Plan := by
  have horder (κ : Type) : Nonempty (RowOrder κ) :=
    ⟨⟨Finset.toList, Finset.nodup_toList, fun _ _ => Finset.mem_toList⟩⟩
  exact ⟨⟨(horder _).some, (horder _).some, (horder _).some, (horder _).some, (horder _).some,
    (horder _).some, (horder _).some, (horder _).some⟩⟩

theorem portable_createProject (D : Database) : Portable codecs D (.createProject project) := by
  refine ⟨Serial.isText_str (l := ["p", "P"]) (by decide), ?_, ?_, rfl, rfl⟩
  · intro ns rels h
    simp [project] at h
  · exact ⟨"\x7b\x7d", by decide, rfl⟩

theorem portable_setSeatLimit (D : Database) :
    Portable codecs D (.setSeatLimit "p" "t" "pro" (some 1)) := by
  refine ⟨⟨Serial.isText_str (l := ["p", "t", "pro"]) (by decide), List.forall_mem_nil _, ?_⟩,
    trivial⟩
  rintro _ ⟨⟩
  decide

theorem portable_assign (D : Database) {user : String} (hne : str user ≠ [])
    (huser : 0 ∉ str user) :
    Portable codecs D (assign user) := by
  have htuple : Storable codecs.params (userTuple "sku" "pro" "holder" (str user)) :=
    Serial.storable_of_strings ["sku", "pro", "holder", user] (.inl ⟨hne, rfl, rfl⟩) rfl rfl rfl
      (by simpa using ⟨by decide, by decide, by decide, huser⟩)
  refine ⟨⟨?_, List.forall_mem_singleton.mpr htuple, fun _ h => by cases h⟩, rfl, rfl⟩
  exact Serial.isText_str (l := ["p", "t", "pro", user])
    (by simpa using ⟨by decide, by decide, by decide, huser⟩)

theorem last_seat_refines :
    ∃ c, Reaches (exec codecs id) (fun D _ _ c => Portable codecs D c) (.start {} programs) c ∧
      c.Finished ∧ ∃ s, Represents codecs s c.state ∧
        Serial.SameListings codecs s c.state.toContents ∧
        Reaches Service.exec (fun _ _ _ _ => True) (.start .empty programs) ⟨s, c.processes⟩ := by
  obtain ⟨plan⟩ := nonempty_plan
  have hrun : Reaches (exec codecs id) (fun D _ _ c => Portable codecs D c)
      (.start {} programs) _ :=
    reaches_run _ _ [(0, ({}, plan)), (0, ({}, plan)), (1, ({}, plan)), (2, ({}, plan))] (by
      refine ⟨?_, ?_, ?_, ?_, trivial⟩
      · rintro _ ⟨⟩
        exact portable_createProject _
      · rintro _ ⟨⟩
        exact portable_setSeatLimit _
      · rintro _ ⟨⟩
        exact portable_assign _ (by decide) (by decide)
      · rintro _ ⟨⟩
        exact portable_assign _ (by decide) (by decide))
  refine ⟨_, hrun, ?_, postgres_runs_refine codecs programs hrun⟩
  exact List.forall_mem_cons.mpr ⟨rfl, List.forall_mem_cons.mpr ⟨rfl,
    List.forall_mem_singleton.mpr rfl⟩⟩

end LastSeat

end Postgres

end WorkspaceAuthz.Service
