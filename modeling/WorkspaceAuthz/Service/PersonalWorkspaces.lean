import WorkspaceAuthz.Service.Workspaces

/-! # First use of a personal workspace

A personal workspace is created when its user first asks for it: one call writes the
workspace, the next one the owner's row and tuple. Here is what a request does, call
by call, and what the two calls leave in the store.
-/
namespace WorkspaceAuthz.Service
open Go Authz Interleaving

/-! ## What a request does -/

def IsPersonalOf (p : Principal) (w : Workspace) : Prop :=
  w.projectID = p.projectID ∧ w.tenantID = p.tenantID ∧ w.type = .personal ∧
    w.ownerUserID = p.userID

def ownerRow (w : Workspace) : Membership :=
  ⟨w.projectID, w.tenantID, w.id, w.ownerUserID, .owner, .active, w.createdAt, w.updatedAt⟩

/-- The workspace that was created by the latest call. -/
def pending? : CallTrace → Option Workspace
  | ⟨.createWorkspace w, .ok ()⟩ :: _ => some w
  | _ => none

/-- The workspace that the request returns after its latest call. -/
def returned? : CallTrace → Option Workspace
  | ⟨.personalWorkspace .., .ok w⟩ :: _ => some w
  | ⟨.putMembershipAndTuples .., .ok ()⟩ :: ⟨.createWorkspace w, .ok ()⟩ :: _ => some w
  | _ => none

/-- The request has tried to create a workspace. -/
def Attempted (trace : CallTrace) : Prop := ∃ x ∈ trace, ∃ w, x.1 = .createWorkspace w

/-- What a request does next; the owner's row follows the workspace. -/
def FirstUse (p : Principal) (trace : CallTrace) : Call → Prop
  | .personalWorkspace projectID tenantID userID => pending? trace = none ∧
      projectID = p.projectID ∧ tenantID = p.tenantID ∧ userID = p.userID
  | .now | .newID => pending? trace = none
  | .createWorkspace w => pending? trace = none ∧ IsPersonalOf p w
  | .putMembershipAndTuples m inserts deletes => ∃ w, pending? trace = some w ∧
      IsPersonalOf p w ∧ m = ownerRow w ∧ inserts = [roleTuple w.id w.ownerUserID .owner] ∧
        deletes = []
  | _ => False

/-- The errors that a request returns. -/
def Unexpected (trace : CallTrace) (e : ServiceError) : Call → Prop
  | .personalWorkspace .. => ¬ isNotFound e ∨ Attempted trace
  | .createWorkspace _ | .putMembershipAndTuples .. => ¬ isAlreadyExists e
  | _ => True

theorem eq_cons_of_pending {trace : CallTrace} {w : Workspace} (h : pending? trace = some w) :
    ∃ rest, trace = ⟨.createWorkspace w, .ok ()⟩ :: rest := by
  unfold pending? at h
  split at h
  · cases h
    exact ⟨_, rfl⟩
  · cases h

theorem pending_of_returned {trace : CallTrace} {w : Workspace} (h : returned? trace = some w) :
    pending? trace = none := by
  unfold returned? at h
  split at h
  · rfl
  · rfl
  · cases h

theorem pending_error (c : Call) (e : ServiceError) (trace : CallTrace) :
    pending? (⟨c, .error e⟩ :: trace) = none := by
  cases c <;> rfl

theorem keeps_ensurePersonalWorkspace (p : Principal)
    {relies : CallTrace → (c : Call) → Reply c → Prop}
    {Q : CallTrace → Except ServiceError Workspace → Prop}
    (hok : ∀ t w, returned? t = some w → Q t (.ok w))
    (herror : ∀ t c e, relies t c (.error e) → Unexpected t e c →
      Q (⟨c, .error e⟩ :: t) (.error e)) :
    (ensurePersonalWorkspace p).run.Keeps ⟨FirstUse p, relies⟩ Q [] := by
  have hretry : ∀ t, pending? t = none → Attempted t →
      (call (.personalWorkspace p.projectID p.tenantID p.userID)).run.Keeps
        ⟨FirstUse p, relies⟩ Q t := by
    intro t hnone ht
    refine ⟨⟨hnone, rfl, rfl, rfl⟩, fun r hr => ?_⟩
    cases r with
    | ok w => exact hok _ w rfl
    | error e => exact herror _ _ e hr (.inr ht)
  refine keeps_observe_then ⟨rfl, rfl, rfl, rfl⟩ fun r hr => ?_
  cases r with
  | ok w => exact hok _ w rfl
  | error e =>
    refine keeps_ite (fun hmissing => ?_) fun hother => herror _ _ e hr (.inl hother)
    refine keeps_attempt_then rfl (fun e he => herror _ _ e he trivial) fun now _ => ?_
    refine keeps_attempt_then rfl (fun e he => herror _ _ e he trivial) fun id _ => ?_
    rw [keeps_tryCatch, keeps_sequence, createWorkspaceWithOwner]
    refine keeps_attempt_then ⟨rfl, rfl, rfl, rfl, rfl⟩ (fun e he => ?_) fun _ _ => ?_
    · exact keeps_ite (fun _ => hretry _ rfl ⟨_, List.mem_cons_self, _, rfl⟩)
        fun hother => herror _ _ e he hother
    refine ⟨⟨_, rfl, ⟨rfl, rfl, rfl, rfl⟩, rfl, rfl, rfl⟩, fun r hr => ?_⟩
    cases r with
    | ok _ => exact hok _ _ rfl
    | error e =>
      exact keeps_ite (fun _ => hretry _ rfl ⟨_, List.mem_cons_of_mem _ List.mem_cons_self, _, rfl⟩)
        fun hother => herror _ _ e hr hother

/-! ## What it writes -/

namespace Store

def HasOwner (s : Store) (projectID tenantID : GoString) (w : Workspace) : Prop :=
  (∃ m, s.row projectID tenantID w.id w.ownerUserID = some m ∧ m.role = .owner ∧
    m.status = .active) ∧ s.Stored projectID tenantID (roleTuple w.id w.ownerUserID .owner)

def putOwner (s : Store) (w : Workspace) : Store :=
  s.putMembershipAndTuples (ownerRow w) [roleTuple w.id w.ownerUserID .owner] []

variable {s : Store} {projectID tenantID : GoString} {w : Workspace}

theorem row_putOwner {ws user : GoString} :
    (s.putOwner w).row projectID tenantID ws user =
      if scope projectID tenantID = scope w.projectID w.tenantID ∧ ws = w.id ∧
        user = w.ownerUserID then some (ownerRow w) else s.row projectID tenantID ws user :=
  row_putMembershipAndTuples

theorem stored_putOwner {t : Tuple}
    (hscope : scope projectID tenantID = scope w.projectID w.tenantID) :
    (s.putOwner w).Stored projectID tenantID t ↔ t = roleTuple w.id w.ownerUserID .owner ∨
      (s.Stored projectID tenantID t ∧
        tupleKey t ≠ tupleKey (roleTuple w.id w.ownerUserID .owner)) := by
  have hget : (s.putOwner w).tuples.get₂ (scope projectID tenantID) (tupleKey t) = _ :=
    get_tuples_writeTuples _ _ _ _ _ _ _
  have hscope : scope projectID tenantID = scope (ownerRow w).projectID (ownerRow w).tenantID :=
    hscope
  have hsame : (s.putMembership (ownerRow w)).tuples = s.tuples := rfl
  rw [Stored, hget, if_pos hscope, Stored, hsame]
  by_cases hkey : tupleKey t = tupleKey (roleTuple w.id w.ownerUserID .owner)
  · simp [hkey, eq_comm]
  · have hne : t ≠ roleTuple w.id w.ownerUserID .owner := fun h => hkey (congrArg _ h)
    simp [hkey, Ne.symm hkey, hne]

theorem hasOwner_putOwner (hscope : scope projectID tenantID = scope w.projectID w.tenantID) :
    (s.putOwner w).HasOwner projectID tenantID w := by
  constructor
  · refine ⟨ownerRow w, ?_, rfl, rfl⟩
    rw [row_putOwner, if_pos ⟨hscope, rfl, rfl⟩]
  · exact (stored_putOwner hscope).mpr (.inl rfl)

theorem HasOwner.putOwner {w' : Workspace} (h : s.HasOwner projectID tenantID w')
    (hscope : scope projectID tenantID = scope w.projectID w.tenantID) :
    (s.putOwner w).HasOwner projectID tenantID w' := by
  obtain ⟨⟨m, hrow, hm⟩, hstored⟩ := h
  constructor
  · by_cases hw : w'.id = w.id ∧ w'.ownerUserID = w.ownerUserID
    · refine ⟨ownerRow w, ?_, rfl, rfl⟩
      rw [row_putOwner, if_pos ⟨hscope, hw⟩]
    · refine ⟨m, ?_, hm⟩
      rw [row_putOwner, if_neg fun h => hw h.2, hrow]
  · apply (stored_putOwner hscope).mpr
    by_cases hkey : tupleKey (roleTuple w'.id w'.ownerUserID .owner) =
        tupleKey (roleTuple w.id w.ownerUserID .owner)
    · obtain ⟨hid, huser, -⟩ := roleTuple_key_inj hkey
      exact .inl (by rw [hid, huser])
    · exact .inr ⟨hstored, hkey⟩

theorem get_workspaces_putWorkspace (sk id : GoString) :
    (s.putWorkspace w).workspaces.get₂ sk id =
      if sk = scope w.projectID w.tenantID ∧ id = w.id then some w
      else s.workspaces.get₂ sk id :=
  GoMap.get₂_put₂ _ _ _ _ _ _

theorem HasOwner.putWorkspace {w' : Workspace} (h : s.HasOwner projectID tenantID w') :
    (s.putWorkspace w).HasOwner projectID tenantID w' := h

theorem personalWorkspace_eq_ok {order : MapOrder} {userID : GoString}
    (h : s.personalWorkspace order projectID tenantID userID = .ok w) :
    s.workspaces.get₂ (scope projectID tenantID) w.id = some w ∧ w.type = .personal ∧
      w.ownerUserID = userID := by
  have hfind := found_eq_ok.mp h
  obtain ⟨id, hget⟩ := GoMap.mem_values.mp (List.mem_of_find?_eq_some hfind)
  have hkeyed := s.workspaces_keyed (scope projectID tenantID) id w hget
  have hcond := List.find?_some hfind
  rw [decide_eq_true_eq] at hcond
  refine ⟨?_, hcond⟩
  rw [hkeyed.2]
  exact hget

theorem personalWorkspace_eq_error {order : MapOrder} {userID : GoString} {e : ServiceError}
    (h : s.personalWorkspace order projectID tenantID userID = .error e) :
    isNotFound e ∧ ∀ id w, s.workspaces.get₂ (scope projectID tenantID) id = some w →
      ¬ (w.type = .personal ∧ w.ownerUserID = userID) := by
  refine ⟨isNotFound_of_found h, fun id w hget hw => ?_⟩
  cases hfind : ((s.workspaces.inner (scope projectID tenantID)).values order).find? fun w =>
      w.type = .personal ∧ w.ownerUserID = userID with
  | some w' =>
    rw [personalWorkspace, hfind] at h
    cases h
  | none =>
    exact List.find?_eq_none.mp hfind w (GoMap.mem_values.mpr ⟨id, hget⟩) (by simpa using hw)

/-- Under a new id, only another personal workspace of the user is in the way. -/
theorem createWorkspace_personal (hpersonal : w.type = .personal)
    (hnone : s.workspaces.get₂ (scope w.projectID w.tenantID) w.id = none) :
    ((∃ id ex, s.workspaces.get₂ (scope w.projectID w.tenantID) id = some ex ∧
        ex.type = .personal ∧ ex.ownerUserID = w.ownerUserID) ∧
      s.createWorkspace w = (.error errAlreadyExists, s)) ∨
    (¬ (∃ id ex, s.workspaces.get₂ (scope w.projectID w.tenantID) id = some ex ∧
        ex.type = .personal ∧ ex.ownerUserID = w.ownerUserID) ∧
      s.createWorkspace w = (.ok (), s.putWorkspace w)) := by
  have hany : ((s.workspaces.inner (scope w.projectID w.tenantID)).any fun _ ex =>
      ex.type = .personal ∧ ex.ownerUserID = w.ownerUserID) ↔
      ∃ id ex, s.workspaces.get₂ (scope w.projectID w.tenantID) id = some ex ∧
        ex.type = .personal ∧ ex.ownerUserID = w.ownerUserID := by
    simp only [GoMap.any_iff, decide_eq_true_eq]
    rfl
  simp only [createWorkspace, hnone, Option.isSome_none, Bool.false_eq_true, if_false]
  by_cases hex : ∃ id ex, s.workspaces.get₂ (scope w.projectID w.tenantID) id = some ex ∧
      ex.type = .personal ∧ ex.ownerUserID = w.ownerUserID
  · exact .inl ⟨hex, if_pos ⟨hpersonal, hany.mpr hex⟩⟩
  · exact .inr ⟨hex, if_neg fun h => hex (hany.mp h.2)⟩

end Store

end WorkspaceAuthz.Service
