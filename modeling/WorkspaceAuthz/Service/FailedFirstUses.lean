import WorkspaceAuthz.Interleaving.Faults
import WorkspaceAuthz.Service.PersonalWorkspaces

/-! # First uses that fail

Requests for personal workspaces, one after the other, in which any call may fail and
any request may stop. A request that ends between the two calls leaves a workspace
without an owner, and later requests return it; if none does, whoever gets a workspace
is its owner.
-/
namespace WorkspaceAuthz.Service
open Go Authz Interleaving

/-- A workspace that is created gets its owner: the answer to its creation is seen and the
process goes on, and the call that writes the owner's row takes effect. -/
def Completes : Call → Fault ServiceError → Prop
  | .createWorkspace _, f => f = .none ∨ ∃ e, f = .refused e
  | .putMembershipAndTuples .., f => ∀ e, f ≠ .refused e
  | _, _ => True

/-- All personal workspaces have their owners, but for the one that is `pending`. -/
structure Store.Attended (p : Principal) (s : Store) (trace : CallTrace) : Prop where
  owned : ∀ id w, s.workspaces.get₂ (scope p.projectID p.tenantID) id = some w →
    w.type = .personal → (∀ w', pending? trace = some w' → id ≠ w'.id) →
      s.HasOwner p.projectID p.tenantID w
  pending : ∀ w, pending? trace = some w →
    s.workspaces.get₂ (scope p.projectID p.tenantID) w.id = some w
  returned : ∀ w, returned? trace = some w →
    s.workspaces.get₂ (scope p.projectID p.tenantID) w.id = some w ∧ w.type = .personal ∧
      w.ownerUserID = p.userID

section Faults

variable {p : Principal} {s s' : Store} {trace : CallTrace}

theorem Store.Attended.of_state (h : s.Attended p trace) (hnone : pending? trace = none)
    {x : Σ c, Reply c} (hpending : pending? (x :: trace) = none)
    (hreturned : ∀ w, returned? (x :: trace) = some w →
      s.workspaces.get₂ (scope p.projectID p.tenantID) w.id = some w ∧ w.type = .personal ∧
        w.ownerUserID = p.userID) : s.Attended p (x :: trace) where
  owned id w hget hw _ := h.owned id w hget hw (by simp [hnone])
  pending := by simp [hpending]
  returned := hreturned

theorem strike_of_quiet {env : Env} {c : Call} {f : Fault ServiceError} {o : Option (Reply c)}
    (h : strike exec env c s f = (o, s')) (hquiet : c.Quiet) :
    s' = s ∧ ∀ v, o = some (.ok v) → (exec env c s).1 = .ok v := by
  cases f with
  | none =>
    obtain ⟨rfl, rfl⟩ := Prod.mk.inj h
    exact ⟨exec_of_quiet hquiet env s, fun v hv => Option.some.inj hv⟩
  | refused e =>
    obtain ⟨rfl, rfl⟩ := Prod.mk.inj h
    exact ⟨rfl, nofun⟩
  | misreported e =>
    obtain ⟨rfl, rfl⟩ := Prod.mk.inj h
    exact ⟨exec_of_quiet hquiet env s, nofun⟩
  | stops =>
    obtain ⟨rfl, rfl⟩ := Prod.mk.inj h
    exact ⟨exec_of_quiet hquiet env s, nofun⟩

theorem Store.Attended.putOwner {w : Workspace} {trace' : CallTrace} (h : s.Attended p trace)
    (hw : pending? trace = some w) (hpersonal : IsPersonalOf p w)
    (hpending : pending? trace' = none)
    (hreturned : ∀ w', returned? trace' = some w' → w' = w) :
    (s.putOwner w).Attended p trace' where
  owned id w' hget hw' _ := by
    have hscope : scope p.projectID p.tenantID = scope w.projectID w.tenantID := by
      rw [hpersonal.1, hpersonal.2.1]
    by_cases hid : id = w.id
    · have hsame : some w' = some w := by
        rw [← h.pending w hw, ← hid]
        exact hget.symm
      cases hsame
      exact hasOwner_putOwner hscope
    · refine (h.owned id w' hget hw' fun w'' hw'' => ?_).putOwner hscope
      rw [hw] at hw''
      cases hw''
      exact hid
  pending := by simp [hpending]
  returned := by
    intro w' hw'
    rw [hreturned w' hw']
    exact ⟨h.pending w hw, hpersonal.2.2⟩

theorem Store.Attended.putWorkspace {w : Workspace} (h : s.Attended p trace)
    (hnone : pending? trace = none) (hpersonal : IsPersonalOf p w) :
    (s.putWorkspace w).Attended p (⟨.createWorkspace w, .ok ()⟩ :: trace) where
  owned id w' hget hw' hid := by
    rw [get_workspaces_putWorkspace, if_neg fun h => hid w rfl h.2] at hget
    exact h.owned id w' hget hw' (by simp [hnone])
  pending := by
    rintro _ ⟨⟩
    rw [get_workspaces_putWorkspace, if_pos ⟨by rw [hpersonal.1, hpersonal.2.1], rfl⟩]
  returned := nofun

theorem attended_reply (env : Env) (f : Fault ServiceError) (c : Call) (r : Reply c)
    (h : s.Attended p trace) (hissues : FirstUse p trace c) (hf : Completes c f)
    (hstrike : strike exec env c s f = (some r, s')) : s'.Attended p (⟨c, r⟩ :: trace) := by
  cases c with
  | personalWorkspace projectID tenantID userID =>
    obtain ⟨rfl, hr⟩ := strike_of_quiet hstrike trivial
    obtain ⟨hnone, rfl, rfl, rfl⟩ := hissues
    cases r with
    | error e => exact h.of_state hnone rfl nofun
    | ok w =>
      refine h.of_state hnone rfl ?_
      rintro _ ⟨⟩
      exact Store.personalWorkspace_eq_ok (hr w rfl)
  | now =>
    obtain ⟨rfl, -⟩ := strike_of_quiet hstrike trivial
    exact h.of_state hissues rfl nofun
  | newID =>
    obtain ⟨rfl, -⟩ := strike_of_quiet hstrike trivial
    exact h.of_state hissues rfl nofun
  | createWorkspace w =>
    obtain rfl | ⟨e, rfl⟩ := hf
    · have heq : exec env (.createWorkspace w) s = (r, s') := by
        cases hstrike
        rfl
      obtain ⟨e, hexec⟩ | ⟨-, hexec⟩ := s.createWorkspace_cases w
      · cases hexec.symm.trans heq
        exact h.of_state hissues.1 rfl nofun
      · cases hexec.symm.trans heq
        exact h.putWorkspace hissues.1 hissues.2
    · cases hstrike
      exact h.of_state hissues.1 rfl nofun
  | putMembershipAndTuples m inserts deletes =>
    obtain ⟨w, hw, hpersonal, rfl, rfl, rfl⟩ := hissues
    obtain ⟨rest, rfl⟩ := eq_cons_of_pending hw
    cases f with
    | none =>
      cases hstrike
      refine h.putOwner hw hpersonal rfl ?_
      rintro _ ⟨⟩
      rfl
    | refused e => exact absurd rfl (hf e)
    | misreported e =>
      cases hstrike
      exact h.putOwner hw hpersonal rfl nofun
    | stops => cases hstrike
  | _ => exact hissues.elim

theorem Store.Attended.at_rest (h : s.Attended p trace) (hnone : pending? trace = none) :
    s.Attended p [] where
  owned id w hget hw _ := h.owned id w hget hw (by simp [hnone])
  pending := nofun
  returned := nofun

theorem attended_stop (env : Env) (f : Fault ServiceError) (c : Call)
    (h : s.Attended p trace) (hissues : FirstUse p trace c) (hf : Completes c f)
    (hstrike : strike exec env c s f = (none, s')) : s'.Attended p [] := by
  cases c with
  | personalWorkspace projectID tenantID userID =>
    obtain ⟨rfl, -⟩ := strike_of_quiet hstrike trivial
    exact h.at_rest hissues.1
  | now =>
    obtain ⟨rfl, -⟩ := strike_of_quiet hstrike trivial
    exact h.at_rest hissues
  | newID =>
    obtain ⟨rfl, -⟩ := strike_of_quiet hstrike trivial
    exact h.at_rest hissues
  | createWorkspace w =>
    obtain rfl | ⟨e, rfl⟩ := hf
    · cases hstrike
    · cases hstrike
  | putMembershipAndTuples m inserts deletes =>
    obtain ⟨w, hw, hpersonal, rfl, rfl, rfl⟩ := hissues
    cases f with
    | stops =>
      cases hstrike
      exact h.putOwner hw hpersonal rfl nofun
    | _ => cases hstrike
  | _ => exact hissues.elim

theorem attended_of_faultyRuns {a : Option (Except ServiceError Workspace)}
    (h : s.Attended p [])
    (hrun : FaultyRuns exec Completes (ensurePersonalWorkspace p).run s a s') :
    s'.Attended p [] ∧ ∀ w, a = some (.ok w) → w.ownerUserID = p.userID ∧
      s'.HasOwner p.projectID p.tenantID w := by
  have hkeeps : (ensurePersonalWorkspace p).run.Keeps ⟨FirstUse p, fun _ _ _ => True⟩
      (fun t r => pending? t = none ∧ ∀ w, r = .ok w → returned? t = some w) [] := by
    refine keeps_ensurePersonalWorkspace p (fun t w hw => ?_) fun t c e _ _ => ?_
    · refine ⟨pending_of_returned hw, ?_⟩
      rintro _ ⟨⟩
      exact hw
    · exact ⟨pending_error c e t, nofun⟩
  obtain ⟨hend, hstop⟩ := hrun.of_keeps
    (fun env f s trace c r s' hs hissues hf hstrike =>
      ⟨trivial, attended_reply env f c r hs hissues hf hstrike⟩)
    (fun env f s trace c s' hs hissues hf hstrike => attended_stop env f c hs hissues hf hstrike)
    hkeeps h
  cases a with
  | none => exact ⟨hstop rfl, nofun⟩
  | some r =>
    obtain ⟨t, ht, hnone, hreturned⟩ := hend r rfl
    refine ⟨ht.at_rest hnone, ?_⟩
    rintro w ⟨⟩
    obtain ⟨hget, htype, huser⟩ := ht.returned w (hreturned w rfl)
    exact ⟨huser, ht.owned w.id w hget htype (by simp [hnone])⟩

end Faults

/-- Requests of users of one shard, one after the other. -/
def FirstUses (admits : Call → Fault ServiceError → Prop) (projectID tenantID : GoString) :
    Store → Store → Prop :=
  Relation.ReflTransGen fun s s' => ∃ userID a,
    FaultyRuns exec admits (ensurePersonalWorkspace ⟨userID, projectID, tenantID⟩).run s a s'

theorem attended_of_firstUses {projectID tenantID : GoString} {s : Store}
    (h : FirstUses Completes projectID tenantID Store.empty s) (userID : GoString) :
    s.Attended ⟨userID, projectID, tenantID⟩ [] := by
  induction h generalizing userID with
  | refl => exact ⟨fun id w hget => by simp [Store.empty] at hget, nofun, nofun⟩
  | tail _ hlast ih =>
    obtain ⟨userID', a, hrun⟩ := hlast
    have hnext := (attended_of_faultyRuns (ih userID') hrun).1
    exact ⟨hnext.owned, nofun, nofun⟩

/-- Whoever gets a workspace is its owner, whatever went wrong before. -/
theorem personal_workspaces_have_owners (projectID tenantID userID : GoString) {s s' : Store}
    {w : Workspace} (h : FirstUses Completes projectID tenantID Store.empty s)
    (hlast : FaultyRuns exec Completes (ensurePersonalWorkspace ⟨userID, projectID, tenantID⟩).run s
      (some (.ok w)) s') :
    (∃ m, s'.row projectID tenantID w.id userID = some m ∧ m.role = .owner ∧
      m.status = .active) ∧ s'.Stored projectID tenantID (roleTuple w.id userID .owner) := by
  obtain ⟨rfl, howned⟩ := (attended_of_faultyRuns (attended_of_firstUses h userID) hlast).2 w rfl
  exact howned

namespace Lockout

def unavailable : ServiceError := ⟨.other, "unavailable", []⟩

def first : Option (Except ServiceError Workspace) × Store :=
  (ensurePersonalWorkspace ⟨"alice", "p", "t"⟩).run.suffer exec {}
    [.none, .none, .none, .none, .refused unavailable] Store.empty

def second : Option (Except ServiceError Workspace) × Store :=
  (ensurePersonalWorkspace ⟨"alice", "p", "t"⟩).run.suffer exec {} [] first.2

def workspace : Workspace :=
  ⟨"id", "p", "t", "personal", "Personal", .personal, "alice", 0, 0⟩

end Lockout

open Lockout in
/-- The owner's row is not written, and the next request returns the workspace. -/
theorem failed_first_use_locks_out :
    FirstUses (fun _ _ => True) "p" "t" Store.empty first.2 ∧
      FaultyRuns exec (fun _ _ => True) (ensurePersonalWorkspace ⟨"alice", "p", "t"⟩).run first.2
        (some (.ok workspace)) second.2 ∧
      second.2.row "p" "t" workspace.id "alice" = none ∧
      ¬ second.2.Holds "p" "t" (roleTuple workspace.id "alice" .owner) := by
  have hsecond : second.1 = some (.ok workspace) := by decide +kernel
  refine ⟨.single ⟨"alice", _, faultyRuns_suffer _ _ _ (fun _ => trivial) fun _ _ _ => trivial⟩,
    ?_, by decide +kernel, by decide +kernel⟩
  rw [← hsecond]
  exact faultyRuns_suffer _ _ _ (fun _ => trivial) fun _ _ _ => trivial

theorem completes_none (c : Call) : Completes c .none := by
  cases c <;> simp [Completes]

namespace Lockout

/-- Without a fault, the first request creates the workspace and the next one finds it. -/
def created : Option (Except ServiceError Workspace) × Store :=
  (ensurePersonalWorkspace ⟨"alice", "p", "t"⟩).run.suffer exec {} [] Store.empty

def again : Option (Except ServiceError Workspace) × Store :=
  (ensurePersonalWorkspace ⟨"alice", "p", "t"⟩).run.suffer exec {} [] created.2

end Lockout

open Lockout in
theorem second_use_has_owner :
    (∃ m, again.2.row "p" "t" workspace.id "alice" = some m ∧ m.role = .owner ∧
      m.status = .active) ∧ again.2.Stored "p" "t" (roleTuple workspace.id "alice" .owner) := by
  have hagain : again.1 = some (.ok workspace) := by decide +kernel
  have hfirst : FirstUses Completes "p" "t" Store.empty created.2 :=
    .single ⟨"alice", created.1, faultyRuns_suffer ({} : Env) [] _ completes_none fun _ =>
      List.forall_mem_nil _⟩
  have hlast : FaultyRuns exec Completes (ensurePersonalWorkspace ⟨"alice", "p", "t"⟩).run
      created.2 again.1 again.2 := faultyRuns_suffer ({} : Env) [] _ completes_none fun _ =>
        List.forall_mem_nil _
  rw [hagain] at hlast
  exact personal_workspaces_have_owners "p" "t" "alice" hfirst hlast

end WorkspaceAuthz.Service
