import WorkspaceAuthz.Go.Strings
import WorkspaceAuthz.Service.Members

/-! # Invitations

The requests that issue, list and revoke invitations, and the redemption of a
token. Accepting reads the invitation, writes the membership and marks the
invitation in separate calls, and so does revoking read and write; a token is
redeemed once if nobody comes in between, and not otherwise.
-/
namespace WorkspaceAuthz.Service
open Go Authz Interleaving

/-- Seven days. -/
def invitationTTL : ℤ := 7 * 24 * 3600 * 1000000000

section Requests

variable (p : Principal)

/-- The invitation and its token, of which the store keeps the hash only. -/
def createInvitation (hashToken : GoString → GoString) (workspaceID email role : GoString) :
    ServiceM (Invitation × GoString) := do
  call (.ensureProjectActive p)
  let some role := grantable? role | throw errNotGrantable
  let email := trimSpace email
  if email = [] then throw ⟨.invalidArgument, "email is required", []⟩
  let w ← requireWorkspace p workspaceID .admin
  if w.type = .personal then
    throw ⟨.failedPrecondition, "personal workspaces cannot be shared", []⟩
  let now ← call .now
  let token ← call .randToken
  let id ← call .newID
  let inv : Invitation :=
    ⟨id, p.projectID, p.tenantID, workspaceID, email, role, .pending, p.userID,
    hashToken token, now, now + invitationTTL⟩
  call (.createInvitation inv)
  return (inv, token)

def listInvitations (workspaceID : GoString) : ServiceM (List Invitation) := do
  let _ ← requireWorkspace p workspaceID .admin
  call (.listInvitations p.projectID p.tenantID workspaceID)

def revokeInvitation (invitationID : GoString) : ServiceM Unit := do
  let inv ← call (.getInvitation p.projectID p.tenantID invitationID)
  let _ ← requireWorkspace p inv.workspaceID .admin
  if inv.status = .pending then call (.updateInvitation { inv with status := .revoked })

end Requests

/-! ## What requests have done -/

def readInvitation : CallTrace → Option GoString
  | [] => none
  | ⟨.getInvitation .., r⟩ :: _ => r.toOption.map (·.id)
  | ⟨.getInvitationByTokenHash .., r⟩ :: _ => r.toOption.map (·.id)
  | _ :: trace => readInvitation trace

/-- How many memberships a request has written from an invitation. -/
def redemptions (id : GoString) : CallTrace → ℕ
  | [] => 0
  | ⟨.putMembershipAndTuples .., _⟩ :: trace =>
    (if readInvitation trace = some id then 1 else 0) + redemptions id trace
  | _ :: trace => redemptions id trace

/-- A membership is written from the invitation, and the invitation is not marked yet. -/
def redeeming (id : GoString) : CallTrace → Bool
  | [] => false
  | ⟨.putMembershipAndTuples .., _⟩ :: trace => readInvitation trace = some id
  | ⟨.updateInvitation inv, _⟩ :: trace => inv.id ≠ id && redeeming id trace
  | _ :: trace => redeeming id trace

/-- A membership is written before the invitation is marked, and marks are final. -/
def invitationProtocol (projectID tenantID id : GoString) : Protocol Call Reply where
  issues trace
    | .putMembershipAndTuples .. => redeeming id trace = false
    | .updateInvitation inv =>
      scope inv.projectID inv.tenantID = scope projectID tenantID ∧ inv.status ≠ .pending
    | c => c.Quiet
  relies _
    | .getInvitation projectID tenantID _, r => ∀ inv, r = .ok inv →
      scope inv.projectID inv.tenantID = scope projectID tenantID
    | .getInvitationByTokenHash projectID tenantID _, r => ∀ inv, r = .ok inv →
      scope inv.projectID inv.tenantID = scope projectID tenantID
    | _, _ => True

section Keeps

variable {p : Principal} {id : GoString} {trace : CallTrace} {α : Type}

abbrev KeepsInvitationProtocol (p : Principal) (id : GoString) (trace : CallTrace)
    (x : ServiceM α) : Prop :=
  x.run.Keeps (invitationProtocol p.projectID p.tenantID id) (fun _ _ => True) trace

theorem redemption_keeps {hashToken : GoString → GoString} {token : GoString} :
    KeepsInvitationProtocol p id [] (acceptInvitation p hashToken token) := by
  refine keeps_ite (fun _ => trivial) fun _ => ?_
  refine keeps_attempt_then trivial (fun _ _ => trivial) fun inv hinv => ?_
  have hscope := hinv inv rfl
  refine keeps_ite (fun _ => trivial) fun _ => ?_
  refine keeps_attempt_then trivial (fun _ _ => trivial) fun now _ => ?_
  refine keeps_ite (fun _ => ?_) fun _ => ?_
  · exact keeps_observe_then ⟨hscope, by simp⟩ fun _ _ => trivial
  refine keeps_observe_then trivial fun r _ => ?_
  have hmark : ∀ m t, KeepsInvitationProtocol p id t (do
      call (.updateInvitation { inv with status := .accepted })
      return m : ServiceM Membership) := fun m t =>
    keeps_attempt_then ⟨hscope, by simp⟩ (fun _ _ => trivial) fun _ _ => trivial
  cases r with
  | ok m => exact hmark m _
  | error e =>
    refine keeps_ite (fun _ => trivial) fun _ => ?_
    rw [keeps_sequence]
    refine keeps_attempt_then trivial (fun _ _ => trivial) fun _ _ => ?_
    refine keeps_attempt_then trivial (fun _ _ => trivial) fun now _ => ?_
    exact keeps_attempt_then rfl (fun _ _ => trivial) fun _ _ => hmark _ _

theorem keeps_revokeInvitation {invitationID : GoString} :
    KeepsInvitationProtocol p id [] (revokeInvitation p invitationID) := by
  refine keeps_attempt_then trivial (fun _ _ => trivial) fun inv hinv => ?_
  rw [keeps_sequence]
  refine keeps_requireWorkspace trivial (fun _ => trivial) (fun w _ => ?_) (fun _ => trivial)
    fun _ _ _ => trivial
  refine keeps_ite (fun _ => ?_) fun _ => trivial
  exact keeps_attempt.mpr ⟨⟨hinv inv rfl, by simp⟩, fun _ _ => trivial⟩

end Keeps

/-! ## Redemptions and the stored status -/

section Invariant

variable {projectID tenantID id : GoString} {s : Store} {others : List CallTrace}
  {trace : CallTrace}

def Store.invitationStatus (s : Store) (projectID tenantID id : GoString) :
    Option InvitationStatus :=
  (s.invitations.get₂ (scope projectID tenantID) id).map (·.status)

/-- Nobody comes in between: the invitation is pending when it is marked, and also when a
membership is written from it, while no other request is about to mark it. -/
def Unredeemed (projectID tenantID id : GoString) (s : Store) (others : List CallTrace)
    (trace : CallTrace) : Call → Prop
  | .putMembershipAndTuples .. => readInvitation trace = some id →
      s.invitationStatus projectID tenantID id = some .pending ∧ ∀ t ∈ others,
        redeeming id t = false
  | .updateInvitation inv => inv.id = id →
      s.invitationStatus projectID tenantID id = some .pending
  | _ => True

instance : DecidablePred (Unredeemed projectID tenantID id s others trace) := fun c => by
  induction c using Call.casesOn <;> (dsimp only [Unredeemed]; infer_instance)

/-- An invitation is redeemed once; then it is not pending, unless it is about to be marked: by
one request or by another. -/
structure Store.RedeemedOnce (s : Store) (projectID tenantID id : GoString) (mine rest : ℕ)
    (marking othersMarking : Prop) : Prop where
  once : mine + rest ≤ 1
  marked : mine + rest ≠ 0 → s.invitationStatus projectID tenantID id = some .pending →
    marking ∨ othersMarking

theorem invitationStatus_updateInvitation_ne_pending {inv : Invitation}
    (hscope : scope inv.projectID inv.tenantID = scope projectID tenantID)
    (hstatus : inv.status ≠ .pending) :
    (s.updateInvitation inv).2.invitationStatus projectID tenantID inv.id ≠ some .pending := by
  unfold Store.updateInvitation
  rw [hscope]
  cases hrow : s.invitations.get₂ (scope projectID tenantID) inv.id with
  | none => simp [Store.invitationStatus, hrow]
  | some old =>
    simpa [Store.invitationStatus, Store.putInvitation, hscope, GoMap.get₂_put₂] using hstatus

theorem invitationStatus_updateInvitation_of_ne {inv : Invitation} (hid : inv.id ≠ id) :
    (s.updateInvitation inv).2.invitationStatus projectID tenantID id =
      s.invitationStatus projectID tenantID id := by
  unfold Store.updateInvitation
  split_ifs
  · rfl
  · simp [Store.invitationStatus, Store.putInvitation, GoMap.get₂_put₂, Ne.symm hid]

theorem redeemedOnce_exec (env : Env) {c : Call} {rest : ℕ}
    (h : s.RedeemedOnce projectID tenantID id (redemptions id trace) rest (redeeming id trace)
      (∃ t ∈ others, redeeming id t))
    (hissues : (invitationProtocol projectID tenantID id).issues trace c)
    (hguard : Unredeemed projectID tenantID id s others trace c) :
    (exec env c s).2.RedeemedOnce projectID tenantID id
      (redemptions id (⟨c, (exec env c s).1⟩ :: trace)) rest
      (redeeming id (⟨c, (exec env c s).1⟩ :: trace)) (∃ t ∈ others, redeeming id t) := by
  cases c with
  | putMembershipAndTuples m inserts deletes =>
    by_cases hread : readInvitation trace = some id
    · obtain ⟨hpending, hothers⟩ := hguard hread
      have hzero : redemptions id trace + rest = 0 := by
        by_contra hne
        rcases h.marked hne hpending with hmine | ⟨t, ht, hother⟩
        · exact absurd (hissues.symm.trans hmine) (by simp)
        · exact absurd ((hothers t ht).symm.trans hother) (by simp)
      refine ⟨?_, fun _ _ => .inl (decide_eq_true hread)⟩
      rw [redemptions, if_pos hread]
      omega
    · refine ⟨?_, fun hne hpending => ?_⟩
      · rw [redemptions, if_neg hread]
        simpa using h.once
      · rw [redemptions, if_neg hread, Nat.zero_add] at hne
        rcases h.marked hne hpending with hmine | hother
        · exact absurd (hissues.symm.trans hmine) (by simp)
        · exact .inr hother
  | updateInvitation inv =>
    obtain ⟨hscope, hstatus⟩ := hissues
    refine ⟨h.once, fun hne hpending => ?_⟩
    by_cases hid : inv.id = id
    · subst hid
      exact absurd hpending (invitationStatus_updateInvitation_ne_pending hscope hstatus)
    · rw [exec, invitationStatus_updateInvitation_of_ne hid] at hpending
      simpa [redeeming, hid] using h.marked hne hpending
  | _ =>
    rw [exec_of_quiet]
    exacts [h, hissues]

theorem invitationStatus_exec (env : Env) {c : Call} {status : InvitationStatus}
    (hne : status ≠ .pending) (h : s.invitationStatus projectID tenantID id = some status)
    (hissues : (invitationProtocol projectID tenantID id).issues trace c)
    (hguard : Unredeemed projectID tenantID id s others trace c) :
    (exec env c s).2.invitationStatus projectID tenantID id = some status := by
  cases c with
  | putMembershipAndTuples => exact h
  | updateInvitation inv =>
    by_cases hid : inv.id = id
    · exact absurd (Option.some.inj (h.symm.trans (hguard hid))) hne
    · rw [exec, invitationStatus_updateInvitation_of_ne hid, h]
  | _ =>
    rw [exec_of_quiet]
    exacts [h, hissues]

theorem invitationRelies_exec (env : Env) (c : Call) :
    (invitationProtocol projectID tenantID id).relies trace c (exec env c s).1 := by
  cases c with
  | getInvitation projectID' tenantID' id' =>
    intro inv hinv
    exact (s.invitations_keyed _ _ _ (found_eq_ok.mp hinv)).1
  | getInvitationByTokenHash projectID' tenantID' tokenHash =>
    intro inv hinv
    obtain ⟨k, hk⟩ := GoMap.mem_values.mp (List.mem_of_find?_eq_some (found_eq_ok.mp hinv))
    exact (s.invitations_keyed _ _ _ hk).1
  | _ => trivial

/-- The same for all requests together. -/
def Store.AllRedeemedOnce {ι : Type} (projectID tenantID id : GoString) (s : Store)
    (ts : List (ι × CallTrace)) : Prop :=
  s.RedeemedOnce projectID tenantID id ((ts.map fun x => redemptions id x.2).sum) 0
    (∃ t ∈ ts.map Prod.snd, redeeming id t) False

theorem allRedeemedOnce_iff_of_split {ι : Type} {before after : List (ι × CallTrace)} {i : ι} :
    s.AllRedeemedOnce projectID tenantID id (before ++ (i, trace) :: after) ↔
      s.RedeemedOnce projectID tenantID id (redemptions id trace)
        (((before ++ after).map fun x => redemptions id x.2).sum) (redeeming id trace)
        (∃ t ∈ (before ++ after).map Prod.snd, redeeming id t) := by
  have hsum : ((before ++ (i, trace) :: after).map fun x => redemptions id x.2).sum + 0 =
      redemptions id trace + ((before ++ after).map fun x => redemptions id x.2).sum := by
    simp only [List.map_append, List.map_cons, List.sum_append, List.sum_cons]
    omega
  have hmarking : ((∃ t ∈ (before ++ (i, trace) :: after).map Prod.snd, redeeming id t) ∨ False) ↔
      (redeeming id trace ∨ ∃ t ∈ (before ++ after).map Prod.snd, redeeming id t) := by
    simp only [List.map_append, List.map_cons, List.mem_append, List.mem_cons]
    grind
  constructor
  · exact fun h => ⟨hsum ▸ h.once, fun hne hpending => hmarking.mp (h.marked (hsum ▸ hne) hpending)⟩
  · exact fun h => ⟨hsum ▸ h.once, fun hne hpending =>
      hmarking.mpr (h.marked (hsum ▸ hne) hpending)⟩

theorem allRedeemedOnce_of_reaches {ι α : Type} {requests : List ι}
    {c c' : Config Store Call Reply α} (h : Reaches exec (Unredeemed projectID tenantID id) c c')
    (hc : c.Upholds (fun _ => invitationProtocol projectID tenantID id) (fun _ _ _ => True)
      (Store.AllRedeemedOnce projectID tenantID id) requests) :
    c'.Upholds (fun _ => invitationProtocol projectID tenantID id) (fun _ _ _ => True)
      (Store.AllRedeemedOnce projectID tenantID id) requests :=
  h.upholds (fun env s before i trace after call hinv hissues hguard => by
    rw [allRedeemedOnce_iff_of_split] at hinv ⊢
    exact ⟨invitationRelies_exec env call, redeemedOnce_exec env hinv hissues hguard⟩) hc

end Invariant

inductive InvitationRequest where
  | acceptInvitation (token : GoString)
  | revokeInvitation (invitationID : GoString)

/-- Serve a request; the membership is returned if an invitation is accepted. -/
def InvitationRequest.serve (hashToken : GoString → GoString) (p : Principal) :
    InvitationRequest → ServiceM (Option Membership)
  | .acceptInvitation token => do return some (← Service.acceptInvitation p hashToken token)
  | .revokeInvitation invitationID => do
    Service.revokeInvitation p invitationID
    return none

def invitationRequests (hashToken : GoString → GoString) (projectID tenantID : GoString)
    (s : Store) (requests : List (GoString × InvitationRequest)) :
    Config Store Call Reply (Except ServiceError (Option Membership)) :=
  .start s (requests.map fun q => (q.2.serve hashToken ⟨q.1, projectID, tenantID⟩).run)

/-- In a run in which nobody comes in between, an invitation is redeemed at most once, and its
status does not change after it has left pending. -/
theorem invitation_redeemed_once (hashToken : GoString → GoString)
    (projectID tenantID id : GoString) (s : Store) (requests : List (GoString × InvitationRequest))
    (c c' : Config Store Call Reply (Except ServiceError (Option Membership)))
    (h : Reaches exec (Unredeemed projectID tenantID id)
      (invitationRequests hashToken projectID tenantID s requests) c)
    (h' : Reaches exec (Unredeemed projectID tenantID id) c c') :
    (c'.traces.map (redemptions id)).sum ≤ 1 ∧
      ∀ status ≠ .pending, c.state.invitationStatus projectID tenantID id = some status →
        c'.state.invitationStatus projectID tenantID id = some status := by
  have hstart : (invitationRequests hashToken projectID tenantID s requests).Upholds
      (fun _ => invitationProtocol projectID tenantID id) (fun _ _ _ => True)
      (Store.AllRedeemedOnce projectID tenantID id) requests := by
    refine Config.upholds_start (fun ts hts => ?_) fun q _ => ?_
    · have hzero : (ts.map fun x => redemptions id x.2).sum = 0 := by
        rw [List.sum_eq_zero]
        intro n hn
        obtain ⟨x, hx, rfl⟩ := List.mem_map.mp hn
        rw [hts x hx]
        rfl
      exact ⟨by rw [hzero]; decide, fun hne => absurd hzero hne⟩
    · obtain ⟨actor, token | invitationID⟩ := q
      · exact keeps_then_return (redemption_keeps (p := ⟨actor, projectID, tenantID⟩))
      · exact keeps_then_return (keeps_revokeInvitation (p := ⟨actor, projectID, tenantID⟩))
  have hmiddle := allRedeemedOnce_of_reaches h hstart
  refine ⟨?_, fun status hne hstatus => ?_⟩
  · have hend := allRedeemedOnce_of_reaches h' hmiddle
    rw [← hend.map_snd_zip, List.map_map]
    exact hend.inv.once
  · have hkeep : c.Upholds (fun _ => invitationProtocol projectID tenantID id) (fun _ _ _ => True)
        (fun s _ => s.invitationStatus projectID tenantID id = some status) requests :=
      ⟨hstatus, hmiddle.keeps⟩
    exact (h'.upholds (fun env s before i trace after call hinv hissues hguard =>
      ⟨invitationRelies_exec env call,
        invitationStatus_exec env hne hinv hissues hguard⟩) hkeep).inv

/-! ## Two redeemers and a revoker -/

namespace Redemption

def acme : Workspace := ⟨"w", "p", "t", "acme", "Acme", .team, "alice", 0, 0⟩

/-- Alice has invited somebody to their workspace. -/
def initial : Store :=
  let s := Store.empty.putWorkspace acme
  let s := s.putMembershipAndTuples ⟨"p", "t", "w", "alice", .owner, .active, 0, 0⟩
    [roleTuple "w" "alice" .owner] []
  s.putInvitation
    ⟨"i", "p", "t", "w", "bob@acme", .member, .pending, "alice", "secret", 0, invitationTTL⟩

def start : Config Store Call Reply (Except ServiceError (Option Membership)) :=
  invitationRequests (fun s => s) "p" "t" initial [("bob", .acceptInvitation "secret"),
    ("carol", .acceptInvitation "secret"), ("alice", .revokeInvitation "i")]

/-- Bob and Carol have their memberships, and Alice revokes the invitation. -/
def revoked : Config Store Call Reply (Except ServiceError (Option Membership)) :=
  start.run exec (steps 6 0 ++ steps 6 1 ++ steps 4 2)

/-- Then the invitation is marked as accepted. -/
def final : Config Store Call Reply (Except ServiceError (Option Membership)) :=
  revoked.run exec (steps 1 0 ++ steps 1 1)

end Redemption

open Redemption in
/-- Two users join by one token, and a revoked invitation becomes an accepted one. -/
theorem token_redeemed_twice :
    initial.allows .ascending 0 ⟨"alice", "p", "t"⟩ ⟨"workspace", "w", "admin"⟩ ∧
    Reaches exec (fun _ _ _ _ => True) start revoked ∧
    revoked.state.invitationStatus "p" "t" "i" = some .revoked ∧
    Reaches exec (fun _ _ _ _ => True) revoked final ∧ final.Finished ∧
    final.state.invitationStatus "p" "t" "i" = some .accepted ∧
    (final.traces.map (redemptions "i")).sum = 2 ∧
    (final.state.row "p" "t" "w" "bob").isSome ∧ (final.state.row "p" "t" "w" "carol").isSome :=
  ⟨by decide +kernel, reaches_run exec start _ (start.admitsAll_true exec _), by decide +kernel,
    reaches_run exec revoked _
      (revoked.admitsAll_true exec _), by decide +kernel, by decide +kernel,
    by decide +kernel, by decide +kernel, by decide +kernel⟩

open Redemption in
theorem token_redeemed_in_turn :
    ((start.run exec (steps 7 0 ++ steps 1 1 ++ steps 3 2)).traces.map (redemptions "i")).sum ≤ 1 :=
  (invitation_redeemed_once (fun s => s) "p" "t" "i" initial _ start _ .refl
    (reaches_run exec start _ (by decide +kernel))).1

end WorkspaceAuthz.Service
