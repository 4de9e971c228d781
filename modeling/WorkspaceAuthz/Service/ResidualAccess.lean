import WorkspaceAuthz.Service.Members

/-! # Access left behind by membership changes

A role tuple is to be stored exactly as long as the row is active and has that
role. Requests change row and tuples together, but by what they have read before;
so row and tuples stay in agreement when every write meets the role and status
that the request has read, and not otherwise.
-/
namespace WorkspaceAuthz.Service
open Go Authz Interleaving

/-! ## Standings -/

abbrev Standing := Role × MembershipStatus

def Membership.standing (m : Membership) : Standing := (m.role, m.status)

/-- The changes of a standing, with the roles whose tuples are inserted and deleted. -/
inductive Change : Option Standing → Standing → List Role → List Role → Prop
  | join (role) : Change none (role, .active) [role] []
  | regrade {old role status} : old ≠ role → status ≠ .suspended →
      Change (some (old, status)) (role, status) [role] [old]
  | suspend (role status) : Change (some (role, status)) (role, .suspended) [] [role]
  | reinstate (role) : Change (some (role, .suspended)) (role, .active) [role] []

/-- A change keeps the backed roles in agreement with the standing, unless it regrades
somebody who is only invited. -/
theorem Change.agrees {before : Option Standing} {after : Standing} {inserts deletes : List Role}
    (h : Change before after inserts deletes) (hinvited : ∀ st ∈ before, st.2 ≠ .invited)
    {backed : Role → Prop} (hbefore : ∀ r, backed r ↔ before = some (r, .active)) (r : Role) :
    (r ∈ inserts ∨ (backed r ∧ r ∉ deletes)) ↔ some after = some (r, .active) := by
  rw [hbefore]
  cases h with
  | join role => simp [eq_comm]
  | @regrade old role status hne hstatus =>
    have hactive : status = .active := by
      cases status with
      | active => rfl
      | invited => exact absurd rfl (hinvited (old, .invited) rfl)
      | suspended => exact absurd rfl hstatus
    subst hactive
    simp only [List.mem_singleton, Option.some.injEq, Prod.mk.injEq, and_true]
    grind
  | suspend role status =>
    simp only [List.not_mem_nil, List.mem_singleton, Option.some.injEq, Prod.mk.injEq, false_or]
    grind
  | reinstate role => simp [eq_comm]

/-- Nobody is only invited after a change who was not before. -/
theorem Change.joined {before : Option Standing} {after : Standing} {inserts deletes : List Role}
    (h : Change before after inserts deletes) (hbefore : ∀ st ∈ before, st.2 ≠ .invited) :
    after.2 ≠ .invited := by
  cases h with
  | join => nofun
  | @regrade old _ status => exact hbefore (old, status) rfl
  | suspend => nofun
  | reinstate => nofun

/-! ## What requests do after what they have read -/

def readStanding (projectID tenantID ws user : GoString) : CallTrace → Option Standing
  | [] => none
  | ⟨.getMembership projectID' tenantID' ws' user', r⟩ :: trace =>
    if projectID' = projectID ∧ tenantID' = tenantID ∧ ws' = ws ∧ user' = user then
      r.toOption.map Membership.standing
    else readStanding projectID tenantID ws user trace
  | _ :: trace => readStanding projectID tenantID ws user trace

/-- Writes of memberships of a shard follow from the standing that was read. -/
def memberProtocol (projectID tenantID : GoString) : Protocol Call Reply where
  issues trace
    | .putMembershipAndTuples m inserts deletes =>
      scope m.projectID m.tenantID = scope projectID tenantID ∧
      ∃ ins del, Change (readStanding projectID tenantID m.workspaceID m.userID trace) m.standing
          ins del ∧
        inserts = ins.map (roleTuple m.workspaceID m.userID) ∧
        deletes = del.map (roleTuple m.workspaceID m.userID)
    | .deleteMembershipAndTuples projectID' tenantID' ws user deletes =>
      projectID' = projectID ∧ tenantID' = tenantID ∧ ∃ role status,
        readStanding projectID tenantID ws user trace = some (role, status) ∧
        deletes = [roleTuple ws user role]
    | .updateInvitation _ => True
    | c => c.Quiet
  relies _
    | .getMembership projectID tenantID ws user, r => ∀ m, r = .ok m →
      scope m.projectID m.tenantID = scope projectID tenantID ∧ m.workspaceID = ws ∧ m.userID = user
    | _, _ => True

section Keeps

variable {p : Principal} {trace : CallTrace} {α : Type}

/-- No condition on what a request returns. -/
abbrev KeepsMemberProtocol (p : Principal) (trace : CallTrace) (x : ServiceM α) : Prop :=
  x.run.Keeps (memberProtocol p.projectID p.tenantID) (fun _ _ => True) trace

theorem keeps_putMember {ws user : GoString} {role : Role}
    (hread : readStanding p.projectID p.tenantID ws user trace = none) :
    KeepsMemberProtocol p trace (putMember p ws user role) := by
  refine keeps_attempt_then trivial (fun _ _ => trivial) fun _ _ => ?_
  refine keeps_attempt_then trivial (fun _ _ => trivial) fun now _ => ?_
  refine keeps_attempt_then ⟨rfl, [role], [], ?_, rfl, rfl⟩ (fun _ _ => trivial) fun _ _ => trivial
  change Change (readStanding p.projectID p.tenantID ws user trace) _ _ _
  rw [hread]
  exact .join role

theorem keeps_of_readRow {ws user : GoString} {f : Membership → ServiceM α}
    (h : ∀ m t, scope m.projectID m.tenantID = scope p.projectID p.tenantID → m.workspaceID = ws →
      m.userID = user →
      readStanding p.projectID p.tenantID ws user t = some m.standing →
        KeepsMemberProtocol p t (f m)) :
    KeepsMemberProtocol p trace (do
      let _ ← requireWorkspace p ws .admin
      let m ← call (.getMembership p.projectID p.tenantID ws user)
      f m) := by
  rw [KeepsMemberProtocol, keeps_sequence]
  refine keeps_requireWorkspace trivial (fun _ => trivial) (fun w _ => ?_) (fun _ => trivial)
    fun _ _ _ => trivial
  refine keeps_attempt_then trivial (fun _ _ => trivial) fun m hm => ?_
  obtain ⟨hscope, hws, huser⟩ := hm m rfl
  refine h m _ hscope hws huser ?_
  simp [readStanding, Except.toOption]

theorem keeps_writeRow {m : Membership} {m' : Time → Membership} (ins del : List Role)
    {f : Time → Membership}
    (hscope : scope m.projectID m.tenantID = scope p.projectID p.tenantID)
    (hm : ∀ now, (m' now).projectID = m.projectID ∧ (m' now).tenantID = m.tenantID ∧
      (m' now).workspaceID = m.workspaceID ∧ (m' now).userID = m.userID)
    (hchange : ∀ now, Change (readStanding p.projectID p.tenantID m.workspaceID m.userID trace)
      (m' now).standing ins del) :
    KeepsMemberProtocol p trace (do
      let now ← call .now
      call (.putMembershipAndTuples (m' now) (ins.map (roleTuple m.workspaceID m.userID))
        (del.map (roleTuple m.workspaceID m.userID)))
      return f now) := by
  refine keeps_attempt_then trivial (fun _ _ => trivial) fun now _ => ?_
  obtain ⟨hproject, htenant, hws, huser⟩ := hm now
  refine keeps_attempt_then ⟨?_, ins, del, ?_, ?_, ?_⟩ (fun _ _ => trivial) fun _ _ => trivial
  · rw [hproject, htenant, hscope]
  · rw [hws, huser]
    exact hchange now
  · rw [hws, huser]
  · rw [hws, huser]

theorem keeps_addMember {ws user role : GoString} :
    KeepsMemberProtocol p trace (addMember p ws user role) := by
  unfold addMember
  split
  · refine keeps_ite (fun _ => trivial) fun _ => ?_
    rw [keeps_sequence]
    refine keeps_requireWorkspace trivial (fun _ => trivial) (fun w _ => ?_) (fun _ => trivial)
      fun _ _ _ => trivial
    refine keeps_ite (fun _ => trivial) fun _ => ?_
    refine keeps_observe_then trivial fun r _ => ?_
    cases r with
    | ok m => trivial
    | error e =>
      refine keeps_ite (fun _ => keeps_putMember ?_) fun _ => trivial
      simp [readStanding, Except.toOption]
  · trivial

theorem keeps_updateMemberRole {ws user role : GoString} :
    KeepsMemberProtocol p trace (updateMemberRole p ws user role) := by
  unfold updateMemberRole
  split
  · rename_i role _
    refine keeps_of_readRow fun m t hscope hws huser hread => ?_
    subst hws huser
    refine keeps_ite (fun _ => trivial) fun _ => ?_
    refine keeps_ite (fun _ => trivial) fun hsuspended => ?_
    refine keeps_ite (fun _ => trivial) fun hrole => ?_
    refine keeps_writeRow [role] [m.role] hscope (fun _ => ⟨rfl, rfl, rfl, rfl⟩) fun now => ?_
    rw [hread]
    exact .regrade hrole hsuspended
  · trivial

theorem keeps_removeMember {ws user : GoString} :
    KeepsMemberProtocol p trace (removeMember p ws user) := by
  refine keeps_of_readRow fun m t _ hws huser hread => ?_
  refine keeps_ite (fun _ => trivial) fun _ => ?_
  exact keeps_attempt.mpr ⟨⟨rfl, rfl, m.role, m.status, hread, rfl⟩, fun _ _ => trivial⟩

theorem keeps_suspendMember {ws user : GoString} :
    KeepsMemberProtocol p trace (suspendMember p ws user) := by
  refine keeps_of_readRow fun m t hscope hws huser hread => ?_
  subst hws huser
  refine keeps_ite (fun _ => trivial) fun _ => ?_
  refine keeps_ite (fun _ => trivial) fun _ => ?_
  refine keeps_writeRow [] [m.role] hscope (fun _ => ⟨rfl, rfl, rfl, rfl⟩) fun now => ?_
  rw [hread]
  exact .suspend m.role m.status

theorem keeps_reinstateMember {ws user : GoString} :
    KeepsMemberProtocol p trace (reinstateMember p ws user) := by
  refine keeps_of_readRow fun m t hscope hws huser hread => ?_
  subst hws huser
  refine keeps_ite (fun _ => trivial) fun hsuspended => ?_
  refine keeps_writeRow [m.role] [] hscope (fun _ => ⟨rfl, rfl, rfl, rfl⟩) fun now => ?_
  rw [hread, Membership.standing, not_not.mp hsuspended]
  exact .reinstate m.role

theorem keeps_acceptInvitation {hashToken : GoString → GoString} {token : GoString} :
    KeepsMemberProtocol p trace (acceptInvitation p hashToken token) := by
  refine keeps_ite (fun _ => trivial) fun _ => ?_
  refine keeps_attempt_then trivial (fun _ _ => trivial) fun inv _ => ?_
  refine keeps_ite (fun _ => trivial) fun _ => ?_
  refine keeps_attempt_then trivial (fun _ _ => trivial) fun now _ => ?_
  refine keeps_ite (fun _ => ?_) fun _ => ?_
  · exact keeps_observe_then trivial fun _ _ => trivial
  refine keeps_observe_then trivial fun r _ => ?_
  cases r with
  | ok m => exact keeps_attempt_then trivial (fun _ _ => trivial) fun _ _ => trivial
  | error e =>
    refine keeps_ite (fun _ => trivial) fun _ => ?_
    rw [keeps_sequence]
    refine Prog.Keeps.mono (keeps_putMember ?_) fun t r _ => ?_
    · simp [readStanding, Except.toOption]
    · cases r with
      | error e => trivial
      | ok m => exact keeps_attempt_then trivial (fun _ _ => trivial) fun _ _ => trivial

theorem keeps_serve (hashToken : GoString → GoString) (request : MemberRequest) :
    KeepsMemberProtocol p trace (request.serve hashToken p) := by
  cases request with
  | addMember => exact keeps_then_return keeps_addMember
  | updateMemberRole => exact keeps_then_return keeps_updateMemberRole
  | removeMember => exact keeps_then_return keeps_removeMember
  | suspendMember => exact keeps_then_return keeps_suspendMember
  | reinstateMember => exact keeps_then_return keeps_reinstateMember
  | acceptInvitation => exact keeps_then_return keeps_acceptInvitation

end Keeps

/-! ## Rows and tuples in agreement -/

section Agreement

variable {projectID tenantID ws user : GoString} {s : Store} {others : List CallTrace}
  {trace : CallTrace}

def Store.standing (s : Store) (projectID tenantID ws user : GoString) : Option Standing :=
  (s.row projectID tenantID ws user).map Membership.standing

/-- The role tuples of a member are those that the row stands for. -/
def Store.Agrees (s : Store) (projectID tenantID ws user : GoString) : Prop :=
  ∀ r, s.Holds projectID tenantID (roleTuple ws user r) ↔
    s.standing projectID tenantID ws user = some (r, .active)

/-- A write to the row meets the standing that the request has read; nobody is only
invited who is regraded. -/
def Fresh (projectID tenantID ws user : GoString) (s : Store) (_others : List CallTrace)
    (trace : CallTrace) : Call → Prop
  | .putMembershipAndTuples m _ _ => m.workspaceID = ws → m.userID = user →
      s.standing projectID tenantID ws user = readStanding projectID tenantID ws user trace ∧
        ∀ st ∈ s.standing projectID tenantID ws user, st.2 ≠ .invited
  | .deleteMembershipAndTuples _ _ ws' user' _ => ws' = ws → user' = user →
      s.standing projectID tenantID ws user = none ∨
        s.standing projectID tenantID ws user = readStanding projectID tenantID ws user trace
  | _ => True

instance : DecidablePred (Fresh projectID tenantID ws user s others trace) := fun c => by
  induction c using Call.casesOn <;> (dsimp only [Fresh]; infer_instance)

theorem Store.agrees_congr {projectID' tenantID' : GoString}
    (h : scope projectID tenantID = scope projectID' tenantID') :
    s.Agrees projectID tenantID ws user ↔ s.Agrees projectID' tenantID' ws user := by
  simp only [Store.Agrees, Store.Holds, Store.standing, Store.row, h]

/-- Row and role tuples of a member are written together; other members are not affected. -/
theorem Store.Agrees.put {m : Membership} {ins del : List Role}
    (h : s.Agrees projectID tenantID ws user)
    (hput : scope projectID tenantID = scope m.projectID m.tenantID → m.workspaceID = ws →
      m.userID = user → ∀ r,
        (r ∈ ins ∨ (s.Holds projectID tenantID (roleTuple ws user r) ∧ r ∉ del)) ↔
        some m.standing = some (r, .active)) :
    (s.putMembershipAndTuples m (ins.map (roleTuple m.workspaceID m.userID))
      (del.map (roleTuple m.workspaceID m.userID))).Agrees projectID tenantID ws user := by
  intro r
  rw [Store.standing, Store.row_putMembershipAndTuples]
  by_cases hscope : scope projectID tenantID = scope m.projectID m.tenantID
  · rw [Store.holds_roleTuple_of_write m.workspaceID m.userID ins del fun t =>
      Store.holds_putMembershipAndTuples hscope]
    by_cases hkey : m.workspaceID = ws ∧ m.userID = user
    · obtain ⟨rfl, rfl⟩ := hkey
      simpa [hscope] using hput hscope rfl rfl r
    · have hrow : ¬ (scope projectID tenantID = scope m.projectID m.tenantID ∧ ws = m.workspaceID ∧
          user = m.userID) := fun hm => hkey ⟨hm.2.1.symm, hm.2.2.symm⟩
      rw [if_neg hrow, ← Store.standing, ← h r]
      grind
  · rw [if_neg fun hm => hscope hm.1, Store.Holds, Store.putMembershipAndTuples,
      Store.get_tuples_writeTuples, if_neg hscope]
    exact h r

theorem agrees_putMembershipAndTuples {m : Membership} {inserts deletes : List Tuple}
    (h : s.Agrees projectID tenantID ws user)
    (hissues : (memberProtocol projectID tenantID).issues trace
      (.putMembershipAndTuples m inserts deletes))
    (hfresh : Fresh projectID tenantID ws user s others trace
      (.putMembershipAndTuples m inserts deletes)) :
    (s.putMembershipAndTuples m inserts deletes).Agrees projectID tenantID ws user := by
  obtain ⟨-, ins, del, hchange, rfl, rfl⟩ := hissues
  refine h.put fun _ hws huser => ?_
  obtain ⟨hread, hinvited⟩ := hfresh hws huser
  rw [hws, huser, ← hread] at hchange
  exact hchange.agrees hinvited h

theorem Store.Agrees.remove {projectID' tenantID' ws' user' : GoString}
    {m : Membership} {role : Role}
    (h : s.Agrees projectID tenantID ws user) (hrow : s.row projectID' tenantID' ws' user' = some m)
    (hrole : scope projectID tenantID = scope projectID' tenantID' → ws' = ws → user' = user →
      m.role = role) :
    (s.deleteMembershipAndTuples projectID' tenantID' ws' user' [roleTuple ws' user' role]).2.Agrees
      projectID tenantID ws user := by
  by_cases hscope : scope projectID tenantID = scope projectID' tenantID'
  · rw [Store.agrees_congr hscope] at h ⊢
    intro r
    rw [Store.holds_deleteMembershipAndTuples hrow, Store.standing,
      Store.row_deleteMembershipAndTuples hrow, List.forall_mem_singleton]
    by_cases hkey : ws' = ws ∧ user' = user
    · obtain ⟨rfl, rfl⟩ := hkey
      obtain rfl := hrole hscope rfl rfl
      -- The tuple that goes is the only one there is.
      rw [if_pos ⟨rfl, rfl, rfl⟩, h r, Store.standing, hrow]
      simp only [Membership.standing, Option.map_some]
      grind
    · rw [if_neg fun hm => hkey ⟨hm.2.1.symm, hm.2.2.symm⟩, ← Store.standing, ← h r]
      refine ⟨And.left, fun hholds => ⟨hholds, fun heq => ?_⟩⟩
      obtain ⟨hws, huser, -⟩ := roleTuple_key_inj heq
      exact hkey ⟨hws, huser⟩
  · intro r
    rw [Store.holds_deleteMembershipAndTuples_of_ne hrow hscope, Store.standing,
      Store.row_deleteMembershipAndTuples hrow, if_neg fun hm => hscope hm.1]
    exact h r

theorem agrees_deleteMembershipAndTuples {ws' user' : GoString} {deletes : List Tuple}
    (h : s.Agrees projectID tenantID ws user)
    (hissues : (memberProtocol projectID tenantID).issues trace
      (.deleteMembershipAndTuples projectID tenantID ws' user' deletes))
    (hfresh : Fresh projectID tenantID ws user s others trace
      (.deleteMembershipAndTuples projectID tenantID ws' user' deletes)) :
    (s.deleteMembershipAndTuples projectID tenantID ws' user' deletes).2.Agrees projectID tenantID
      ws user := by
  obtain ⟨-, -, role, status, hread, rfl⟩ := hissues
  cases hrow : s.row projectID tenantID ws' user' with
  | none =>
    rw [Store.deleteMembershipAndTuples_of_none hrow]
    exact h
  | some m =>
    refine h.remove hrow fun _ hws huser => ?_
    have hstanding : s.standing projectID tenantID ws user = some m.standing := by
      rw [← hws, ← huser, Store.standing, hrow]
      rfl
    rcases hfresh hws huser with hnone | heq
    · cases hstanding.symm.trans hnone
    · rw [hws, huser, ← heq, hstanding] at hread
      exact congrArg Prod.fst (Option.some.inj hread)

/-- A call other than those two changes neither the row nor the tuples. -/
theorem agrees_exec (env : Env) {c : Call} (h : s.Agrees projectID tenantID ws user)
    (hissues : (memberProtocol projectID tenantID).issues trace c)
    (hfresh : Fresh projectID tenantID ws user s others trace c) :
    (exec env c s).2.Agrees projectID tenantID ws user := by
  cases c with
  | putMembershipAndTuples m inserts deletes =>
    exact agrees_putMembershipAndTuples h hissues hfresh
  | deleteMembershipAndTuples projectID' tenantID' ws' user' deletes =>
    obtain ⟨rfl, rfl, -⟩ := id hissues
    exact agrees_deleteMembershipAndTuples h hissues hfresh
  | updateInvitation inv =>
    simp only [exec, Store.updateInvitation]
    split_ifs <;> exact h
  | _ =>
    rw [exec_of_quiet]
    exacts [h, hissues]

theorem relies_exec (env : Env) (c : Call) :
    (memberProtocol projectID tenantID).relies trace c (exec env c s).1 := by
  cases c with
  | getMembership projectID' tenantID' ws' user' =>
    intro m hm
    exact s.row_keyed (found_eq_ok.mp hm)
  | _ => trivial

end Agreement

def memberRequests (hashToken : GoString → GoString) (projectID tenantID : GoString) (s : Store)
    (requests : List (GoString × MemberRequest)) :
    Config Store Call Reply (Except ServiceError (Option Membership)) :=
  .start s (requests.map fun q => (q.2.serve hashToken ⟨q.1, projectID, tenantID⟩).run)

/-- Membership changes leave no access behind in the runs in which every write to a row
meets the role and status that the request has read. -/
theorem memberships_back_role_tuples (hashToken : GoString → GoString)
    (projectID tenantID ws user : GoString) (s : Store)
    (hs : s.Agrees projectID tenantID ws user) (requests : List (GoString × MemberRequest))
    (c : Config Store Call Reply (Except ServiceError (Option Membership)))
    (h : Reaches exec (Fresh projectID tenantID ws user)
      (memberRequests hashToken projectID tenantID s requests) c) (role : Role) :
    c.state.Holds projectID tenantID (roleTuple ws user role) ↔
      ∃ m, c.state.row projectID tenantID ws user = some m ∧ m.status = .active ∧
        m.role = role := by
  have hstart : (memberRequests hashToken projectID tenantID s requests).Upholds
      (fun _ => memberProtocol projectID tenantID) (fun _ _ _ => True)
      (fun s _ => s.Agrees projectID tenantID ws user) requests :=
    Config.upholds_start (fun _ _ => hs) fun q _ =>
      keeps_serve (p := ⟨q.1, projectID, tenantID⟩) hashToken q.2
  have hend := h.upholds (fun env s _ _ trace _ call hinv hissues hfresh =>
    ⟨relies_exec env call, agrees_exec env hinv hissues hfresh⟩) hstart
  rw [hend.inv role, Store.standing, Option.map_eq_some_iff]
  simp [Membership.standing, and_comm]

/-! ## A removal that misses a promotion -/

namespace Removal

def acme : Workspace := ⟨"w", "p", "t", "acme", "Acme", .team, "alice", 0, 0⟩

/-- Alice owns the workspace and Bob is a member. -/
def initial : Store :=
  let s := (Store.empty.createWorkspace acme).2
  let s := s.putMembershipAndTuples ⟨"p", "t", "w", "alice", .owner, .active, 0, 0⟩
    [roleTuple "w" "alice" .owner] []
  s.putMembershipAndTuples ⟨"p", "t", "w", "bob", .member, .active, 0, 0⟩
    [roleTuple "w" "bob" .member] []

theorem initial_agrees : initial.Agrees "p" "t" "w" "bob" := by
  intro r
  cases r <;> decide +kernel

def requests : List (GoString × MemberRequest) :=
  [("alice", .removeMember "w" "bob"), ("alice", .updateMemberRole "w" "bob" "admin")]

def start : Config Store Call Reply (Except ServiceError (Option Membership)) :=
  memberRequests id "p" "t" initial requests

/-- Bob's row is read for the removal, then Bob is promoted, then the row is deleted. -/
def overlapping : List (ℕ × Env) := steps 3 0 ++ steps 5 1 ++ steps 1 0

def inTurn : List (ℕ × Env) := steps 5 1 ++ steps 4 0

end Removal

open Removal in
/-- Alice may do both, and yet Bob keeps the admin tuple without a row. -/
theorem removal_misses_promotion : initial.Agrees "p" "t" "w" "bob" ∧
    initial.allows .ascending 0 ⟨"alice", "p", "t"⟩ ⟨"workspace", "w", "admin"⟩ ∧
    ∃ c, Reaches exec (fun _ _ _ _ => True) start c ∧ c.Finished ∧
      c.state.Holds "p" "t" (roleTuple "w" "bob" .admin) ∧
      c.state.row "p" "t" "w" "bob" = none ∧
      c.state.allows .ascending 0 ⟨"bob", "p", "t"⟩ ⟨"workspace", "w", "admin"⟩ :=
  ⟨initial_agrees, by decide +kernel, start.run exec overlapping,
    reaches_run exec start overlapping (start.admitsAll_true exec overlapping),
    by decide +kernel, by decide +kernel, by decide +kernel, by decide +kernel⟩

open Removal in
theorem removal_after_promotion : (start.run exec inTurn).Finished ∧
    ¬ (start.run exec inTurn).state.Holds "p" "t" (roleTuple "w" "bob" .admin) := by
  refine ⟨by decide +kernel, fun hholds => ?_⟩
  have hreach : Reaches exec (Fresh "p" "t" "w" "bob") start (start.run exec inTurn) :=
    reaches_run exec start inTurn (by decide +kernel)
  obtain ⟨m, hrow, -⟩ := (memberships_back_role_tuples id "p" "t" "w" "bob" initial initial_agrees
    requests _ hreach .admin).mp hholds
  have hnone : (start.run exec inTurn).state.row "p" "t" "w" "bob" = none := by decide +kernel
  rw [hnone] at hrow
  cases hrow

end WorkspaceAuthz.Service
