import WorkspaceAuthz.Service.Workspaces

/-! # The owner of a workspace

A transfer is done in several calls, between which there may be two owner tuples:
one of them is the recorded owner's, and the other one is still to be dealt with by
the transfer that put it there or that has taken the record from it. So there is
an owner at every moment, provided that transfers do not overtake each other.
-/
namespace WorkspaceAuthz.Service
open Go Authz Interleaving

/-! ## What requests do after what they have read -/

/-- The owner that a request has read on the workspace last. -/
def readOwner : CallTrace → Option GoString
  | [] => none
  | ⟨.getWorkspace .., r⟩ :: _ => r.toOption.map (·.ownerUserID)
  | _ :: trace => readOwner trace

/-- Whose owner tuple is left over: the new owner's until they are recorded, and then the
former owner's until they are demoted. -/
def pendingOwner : CallTrace → Option GoString
  | [] => none
  | ⟨.putMembershipAndTuples m _ _, _⟩ :: _ => if m.role = .owner then some m.userID else none
  | ⟨.updateWorkspace w, _⟩ :: trace =>
    if readOwner trace = some w.ownerUserID then none else readOwner trace
  | ⟨.writeTuples .., _⟩ :: _ => none
  | _ :: trace => pendingOwner trace

/-- Promotions, records and demotions on one workspace, in this order. -/
def ownerProtocol (projectID tenantID ws : GoString) : Protocol Call Reply where
  issues trace
    | .putMembershipAndTuples m inserts deletes =>
      scope m.projectID m.tenantID = scope projectID tenantID ∧
      ((m.role = .owner ∧ pendingOwner trace = none ∧ inserts = [roleTuple ws m.userID .owner] ∧
          ∃ roles : List Role, .owner ∉ roles ∧ deletes = roles.map (roleTuple ws m.userID)) ∨
        (m.role = .admin ∧ pendingOwner trace = some m.userID ∧
          inserts = [roleTuple ws m.userID .admin] ∧ deletes = [roleTuple ws m.userID .owner]))
    | .writeTuples projectID' tenantID' inserts deletes =>
      projectID' = projectID ∧ tenantID' = tenantID ∧ ∃ user, pendingOwner trace = some user ∧
        inserts = [roleTuple ws user .admin] ∧ deletes = [roleTuple ws user .owner]
    | .updateWorkspace w =>
      scope w.projectID w.tenantID = scope projectID tenantID ∧ w.id = ws ∧
      ((readOwner trace = some w.ownerUserID ∧ pendingOwner trace = none) ∨
        (readOwner trace ≠ some w.ownerUserID ∧ pendingOwner trace = some w.ownerUserID))
    | c => c.Quiet
  relies _
    | .getWorkspace projectID tenantID id, r => ∀ w, r = .ok w →
      scope w.projectID w.tenantID = scope projectID tenantID ∧ w.id = id
    | .getMembership projectID tenantID _ user, r =>
      (∀ m, r = .ok m → scope m.projectID m.tenantID = scope projectID tenantID ∧ m.userID = user) ∧
        ∀ e, r = .error e → isNotFound e
    | .putMembershipAndTuples .., r | .writeTuples .., r | .updateWorkspace _, r => r = .ok ()
    | _, _ => True

section Keeps

variable {p : Principal} {trace : CallTrace} {ws user : GoString} {now : Time}

/-- When a request returns, no owner tuple is left over. -/
abbrev KeepsOwnerProtocol {α : Type} (p : Principal) (ws : GoString) (trace : CallTrace)
    (x : ServiceM α) : Prop :=
  x.run.Keeps (ownerProtocol p.projectID p.tenantID ws) (fun t _ => pendingOwner t = none) trace

theorem keeps_promote (hnone : pendingOwner trace = none)
    {Q : CallTrace → Except ServiceError Unit → Prop}
    (hok : ∀ t, pendingOwner t = some user → readOwner t = readOwner trace → Q t (.ok ())) :
    (promote p ws user now).run.Keeps (ownerProtocol p.projectID p.tenantID ws) Q trace := by
  refine keeps_observe_then trivial fun r hr => ?_
  cases r with
  | ok m =>
    refine keeps_attempt.mpr ⟨⟨rfl, .inl ⟨rfl, hnone, rfl, _, ?_, rfl⟩⟩, fun r hr => ?_⟩
    · by_cases hrole : m.role = .owner
      · simp [hrole]
      · simp [hrole, Ne.symm hrole]
    · rw [hr]
      exact hok _ rfl rfl
  | error e =>
    refine keeps_ite (fun _ => ?_) fun hfound => absurd (hr.2 e rfl) hfound
    refine keeps_attempt.mpr ⟨⟨rfl, .inl ⟨rfl, hnone, rfl, [], by simp, rfl⟩⟩, fun r hr => ?_⟩
    rw [hr]
    exact hok _ rfl rfl

theorem keeps_demote (hsome : pendingOwner trace = some user) :
    KeepsOwnerProtocol p ws trace (demote p ws user now) := by
  refine keeps_observe_then trivial fun r hr => ?_
  cases r with
  | ok m =>
    obtain ⟨hscope, huser⟩ := hr.1 m rfl
    refine keeps_attempt.mpr ⟨⟨hscope, .inr ⟨rfl, ?_, ?_, ?_⟩⟩, fun _ _ => rfl⟩
    · rw [huser]
      exact hsome
    · rw [huser]
    · rw [huser]
  | error e =>
    refine keeps_ite (fun _ => ?_) fun hfound => absurd (hr.2 e rfl) hfound
    exact keeps_attempt.mpr ⟨⟨rfl, rfl, _, hsome, rfl, rfl⟩, fun _ _ => rfl⟩

theorem keeps_transferOwnership {newOwnerID : GoString} :
    KeepsOwnerProtocol p ws [] (transferOwnership p ws newOwnerID) := by
  refine keeps_ite (fun _ => rfl) fun _ => ?_
  rw [keeps_sequence]
  refine keeps_requireWorkspace trivial (fun _ => trivial) (fun w hw => ?_) (fun _ => rfl)
    fun _ _ _ => rfl
  refine keeps_attempt_then trivial (fun _ _ => rfl) fun _ _ => ?_
  refine keeps_ite (fun _ => rfl) fun _ => ?_
  refine keeps_ite (fun _ => rfl) fun hne => ?_
  refine keeps_attempt_then trivial (fun _ _ => rfl) fun now _ => ?_
  rw [keeps_sequence]
  refine keeps_promote rfl fun t hpending hread => ?_
  have hread : readOwner t = some w.ownerUserID := hread
  obtain ⟨hscope, hid⟩ := hw w rfl
  have hchanged : readOwner t ≠ some newOwnerID := by
    rw [hread]
    exact fun h => hne (Option.some.inj h).symm
  refine keeps_attempt_then ⟨hscope, hid, .inr ⟨hchanged, hpending⟩⟩ (fun e he => ?_) fun _ _ => ?_
  · cases he
  rw [keeps_sequence]
  have hformer : pendingOwner (⟨.updateWorkspace
      { w with ownerUserID := newOwnerID, updatedAt := now }, .ok ()⟩ :: t) =
        some w.ownerUserID := by
    rw [← hread]
    exact if_neg hchanged
  refine (keeps_demote hformer).mono fun t r ht => ?_
  cases r <;> exact ht

theorem keeps_updateWorkspace {displayName : GoString} :
    KeepsOwnerProtocol p ws [] (updateWorkspace p ws displayName) := by
  rw [KeepsOwnerProtocol, updateWorkspace, keeps_sequence]
  refine keeps_requireWorkspace trivial (fun _ => trivial) (fun w hw => ?_) (fun _ => rfl)
    fun _ _ _ => rfl
  obtain ⟨hscope, hid⟩ := hw w rfl
  refine keeps_ite (fun _ => rfl) fun _ => ?_
  refine keeps_attempt_then trivial (fun _ _ => rfl) fun now _ => ?_
  refine keeps_attempt_then ⟨hscope, hid, .inl ⟨rfl, rfl⟩⟩ (fun _ _ => ?_) fun _ _ => ?_
  · exact if_pos rfl
  · exact if_pos rfl

end Keeps

/-! ## Owner tuples and the recorded owner -/

section Invariant

variable {projectID tenantID ws : GoString} {s : Store} {others : List CallTrace}
  {trace : CallTrace}

def Store.recordedOwner (s : Store) (projectID tenantID ws : GoString) : Option GoString :=
  (s.workspaces.get₂ (scope projectID tenantID) ws).map (·.ownerUserID)

abbrev Store.Owns (s : Store) (projectID tenantID ws user : GoString) : Prop :=
  s.Holds projectID tenantID (roleTuple ws user .owner)

/-- A transfer does not overtake another one: a row is written over the owner that the request
has read and names somebody with an owner tuple, and the tuple that goes is not the recorded
owner's. -/
def Undisturbed (projectID tenantID ws : GoString) (s : Store) (_others : List CallTrace)
    (trace : CallTrace) : Call → Prop
  | .updateWorkspace w => s.recordedOwner projectID tenantID ws = readOwner trace ∧
      s.Owns projectID tenantID ws w.ownerUserID
  | .putMembershipAndTuples _ _ deletes | .writeTuples _ _ _ deletes => ∀ t ∈ deletes,
      t.relation = Role.owner.name → s.recordedOwner projectID tenantID ws ≠ some t.subject.userID
  | _ => True

instance : DecidablePred (Undisturbed projectID tenantID ws s others trace) := fun c => by
  induction c using Call.casesOn <;> (dsimp only [Undisturbed]; infer_instance)

/-- The recorded owner has an owner tuple, and whoever else has one is being dealt with: by one
request or by the rest of them. -/
structure Store.Owned (s : Store) (projectID tenantID ws : GoString) (mine : Option GoString)
    (rest : GoString → Prop) : Prop where
  recorded : ∃ owner, s.recordedOwner projectID tenantID ws = some owner ∧
    s.Owns projectID tenantID ws owner
  others : ∀ user, s.Owns projectID tenantID ws user →
    s.recordedOwner projectID tenantID ws = some user ∨ mine = some user ∨ rest user

section Moves

variable {s' : Store} {mine : Option GoString} {rest : GoString → Prop}
  (h : s.Owned projectID tenantID ws mine rest)
include h

theorem Store.Owned.promote {user : GoString} (hmine : mine = none)
    (hrecord : s'.recordedOwner projectID tenantID ws = s.recordedOwner projectID tenantID ws)
    (howns : ∀ u, s'.Owns projectID tenantID ws u ↔ user = u ∨ s.Owns projectID tenantID ws u) :
    s'.Owned projectID tenantID ws (some user) rest := by
  obtain ⟨⟨owner, howner, hholds⟩, hothers⟩ := h
  refine ⟨⟨owner, hrecord.trans howner, (howns owner).mpr (.inr hholds)⟩, fun u hu => ?_⟩
  rcases (howns u).mp hu with rfl | hu
  · exact .inr (.inl rfl)
  · rcases hothers u hu with hu | hu | hu
    · exact .inl (hrecord.trans hu)
    · rw [hmine] at hu
      cases hu
    · exact .inr (.inr hu)

theorem Store.Owned.record {old new : GoString}
    (hold : s.recordedOwner projectID tenantID ws = some old)
    (hnew : s.Owns projectID tenantID ws new) (hmine : old = new ∧ mine = none ∨ mine = some new)
    (hrecord : s'.recordedOwner projectID tenantID ws = some new)
    (howns : ∀ u, s'.Owns projectID tenantID ws u ↔ s.Owns projectID tenantID ws u) :
    s'.Owned projectID tenantID ws (if old = new then none else some old) rest := by
  refine ⟨⟨new, hrecord, (howns new).mpr hnew⟩, fun u hu => ?_⟩
  rcases h.others u ((howns u).mp hu) with hu | hu | hu
  · obtain rfl := Option.some.inj (hold.symm.trans hu)
    by_cases hne : old = new
    · exact .inl (hne ▸ hrecord)
    · exact .inr (.inl (if_neg hne))
  · rcases hmine with ⟨-, hmine⟩ | hmine
    · rw [hmine] at hu
      cases hu
    · obtain rfl := Option.some.inj (hmine.symm.trans hu)
      exact .inl hrecord
  · exact .inr (.inr hu)

theorem Store.Owned.demote {user : GoString} (hmine : mine = some user)
    (hne : s.recordedOwner projectID tenantID ws ≠ some user)
    (hrecord : s'.recordedOwner projectID tenantID ws = s.recordedOwner projectID tenantID ws)
    (howns : ∀ u, s'.Owns projectID tenantID ws u ↔ s.Owns projectID tenantID ws u ∧ user ≠ u) :
    s'.Owned projectID tenantID ws none rest := by
  obtain ⟨⟨owner, howner, hholds⟩, hothers⟩ := h
  have howner' : user ≠ owner := fun heq => hne (heq ▸ howner)
  refine ⟨⟨owner, hrecord.trans howner, (howns owner).mpr ⟨hholds, howner'⟩⟩, fun u hu => ?_⟩
  obtain ⟨hu, hother⟩ := (howns u).mp hu
  rcases hothers u hu with hu | hu | hu
  · exact .inl (hrecord.trans hu)
  · exact absurd (Option.some.inj (hmine.symm.trans hu)) hother
  · exact .inr (.inr hu)

end Moves

theorem updateWorkspace_of_recorded {w : Workspace} {old : GoString}
    (hscope : scope w.projectID w.tenantID = scope projectID tenantID)
    (hold : s.recordedOwner projectID tenantID w.id = some old) :
    s.updateWorkspace w = (.ok (), s.putWorkspace w) := by
  obtain ⟨row, hrow, -⟩ := Option.map_eq_some_iff.mp hold
  simp [Store.updateWorkspace, hscope, hrow]

theorem recordedOwner_putWorkspace {w : Workspace}
    (hscope : scope w.projectID w.tenantID = scope projectID tenantID) :
    (s.putWorkspace w).recordedOwner projectID tenantID w.id = some w.ownerUserID := by
  simp [Store.recordedOwner, Store.putWorkspace, hscope, GoMap.get₂_put₂]

theorem owned_exec (env : Env) {c : Call} {rest : GoString → Prop}
    (h : s.Owned projectID tenantID ws (pendingOwner trace) rest)
    (hissues : (ownerProtocol projectID tenantID ws).issues trace c)
    (hguard : Undisturbed projectID tenantID ws s others trace c) :
    (exec env c s).2.Owned projectID tenantID ws
      (pendingOwner (⟨c, (exec env c s).1⟩ :: trace)) rest := by
  cases c with
  | putMembershipAndTuples m inserts deletes =>
    obtain ⟨hscope, ⟨hrole, hmine, rfl, roles, hroles, rfl⟩ | ⟨hrole, hmine, rfl, rfl⟩⟩ := hissues
    · rw [pendingOwner, if_pos hrole]
      refine h.promote hmine rfl fun u => ?_
      refine (Store.holds_roleTuple_of_write ws m.userID [.owner] roles fun t =>
        Store.holds_putMembershipAndTuples hscope.symm).trans ?_
      simp [hroles]
    · rw [pendingOwner, if_neg (by simp [hrole])]
      refine h.demote hmine (hguard _ (List.mem_singleton_self _) rfl) rfl fun u => ?_
      refine (Store.holds_roleTuple_of_write ws m.userID [.admin] [.owner] fun t =>
        Store.holds_putMembershipAndTuples hscope.symm).trans ?_
      simp
  | writeTuples projectID' tenantID' inserts deletes =>
    obtain ⟨rfl, rfl, user, hmine, rfl, rfl⟩ := hissues
    refine h.demote hmine (hguard _ (List.mem_singleton_self _) rfl) rfl fun u => ?_
    refine (Store.holds_roleTuple_of_write ws user [.admin] [.owner] fun t =>
      Store.holds_writeTuples).trans ?_
    simp
  | updateWorkspace w =>
    obtain ⟨hscope, rfl, hmine⟩ := hissues
    obtain ⟨hread, hnew⟩ := hguard
    obtain ⟨old, hold, -⟩ := h.recorded
    rw [hold] at hread
    rw [exec, updateWorkspace_of_recorded hscope hold, pendingOwner, ← hread]
    have hpending : (if some old = some w.ownerUserID then none else some old) =
        if old = w.ownerUserID then none else some old := by
      simp only [Option.some.injEq]
    rw [hpending]
    refine h.record hold hnew ?_ (recordedOwner_putWorkspace hscope) fun u => Iff.rfl
    rcases hmine with ⟨hsame, hnone⟩ | ⟨-, hsome⟩
    · exact .inl ⟨Option.some.inj (hread.trans hsame), hnone⟩
    · exact .inr hsome
  | _ =>
    rw [exec_of_quiet]
    exacts [h, hissues]

theorem ownerRelies_exec (env : Env) {c : Call} {mine : Option GoString} {rest : GoString → Prop}
    (h : s.Owned projectID tenantID ws mine rest)
    (hissues : (ownerProtocol projectID tenantID ws).issues trace c) :
    (ownerProtocol projectID tenantID ws).relies trace c (exec env c s).1 := by
  cases c with
  | getWorkspace projectID' tenantID' id =>
    intro w hw
    exact s.workspaces_keyed _ _ _ (found_eq_ok.mp hw)
  | getMembership projectID' tenantID' ws' user =>
    refine ⟨fun m hm => ?_, fun e he => ?_⟩
    · obtain ⟨hscope, -, huser⟩ := s.row_keyed (found_eq_ok.mp hm)
      exact ⟨hscope, huser⟩
    · exact isNotFound_of_found he
  | putMembershipAndTuples => rfl
  | writeTuples => rfl
  | updateWorkspace w =>
    obtain ⟨hscope, rfl, -⟩ := hissues
    obtain ⟨old, hold, -⟩ := h.recorded
    exact congrArg Prod.fst (updateWorkspace_of_recorded hscope hold)
  | _ => trivial

/-- Tuples left over by some request of a list. -/
theorem owned_iff_of_split {ι : Type} {before after : List (ι × CallTrace)} {i : ι} :
    s.Owned projectID tenantID ws none
        (fun u => ∃ x ∈ before ++ (i, trace) :: after, pendingOwner x.2 = some u) ↔
      s.Owned projectID tenantID ws (pendingOwner trace)
        (fun u => ∃ x ∈ before ++ after, pendingOwner x.2 = some u) := by
  refine ⟨fun h => ⟨h.recorded, fun u hu => ?_⟩, fun h => ⟨h.recorded, fun u hu => ?_⟩⟩
  · rcases h.others u hu with hu | hu | ⟨x, hx, hu⟩
    · exact .inl hu
    · cases hu
    · rcases List.mem_append.mp hx with hx | hx
      · exact .inr (.inr ⟨x, List.mem_append_left _ hx, hu⟩)
      · rcases List.mem_cons.mp hx with rfl | hx
        · exact .inr (.inl hu)
        · exact .inr (.inr ⟨x, List.mem_append_right _ hx, hu⟩)
  · rcases h.others u hu with hu | hu | ⟨x, hx, hu⟩
    · exact .inl hu
    · exact .inr (.inr ⟨(i, trace), by simp, hu⟩)
    · refine .inr (.inr ⟨x, ?_, hu⟩)
      rcases List.mem_append.mp hx with hx | hx <;> simp [hx]

end Invariant

inductive OwnershipRequest where
  | transferOwnership (newOwnerID : GoString)
  | updateWorkspace (displayName : GoString)

def OwnershipRequest.serve (p : Principal) (ws : GoString) :
    OwnershipRequest → ServiceM Workspace
  | .transferOwnership newOwnerID => Service.transferOwnership p ws newOwnerID
  | .updateWorkspace displayName => Service.updateWorkspace p ws displayName

def ownershipRequests (projectID tenantID ws : GoString) (s : Store)
    (requests : List (GoString × OwnershipRequest)) :
    Config Store Call Reply (Except ServiceError Workspace) :=
  .start s (requests.map fun q => (q.2.serve ⟨q.1, projectID, tenantID⟩ ws).run)

/-- Somebody owns the workspace at every moment of a run in which no request overtakes another,
and in the end it is the recorded owner alone. -/
theorem transfers_keep_an_owner (projectID tenantID ws owner : GoString) (s : Store)
    (hrecorded : s.recordedOwner projectID tenantID ws = some owner)
    (howns : ∀ u, s.Owns projectID tenantID ws u ↔ u = owner)
    (requests : List (GoString × OwnershipRequest))
    (c : Config Store Call Reply (Except ServiceError Workspace))
    (h : Reaches exec (Undisturbed projectID tenantID ws)
      (ownershipRequests projectID tenantID ws s requests) c) :
    (∃ u, c.state.Owns projectID tenantID ws u) ∧
      (c.Finished → ∃ owner, c.state.recordedOwner projectID tenantID ws = some owner ∧
        ∀ u, c.state.Owns projectID tenantID ws u ↔ u = owner) := by
  have hstart : (ownershipRequests projectID tenantID ws s requests).Upholds
      (fun _ => ownerProtocol projectID tenantID ws) (fun _ t _ => pendingOwner t = none)
      (fun s ts => s.Owned projectID tenantID ws none
        fun u => ∃ x ∈ ts, pendingOwner x.2 = some u) requests := by
    refine Config.upholds_start (fun ts _ => ⟨⟨owner, hrecorded, (howns owner).mpr rfl⟩,
      fun u hu => .inl ?_⟩) fun q _ => ?_
    · rw [hrecorded, (howns u).mp hu]
    · obtain ⟨actor, newOwnerID | displayName⟩ := q
      · exact keeps_transferOwnership (p := ⟨actor, projectID, tenantID⟩)
      · exact keeps_updateWorkspace (p := ⟨actor, projectID, tenantID⟩)
  have hend := h.upholds (fun env s before i trace after call hinv hissues hguard => by
    rw [owned_iff_of_split] at hinv ⊢
    exact ⟨ownerRelies_exec env hinv hissues, owned_exec env hinv hissues hguard⟩) hstart
  obtain ⟨last, hlast, hholds⟩ := hend.inv.recorded
  refine ⟨⟨last, hholds⟩, fun hfinished => ⟨last, hlast, fun u => ⟨fun hu => ?_, ?_⟩⟩⟩
  · rcases hend.inv.others u hu with hu | hu | ⟨⟨q, t⟩, hx, hu⟩
    · exact Option.some.inj (hu.symm.trans hlast)
    · cases hu
    · -- A request that has returned has left nothing over.
      obtain ⟨_, hnone⟩ := hend.of_finished hfinished hx
      exact absurd (hnone.symm.trans hu) (by simp)
  · rintro rfl
    exact hholds

/-! ## A transfer there and back -/

namespace Handover

def acme : Workspace := ⟨"w", "p", "t", "acme", "Acme", .team, "alice", 0, 0⟩

/-- Alice owns the workspace and Bob is a member. -/
def initial : Store :=
  let s := Store.empty.putWorkspace acme
  let s := s.putMembershipAndTuples ⟨"p", "t", "w", "alice", .owner, .active, 0, 0⟩
    [roleTuple "w" "alice" .owner] []
  s.putMembershipAndTuples ⟨"p", "t", "w", "bob", .member, .active, 0, 0⟩
    [roleTuple "w" "bob" .member] []

theorem initial_owns (u : GoString) : initial.Owns "p" "t" "w" u ↔ u = "alice" := by
  constructor
  · intro hu
    obtain ⟨t, ht, hkey⟩ := (Store.holds_iff_exists_values .ascending).mp hu
    have honly : ∀ t ∈ (initial.tuples.inner (scope "p" "t")).values .ascending,
        t.relation = Role.owner.name → subjectKey t.subject = subjectKey { userID := "alice" } := by
      decide +kernel
    obtain ⟨-, -, hrelation, hsubject⟩ := tupleKey_inj hkey
    exact subjectKey_user_inj (hsubject.symm.trans (honly t ht hrelation))
  · rintro rfl
    decide +kernel

/-- Alice hands the workspace over to Bob, and Bob hands it back. -/
def start : Config Store Call Reply (Except ServiceError Workspace) :=
  ownershipRequests "p" "t" "w" initial
    [("alice", .transferOwnership "bob"), ("bob", .transferOwnership "alice")]

/-- Bob is promoted and recorded, and Alice's row is read. -/
def halfway : Config Store Call Reply (Except ServiceError Workspace) :=
  start.run exec (steps 8 0)

/-- Bob hands the workspace back, and then Alice is demoted. -/
def final : Config Store Call Reply (Except ServiceError Workspace) :=
  halfway.run exec (steps 9 1 ++ steps 1 0)

end Handover

open Handover in
/-- Both may transfer when they do, and nobody owns the workspace in the end. -/
theorem handover_leaves_no_owner : initial.recordedOwner "p" "t" "w" = some (str "alice") ∧
    (∀ u, initial.Owns "p" "t" "w" u ↔ u = "alice") ∧
    initial.allows .ascending 0 ⟨"alice", "p", "t"⟩ ⟨"workspace", "w", "owner"⟩ ∧
    Reaches exec (fun _ _ _ _ => True) start halfway ∧
    halfway.state.allows .ascending 0 ⟨"bob", "p", "t"⟩ ⟨"workspace", "w", "owner"⟩ ∧
    Reaches exec (fun _ _ _ _ => True) halfway final ∧ final.Finished ∧
    ∀ u, ¬ final.state.Owns "p" "t" "w" u := by
  refine ⟨by decide +kernel, initial_owns, by decide +kernel,
    reaches_run exec start _ (start.admitsAll_true exec _), by decide +kernel,
    reaches_run exec halfway _ (halfway.admitsAll_true exec _), by decide +kernel, fun u hu => ?_⟩
  obtain ⟨t, ht, hkey⟩ := (Store.holds_iff_exists_values .ascending).mp hu
  have hnone : ∀ t ∈ (final.state.tuples.inner (scope "p" "t")).values .ascending,
      t.relation ≠ Role.owner.name := by decide +kernel
  exact hnone t ht (tupleKey_inj hkey).2.2.1

open Handover in
theorem handover_in_turn_keeps_an_owner :
    ∃ u, (start.run exec (steps 9 0)).state.Owns "p" "t" "w" u :=
  (transfers_keep_an_owner "p" "t" "w" "alice" initial (by decide +kernel) initial_owns _ _
    (reaches_run exec start _ (by decide +kernel))).1

end WorkspaceAuthz.Service
