import WorkspaceAuthz.Service.Groups

/-! # Enrollments and group members

The enrollment of a member and the tuple of the membership are written in one call,
unless there was no enrollment when the request looked; then the tuple is written
alone. So they agree as long as a tuple that is written alone meets no enrollment
that says otherwise.
-/
namespace WorkspaceAuthz.Service
open Go Authz Interleaving

inductive EnrollmentRequest where
  | addGroupMember
  | removeGroupMember
  | setEnrollmentState (state : GoString)

/-- Serve a request about one member of a group. -/
def EnrollmentRequest.serve (p : Principal) (groupID : GoString) (member : GroupMember) :
    EnrollmentRequest → ServiceM (Option Enrollment)
  | .addGroupMember => do
    Service.addGroupMember p groupID member
    return none
  | .removeGroupMember => do
    Service.removeGroupMember p groupID member
    return none
  | .setEnrollmentState state => do
    return some (← Service.setEnrollmentState p groupID member state)

/-! ## What requests write -/

/-- Row and tuple are written together according to the state, or the tuple alone. -/
def enrollmentProtocol (projectID tenantID groupID : GoString) (member : GroupMember) (t : Tuple) :
    Protocol Call Reply where
  issues _
    | .setEnrollmentAndTuples e inserts deletes =>
      scope e.projectID e.tenantID = scope projectID tenantID ∧ e.groupID = groupID ∧
      enrollmentKey e.member = enrollmentKey member ∧
      if e.state.grantsAccess then inserts = [t] ∧ deletes = [] else inserts = [] ∧ deletes = [t]
    | .writeTuples projectID' tenantID' inserts deletes =>
      projectID' = projectID ∧ tenantID' = tenantID ∧
      ((inserts = [t] ∧ deletes = []) ∨ (inserts = [] ∧ deletes = [t]))
    | c => c.Quiet
  relies _
    | .getEnrollment projectID tenantID groupID member, r => ∀ e, r = .ok e →
      scope e.projectID e.tenantID = scope projectID tenantID ∧ e.groupID = groupID ∧
        enrollmentKey e.member = enrollmentKey member
    | _, _ => True

section Keeps

variable {p : Principal} {groupID : GoString} {member : GroupMember} {t : Tuple}

abbrev KeepsEnrollments {α : Type} (p : Principal) (groupID : GoString) (member : GroupMember)
    (t : Tuple) (x : ServiceM α) : Prop :=
  Conforms (enrollmentProtocol p.projectID p.tenantID groupID member t) (fun _ => True) x

variable (ht : groupMemberTuple groupID member = .ok t)
include ht

theorem keeps_addGroupMember :
    KeepsEnrollments p groupID member t (addGroupMember p groupID member) := by
  refine .bind (.step fun _ => trivial) fun _ => .bind (.step fun _ => trivial) fun g => ?_
  refine (conforms_requireGroupManager fun _ _ => trivial).bind fun _ => ?_
  rw [ht]
  refine .settled_then (.look (fun _ => trivial) fun r hr => ?_)
  cases r with
  | ok enr =>
    obtain ⟨_, hr⟩ := hr
    obtain ⟨hscope, hgroup, hmember⟩ := hr enr rfl
    refine .bind (.step fun _ => trivial) fun now => .step fun _ => ?_
    exact ⟨hscope, hgroup, hmember, rfl, rfl⟩
  | error e =>
    exact .ite (fun _ => .step fun _ => ⟨rfl, rfl, .inl ⟨rfl, rfl⟩⟩) fun _ => .throw

theorem keeps_removeGroupMember :
    KeepsEnrollments p groupID member t (removeGroupMember p groupID member) := by
  refine .bind (.step fun _ => trivial) fun g => ?_
  refine (conforms_requireGroupManager fun _ _ => trivial).bind fun _ => ?_
  rw [ht]
  refine .settled_then (.look (fun _ => trivial) fun r hr => ?_)
  cases r with
  | ok enr =>
    obtain ⟨_, hr⟩ := hr
    obtain ⟨hscope, hgroup, hmember⟩ := hr enr rfl
    refine .bind (.step fun _ => trivial) fun now => .step fun _ => ?_
    exact ⟨hscope, hgroup, hmember, rfl, rfl⟩
  | error e =>
    exact .ite (fun _ => .step fun _ => ⟨rfl, rfl, .inr ⟨rfl, rfl⟩⟩) fun _ => .throw

omit ht in
theorem keeps_putEnrollment {state : EnrollmentState} {createdAt updatedAt : Time} :
    KeepsEnrollments p groupID member t (putEnrollment
      ⟨p.projectID, p.tenantID, groupID, member, state, createdAt, updatedAt⟩ t) := by
  refine .ite (fun hgrants => ?_) fun hgrants => ?_
  · refine .bind (.step fun _ => ⟨rfl, rfl, rfl, ?_⟩) fun _ => .pure
    rw [if_pos hgrants]
    exact ⟨rfl, rfl⟩
  · refine .bind (.step fun _ => ⟨rfl, rfl, rfl, ?_⟩) fun _ => .pure
    rw [if_neg hgrants]
    exact ⟨rfl, rfl⟩

theorem keeps_setEnrollmentState {state : GoString} :
    KeepsEnrollments p groupID member t (setEnrollmentState p groupID member state) := by
  refine .bind (.step fun _ => trivial) fun _ => ?_
  cases EnrollmentState.ofName? state with
  | none => exact .throw
  | some state =>
    rw [ht]
    refine .settled_then (.bind (.step fun _ => trivial) fun g => ?_)
    refine (conforms_requireGroupManager fun _ _ => trivial).bind fun _ => ?_
    refine .bind (.step fun _ => trivial) fun now => .look (fun _ => trivial) fun r _ => ?_
    cases r with
    | ok existing => exact keeps_putEnrollment
    | error e => exact .ite (fun _ => keeps_putEnrollment) fun _ => .throw

theorem EnrollmentRequest.keeps (request : EnrollmentRequest) :
    KeepsEnrollments p groupID member t (request.serve p groupID member) := by
  cases request with
  | addGroupMember => exact (keeps_addGroupMember ht).bind fun _ => .pure
  | removeGroupMember => exact (keeps_removeGroupMember ht).bind fun _ => .pure
  | setEnrollmentState => exact (keeps_setEnrollmentState ht).bind fun _ => .pure

end Keeps

/-! ## Enrollments in agreement with tuples -/

section Agreement

variable {projectID tenantID groupID : GoString} {member : GroupMember} {t : Tuple} {s : Store}
  {others : List CallTrace} {trace : CallTrace}

/-- The tuple is stored exactly if the enrollment, if there is one, grants access. -/
def Store.EnrollmentAgrees (s : Store) (projectID tenantID groupID : GoString)
    (member : GroupMember)
    (t : Tuple) : Prop :=
  ∀ e ∈ s.enrollment projectID tenantID groupID member,
    s.Holds projectID tenantID t ↔ e.state.grantsAccess

/-- A tuple that is written alone meets no enrollment, or one that it agrees with. -/
def Untracked (projectID tenantID groupID : GoString) (member : GroupMember) (s : Store)
    (_others : List CallTrace) (_trace : CallTrace) : Call → Prop
  | .writeTuples _ _ inserts _ => ∀ e ∈ s.enrollment projectID tenantID groupID member,
      e.state.grantsAccess ↔ inserts ≠ []
  | _ => True

instance : DecidablePred (Untracked projectID tenantID groupID member s others trace) :=
  fun c => by induction c using Call.casesOn <;> (dsimp only [Untracked]; infer_instance)

theorem enrollmentAgrees_exec (env : Env) {c : Call}
    (h : s.EnrollmentAgrees projectID tenantID groupID member t)
    (hissues : (enrollmentProtocol projectID tenantID groupID member t).issues trace c)
    (hguard : Untracked projectID tenantID groupID member s others trace c) :
    (exec env c s).2.EnrollmentAgrees projectID tenantID groupID member t := by
  cases c with
  | setEnrollmentAndTuples e inserts deletes =>
    obtain ⟨hscope, hgroup, hmember, hwrite⟩ := hissues
    intro e' he'
    rw [exec, Store.enrollment_setEnrollmentAndTuples,
      if_pos ⟨hscope.symm, hgroup.symm, hmember.symm⟩, Option.mem_some_iff] at he'
    subst he'
    rw [exec, Store.setEnrollmentAndTuples, Store.holds_writeTuples_of_scope_eq hscope.symm]
    split_ifs at hwrite with hgrants <;> obtain ⟨rfl, rfl⟩ := hwrite <;> simp [hgrants]
  | writeTuples projectID' tenantID' inserts deletes =>
    obtain ⟨rfl, rfl, hwrite⟩ := hissues
    intro e he
    have hgrants := hguard e he
    rw [exec, Store.holds_writeTuples, hgrants]
    obtain ⟨rfl, rfl⟩ | ⟨rfl, rfl⟩ := hwrite <;> simp
  | _ =>
    rw [exec_of_quiet]
    exacts [h, hissues]

theorem enrollmentRelies_exec (env : Env) (c : Call) :
    (enrollmentProtocol projectID tenantID groupID member t).relies trace c (exec env c s).1 := by
  cases c with
  | getEnrollment projectID' tenantID' groupID' member' =>
    intro e he
    exact s.enrollments_keyed _ _ _ _ (found_eq_ok.mp he)
  | _ => trivial

end Agreement

def enrollmentRequests (projectID tenantID groupID : GoString) (member : GroupMember) (s : Store)
    (requests : List (GoString × EnrollmentRequest)) :
    Config Store Call Reply (Except ServiceError (Option Enrollment)) :=
  .start s (requests.map fun q => (q.2.serve ⟨q.1, projectID, tenantID⟩ groupID member).run)

/-- The roster and the tuple agree in the runs in which every tuple that is written alone
meets no enrollment of the member, or one that it agrees with. -/
theorem enrollments_back_member_tuples (projectID tenantID groupID : GoString)
    (member : GroupMember) (t : Tuple) (ht : groupMemberTuple groupID member = .ok t) (s : Store)
    (hs : s.EnrollmentAgrees projectID tenantID groupID member t)
    (requests : List (GoString × EnrollmentRequest))
    (c : Config Store Call Reply (Except ServiceError (Option Enrollment)))
    (h : Reaches exec (Untracked projectID tenantID groupID member)
      (enrollmentRequests projectID tenantID groupID member s requests) c) (e : Enrollment)
    (he : c.state.enrollment projectID tenantID groupID member = some e) :
    c.state.Holds projectID tenantID t ↔ e.state = .enrolled ∨ e.state = .active := by
  have hstart : (enrollmentRequests projectID tenantID groupID member s requests).Upholds
      (fun _ => enrollmentProtocol projectID tenantID groupID member t) (fun _ _ _ => True)
      (fun s _ => s.EnrollmentAgrees projectID tenantID groupID member t) requests :=
    Config.upholds_start (fun _ _ => hs) fun q _ =>
      q.2.keeps (p := ⟨q.1, projectID, tenantID⟩) ht [] trivial
  have hend := h.upholds (fun env s _ _ trace _ call hinv hissues hguard =>
    ⟨enrollmentRelies_exec env call, enrollmentAgrees_exec env hinv hissues hguard⟩) hstart
  rw [hend.inv e he]
  cases e.state <;> decide

/-! ## A member who is added while being put on the waiting list -/

namespace Waitlisting

def algebra : Group := ⟨"g", "p", "t", [], "algebra", "Algebra", "alice", 0, 0⟩

def bob : GroupMember := { userID := "bob" }

/-- Alice has made a group without members. -/
def initial : Store := (Store.empty.createGroup algebra).2

theorem initial_agrees :
    initial.EnrollmentAgrees "p" "t" "g" bob (userTuple "group" "g" "member" "bob") := by
  intro e he
  have hnone : initial.enrollment "p" "t" "g" bob = none := by decide +kernel
  rw [hnone] at he
  cases he

def requests : List (GoString × EnrollmentRequest) :=
  [("alice", .addGroupMember), ("alice", .setEnrollmentState "waitlisted")]

def start : Config Store Call Reply (Except ServiceError (Option Enrollment)) :=
  enrollmentRequests "p" "t" "g" bob initial requests

/-- The first request finds no enrollment, then the second one makes one. -/
def overlapping : List (ℕ × Env) := steps 3 0 ++ steps 5 1 ++ steps 1 0

def inTurn : List (ℕ × Env) := steps 4 0 ++ steps 5 1

end Waitlisting

open Waitlisting in
/-- Bob is on the waiting list and a member. -/
theorem waitlisted_member_is_allowed :
    initial.EnrollmentAgrees "p" "t" "g" bob (userTuple "group" "g" "member" "bob") ∧
    ∃ c, Reaches exec (fun _ _ _ _ => True) start c ∧ c.Finished ∧
      (c.state.enrollment "p" "t" "g" bob).map (·.state) = some .waitlisted ∧
      c.state.Holds "p" "t" (userTuple "group" "g" "member" "bob") ∧
      c.state.allows .ascending 0 ⟨"bob", "p", "t"⟩ ⟨"group", "g", "member"⟩ :=
  ⟨initial_agrees, start.run exec overlapping,
    reaches_run exec start overlapping (start.admitsAll_true exec overlapping),
    by decide +kernel, by decide +kernel, by decide +kernel, by decide +kernel⟩

open Waitlisting in
theorem waitlisted_member_in_turn : (start.run exec inTurn).Finished ∧
    ¬ (start.run exec inTurn).state.Holds "p" "t" (userTuple "group" "g" "member" "bob") := by
  have hreach : Reaches exec (Untracked "p" "t" "g" bob) start (start.run exec inTurn) :=
    reaches_run exec start inTurn (by decide +kernel)
  have hrow : ∃ e, (start.run exec inTurn).state.enrollment "p" "t" "g" bob = some e ∧
      e.state = .waitlisted := by
    have hstate : ((start.run exec inTurn).state.enrollment "p" "t" "g" bob).map (·.state) =
        some .waitlisted := by decide +kernel
    exact Option.map_eq_some_iff.mp hstate
  obtain ⟨e, he, hwaitlisted⟩ := hrow
  refine ⟨by decide +kernel, fun hholds => ?_⟩
  have hgrants := (enrollments_back_member_tuples "p" "t" "g" bob _ rfl initial initial_agrees
    requests _ hreach e he).mp hholds
  rw [hwaitlisted] at hgrants
  revert hgrants
  decide

end WorkspaceAuthz.Service
