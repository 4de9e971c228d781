import WorkspaceAuthz.Connect.Rpcs
import WorkspaceAuthz.Service.ProjectParts

/-! # Callers are confined to their project

A call works on the project that its caller is pinned to, or else on the one that the
message names. Whatever else is going on, the calls on one project run as if there were no
others: they get the same replies and leave the same data behind.
-/
namespace WorkspaceAuthz.Connect
open Go Authz Service Interleaving

/-! ## Operations of a project -/

def ServerOp.Within (projectID : GoString) : ServerOp → Prop
  | .repo c => ∃ tenantID, c.Within projectID tenantID
  | .evaluate p _ => p.projectID = projectID
  | .allow _ | .ctxErr => True

def ServerOp.Keyed : (op : ServerOp) → op.Reply → Prop
  | .repo c, r => c.Keyed r
  | _, _ => True

/-- Nothing is done in a project whose id has the separator in it. -/
def projectProtocol (projectID : GoString) : Protocol ServerOp ServerOp.Reply where
  issues _ op := 0 ∉ projectID ∧ op.Within projectID
  relies _ op r := op.Keyed r

theorem parted_exec (sv : Server) {projectID : GoString} (hproject : 0 ∉ projectID) {op : ServerOp}
    (hop : op.Within projectID) : Parted sv.exec Store.projectPart projectID op := by
  refine .of_local fun env => ?_
  cases op with
  | repo c =>
    obtain ⟨tenantID, hc⟩ := hop
    exact Instance.local_serve hproject hc
  | evaluate p q =>
    have hp : p.projectID = projectID := hop
    subst hp
    exact .read fun s s' hpart => Instance.evaluate_of_part hproject hpart q
  | allow | ctxErr => exact .read fun _ _ _ => rfl

/-! ## Handlers -/

/-- Everything that is done is done in the project, and what is returned satisfies `R`. -/
def InProject {α : Type} (projectID : GoString) (R : α → Prop) (x : RpcM α) : Prop :=
  ∀ trace, x.run.Keeps (projectProtocol projectID) (fun _ r => ∀ a, r = .ok a → R a) trace

/-- The principal is one of the project, whose id has no separator in it. -/
structure ActsIn (projectID : GoString) (p : Principal) : Prop where
  project : p.projectID = projectID
  proper : 0 ∉ projectID

namespace InProject

variable {projectID : GoString} {α β : Type} {R : α → Prop} {R' : β → Prop}

theorem pure {a : α} (ha : R a) : InProject projectID R (pure a) := by
  rintro trace b ⟨⟩
  exact ha

theorem throw {e : RpcError} : InProject projectID R (throw e : RpcM α) := by
  rintro trace b ⟨⟩

theorem bind {x : RpcM α} {f : α → RpcM β} (hx : InProject projectID R x)
    (hf : ∀ a, R a → InProject projectID R' (f a)) : InProject projectID R' (x >>= f) := by
  intro trace
  rw [ExceptT.run_bind, Prog.keeps_bind]
  refine (hx trace).mono fun t r hr => ?_
  cases r with
  | ok a => exact hf a (hr a rfl) t
  | error e => exact throw t

theorem ite {c : Prop} [Decidable c] {x y : RpcM α} (hx : InProject projectID R x)
    (hy : InProject projectID R y) : InProject projectID R (if c then x else y) := by
  split_ifs
  · exact hx
  · exact hy

theorem refused {r : Except RpcError α} (h : ∀ a, r = .ok a → R a) :
    InProject projectID R (refused r) := fun _ => h

theorem answered {x : Prog ServerOp ServerOp.Reply (Except ServiceError α)}
    (hx : ∀ trace, x.Keeps (projectProtocol projectID) (fun _ _ => True) trace) :
    InProject projectID (fun _ => True) (answered x) :=
  fun trace => Prog.keeps_bind.mpr ((hx trace).mono fun _ _ _ _ _ => trivial)

theorem service {p : Principal} {x : ServiceM α} (hp : ActsIn projectID p) (hx : Scoped p x) :
    InProject projectID (fun _ => True) (service x) := by
  have hcalls (y : Prog Call Reply (Except ServiceError α)) (trace : Trace Call Reply)
      (trace' : ServerTrace) (hy : y.Keeps (scopeProtocol p) (fun _ _ => True) trace) :
      (onCalls y).Keeps (projectProtocol projectID) (fun _ _ => True) trace' := by
    induction y generalizing trace trace' with
    | pure r => trivial
    | call c next ih =>
      exact ⟨⟨hp.proper, p.tenantID, hp.project ▸ hy.1⟩, fun r hr => ih r _ _ (hy.2 r hr)⟩
  exact answered fun trace => hcalls x.run [] trace (hx [] trivial)

theorem served {p : Principal} {x : ServiceM α} {f : α → β} (hp : ActsIn projectID p)
    (hx : Scoped p x) :
    InProject projectID (fun _ => True) (do return f (← Connect.service x)) :=
  (service hp hx).bind fun _ _ => pure trivial

end InProject

namespace Server

/-- The ids of the deployment are in order: the default project, and the project that the caller
is pinned to. -/
structure Proper (sv : Server) (pinned : GoString) : Prop where
  defaultProject : hasControlChar sv.defaultProjectID = false
  pin : hasControlChar pinned = false

variable {sv : Server} {pinned projectID tenantID : GoString} {p : Principal}

theorem inProject_validated (h : sv.Proper pinned) {ids : List GoString} (hids : projectID ∈ ids) :
    InProject (sv.callerProject pinned projectID)
      (fun _ => 0 ∉ sv.callerProject pinned projectID) (validated ids) := by
  refine .refused fun _ hok => ?_
  unfold validateScopeIDs at hok
  split_ifs at hok with hany
  · cases hok
  · have hproject : hasControlChar projectID = false := by simp_all
    unfold Handler.callerProject Handler.projectOr
    apply zero_notMem_of_hasControlChar
    split_ifs
    · exact h.pin
    · exact h.defaultProject
    · exact hproject

theorem inProject_throttle {key : GoString} {message : String} (hproject : 0 ∉ projectID) :
    InProject projectID (fun _ => True) (throttle key message) := by
  refine .bind (.answered fun trace => ⟨⟨hproject, trivial⟩, fun _ _ => trivial⟩) fun ok _ => ?_
  exact .ite .throw (.pure trivial)

theorem inProject_requireTenantRate (h : sv.Proper pinned) :
    InProject (sv.callerProject pinned projectID) (fun _ => True)
      (sv.requireTenantRate pinned projectID tenantID) :=
  (inProject_validated h List.mem_cons_self).bind fun _ => inProject_throttle

theorem inProject_requireRPCRate (h : sv.Proper pinned) {rpc : GoString} :
    InProject (sv.callerProject pinned projectID) (fun _ => True)
      (sv.requireRPCRate pinned projectID rpc) :=
  (inProject_validated h List.mem_cons_self).bind fun _ => inProject_throttle

theorem inProject_ensureRegion (hp : ActsIn projectID p) :
    InProject projectID (ActsIn projectID) (do
      service (call (.ensureRegion p))
      return p) :=
  have hcall : Scoped p (call (.ensureRegion p)) := .call ⟨rfl, rfl⟩
  (InProject.service hp hcall).bind fun _ _ => .pure hp

theorem inProject_scope (h : sv.Proper pinned) :
    InProject (sv.callerProject pinned projectID) (ActsIn (sv.callerProject pinned projectID))
      (sv.scope pinned projectID tenantID) :=
  (inProject_validated h List.mem_cons_self).bind fun _ hproject =>
    inProject_ensureRegion ⟨rfl, hproject⟩

theorem inProject_acting (h : sv.Proper pinned) {actingUserID : GoString} :
    InProject (sv.callerProject pinned projectID) (ActsIn (sv.callerProject pinned projectID))
      (sv.acting pinned actingUserID projectID tenantID) :=
  .ite .throw ((inProject_validated h List.mem_cons_self).bind fun _ hproject =>
    inProject_ensureRegion ⟨rfl, hproject⟩)

theorem inProject_manage (hp : ActsIn projectID p) (m : Management) :
    InProject projectID (fun _ => True) (sv.manage p m) := by
  cases m with
  | createWorkspace => exact .served hp scoped_createWorkspace
  | getWorkspace => exact .served hp scoped_getWorkspace
  | listWorkspaces => exact .served hp scoped_listWorkspaces
  | updateWorkspace => exact .served hp scoped_updateWorkspace
  | transferOwnership => exact .served hp scoped_transferOwnership
  | deleteWorkspace => exact .served hp scoped_deleteWorkspace
  | addMember => exact .served hp scoped_addMember
  | updateMemberRole => exact .served hp scoped_updateMemberRole
  | removeMember => exact .served hp scoped_removeMember
  | suspendMember => exact .served hp scoped_suspendMember
  | reinstateMember => exact .served hp scoped_reinstateMember
  | listMembers => exact .served hp scoped_listMembers
  | createInvitation => exact .served hp scoped_createInvitation
  | acceptInvitation => exact .served hp scoped_acceptInvitation
  | listInvitations => exact .served hp scoped_listInvitations
  | revokeInvitation => exact .served hp scoped_revokeInvitation
  | createGroup => exact .served hp scoped_createGroup
  | getGroup => exact .served hp scoped_getGroup
  | listGroups => exact .served hp scoped_listGroups
  | deleteGroup => exact .served hp scoped_deleteGroup
  | addGroupMember =>
    exact .bind (.refused fun _ _ => trivial) fun m _ => .served hp scoped_addGroupMember
  | removeGroupMember =>
    exact .bind (.refused fun _ _ => trivial) fun m _ => .served hp scoped_removeGroupMember
  | listGroupMembers => exact .served hp scoped_listGroupMembers
  | setEnrollmentState =>
    exact .bind (.refused fun _ _ => trivial) fun m _ => .bind (.refused fun _ _ => trivial)
      fun state _ => .served hp scoped_setEnrollmentState
  | listEnrollments => exact .served hp scoped_listEnrollments

theorem inProject_ask (hp : ActsIn projectID p) (q : Query) :
    InProject projectID (fun _ => True) (ask p q) :=
  .answered fun _ => ⟨⟨hp.proper, hp.project⟩, fun _ _ => trivial⟩

theorem keeps_batchCheck (hp : ActsIn projectID p) (items : List BatchCheckItem)
    (trace : ServerTrace) :
    (batchCheck p items).run.Keeps (projectProtocol projectID) (fun _ _ => True) trace := by
  induction items generalizing trace with
  | nil => trivial
  | cons item items ih =>
    have hrest (result : BatchCheckResult) (trace : ServerTrace) :
        (do return result :: (← batchCheck p items) : ServerM _).run.Keeps
          (projectProtocol projectID) (fun _ _ => True) trace := keeps_then_return (ih trace)
    refine keeps_attempt_then ⟨hp.proper, trivial⟩ (fun _ _ => trivial) fun _ _ => ?_
    refine keeps_observe_then ⟨hp.proper, hp.project⟩ fun r _ => ?_
    cases r with
    | ok allowed => exact hrest _ _
    | error err =>
      exact keeps_ite (fun _ => hrest _ _) fun _ => trivial

theorem inProject_consistent (hp : ActsIn projectID p) {token : GoString} {q : Query}
    {f : q.Answer → Response} :
    InProject projectID (fun _ => True) (do
      sv.ensureConsistency p token
      return f (← ask p q)) :=
  (InProject.service hp (scoped_ensureConsistency sv.codec)).bind fun _ _ =>
    (inProject_ask hp q).bind fun _ _ => .pure trivial

theorem inProject_handle (h : sv.Proper pinned) (rpc : Rpc) :
    InProject (sv.callerProject pinned rpc.projectID) (fun _ => True) (sv.handle pinned rpc) := by
  obtain ⟨projectID, tenantID, body⟩ := rpc
  have hscope {x : Principal → RpcM Response} {tenantID : GoString}
      (hx : ∀ p, ActsIn (sv.callerProject pinned projectID) p →
        InProject (sv.callerProject pinned projectID) (fun _ => True) (x p)) :
      InProject (sv.callerProject pinned projectID) (fun _ => True)
        (sv.scope pinned projectID tenantID >>= x) := (inProject_scope h).bind hx
  have hlimited {x : Unit → RpcM Response}
      (hx : InProject (sv.callerProject pinned projectID) (fun _ => True) (x ())) :
      InProject (sv.callerProject pinned projectID) (fun _ => True)
        (sv.requireTenantRate pinned projectID tenantID >>= x) :=
    (inProject_requireTenantRate h).bind fun _ _ => hx
  have hpaced {x : Unit → RpcM Response} {name : GoString}
      (hx : InProject (sv.callerProject pinned projectID) (fun _ => True) (x ())) :
      InProject (sv.callerProject pinned projectID) (fun _ => True)
        (sv.requireRPCRate pinned projectID name >>= x) :=
    (inProject_requireRPCRate h).bind fun _ _ => hx
  cases body with
  | management actingUserID m => exact (inProject_acting h).bind fun p hp => inProject_manage hp m
  | writeRelationTuples updates =>
    refine hlimited (hscope fun p hp => .bind (.refused fun _ _ => trivial) fun ops _ => ?_)
    exact .served hp (scoped_writeTuples.bind fun _ => .pure)
  | readRelationTuples f atLeast =>
    refine hscope fun p hp => ?_
    refine .bind (.service hp (scoped_ensureConsistency sv.codec)) fun _ _ => ?_
    exact .served hp (.read ⟨rfl, rfl⟩ fun _ _ => .call rfl)
  | check n subjectUserID subjectSet context atLeast =>
    refine hlimited (hscope fun p hp => ?_)
    refine .bind (.service hp (scoped_ensureConsistency sv.codec)) fun _ _ => ?_
    cases subjectSet with
    | none => exact .ite .throw ((inProject_ask hp _).bind fun _ _ => .pure trivial)
    | some set => exact .ite .throw ((inProject_ask hp _).bind fun _ _ => .pure trivial)
  | expand n atLeast => exact hlimited (hscope fun p hp => inProject_consistent hp)
  | listObjects ns relation subjectUserID atLeast =>
    exact hlimited (hscope fun p hp => inProject_consistent hp)
  | batchCheck items atLeast =>
    refine hlimited (.ite .throw (hscope fun p hp => ?_))
    refine .bind (.service hp (scoped_ensureConsistency sv.codec)) fun _ _ => ?_
    exact .bind (.answered (keeps_batchCheck hp items)) fun _ _ => .pure trivial
  | deprovisionUser userID => exact hpaced (hscope fun p hp => .served hp scoped_deprovisionUser)
  | exportSubjectGrants userID =>
    exact hpaced (hscope fun p hp => .served hp scoped_exportSubjectGrants)
  | setSeatLimit sku limit => exact hlimited (hscope fun p hp => .served hp scoped_setSeatLimit)
  | getSeatUsage sku => exact hscope fun p hp => .served hp scoped_seatUsage
  | assignSeat sku userID => exact hlimited (hscope fun p hp => .served hp scoped_assignSeat)
  | revokeSeat sku userID => exact hlimited (hscope fun p hp => .served hp scoped_revokeSeat)
  | listSeats sku => exact hscope fun p hp => .served hp scoped_listSeats

end Server

/-! ## Runs -/

/-- A call, with the project that its caller is pinned to. -/
structure Incoming where
  pinned : GoString
  rpc : Rpc

def Incoming.owner (sv : Server) (i : Incoming) : GoString :=
  sv.callerProject i.pinned i.rpc.projectID

def Incoming.program (sv : Server) (i : Incoming) :
    Prog ServerOp ServerOp.Reply (Except RpcError Response) :=
  (sv.handle i.pinned i.rpc).run

/-- The calls on a project run as they would in a store in which only the project is the same,
and without the calls on other projects: they make the same exchanges, return the same, and
leave the project as it is. -/
theorem projects_are_confined (sv : Server) (calls : List Incoming)
    (hcalls : ∀ i ∈ calls, sv.Proper i.pinned) (s : Store)
    (c : Config Store ServerOp ServerOp.Reply (Except RpcError Response))
    (h : Reaches sv.exec (fun _ _ _ _ => True) (.start s (calls.map (·.program sv))) c)
    (projectID : GoString) (s₀ : Store) (hs₀ : s₀.projectPart projectID = s.projectPart projectID) :
    ∃ s', s'.projectPart projectID = c.state.projectPart projectID ∧
      Reaches sv.exec (fun _ _ _ _ => True)
        (.start s₀ ((calls.filter (·.owner sv = projectID)).map (·.program sv)))
        ⟨s', labelled (calls.map (·.owner sv)) projectID c.processes⟩ := by
  have hkeeps : List.Forall₂
      (fun k p => p.prog.Keeps (projectProtocol k) (fun _ _ => True) p.trace)
      (calls.map (·.owner sv)) (Config.start s (calls.map (·.program sv))).processes := by
    simp only [Config.start, List.map_map, List.forall₂_map_left_iff, List.forall₂_map_right_iff]
    refine List.forall₂_same.mpr fun i hi => ?_
    exact (Server.inProject_handle (hcalls i hi) i.rpc []).mono fun _ _ _ => trivial
  have hrelies (k : GoString) (env : Server.ServerEnv) (s : Store) (trace : ServerTrace)
      (op : ServerOp) : (projectProtocol k).relies trace op (sv.exec env op s).1 := by
    cases op with
    | repo c => exact keyed_exec _ c s
    | evaluate | allow | ctxErr => trivial
  have hparted (k : GoString) (trace : ServerTrace) (op : ServerOp)
      (hop : (projectProtocol k).issues trace op) : Parted sv.exec Store.projectPart k op :=
    parted_exec sv hop.1 hop.2
  have hrestrict := h.restrict hparted hrelies hkeeps hs₀
  simpa only [Config.start, List.map_map, labelled_map] using hrestrict

namespace Sweep

def server : Server where
  defaultProjectID := "default"
  defaultTenantID := "default"
  tenantLimiter := none
  codec := JsonTokens.codec
  hashToken := id

/-- A seat is assigned in one project, and a caller of another one names the first in a sweep. -/
def calls : List Incoming :=
  [⟨"a", ⟨[], [], .assignSeat "pro" "ann"⟩⟩, ⟨"b", ⟨"a", [], .deprovisionUser "ann"⟩⟩]

def start : Config Store ServerOp ServerOp.Reply (Except RpcError Response) :=
  .start .empty (calls.map (·.program server))

/-- The sweep begins first and ends last. -/
def finish : Config Store ServerOp ServerOp.Reply (Except RpcError Response) :=
  start.run server.exec (([1] ++ List.replicate 5 0 ++ List.replicate 3 1).map fun i => (i, {}))

end Sweep

open Sweep in
theorem sweep_is_confined : finish.Finished ∧
    ∃ s', s'.projectPart "a" = finish.state.projectPart "a" ∧
      Reaches server.exec (fun _ _ _ _ => True)
        (.start .empty ((calls.filter (·.owner server = str "a")).map (·.program server)))
        ⟨s', labelled (calls.map (·.owner server)) (str "a") finish.processes⟩ := by
  refine ⟨by decide +kernel, projects_are_confined server calls ?_ .empty finish
    (reaches_run _ _ _ (Config.admitsAll_true _ _ _)) "a" .empty rfl⟩
  intro i hi
  simp only [calls, List.mem_cons, List.not_mem_nil, or_false] at hi
  obtain rfl | rfl := hi <;> exact ⟨by decide, by decide⟩

end WorkspaceAuthz.Connect
