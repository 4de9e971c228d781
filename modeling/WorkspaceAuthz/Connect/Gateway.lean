import WorkspaceAuthz.Connect.Confinement
import WorkspaceAuthz.Middleware.ServiceAuth

/-! # Requests to the application

All services are behind one chain of handlers, which tells the calling service from its
token. Some paths are let through without one, but no service is there. Hence whatever
the requests are and however they overlap, a deployment with tokens does nothing but for
callers who present one, and for a caller that is pinned to a project only in this project.
-/
namespace WorkspaceAuthz.Connect
open Go Authz Service Interleaving

/-- What is to be done for a request, and what the service returns in the end. -/
abbrev Work := Prog ServerOp ServerOp.Reply (Except RpcError Response)

/-- The deployment. A message is read from a request or refused with a status; the
administrative service may do anything. -/
structure App extends Server where
  allowedOrigins : List GoString := []
  serviceAuthTokens : List GoString := []
  serviceCredentials : List Middleware.ServiceCredential := []
  unmarshal : Middleware.Request → Except ℕ Rpc
  adminService : Middleware.CallerIdentity → Middleware.Request → Work
  cleanPath : GoString → GoString

namespace App

variable (app : App)

def rpcService : Middleware.Handler Work := fun caller r =>
  { outcome := match app.unmarshal r with
      | .error status => .text status ""
      | .ok rpc => .served (app.handle caller.projectID rpc).run }

def adminPath : GoString := "/workspace.v1.AdminService/"

def routes : List (GoString × Middleware.Handler Work) :=
  [("/workspace.v1.WorkspaceService/", app.rpcService),
    ("/workspace.v1.GroupService/", app.rpcService),
    ("/workspace.v1.AuthzService/", app.rpcService),
    (adminPath, fun caller r => { outcome := .served (app.adminService caller r) }),
    ("/workspace.v1.SeatService/", app.rpcService),
    ("/healthz", Middleware.health), ("/readyz", Middleware.health)]

def handler : Middleware.Handler Work :=
  Middleware.chain (Middleware.serveMux app.cleanPath app.routes)
    [Middleware.cors app.allowedOrigins,
      Middleware.serviceAuth app.serviceAuthTokens app.serviceCredentials]

/-- What a request has done, and the result if a service is asked. -/
def program (r : Middleware.Request) :
    Prog ServerOp ServerOp.Reply (Option (Except RpcError Response)) :=
  match (app.handler {} r).outcome with
  | .served work => do
    let result ← work
    return some result
  | _ => return none

abbrev Admitted (r : Middleware.Request) (id : Middleware.CallerIdentity) : Prop :=
  Middleware.Admitted app.serviceAuthTokens app.serviceCredentials r id

/-- A service is asked, for a caller. -/
inductive Asks (id : Middleware.CallerIdentity) (r : Middleware.Request) : Work → Prop
  | rpc {rpc : Rpc} (h : app.unmarshal r = .ok rpc) : Asks id r (app.handle id.projectID rpc).run
  | admin (h : Middleware.matchesPattern adminPath r.path) : Asks id r (app.adminService id r)

variable {app} {id : Middleware.CallerIdentity} {r : Middleware.Request} {work : Work}

/-! ## What is asked for whom -/

theorem isInfraPath_of_pattern {pattern : GoString} (hroute : (str "/workspace.v1.") <+: pattern)
    (hslash : pattern.getLast? = some (ascii '/'))
    (h : Middleware.matchesPattern pattern r.path) : Middleware.isInfraPath r.path = false := by
  rw [Middleware.matchesPattern, if_pos hslash, List.isPrefixOf_iff_prefix] at h
  obtain ⟨rest, hrest⟩ := hroute.trans h
  rw [← hrest]
  rfl

theorem asks_of_rpcService (h : (app.rpcService id r).outcome = .served work) :
    app.Asks id r work := by
  unfold rpcService at h
  cases hrpc : app.unmarshal r with
  | error status => simp [hrpc] at h
  | ok rpc =>
    simp only [hrpc, Middleware.Outcome.served.injEq] at h
    exact h ▸ .rpc hrpc

theorem asks_of_serveMux
    (h : (Middleware.serveMux app.cleanPath app.routes id r).outcome = .served work) :
    app.Asks id r work ∧ Middleware.isInfraPath r.path = false := by
  unfold Middleware.serveMux at h
  split_ifs at h
  · cases hfind : app.routes.find? fun h => Middleware.matchesPattern h.1 r.path with
    | none => simp [hfind] at h
    | some route =>
      obtain ⟨pattern, next⟩ := route
      simp only [hfind] at h
      have hpattern : Middleware.matchesPattern pattern r.path := by
        simpa using List.find?_some hfind
      have hmem := List.mem_of_find?_eq_some hfind
      simp only [routes, List.mem_cons, List.not_mem_nil, or_false, Prod.mk.injEq] at hmem
      rcases hmem with ⟨rfl, rfl⟩ | ⟨rfl, rfl⟩ | ⟨rfl, rfl⟩ | ⟨rfl, rfl⟩ | ⟨rfl, rfl⟩ | ⟨-, rfl⟩ |
        ⟨-, rfl⟩
      · exact ⟨asks_of_rpcService h, isInfraPath_of_pattern (by decide) (by decide) hpattern⟩
      · exact ⟨asks_of_rpcService h, isInfraPath_of_pattern (by decide) (by decide) hpattern⟩
      · exact ⟨asks_of_rpcService h, isInfraPath_of_pattern (by decide) (by decide) hpattern⟩
      · cases h
        exact ⟨.admin hpattern, isInfraPath_of_pattern (by decide) (by decide) hpattern⟩
      · exact ⟨asks_of_rpcService h, isInfraPath_of_pattern (by decide) (by decide) hpattern⟩
      · cases h
      · cases h

/-- A service is asked for callers only who are let in. -/
theorem asks_of_handler (h : (app.handler {} r).outcome = .served work) :
    ∃ id, app.Admitted r id ∧ app.Asks id r work := by
  have hmethod : r.method ≠ "OPTIONS" := by
    intro hmethod
    simp [handler, Middleware.chain, Middleware.cors, hmethod] at h
  have hauth : (Middleware.serviceAuth app.serviceAuthTokens app.serviceCredentials
      (Middleware.serveMux app.cleanPath app.routes) {} r).outcome = .served work := by
    simpa [handler, Middleware.chain, Middleware.cors, hmethod] using h
  by_cases hinfra : Middleware.isInfraPath r.path = true
  · -- The request goes on as it is, to where no service is.
    have hnext : Middleware.serviceAuth app.serviceAuthTokens app.serviceCredentials
        (Middleware.serveMux app.cleanPath app.routes) {} r =
          Middleware.serveMux app.cleanPath app.routes {} r := by
      simp [Middleware.serviceAuth, hinfra]
    rw [hnext] at hauth
    exact absurd hinfra (by simp [(asks_of_serveMux hauth).2])
  · rw [Bool.not_eq_true] at hinfra
    rw [Middleware.serviceAuth_eq _ hinfra hmethod] at hauth
    cases hid : Middleware.identity app.serviceAuthTokens app.serviceCredentials r with
    | none => simp [hid] at hauth
    | some id =>
      simp only [hid] at hauth
      exact ⟨id, Middleware.identity_eq_some_iff.mp hid, (asks_of_serveMux hauth).1⟩

/-! ## Runs -/

/-- The ids of the deployment are in order. -/
structure Proper (app : App) : Prop where
  defaultProject : hasControlChar app.defaultProjectID = false
  pins : ∀ c ∈ app.serviceCredentials, hasControlChar c.projectID = false

theorem Proper.server (h : app.Proper) (hid : app.Admitted r id) :
    app.toServer.Proper id.projectID := by
  refine ⟨h.defaultProject, ?_⟩
  cases hid with
  | unguarded => rfl
  | credential hcreds => exact h.pins _ (by simp [hcreds])
  | token => rfl

/-- An operation for a request: there is a caller who is let in, and an RPC works on the project
that the caller is pinned to, or else on the one that the message names. -/
def Performs (app : App) (r : Middleware.Request) (op : ServerOp) : Prop :=
  ∃ id, app.Admitted r id ∧ (Middleware.matchesPattern adminPath r.path = true ∨
    ∃ rpc, app.unmarshal r = .ok rpc ∧ (id.projectID ≠ [] → op.Within id.projectID) ∧
      (id.projectID = [] → op.Within (app.projectOr rpc.projectID)))

def requestProtocol (app : App) (r : Middleware.Request) : Protocol ServerOp ServerOp.Reply where
  issues _ := app.Performs r
  relies _ op reply := op.Keyed reply

theorem keeps_work (hproper : app.Proper) (hid : app.Admitted r id) (h : app.Asks id r work)
    (trace : ServerTrace) : work.Keeps (app.requestProtocol r) (fun _ _ => True) trace := by
  cases h with
  | @rpc rpc hrpc =>
    refine ((Server.inProject_handle (hproper.server hid) rpc trace).weaken ?_ ?_).mono
      fun _ _ _ => trivial
    · rintro t op ⟨-, hop⟩
      refine ⟨id, hid, .inr ⟨rpc, hrpc, fun hpin => ?_, fun hpin => ?_⟩⟩
      · rwa [Handler.callerProject, if_pos hpin] at hop
      · rwa [Handler.callerProject, if_neg (not_not.mpr hpin)] at hop
    · exact fun t op reply hreply => hreply
  | admin hadmin =>
    have hall : ∀ t op, (app.requestProtocol r).issues t op := fun _ _ => ⟨id, hid, .inl hadmin⟩
    exact Prog.keeps_of_forall hall (fun _ _ => trivial) _

theorem keeps_program (hproper : app.Proper) (trace : ServerTrace) :
    (app.program r).Keeps (app.requestProtocol r)
      (fun _ result => ∀ a, result = some a → ∃ id, app.Admitted r id) trace := by
  unfold program
  cases hout : (app.handler {} r).outcome with
  | served work =>
    obtain ⟨id, hid, hasks⟩ := asks_of_handler hout
    refine Prog.keeps_bind.mpr ((keeps_work hproper hid hasks trace).mono fun t a _ => ?_)
    exact fun _ _ => ⟨id, hid⟩
  | text | noContent | redirect => exact nofun

end App

/-- In whatever order requests are worked off, nothing is done for one whose caller is not let in,
and RPCs stay in the project to which the token of the caller pins them. -/
theorem requests_act_as_admitted (app : App) (hproper : app.Proper)
    (requests : List Middleware.Request) (s : Store)
    (c : Config Store ServerOp ServerOp.Reply (Option (Except RpcError Response)))
    (h : Reaches app.exec (fun _ _ _ _ => True) (.start s (requests.map app.program)) c)
    (n : ℕ) (r : Middleware.Request) (hn : requests[n]? = some r) :
    (∀ p ∈ c.processes[n]?, ∀ x ∈ p.trace, app.Performs r x.1) ∧
      (∀ a, c.result? n = some (some a) → ∃ id, app.Admitted r id) := by
  have hstart : (Config.start s (requests.map app.program)).Upholds app.requestProtocol
      (fun r _ result => ∀ a, result = some a → ∃ id, app.Admitted r id)
      (fun _ ts => ∀ t ∈ ts, ∀ x ∈ t.2, app.Performs t.1 x.1) requests := by
    refine Config.upholds_start (fun ts hts t ht x hx => ?_) fun r _ =>
      App.keeps_program hproper []
    rw [hts t ht] at hx
    cases hx
  have hend := h.upholds (fun env s before r trace after op hinv hissues _ => by
    refine ⟨?_, forall_mem_of_step ?_ fun t ht => hinv t (mem_of_mem_others ht)⟩
    · cases op with
      | repo c => exact keyed_exec _ c s
      | evaluate | allow | ctxErr => trivial
    · intro x hx
      rcases List.mem_cons.mp hx with rfl | hx
      · exact hissues
      · exact hinv (r, trace) (by simp) x hx) hstart
  constructor
  · intro p hp
    have hmem : (r, p) ∈ requests.zip c.processes :=
      List.mem_of_getElem? (List.getElem?_zip_eq_some.mpr ⟨hn, hp⟩)
    apply hend.inv (r, p.trace)
    rw [Config.traces, List.zip_map_right]
    exact List.mem_map.mpr ⟨_, hmem, rfl⟩
  · intro a ha
    obtain ⟨t, -, hresult⟩ := hend.of_result hn ha
    exact hresult a rfl

namespace PinnedSweep

def app : App where
  toServer := Sweep.server
  serviceCredentials := [⟨"secret", "billing", "b"⟩]
  unmarshal _ := .ok ⟨"a", [], .deprovisionUser "ann"⟩
  adminService _ _ := return .ok .done
  cleanPath path := path

def sweep (token : String) : Middleware.Request where
  method := "POST"
  path := "/workspace.v1.AuthzService/DeprovisionUser"
  headers := [("Authorization", str "Bearer " ++ str token)]

/-- The same sweep, with a token and with none of those that are known. -/
def requests : List Middleware.Request := [sweep "secret", sweep "guess"]

def finish : Config Store ServerOp ServerOp.Reply (Option (Except RpcError Response)) :=
  (Config.start .empty (requests.map app.program)).run app.exec
    ((List.replicate 4 0 ++ List.replicate 4 1).map fun i => (i, {}))

end PinnedSweep

open PinnedSweep in
theorem pinned_sweep : finish.traces.map List.length = [4, 0] ∧
    ∀ p ∈ finish.processes[0]?, ∀ x ∈ p.trace, x.1.Within (str "b") := by
  refine ⟨by decide +kernel, fun p hp x hx => ?_⟩
  obtain ⟨id, hid, hadmin | ⟨rpc, -, hpinned, -⟩⟩ :=
    (requests_act_as_admitted app ⟨by decide, by decide⟩ requests .empty finish
      (reaches_run _ _ _ (Config.admitsAll_true _ _ _)) 0 _ rfl).1 p hp x hx
  · exact absurd hadmin (by decide)
  · have hbilling : some id = some ⟨str "billing", str "b"⟩ :=
      (Middleware.identity_eq_some_iff.mpr hid).symm.trans (by decide)
    cases hbilling
    exact hpinned (by decide)

end WorkspaceAuthz.Connect
