import WorkspaceAuthz.Service.Resolver

/-! # Updates and loads

Callers who begin after an update of a project has returned find the project as it
was written, unless a load was on its way at the time that had looked at it before:
then the entry that was dropped is replaced by one that is as old.
-/
namespace WorkspaceAuthz.Service
open Go Authz Interleaving

/-! ## What a load knows -/

/-- The project whose load a process performs. -/
def leading : ResolverTrace → Option GoString
  | [] => none
  | ⟨.join projectID, .leader _⟩ :: _ => some projectID
  | ⟨.land .., _⟩ :: _ => none
  | _ :: trace => leading trace

/-- The exchanges since the process has joined a load. -/
def sinceJoin : ResolverTrace → ResolverTrace
  | [] => []
  | ⟨.join _, _⟩ :: _ => []
  | x :: trace => x :: sinceJoin trace

theorem mem_of_mem_sinceJoin {x : Σ op : ResolverOp, op.Reply} {trace : ResolverTrace}
    (h : x ∈ sinceJoin trace) : x ∈ trace := by
  fun_induction sinceJoin trace with
  | case1 => exact h
  | case2 => cases h
  | case3 y trace _ ih =>
    rcases List.mem_cons.mp h with rfl | h
    · exact List.mem_cons_self
    · exact List.mem_cons_of_mem _ (ih h)

/-- An entry says of a project what its row does. -/
@[mk_iff]
structure Resolved.Fits (p : Project) (e : Resolved) : Prop where
  model : p.model.size > 0 → e.model = some (p.model ∪ defaultModel)
  builtIn : p.model.size = 0 → e.model = none
  suspended : e.suspended = true ↔ p.status = .suspended
  dataRegion : e.dataRegion = p.dataRegion
  maxCheckReads : e.maxCheckReads = p.maxCheckReads

theorem Resolved.fits_of (p : Project) (now : Time) : (Resolved.of p now).Fits p where
  model h := if_pos h
  builtIn h := if_neg h.not_gt
  suspended := decide_eq_true_iff
  dataRegion := rfl
  maxCheckReads := rfl

instance (p : Project) : DecidablePred (Resolved.Fits p) :=
  fun e => decidable_of_iff' _ (Resolved.fits_iff p e)

/-- What callers got was made from a project. -/
def ResolvedFrom (p : Project) : Resolution → Prop
  | .ok e => e.Fits p
  | .error _ => False

instance (p : Project) : DecidablePred (ResolvedFrom p)
  | .ok e => inferInstanceAs (Decidable (e.Fits p))
  | .error _ => inferInstanceAs (Decidable False)

/-- What was learned of a project is not older than a row. -/
def UpToDate (id : GoString) (p : Project) : (Σ op : ResolverOp, op.Reply) → Prop
  | ⟨.repo (.getProject id'), r⟩ => id' = id → r = .ok p
  | ⟨.lookup id', r⟩ => id' = id → ∀ e ∈ r, e.Fits p
  | ⟨.await id' _, r⟩ => id' = id → ResolvedFrom p r
  | _ => True

/-! ## Callers -/

/-- What is stored and landed is as new as what was learned during the load. -/
def resolveProtocol : Protocol ResolverOp ResolverOp.Reply where
  issues trace
    | .repo c => c.Quiet
    | .lookup _ | .join _ => True
    | .store id e => leading trace = some id ∧
        ∀ p, (∀ x ∈ sinceJoin trace, UpToDate id p x) → e.Fits p
    | .land id _ r => leading trace = some id ∧
        ∀ p, (∀ x ∈ sinceJoin trace, UpToDate id p x) → ResolvedFrom p r
    | .await id n => leading trace = none ∧ ⟨.join id, .follower n⟩ ∈ trace
    | .invalidate _ => False
  relies _
    | .repo .now, r => ∃ now, r = .ok now
    | _, _ => True

section Repo

variable {α : Type} {P : Protocol ResolverOp ResolverOp.Reply} {Q : ResolverTrace → α → Prop}
  {x : Prog Call Reply α} {trace : ResolverTrace}

def exchanges (t : CallTrace) : ResolverTrace := t.map fun x => ⟨.repo x.1, x.2⟩

theorem keeps_onRepo {t : CallTrace}
    (h : x.Keeps ⟨fun t c => P.issues (exchanges t ++ trace) (.repo c),
      fun t c r => P.relies (exchanges t ++ trace) (.repo c) r⟩
      (fun t a => Q (exchanges t ++ trace) a) t) :
    (onRepo x).Keeps P Q (exchanges t ++ trace) := by
  induction x generalizing t with
  | pure a => exact h
  | call c next ih => exact ⟨h.1, fun r hr => ih r (h.2 r hr)⟩

theorem leading_exchanges (t : CallTrace) : leading (exchanges t ++ trace) = leading trace := by
  induction t with
  | nil => rfl
  | cons x t ih => exact ih

theorem sinceJoin_exchanges (t : CallTrace) :
    sinceJoin (exchanges t ++ trace) = exchanges t ++ sinceJoin trace := by
  induction t with
  | nil => rfl
  | cons x t ih => exact congrArg _ ih

end Repo

section Resolve

variable {id : GoString} {trace : ResolverTrace}

theorem keeps_load : (load id).run.Keeps
    ⟨fun _ c => c.Quiet, fun _ c r => resolveProtocol.relies [] (.repo c) r⟩
    (fun t r => ∀ p, (∀ x ∈ exchanges t, UpToDate id p x) → ResolvedFrom p r) [] := by
  refine keeps_observe_then trivial fun r _ => ?_
  cases r with
  | ok q =>
    refine keeps_attempt_then trivial (fun e he => ?_) fun now _ p hp => ?_
    · obtain ⟨now, hnow⟩ := he
      cases hnow
    · have hq : (.ok q : Except ServiceError Project) = .ok p :=
        hp ⟨.repo (.getProject id), .ok q⟩ (by simp [exchanges]) rfl
      cases hq
      exact Resolved.fits_of q now
  | error err =>
    -- The row is there, as the claim on what was read says.
    have hread {t : CallTrace} {r : Resolution}
      (ht : ⟨.getProject id, .error err⟩ ∈ t) (p : Project)
        (hp : ∀ x ∈ exchanges t, UpToDate id p x) : ResolvedFrom p r := by
      have herror : (.error err : Except ServiceError Project) = .ok p :=
        hp ⟨.repo (.getProject id), .error err⟩ (List.mem_map_of_mem ht) rfl
      cases herror
    refine keeps_ite (fun _ => ?_) fun _ => hread (by simp)
    exact keeps_attempt_then trivial (fun e _ => hread (by simp)) fun now _ => hread (by simp)

theorem keeps_fly (hleading : leading trace = some id) :
    (fly id).Keeps resolveProtocol (fun t r => leading t = some id ∧
      ∀ p, (∀ x ∈ sinceJoin t, UpToDate id p x) → ResolvedFrom p r) trace := by
  refine ⟨trivial, fun r _ => ?_⟩
  cases r with
  | some e => exact ⟨hleading, fun p hp => hp ⟨.lookup id, some e⟩ List.mem_cons_self rfl e rfl⟩
  | none =>
    have hload : (onRepo (load id).run).Keeps resolveProtocol (fun t r => leading t = some id ∧
        ∀ p, (∀ x ∈ sinceJoin t, UpToDate id p x) → ResolvedFrom p r)
        (⟨.lookup id, none⟩ :: trace) := by
      refine keeps_onRepo (t := []) (keeps_load.mono fun t r hr => ?_)
      refine ⟨(leading_exchanges t).trans hleading, fun p hp => hr p fun x hx => hp x ?_⟩
      rw [sinceJoin_exchanges]
      exact List.mem_append_left _ hx
    refine (Prog.keeps_bind (x := onRepo (load id).run)).mpr (hload.mono fun t r hr => ?_)
    cases r with
    | error e => exact hr
    | ok e =>
      refine ⟨hr, fun _ _ => ⟨hr.1, fun p hp => hr.2 p fun x hx => hp x ?_⟩⟩
      exact List.mem_cons_of_mem _ hx

theorem keeps_resolve : (resolve id).Keeps resolveProtocol
    (fun t r => ∀ p, (∀ x ∈ t, UpToDate id p x) → ResolvedFrom p r) [] := by
  refine ⟨trivial, fun r _ => ?_⟩
  cases r with
  | some e => exact fun p hp => hp ⟨.lookup id, some e⟩ List.mem_cons_self rfl e rfl
  | none =>
    refine ⟨trivial, fun boarding _ => ?_⟩
    cases boarding with
    | follower n =>
      refine ⟨⟨rfl, List.mem_cons_self⟩, fun r _ p hp => ?_⟩
      exact hp ⟨.await id n, r⟩ List.mem_cons_self rfl
    | leader n =>
      refine (Prog.keeps_bind (x := fly id)).mpr ((keeps_fly rfl).mono fun t r hr => ?_)
      refine ⟨hr, fun _ _ p hp => ?_⟩
      exact hr.2 p fun x hx => hp x (List.mem_cons_of_mem _ (mem_of_mem_sinceJoin hx))

end Resolve

/-! ## The update -/

def Written (p : Project) (trace : ResolverTrace) : Prop :=
  ∃ t, trace = ⟨.repo (.updateProject p), .ok ()⟩ :: t

/-- After the row was written, the entry was dropped. -/
def Invalidated (id : GoString) (p : Project) (trace : ResolverTrace) : Prop :=
  ∃ t, Written p t ∧ trace = ⟨.invalidate id, ()⟩ :: t

def updateProtocol (id : GoString) : Protocol ResolverOp ResolverOp.Reply where
  issues trace op := (∀ p, ¬ Invalidated id p trace) ∧ match op with
    | .repo (.updateProject p) => p.id = id
    | .repo c => c.Quiet
    | .invalidate id' => id' = id ∧ ∃ p, Written p trace
    | _ => False
  relies _
    | .repo (.getProject id'), r => ∀ p, r = .ok p → p.id = id'
    | _, _ => True

theorem not_invalidated_exchanges {id : GoString} {p : Project} (t : CallTrace) :
    ¬ Invalidated id p (exchanges t ++ []) := by
  rintro ⟨t', -, ht⟩
  cases t with
  | nil => cases ht
  | cons x t => cases ht

theorem keeps_updateAndInvalidate (validateModel : Model → Except ServiceError Unit)
    (id : GoString) (patch : ProjectPatch) :
    (updateAndInvalidate validateModel id patch).Keeps (updateProtocol id)
      (fun t r => ∀ p, r = .ok p → Invalidated id p t) [] := by
  have hwrite : (onRepo (updateProject validateModel id patch).run).Keeps (updateProtocol id)
      (fun t r => (∀ p, ¬ Invalidated id p t) ∧ ∀ p, r = .ok p → Written p t) [] := by
    refine keeps_onRepo (t := []) ?_
    have hfree (p : Project) (t : CallTrace) : ¬ Invalidated id p (exchanges t ++ []) :=
      not_invalidated_exchanges t
    have herror {t : CallTrace} {e : ServiceError} :
        (∀ p, ¬ Invalidated id p (exchanges t ++ [])) ∧
          ∀ p, (.error e : Except ServiceError Project) = .ok p → Written p (exchanges t ++ []) :=
      ⟨fun p => hfree p t, fun p hp => by cases hp⟩
    refine keeps_ite (fun _ => herror) fun _ => keeps_ite (fun _ => herror) fun _ => ?_
    cases patch.validate validateModel with
    | error e => exact herror
    | ok u =>
      refine keeps_attempt_then ⟨fun p => hfree p _, trivial⟩ (fun _ _ => herror) fun p hp => ?_
      refine keeps_attempt_then ⟨fun p => hfree p _, trivial⟩ (fun _ _ => herror) fun now _ => ?_
      refine keeps_attempt_then ⟨fun p => hfree p _, hp p rfl⟩ (fun _ _ => herror) fun u _ => ?_
      refine ⟨fun p => hfree p _, ?_⟩
      rintro _ ⟨⟩
      exact ⟨_, rfl⟩
  refine Prog.keeps_bind.mpr (hwrite.mono fun t r hr => ?_)
  cases r with
  | error e =>
    rintro p ⟨⟩
  | ok p =>
    refine ⟨⟨hr.1, rfl, p, hr.2 p rfl⟩, fun _ _ => ?_⟩
    rintro _ ⟨⟩
    exact ⟨t, hr.2 p rfl, rfl⟩

/-! ## Runs -/

/-- The update, or a caller who begins before it has returned or later. -/
inductive Job where
  | update
  | resolve (projectID : GoString) (late : Bool)

def Job.late : Job → Bool
  | .update => false
  | .resolve _ late => late

/-- Who follows a load waits for it to land. -/
def Waits (st : ResolverState) (_others : List ResolverTrace) (_trace : ResolverTrace) :
    ResolverOp → Prop
  | .await id n => ((st.flights id).result? n).isSome
  | _ => True

/-- Besides, when the entry of a project is dropped, the loads of the project that are on their
way have not learned anything older than the row that is stored. -/
def NoStaleLoad (st : ResolverState) (others : List ResolverTrace) (trace : ResolverTrace) :
    ResolverOp → Prop
  | .invalidate id => ∀ p ∈ st.repo.projects.get id, ∀ t ∈ others, leading t = some id →
      ∀ x ∈ sinceJoin t, UpToDate id p x
  | op => Waits st others trace op

/-- The process and its callers know nothing of a project but a row. -/
structure Settled (id : GoString) (p : Project) (st : ResolverState)
    (ts : List (Job × ResolverTrace)) : Prop where
  row : st.repo.projects.get id = some p
  cached : ∀ e, st.cache.get id = some e → e.Fits p
  leaders : ∀ x ∈ ts, leading x.2 = some id → ∀ y ∈ sinceJoin x.2, UpToDate id p y
  learned : ∀ x ∈ ts, x.1.late → ∀ y ∈ x.2, UpToDate id p y
  followed : ∀ x ∈ ts, x.1.late → ∀ n, ⟨.join id, .follower n⟩ ∈ x.2 →
    ∀ r ∈ (st.flights id).result? n, ResolvedFrom p r

section Settled

variable {id : GoString} {p : Project} {st : ResolverState} {env : Env} {op : ResolverOp}
  {before after : List (Job × ResolverTrace)} {job : Job} {trace : ResolverTrace}
  {others : List ResolverTrace}

theorem get_evict {order : MapOrder} {now : Time} {cache : GoMap Resolved} {k : GoString}
    {e : Resolved} (h : (ResolverState.evict order now cache).get k = some e) :
    cache.get k = some e := by
  have hfold : ∀ (keys : List GoString) (cache : GoMap Resolved),
      (keys.foldl (fun cache k => if cache.size < resolverMaxEntries then cache
        else cache.erase k) cache).get k = some e → cache.get k = some e := by
    intro keys
    induction keys with
    | nil => exact fun _ h => h
    | cons key keys ih =>
      intro cache h
      rw [List.foldl_cons] at h
      have hnext := ih _ h
      split_ifs at hnext
      · exact hnext
      · rw [GoMap.get_erase] at hnext
        split_ifs at hnext
        exact hnext
  have hkept := hfold _ _ h
  rw [GoMap.get_filter, Option.filter_eq_some_iff] at hkept
  exact hkept.1

theorem get_lookup {now : Time} {id' : GoString} {e : Resolved}
    (h : (st.lookup now id').2.cache.get id = some e) : st.cache.get id = some e := by
  unfold ResolverState.lookup at h
  split at h
  · exact h
  · split_ifs at h
    · rw [GoMap.get_erase] at h
      split_ifs at h
      exact h
    · exact h

theorem lookup_eq_some {now : Time} {e : Resolved} (h : (st.lookup now id).1 = some e) :
    st.cache.get id = some e := by
  unfold ResolverState.lookup at h
  split at h
  · cases h
  · split_ifs at h
    rwa [← h]

/-- What callers learn of the project, apart from followers. -/
theorem Settled.upToDate {ts : List (Job × ResolverTrace)} (h : Settled id p st ts)
    (hawait : ∀ n, op = .await id n → UpToDate id p ⟨op, (ResolverState.exec env op st).1⟩) :
    UpToDate id p ⟨op, (ResolverState.exec env op st).1⟩ := by
  cases op with
  | repo c =>
    cases c with
    | getProject id' =>
      rintro rfl
      exact found_eq_ok.mpr h.row
    | _ => trivial
  | lookup id' =>
    rintro rfl e he
    exact h.cached e (lookup_eq_some he)
  | await id' n =>
    intro hid
    exact hawait n (by rw [hid]) hid
  | _ => trivial

/-- Exchanges other than joining and landing leave a process in its load. -/
theorem leading_cons (op : ResolverOp) (r : op.Reply) (trace : ResolverTrace) :
    (leading (⟨op, r⟩ :: trace) = leading trace ∧
      sinceJoin (⟨op, r⟩ :: trace) = ⟨op, r⟩ :: sinceJoin trace) ∨
    sinceJoin (⟨op, r⟩ :: trace) = [] ∨ leading (⟨op, r⟩ :: trace) = none := by
  cases op with
  | join id => exact .inr (.inl rfl)
  | land id n r => exact .inr (.inr rfl)
  | _ => exact .inl ⟨rfl, rfl⟩

theorem repo_exec (hissues : resolveProtocol.issues trace op) :
    (ResolverState.exec env op st).2.repo = st.repo := by
  cases op with
  | repo c => exact exec_of_quiet hissues env st.repo
  | lookup id' =>
    change (st.lookup env.now id').2.repo = st.repo
    unfold ResolverState.lookup
    split
    · rfl
    · split_ifs <;> rfl
  | _ => rfl

section Step

variable (h : Settled id p st (before ++ (job, trace) :: after))
  (hissues : resolveProtocol.issues trace op)
include h hissues

/-- What is stored comes from a load that knows nothing else. -/
theorem Settled.cached_exec {e : Resolved}
    (he : (ResolverState.exec env op st).2.cache.get id = some e) : e.Fits p := by
  cases op with
  | lookup id' => exact h.cached e (get_lookup he)
  | store id' e' =>
    obtain ⟨hleads, hfits⟩ := hissues
    change GoMap.get (Finmap.insert id' e' _) id = some e at he
    rw [GoMap.get_insert] at he
    split_ifs at he with hid
    · subst hid
      rw [← Option.some.inj he]
      exact hfits p (h.leaders (job, trace) List.mem_append_cons_self hleads)
    · exact h.cached e (get_evict he)
    · exact h.cached e he
  | invalidate id' => exact hissues.elim
  | _ => exact h.cached e he

theorem Settled.landed_exec {n : ℕ} {r : Resolution}
    (hr : ((ResolverState.exec env op st).2.flights id).result? n = some r) :
    (st.flights id).result? n = some r ∨ ResolvedFrom p r := by
  cases op with
  | lookup id' =>
    have hflights : (st.lookup env.now id').2.flights = st.flights := by
      unfold ResolverState.lookup
      split
      · rfl
      · split_ifs <;> rfl
    exact .inl (hflights ▸ hr)
  | join id' =>
    by_cases hid : id = id'
    · subst hid
      exact .inl (by simpa [ResolverState.exec] using hr)
    · exact .inl (by simpa [ResolverState.exec, hid] using hr)
  | land id' n' r' =>
    obtain ⟨hleads, hfits⟩ := hissues
    by_cases hid : id = id'
    · subst hid
      simp only [ResolverState.exec, Function.update_self, Flights.result?_land] at hr
      split_ifs at hr
      · rw [← Option.some.inj hr]
        exact .inr (hfits p (h.leaders (job, trace) List.mem_append_cons_self hleads))
      · exact .inl hr
    · exact .inl (by simpa [ResolverState.exec, hid] using hr)
  | _ => exact .inl hr

/-- The reply to a caller who leads a load, or who has begun late. -/
theorem Settled.upToDate_exec (hguard : NoStaleLoad st others trace op)
    (hjob : job.late ∨ leading trace = some id) :
    UpToDate id p ⟨op, (ResolverState.exec env op st).1⟩ := by
  refine h.upToDate fun n hop => ?_
  subst hop
  intro _
  obtain ⟨hfollows, hjoined⟩ := hissues
  rcases hjob with hlate | hleads
  · obtain ⟨r, hr⟩ := Option.isSome_iff_exists.mp hguard
    have hreply : (ResolverState.exec env (.await id n) st).1 = r := by
      simp [ResolverState.exec, hr]
    rw [hreply]
    exact h.followed (job, trace) List.mem_append_cons_self hlate n hjoined r hr
  · cases hfollows.symm.trans hleads

theorem Settled.step (hguard : NoStaleLoad st others trace op) :
    Settled id p (ResolverState.exec env op st).2
      (before ++ (job, ⟨op, (ResolverState.exec env op st).1⟩ :: trace) :: after) where
  row := by rw [repo_exec hissues]; exact h.row
  cached e := h.cached_exec hissues
  leaders := by
    refine forall_mem_of_step (fun hleads y hy => ?_) fun x hx => h.leaders x (mem_of_mem_others hx)
    obtain ⟨hleading, hsince⟩ | hnil | hnone :=
      leading_cons op (ResolverState.exec env op st).1 trace
    · have hleads' : leading trace = some id := hleading.symm.trans hleads
      change y ∈ sinceJoin (⟨op, _⟩ :: trace) at hy
      rw [hsince] at hy
      rcases List.mem_cons.mp hy with rfl | hy
      · exact h.upToDate_exec hissues hguard (.inr hleads')
      · exact h.leaders (job, trace) List.mem_append_cons_self hleads' y hy
    · change y ∈ sinceJoin (⟨op, _⟩ :: trace) at hy
      rw [hnil] at hy
      cases hy
    · cases hnone.symm.trans hleads
  learned := by
    refine forall_mem_of_step (fun hlate y hy => ?_) fun x hx => h.learned x (mem_of_mem_others hx)
    rcases List.mem_cons.mp hy with rfl | hy
    · exact h.upToDate_exec hissues hguard (.inl hlate)
    · exact h.learned (job, trace) List.mem_append_cons_self hlate y hy
  followed := by
    have hold {x : Job × ResolverTrace} (hx : x ∈ before ++ (job, trace) :: after)
        (hlate : x.1.late) {n : ℕ} (hn : ⟨.join id, .follower n⟩ ∈ x.2) {r : Resolution}
        (hr : ((ResolverState.exec env op st).2.flights id).result? n = some r) :
        ResolvedFrom p r := by
      rcases h.landed_exec hissues hr with hr | hr
      · exact h.followed x hx hlate n hn r hr
      · exact hr
    refine forall_mem_of_step (fun hlate n hn r hr => ?_) fun x hx hlate n hn r hr =>
      hold (mem_of_mem_others hx) hlate hn hr
    rcases List.mem_cons.mp hn with heq | hn
    · -- The load that is joined is running and has no result yet.
      obtain ⟨rfl, hreply⟩ := Sigma.mk.inj heq
      have hrunning := Flights.running_of_follower (eq_of_heq hreply).symm
      have hnone : ((ResolverState.exec env (.join id) st).2.flights id).result? n = none := by
        simp [ResolverState.exec, Flights.result?_of_running hrunning]
      cases hnone.symm.trans hr
    · exact hold (x := (job, trace)) List.mem_append_cons_self hlate hn hr

end Step

end Settled

/-- From the invalidation on, nothing is known of the project but the row that was written. -/
structure Visible (id : GoString) (st : ResolverState) (update : ResolverTrace)
    (callers : List (Job × ResolverTrace)) : Prop where
  resolve : ∀ x ∈ callers, x.1 ≠ .update
  late : ∀ x ∈ callers, x.1.late → ∃ p, Invalidated id p update
  written : ∀ p, Written p update → st.repo.projects.get id = some p
  settled : ∀ p, Invalidated id p update → Settled id p st callers

section Visible

variable {id : GoString} {st : ResolverState} {env : Env} {op : ResolverOp}
  {update trace : ResolverTrace}

theorem Visible.step_update {callers : List (Job × ResolverTrace)}
    (h : Visible id st update callers) (hissues : (updateProtocol id).issues update op)
    (hguard : NoStaleLoad st (callers.map Prod.snd) update op) :
    Visible id (ResolverState.exec env op st).2 (⟨op, (ResolverState.exec env op st).1⟩ :: update)
      callers := by
  have hearly : ∀ x ∈ callers, ¬ x.1.late := by
    intro x hx hlate
    obtain ⟨p, hp⟩ := h.late x hx hlate
    exact hissues.1 p hp
  refine ⟨h.resolve, fun x hx hlate => absurd hlate (hearly x hx), ?_, ?_⟩
  · rintro p ⟨t, ht⟩
    obtain ⟨rfl, hreply⟩ := Sigma.mk.inj (List.cons.inj ht).1
    have hok : (st.repo.updateProject p).1 = .ok () := eq_of_heq hreply
    have hid : p.id = id := hissues.2
    change (st.repo.updateProject p).2.projects.get id = some p
    unfold Store.updateProject at hok ⊢
    split_ifs at hok ⊢
    rw [Store.putProject, GoMap.get_insert, if_pos hid.symm]
  · rintro p ⟨t, hp, ht⟩
    obtain ⟨rfl, -⟩ := Sigma.mk.inj (List.cons.inj ht).1
    obtain rfl := (List.cons.inj ht).2
    have hrow := h.written p hp
    refine ⟨hrow, fun e he => ?_, fun x hx hleads => ?_, fun x hx hlate => ?_, fun x hx hlate => ?_⟩
    · change GoMap.get (st.cache.erase id) id = some e at he
      rw [GoMap.get_erase, if_pos rfl] at he
      cases he
    · exact hguard p hrow x.2 (List.mem_map_of_mem hx) hleads
    · exact absurd hlate (hearly x hx)
    · exact absurd hlate (hearly x hx)

theorem Visible.step_resolve {before after : List (Job × ResolverTrace)} {job : Job}
    {others : List ResolverTrace} (h : Visible id st update (before ++ (job, trace) :: after))
    (hissues : resolveProtocol.issues trace op) (hguard : NoStaleLoad st others trace op) :
    Visible id (ResolverState.exec env op st).2 update
      (before ++ (job, ⟨op, (ResolverState.exec env op st).1⟩ :: trace) :: after) where
  resolve := forall_mem_of_step (h.resolve (job, trace) List.mem_append_cons_self) fun x hx =>
    h.resolve x (mem_of_mem_others hx)
  late := forall_mem_of_step (h.late (job, trace) List.mem_append_cons_self) fun x hx =>
    h.late x (mem_of_mem_others hx)
  written p hp := by rw [repo_exec hissues]; exact h.written p hp
  settled p hp := (h.settled p hp).step hissues hguard

theorem visible_start (id : GoString) (st : ResolverState) (early : List GoString) :
    Visible id st [] ((early.map (Job.resolve · false)).map fun job => (job, [])) := by
  have hcaller : ∀ x ∈ (early.map (Job.resolve · false)).map fun job => (job, ([] : ResolverTrace)),
      x.1 ≠ .update ∧ ¬ x.1.late := by
    simp [Job.late]
  refine ⟨fun x hx => (hcaller x hx).1, fun x hx hlate => absurd hlate (hcaller x hx).2, ?_, ?_⟩
  · rintro p ⟨t, ht⟩
    cases ht
  · rintro p ⟨t, -, ht⟩
    cases ht

/-- Callers who begin after the invalidation have not learned anything yet. -/
theorem Visible.join {callers : List (Job × ResolverTrace)} {p : Project}
    (h : Visible id st update callers) (hp : Invalidated id p update) (late : List GoString) :
    Visible id st update (callers ++ (late.map (Job.resolve · true)).map fun job => (job, [])) := by
  have hnew : ∀ {J : Job × ResolverTrace → Prop}, (∀ x ∈ callers, J x) →
      (∀ projectID, J (.resolve projectID true, [])) →
      ∀ x ∈ callers ++ (late.map (Job.resolve · true)).map fun job => (job, []), J x := by
    intro J hcallers hJ x hx
    rcases List.mem_append.mp hx with hx | hx
    · exact hcallers x hx
    · simp only [List.map_map, List.mem_map, Function.comp_apply] at hx
      obtain ⟨projectID, -, rfl⟩ := hx
      exact hJ projectID
  refine ⟨hnew h.resolve fun _ => ?_, hnew h.late fun _ _ => ⟨p, hp⟩, h.written, fun p hp => ?_⟩
  · simp
  · obtain ⟨hrow, hcached, hleaders, hlearned, hfollowed⟩ := h.settled p hp
    exact ⟨hrow, hcached, hnew hleaders (by simp [leading]), hnew hlearned (by simp),
      hnew hfollowed (by simp)⟩

end Visible

/-- The update is the first of the processes; it may be known what it has written. -/
def UpdateVisible (id : GoString) (done : Option Project) (st : ResolverState)
    (ts : List (Job × ResolverTrace)) : Prop :=
  ∃ update callers, ts = (.update, update) :: callers ∧ Visible id st update callers ∧
    ∀ p ∈ done, Invalidated id p update

def Job.protocol (id : GoString) : Job → Protocol ResolverOp ResolverOp.Reply
  | .update => updateProtocol id
  | .resolve _ _ => resolveProtocol

theorem updateVisible_step (env : Env) {id : GoString} {done : Option Project} {st : ResolverState}
    {before after : List (Job × ResolverTrace)} {job : Job} {trace : ResolverTrace}
    {op : ResolverOp} (h : UpdateVisible id done st (before ++ (job, trace) :: after))
    (hissues : (job.protocol id).issues trace op)
    (hguard : NoStaleLoad st ((before ++ after).map Prod.snd) trace op) :
    UpdateVisible id done (ResolverState.exec env op st).2
      (before ++ (job, ⟨op, (ResolverState.exec env op st).1⟩ :: trace) :: after) := by
  obtain ⟨update, callers, heq, hvisible, hdone⟩ := h
  cases before with
  | nil =>
    cases heq
    exact ⟨_, _, rfl, hvisible.step_update hissues hguard,
      fun p hp => absurd (hdone p hp) (hissues.1 p)⟩
  | cons x before =>
    cases heq
    cases job with
    | update => exact absurd rfl (hvisible.resolve (.update, trace) List.mem_append_cons_self)
    | resolve id' late => exact ⟨_, _, rfl, hvisible.step_resolve hissues hguard, hdone⟩

theorem jobRelies_exec (env : Env) {id : GoString} {st : ResolverState} {trace : ResolverTrace}
    (job : Job) (op : ResolverOp) :
    (job.protocol id).relies trace op (ResolverState.exec env op st).1 := by
  cases job with
  | update =>
    cases op with
    | repo c =>
      cases c with
      | getProject id' => exact fun p hp => st.repo.projects_keyed id' p (found_eq_ok.mp hp)
      | _ => trivial
    | _ => trivial
  | resolve id' late =>
    cases op with
    | repo c =>
      cases c with
      | now => exact ⟨env.now, rfl⟩
      | _ => trivial
    | _ => trivial

/-! ## Callers who begin after the update -/

abbrev ResolverConfig := Config ResolverState ResolverOp ResolverOp.Reply
  (Resolution ⊕ Except ServiceError Project)

def resolving (projectID : GoString) : ResolverM (Resolution ⊕ Except ServiceError Project) := do
  let r ← resolve projectID
  return .inl r

def updating (validateModel : Model → Except ServiceError Unit) (id : GoString)
    (patch : ProjectPatch) : ResolverM (Resolution ⊕ Except ServiceError Project) := do
  let r ← updateAndInvalidate validateModel id patch
  return .inr r

def Job.Returns (id : GoString) :
    Job → ResolverTrace → Resolution ⊕ Except ServiceError Project → Prop
  | .update, t, r => ∀ p, r = .inr (.ok p) → Invalidated id p t
  | .resolve id' _, t, r =>
    ∀ p, (∀ x ∈ t, UpToDate id' p x) → ∃ e, r = .inl (.ok e) ∧ e.Fits p

theorem keeps_resolving (id projectID : GoString) (late : Bool) :
    (resolving projectID).Keeps ((Job.resolve projectID late).protocol id)
      ((Job.resolve projectID late).Returns id) [] := by
  refine Prog.keeps_bind.mpr (keeps_resolve.mono fun t r hr p hp => ?_)
  have hfrom := hr p hp
  cases r with
  | ok e => exact ⟨e, rfl, hfrom⟩
  | error err => exact hfrom.elim

theorem keeps_updating (validateModel : Model → Except ServiceError Unit) (id : GoString)
    (patch : ProjectPatch) :
    (updating validateModel id patch).Keeps (Job.update.protocol id)
    (Job.update.Returns id) [] := by
  refine Prog.keeps_bind.mpr
    ((keeps_updateAndInvalidate validateModel id patch).mono fun t r hr p hp => ?_)
  cases hp
  exact hr p rfl

/-- Who begins to resolve a project after an update of it has returned gets what was written, in
the runs in which no load has learned of older rows when the entry is dropped. -/
theorem updates_are_visible (validateModel : Model → Except ServiceError Unit) (id : GoString)
    (patch : ProjectPatch) (st : ResolverState) (early late : List GoString) (c c' : ResolverConfig)
    (h : Reaches ResolverState.exec NoStaleLoad
      (.start st (updating validateModel id patch :: early.map resolving)) c)
    (p : Project) (hp : c.result? 0 = some (.inr (.ok p)))
    (h' : Reaches ResolverState.exec NoStaleLoad (c.spawn (late.map resolving)) c')
    (n : ℕ) (hn : late[n]? = some id) (r : Resolution ⊕ Except ServiceError Project)
    (hr : c'.result? (c.processes.length + n) = some r) :
    ∃ e, r = .inl (.ok e) ∧ e.Fits p := by
  let program : Job → ResolverM (Resolution ⊕ Except ServiceError Project)
    | .update => updating validateModel id patch
    | .resolve projectID _ => resolving projectID
  have hkeeps : ∀ job : Job, (program job).Keeps (job.protocol id) (job.Returns id) [] := by
    intro job
    cases job with
    | update => exact keeps_updating validateModel id patch
    | resolve projectID late => exact keeps_resolving id projectID late
  have hprograms : ∀ (late : Bool) (ids : List GoString),
      (ids.map (Job.resolve · late)).map program = ids.map resolving := fun late ids => by
    rw [List.map_map]
    rfl
  have hstart : (Config.start st ((.update :: early.map (Job.resolve · false)).map program)).Upholds
      (Job.protocol id) (Job.Returns id) (UpdateVisible id none)
      (.update :: early.map (Job.resolve · false)) :=
    Config.upholds_start_of_labels ⟨_, _, rfl, visible_start id st early, by simp⟩
      fun job _ => hkeeps job
  rw [List.map_cons, hprograms] at hstart
  have hc := h.upholds (fun env st before job trace after op hinv hissues hguard =>
    ⟨jobRelies_exec env job op, updateVisible_step env hinv hissues hguard⟩) hstart
  -- The process that has returned is the first one, and it has dropped the entry.
  obtain ⟨update, callers, hts, hvisible, -⟩ := hc.inv
  obtain ⟨t, ht, hreturns⟩ := hc.of_result (i := Job.update) rfl hp
  have hdone : Invalidated id p update := by
    rw [hts] at ht
    rcases List.mem_cons.mp ht with heq | hmem
    · cases heq
      exact hreturns p rfl
    · exact absurd rfl (hvisible.resolve _ hmem)
  have hlate : UpdateVisible id (some p) c.state ((.update :: early.map (Job.resolve · false)).zip
      c.traces ++ (late.map (Job.resolve · true)).map fun job => (job, [])) := by
    rw [hts]
    exact ⟨_, _, rfl, hvisible.join hdone late, by simpa using hdone⟩
  have hspawn := hc.spawn hlate fun job _ => hkeeps job
  rw [hprograms] at hspawn
  have hc' := h'.upholds (fun env st before job trace after op hinv hissues hguard =>
    ⟨jobRelies_exec env job op, updateVisible_step env hinv hissues hguard⟩) hspawn
  have hindex : (.update :: early.map (Job.resolve · false) ++
      late.map (Job.resolve · true))[c.processes.length + n]? = some (.resolve id true) := by
    rw [← hc.keeps.length_eq, List.getElem?_append_right (Nat.le_add_right _ _),
      Nat.add_sub_cancel_left, List.getElem?_map, hn]
    rfl
  obtain ⟨t', ht', hreturns'⟩ := hc'.of_result hindex hr
  obtain ⟨update', callers', hts', hvisible', hdone'⟩ := hc'.inv
  have hmem : (Job.resolve id true, t') ∈ callers' := by
    rw [hts'] at ht'
    rcases List.mem_cons.mp ht' with heq | hmem
    · cases heq
    · exact hmem
  exact hreturns' p ((hvisible'.settled p (hdone' p rfl)).learned _ hmem rfl)

/-! ## A load that outlives the entry -/

instance (id : GoString) (p : Project) : DecidablePred (UpToDate id p) := fun x => by
  rcases x with ⟨op, r⟩
  induction op using ResolverOp.casesOn with
  | repo c => induction c using Call.casesOn <;> (dsimp only [UpToDate]; infer_instance)
  | _ => dsimp only [UpToDate]; infer_instance

instance (st : ResolverState) (others : List ResolverTrace) (trace : ResolverTrace) :
    DecidablePred (Waits st others trace) := fun op => by
  induction op using ResolverOp.casesOn <;> (dsimp only [Waits]; infer_instance)

instance (st : ResolverState) (others : List ResolverTrace) (trace : ResolverTrace) :
    DecidablePred (NoStaleLoad st others trace) := fun op => by
  induction op using ResolverOp.casesOn <;> (dsimp only [NoStaleLoad]; infer_instance)

namespace Suspension

/-- The project is suspended, and meanwhile somebody resolves it. -/
def start : ResolverConfig :=
  .start { repo := Rename.initial }
    (updating (fun _ => .ok ()) "p" { status := "suspended" } :: [str "p"].map resolving)

def suspended : Project := { Rename.kids with status := .suspended }

def overtaken : ResolverConfig := start.run ResolverState.exec (steps 4 1 ++ steps 4 0)

/-- The entry is stored, and found by a caller who begins then. -/
def stale : ResolverConfig :=
  (overtaken.spawn ([str "p"].map resolving)).run ResolverState.exec (steps 3 1 ++ steps 1 2)

def inTurn : ResolverConfig := start.run ResolverState.exec (steps 4 0)

def fresh : ResolverConfig :=
  (inTurn.spawn ([str "p"].map resolving)).run ResolverState.exec (steps 7 2)

end Suspension

open Suspension in
/-- The update has returned, and a caller who begins then gets an active project. -/
theorem suspension_not_seen :
    ∃ c c', Reaches ResolverState.exec Waits start c ∧
      c.result? 0 = some (.inr (.ok suspended)) ∧
      Reaches ResolverState.exec Waits (c.spawn ([str "p"].map resolving)) c' ∧
      c'.result? 2 = some (.inl (.ok (.of Rename.kids 0))) ∧
      (Resolved.of Rename.kids 0).suspended = false ∧ (Resolved.of suspended 0).suspended = true :=
  ⟨overtaken, stale, reaches_run _ _ _ (by decide +kernel), by decide +kernel,
    reaches_run _ _ _ (by decide +kernel), by decide +kernel, by decide, by decide⟩

open Suspension in
/-- Without a load on its way the suspension is seen. -/
theorem suspension_seen :
    ∃ e, fresh.result? 2 = some (.inl (.ok e)) ∧ e.suspended = true := by
  have hsome : (fresh.result? 2).isSome := by decide +kernel
  obtain ⟨r, hr⟩ := Option.isSome_iff_exists.mp hsome
  obtain ⟨e, rfl, hfits⟩ := updates_are_visible (fun _ => .ok ()) "p" { status := "suspended" }
    { repo := Rename.initial } [str "p"] [str "p"] inTurn fresh
    (reaches_run _ _ _ (by decide +kernel)) suspended (by decide +kernel)
    (reaches_run _ _ _ (by decide +kernel)) 0 rfl r hr
  exact ⟨e, hr, hfits.suspended.mpr rfl⟩

end WorkspaceAuthz.Service
