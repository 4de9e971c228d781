import WorkspaceAuthz.Interleaving.Sequential
import WorkspaceAuthz.Service.Isolation
import WorkspaceAuthz.Service.ResolverRaces

/-! # Changes of a project reach all processes

An update drops the entry of its own process only. What makes other processes see it
is the age of their entries: nothing is served that was loaded longer ago than the
time to live. So a process that had no older load under way at the time of a change, and
has none after the time to live, serves the change to whoever begins then. The cache is
never larger than its bound.
-/
namespace WorkspaceAuthz.Service
open Go Authz Interleaving

/-! ## One process and its clock -/

structure TimedResolver where
  process : ResolverState
  clock : Time

/-- An operation of the process, some time after the last one. -/
def TimedResolver.exec (env : Env × ℕ) (op : ResolverOp) (st : TimedResolver) :
    op.Reply × TimedResolver :=
  let now := st.clock + env.2
  let r := ResolverState.exec { env.1 with now } op st.process
  (r.1, ⟨r.2, now⟩)

/-- What goes on: projects are resolved, they are updated on this process, and other processes do
anything with the repository that they share. -/
inductive Task where
  | resolve (projectID : GoString)
  | update (id : GoString) (patch : ProjectPatch)
  | elsewhere (x : Prog Call Reply Unit)

def Task.program (validateModel : Model → Except ServiceError Unit) :
    Task → ResolverM (Option Resolution)
  | .resolve projectID => do
    let r ← Service.resolve projectID
    return some r
  | .update id patch => do
    let _ ← updateAndInvalidate validateModel id patch
    return none
  | .elsewhere x => do
    onRepo x
    return none

abbrev TimedConfig := Config TimedResolver ResolverOp ResolverOp.Reply (Option Resolution)

/-- Followers wait for the load that they have joined. -/
def InTime (st : TimedResolver) (others : List ResolverTrace) (trace : ResolverTrace) :
    ResolverOp → Prop :=
  Waits st.process others trace

/-- Besides, nobody writes the row of a project. -/
def Unwritten (id : GoString) (st : TimedResolver) (others : List ResolverTrace)
    (trace : ResolverTrace) : ResolverOp → Prop
  | .repo (.updateProject p) => p.id ≠ id
  | op => InTime st others trace op

/-! ## What callers learn -/

/-- A load that has ended with an entry of some kind. -/
def Provides (D : Resolved → Prop) : Resolution → Prop
  | .ok e => D e
  | .error _ => False

/-- What was read of a project is a row, and entries are of some kind. -/
def Learned (id : GoString) (p : Project) (D : Resolved → Prop) :
    (Σ op : ResolverOp, op.Reply) → Prop
  | ⟨.repo (.getProject id'), r⟩ => id' = id → r = .ok p
  | ⟨.lookup id', r⟩ => id' = id → ∀ e ∈ r, D e
  | ⟨.await id' _, r⟩ => id' = id → Provides D r
  | _ => True

section Learned

variable {id : GoString} {p : Project} {D D' : Resolved → Prop}

theorem Provides.mono (hD : ∀ e, D e → D' e) {r : Resolution} (h : Provides D r) :
    Provides D' r := by
  cases r with
  | ok e => exact hD e h
  | error err => exact h

theorem Learned.mono (hD : ∀ e, D e → D' e) {x : Σ op : ResolverOp, op.Reply}
    (h : Learned id p D x) : Learned id p D' x := by
  obtain ⟨op, r⟩ := x
  cases op with
  | repo c =>
    cases c with
    | getProject id' => exact h
    | _ => trivial
  | lookup id' => exact fun hid e he => hD e (h hid e he)
  | await id' n => exact fun hid => (h hid).mono hD
  | _ => trivial

theorem learned_of_upToDate {x : Σ op : ResolverOp, op.Reply} (h : UpToDate id p x) :
    Learned id p (Resolved.Fits p) x := by
  obtain ⟨op, r⟩ := x
  cases op with
  | repo c =>
    cases c with
    | getProject id' => exact h
    | _ => trivial
  | lookup id' => exact h
  | await id' n =>
    intro hid
    have hr := h hid
    cases r with
    | ok e => exact hr
    | error err => exact hr
  | _ => trivial

end Learned

/-- What is stored was read since the load began, and bears a time that was read then; what is
landed was found or read. -/
def taskProtocol : Protocol ResolverOp ResolverOp.Reply where
  issues trace
    | .store id e => leading trace = some id ∧ ⟨.repo .now, .ok e.loadedAt⟩ ∈ trace ∧
        ∀ p, (∀ x ∈ sinceJoin trace, Learned id p (fun _ => True) x) → e.Fits p
    | .land id _ r => leading trace = some id ∧ ∀ p D, (∀ e, e.Fits p → D e) →
        (∀ x ∈ sinceJoin trace, Learned id p D x) → Provides D r
    | .await id n => leading trace = none ∧ ⟨.join id, .follower n⟩ ∈ trace
    | _ => True
  relies _
    | .repo .now, r => ∃ now, r = .ok now
    | _, _ => True

/-- What a task returns is what it has learned. -/
def Task.Returns : Task → ResolverTrace → Option Resolution → Prop
  | .resolve id, t, r => ∀ p D, (∀ e, e.Fits p → D e) → (∀ x ∈ t, Learned id p D x) →
      ∃ r', r = some r' ∧ Provides D r'
  | _, _, _ => True

section Tasks

variable {id : GoString} {trace : ResolverTrace}

theorem keeps_load_stamped : (load id).run.Keeps
    ⟨fun _ _ => True, fun _ c r => taskProtocol.relies [] (.repo c) r⟩
    (fun t r => (∀ e, r = .ok e → ⟨.repo .now, .ok e.loadedAt⟩ ∈ exchanges t) ∧
      ∀ p, (∀ x ∈ exchanges t, Learned id p (fun _ => True) x) → Provides (Resolved.Fits p) r)
    [] := by
  refine keeps_observe_then trivial fun r _ => ?_
  cases r with
  | ok q =>
    refine keeps_attempt_then trivial (fun e he => ?_) fun now _ => ⟨?_, fun p hp => ?_⟩
    · obtain ⟨now, hnow⟩ := he
      cases hnow
    · rintro _ ⟨⟩
      exact List.mem_cons_self
    · have hq : (.ok q : Except ServiceError Project) = .ok p :=
        hp ⟨.repo (.getProject id), .ok q⟩ (by simp [exchanges]) rfl
      cases hq
      exact Resolved.fits_of q now
  | error err =>
    -- A row that is there is not missing.
    have hread {t : CallTrace} {r : Resolution} (ht : ⟨.getProject id, .error err⟩ ∈ t)
        (p : Project) (hp : ∀ x ∈ exchanges t, Learned id p (fun _ => True) x) :
        Provides (Resolved.Fits p) r := by
      have herror : (.error err : Except ServiceError Project) = .ok p :=
        hp ⟨.repo (.getProject id), .error err⟩ (List.mem_map_of_mem ht) rfl
      cases herror
    have hunstamped {t : CallTrace} {err' : ServiceError} (e : Resolved)
        (he : (.error err' : Resolution) = .ok e) :
        ⟨.repo .now, .ok e.loadedAt⟩ ∈ exchanges t := by
      cases he
    refine keeps_ite (fun _ => ?_) fun _ => ⟨hunstamped, hread (by simp)⟩
    refine keeps_attempt_then trivial (fun _ _ => ⟨hunstamped, hread (by simp)⟩)
      fun now _ => ⟨?_, hread (by simp)⟩
    rintro _ ⟨⟩
    exact List.mem_cons_self

theorem keeps_fly_stamped (hleading : leading trace = some id) :
    (fly id).Keeps taskProtocol (fun t r => leading t = some id ∧ ∀ p D, (∀ e, e.Fits p → D e) →
      (∀ x ∈ sinceJoin t, Learned id p D x) → Provides D r) trace := by
  refine ⟨trivial, fun r _ => ?_⟩
  cases r with
  | some e =>
    refine ⟨hleading, fun p D _ hlearned => ?_⟩
    exact hlearned ⟨.lookup id, some e⟩ List.mem_cons_self rfl e rfl
  | none =>
    have hload : (onRepo (load id).run).Keeps taskProtocol (fun t r => leading t = some id ∧
        (∀ e, r = .ok e → ⟨.repo .now, .ok e.loadedAt⟩ ∈ t) ∧
        ∀ p, (∀ x ∈ sinceJoin t, Learned id p (fun _ => True) x) → Provides (Resolved.Fits p) r)
        (⟨.lookup id, none⟩ :: trace) := by
      refine keeps_onRepo (t := []) (keeps_load_stamped.mono fun t r hr => ?_)
      refine ⟨(leading_exchanges t).trans hleading, fun e he => ?_, fun p hp => ?_⟩
      · exact List.mem_append_left _ (hr.1 e he)
      · refine hr.2 p fun x hx => hp x ?_
        rw [sinceJoin_exchanges]
        exact List.mem_append_left _ hx
    refine (Prog.keeps_bind (x := onRepo (load id).run)).mpr (hload.mono fun t r hr => ?_)
    obtain ⟨hleads, hstamp, hfits⟩ := hr
    have hprovides : ∀ {t' : ResolverTrace}, (∀ x ∈ sinceJoin t, x ∈ sinceJoin t') → ∀ p D,
        (∀ e, e.Fits p → D e) → (∀ x ∈ sinceJoin t', Learned id p D x) → Provides D r :=
      fun hsub p D hD hlearned =>
        (hfits p fun x hx => (hlearned x (hsub x hx)).mono fun _ _ => trivial).mono hD
    cases r with
    | error err => exact ⟨hleads, hprovides fun x hx => hx⟩
    | ok e =>
      refine ⟨⟨hleads, hstamp e rfl, fun p hp => hfits p hp⟩, fun _ _ => ⟨hleads, ?_⟩⟩
      exact hprovides fun x hx => List.mem_cons_of_mem _ hx

theorem keeps_resolve_stamped : (resolve id).Keeps taskProtocol (fun t r => ∀ p D,
    (∀ e, e.Fits p → D e) → (∀ x ∈ t, Learned id p D x) → Provides D r) [] := by
  refine ⟨trivial, fun r _ => ?_⟩
  cases r with
  | some e =>
    exact fun p D _ hlearned => hlearned ⟨.lookup id, some e⟩ List.mem_cons_self rfl e rfl
  | none =>
    refine ⟨trivial, fun boarding _ => ?_⟩
    cases boarding with
    | follower n =>
      refine ⟨⟨rfl, List.mem_cons_self⟩, fun r _ p D _ hlearned => ?_⟩
      exact hlearned ⟨.await id n, r⟩ List.mem_cons_self rfl
    | leader n =>
      refine (Prog.keeps_bind (x := fly id)).mpr ((keeps_fly_stamped rfl).mono fun t r hr => ?_)
      refine ⟨hr, fun _ _ p D hD hlearned => hr.2 p D hD fun x hx => hlearned x ?_⟩
      exact List.mem_cons_of_mem _ (mem_of_mem_sinceJoin hx)

theorem keeps_onRepo_task {α : Type} (x : Prog Call Reply α) (trace : ResolverTrace) :
    (onRepo x).Keeps taskProtocol (fun _ _ => True) trace := by
  induction x generalizing trace with
  | pure a => trivial
  | call c next ih => exact ⟨trivial, fun r _ => ih r _⟩

theorem Task.keeps (validateModel : Model → Except ServiceError Unit) (task : Task) :
    (task.program validateModel).Keeps taskProtocol task.Returns [] := by
  cases task with
  | resolve id =>
    refine Prog.keeps_bind.mpr (keeps_resolve_stamped.mono fun t r hr p D hD hlearned => ?_)
    exact ⟨r, rfl, hr p D hD hlearned⟩
  | update id patch =>
    refine Prog.keeps_bind.mpr (Prog.keeps_bind.mpr ((keeps_onRepo_task _ _).mono fun t r _ => ?_))
    cases r with
    | error err => trivial
    | ok p => exact ⟨trivial, fun _ _ => trivial⟩
  | elsewhere x => exact Prog.keeps_bind.mpr ((keeps_onRepo_task x _).mono fun _ _ _ => trivial)

end Tasks

/-! ## Steps -/

abbrev Visit := Task × Bool

/-- No time was read that is still to come. -/
structure Stamped (st : TimedResolver) (ts : List (Visit × ResolverTrace)) : Prop where
  read : ∀ x ∈ ts, ∀ now, ⟨.repo .now, .ok now⟩ ∈ x.2 → now ≤ st.clock
  cached : ∀ id e, st.process.cache.get id = some e → e.loadedAt ≤ st.clock

/-- The process knows nothing of a project but a row and what was loaded before some time, and
what it serves is of some kind. -/
structure Expiring (id : GoString) (p : Project) (began : Time) (D : Resolved → Prop)
    (st : TimedResolver) (ts : List (Visit × ResolverTrace)) : Prop where
  row : st.process.repo.projects.get id = some p
  cached : ∀ e, st.process.cache.get id = some e → e.Fits p ∨ e.loadedAt ≤ began
  served : ∀ e, e.Fits p ∨ (e.loadedAt ≤ began ∧ st.clock - e.loadedAt ≤ resolverTTL) → D e
  leaders : ∀ x ∈ ts, leading x.2 = some id → ∀ y ∈ sinceJoin x.2, Learned id p D y
  learned : ∀ x ∈ ts, x.1.2 → ∀ y ∈ x.2, Learned id p D y
  followed : ∀ x ∈ ts, x.1.2 → ∀ n, ⟨.join id, .follower n⟩ ∈ x.2 →
    ∀ r ∈ (st.process.flights id).result? n, Provides D r

section Steps

variable {id : GoString} {p : Project} {began : Time} {D : Resolved → Prop} {st : TimedResolver}
  {env : Env × ℕ} {op : ResolverOp} {before after : List (Visit × ResolverTrace)} {visit : Visit}
  {trace : ResolverTrace} {others : List ResolverTrace}

theorem clock_le_exec (env : Env × ℕ) (op : ResolverOp) (st : TimedResolver) :
    st.clock ≤ (TimedResolver.exec env op st).2.clock :=
  le_add_of_nonneg_right (Int.natCast_nonneg _)

theorem get_cache_exec {env : Env} {st : ResolverState} {e : Resolved}
    (he : (ResolverState.exec env op st).2.cache.get id = some e) :
    st.cache.get id = some e ∨ op = .store id e := by
  cases op with
  | lookup id' => exact .inl (get_lookup he)
  | store id' e' =>
    change GoMap.get (Finmap.insert id' e' _) id = some e at he
    rw [GoMap.get_insert] at he
    split_ifs at he with hid
    · subst hid
      exact .inr (by rw [Option.some.inj he])
    · exact .inl (get_evict he)
    · exact .inl he
  | invalidate id' =>
    change GoMap.get (st.cache.erase id') id = some e at he
    rw [GoMap.get_erase] at he
    split_ifs at he
    exact .inl he
  | _ => exact .inl he

theorem Stamped.step (h : Stamped st (before ++ (visit, trace) :: after))
    (hissues : taskProtocol.issues trace op) :
    Stamped (TimedResolver.exec env op st).2
      (before ++ (visit, ⟨op, (TimedResolver.exec env op st).1⟩ :: trace) :: after) where
  read := by
    have hclock := clock_le_exec env op st
    refine forall_mem_of_step (fun now hnow => ?_) fun x hx now hnow =>
      (h.read x (mem_of_mem_others hx) now hnow).trans hclock
    rcases List.mem_cons.mp hnow with heq | hnow
    · obtain ⟨rfl, hreply⟩ := Sigma.mk.inj heq
      exact le_of_eq (Except.ok.inj (eq_of_heq hreply))
    · exact (h.read (visit, trace) List.mem_append_cons_self now hnow).trans hclock
  cached id e he := by
    refine le_trans ?_ (clock_le_exec env op st)
    rcases get_cache_exec he with he | rfl
    · exact h.cached id e he
    · exact h.read (visit, trace) List.mem_append_cons_self e.loadedAt hissues.2.1

theorem projects_exec {env : Env} {s : Store} {c : Call} (hrow : s.projects.get id = some p)
    (hc : ∀ q, c = .updateProject q → q.id ≠ id) :
    (exec env c s).2.projects.get id = some p := by
  cases hshard : c.shard? with
  | some shard =>
    have hframe : (exec env c s).2.projects = s.projects :=
      (local_exec env hshard).updates.frame s none (by simp)
    rw [hframe]
    exact hrow
  | none =>
    cases c with
    | createProject q =>
      change (s.createProject q).2.projects.get id = some p
      unfold Store.createProject
      split_ifs with hsome
      · exact hrow
      · have hne : id ≠ q.id := by
          rintro rfl
          simp [hrow] at hsome
        rw [Store.putProject, GoMap.get_insert, if_neg hne]
        exact hrow
    | updateProject q =>
      change (s.updateProject q).2.projects.get id = some p
      unfold Store.updateProject
      split_ifs
      · exact hrow
      · rw [Store.putProject, GoMap.get_insert, if_neg (hc q rfl).symm]
        exact hrow
    | _ => first | exact hrow | cases hshard

theorem row_exec (hrow : st.process.repo.projects.get id = some p)
    (hguard : Unwritten id st others trace op) :
    (TimedResolver.exec env op st).2.process.repo.projects.get id = some p := by
  cases op with
  | repo c =>
    refine projects_exec hrow fun q hq => ?_
    subst hq
    exact hguard
  | lookup id' =>
    have hrepo (now : Time) : (st.process.lookup now id').2.repo = st.process.repo := by
      unfold ResolverState.lookup
      split
      · rfl
      · split_ifs <;> rfl
    exact (congrArg (fun s : Store => s.projects.get id) (hrepo _)).trans hrow
  | _ => exact hrow

section Step

variable (h : Expiring id p began D st (before ++ (visit, trace) :: after))
include h

theorem Expiring.fits_of_store {e : Resolved} (hissues : taskProtocol.issues trace (.store id e)) :
    e.Fits p := by
  obtain ⟨hleads, -, hfits⟩ := hissues
  refine hfits p fun y hy => ?_
  exact (h.leaders (visit, trace) List.mem_append_cons_self hleads y hy).mono fun _ _ => trivial

theorem Expiring.served_of_fits {e : Resolved} (he : e.Fits p) : D e := h.served e (.inl he)

theorem Expiring.served_lookup {now : Time} (hnow : st.clock ≤ now) {e : Resolved}
    (he : (st.process.lookup now id).1 = some e) : D e := by
  have hcached := lookup_eq_some he
  refine h.served e ((h.cached e hcached).imp_right fun hold => ⟨hold, ?_⟩)
  simp only [ResolverState.lookup, hcached] at he
  split_ifs at he with hexpired
  have hage : now - e.loadedAt ≤ resolverTTL := not_lt.mp hexpired
  exact (sub_le_sub_right hnow _).trans hage

theorem Expiring.landed_exec (hissues : taskProtocol.issues trace op) {n : ℕ} {r : Resolution}
    (hr : ((TimedResolver.exec env op st).2.process.flights id).result? n = some r) :
    (st.process.flights id).result? n = some r ∨ Provides D r := by
  cases op with
  | lookup id' =>
    have hflights (now : Time) : (st.process.lookup now id').2.flights = st.process.flights := by
      unfold ResolverState.lookup
      split
      · rfl
      · split_ifs <;> rfl
    exact .inl (hflights _ ▸ hr)
  | join id' =>
    by_cases hid : id = id'
    · subst hid
      exact .inl (by simpa [TimedResolver.exec, ResolverState.exec] using hr)
    · exact .inl (by simpa [TimedResolver.exec, ResolverState.exec, hid] using hr)
  | land id' n' r' =>
    obtain ⟨hleads, hprovides⟩ := hissues
    by_cases hid : id = id'
    · subst hid
      simp only [TimedResolver.exec, ResolverState.exec, Function.update_self,
        Flights.result?_land] at hr
      split_ifs at hr
      · rw [← Option.some.inj hr]
        exact .inr (hprovides p D (fun e => h.served_of_fits)
          (h.leaders (visit, trace) List.mem_append_cons_self hleads))
      · exact .inl hr
    · exact .inl (by simpa [TimedResolver.exec, ResolverState.exec, hid] using hr)
  | _ => exact .inl hr

/-- The reply to a caller who leads a load, or who has begun late. -/
theorem Expiring.learned_exec (hissues : taskProtocol.issues trace op)
    (hguard : Unwritten id st others trace op) (hvisit : visit.2 ∨ leading trace = some id) :
    Learned id p D ⟨op, (TimedResolver.exec env op st).1⟩ := by
  cases op with
  | repo c =>
    cases c with
    | getProject id' =>
      rintro rfl
      exact found_eq_ok.mpr h.row
    | _ => trivial
  | lookup id' =>
    rintro rfl e he
    exact h.served_lookup (clock_le_exec env (.lookup id') st) he
  | await id' n =>
    rintro rfl
    obtain ⟨hfollows, hjoined⟩ := hissues
    rcases hvisit with hlate | hleads
    · obtain ⟨r, hr⟩ := Option.isSome_iff_exists.mp hguard
      have hreply : (TimedResolver.exec env (.await id' n) st).1 = r := by
        simp [TimedResolver.exec, ResolverState.exec, hr]
      rw [hreply]
      exact h.followed (visit, trace) List.mem_append_cons_self hlate n hjoined r hr
    · cases hfollows.symm.trans hleads
  | _ => trivial

theorem Expiring.step (hissues : taskProtocol.issues trace op)
    (hguard : Unwritten id st others trace op) :
    Expiring id p began D (TimedResolver.exec env op st).2
      (before ++ (visit, ⟨op, (TimedResolver.exec env op st).1⟩ :: trace) :: after) where
  row := row_exec h.row hguard
  cached e he := by
    rcases get_cache_exec he with he | rfl
    · exact h.cached e he
    · exact .inl (h.fits_of_store hissues)
  served e he := by
    refine h.served e (he.imp_right fun hold => ⟨hold.1, ?_⟩)
    exact (sub_le_sub_right (clock_le_exec env op st) _).trans hold.2
  leaders := by
    refine forall_mem_of_step (fun hleads y hy => ?_) fun x hx => h.leaders x (mem_of_mem_others hx)
    obtain ⟨hleading, hsince⟩ | hnil | hnone :=
      leading_cons op (TimedResolver.exec env op st).1 trace
    · have hleads' : leading trace = some id := hleading.symm.trans hleads
      change y ∈ sinceJoin (⟨op, _⟩ :: trace) at hy
      rw [hsince] at hy
      rcases List.mem_cons.mp hy with rfl | hy
      · exact h.learned_exec hissues hguard (.inr hleads')
      · exact h.leaders (visit, trace) List.mem_append_cons_self hleads' y hy
    · change y ∈ sinceJoin (⟨op, _⟩ :: trace) at hy
      rw [hnil] at hy
      cases hy
    · cases hnone.symm.trans hleads
  learned := by
    refine forall_mem_of_step (fun hlate y hy => ?_) fun x hx => h.learned x (mem_of_mem_others hx)
    rcases List.mem_cons.mp hy with rfl | hy
    · exact h.learned_exec hissues hguard (.inl hlate)
    · exact h.learned (visit, trace) List.mem_append_cons_self hlate y hy
  followed := by
    have hold {x : Visit × ResolverTrace} (hx : x ∈ before ++ (visit, trace) :: after)
        (hlate : x.1.2) {n : ℕ} (hn : ⟨.join id, .follower n⟩ ∈ x.2) {r : Resolution}
        (hr : ((TimedResolver.exec env op st).2.process.flights id).result? n = some r) :
        Provides D r := by
      rcases h.landed_exec hissues hr with hr | hr
      · exact h.followed x hx hlate n hn r hr
      · exact hr
    refine forall_mem_of_step (fun hlate n hn r hr => ?_) fun x hx hlate n hn r hr =>
      hold (mem_of_mem_others hx) hlate hn hr
    rcases List.mem_cons.mp hn with heq | hn
    · -- The load that is joined is running and has no result yet.
      obtain ⟨rfl, hreply⟩ := Sigma.mk.inj heq
      have hrunning := Flights.running_of_follower (eq_of_heq hreply).symm
      have hnone : ((TimedResolver.exec env (.join id) st).2.process.flights id).result? n =
          none := by
        simp [TimedResolver.exec, ResolverState.exec, Flights.result?_of_running hrunning]
      cases hnone.symm.trans hr
    · exact hold (x := (visit, trace)) List.mem_append_cons_self hlate hn hr

end Step

theorem taskRelies_exec (env : Env × ℕ) (op : ResolverOp) (st : TimedResolver)
    (trace : ResolverTrace) : taskProtocol.relies trace op (TimedResolver.exec env op st).1 := by
  cases op with
  | repo c =>
    cases c with
    | now => exact ⟨_, rfl⟩
    | _ => trivial
  | _ => trivial

end Steps

/-! ## Callers who begin after the time to live -/

/-- The loads of a project that are on their way have learned of no other row. -/
def Calm (id : GoString) (p : Project) (c : TimedConfig) : Prop :=
  ∀ t ∈ c.traces, leading t = some id → ∀ x ∈ sinceJoin t, UpToDate id p x

def resolveTasks (validateModel : Model → Except ServiceError Unit) (ids : List GoString) :
    List (ResolverM (Option Resolution)) :=
  ids.map fun id => (Task.resolve id).program validateModel

theorem stamped_start (repo : Store) (began : Time) (tasks : List Task) :
    Stamped ⟨{ repo }, began⟩ ((tasks.map (·, false)).map fun visit => (visit, [])) where
  read := by simp
  cached id e he := by cases he

section Runs

variable {id : GoString} {p : Project} {c : TimedConfig} {visits : List Visit}

theorem learned_of_calm {D : Resolved → Prop} (hcalm : Calm id p c)
    (hD : ∀ e : Resolved, e.Fits p → D e) : ∀ x ∈ visits.zip c.traces, leading x.2 = some id →
      ∀ y ∈ sinceJoin x.2, Learned id p D y := fun x hx hleads y hy =>
  (learned_of_upToDate (hcalm x.2 (List.of_mem_zip hx).2 hleads y hy)).mono hD

/-- From a change on, what is loaded fits it. -/
theorem expiring_of_change (hrow : c.state.process.repo.projects.get id = some p)
    (hcalm : Calm id p c) (hstamped : Stamped c.state (visits.zip c.traces))
    (hearly : ∀ visit ∈ visits, visit.2 = false) :
    Expiring id p c.state.clock (fun e => e.Fits p ∨ e.loadedAt ≤ c.state.clock) c.state
      (visits.zip c.traces) := by
  have hnone : ∀ x ∈ visits.zip c.traces, ¬ x.1.2 = true := by
    intro x hx
    simp [hearly x.1 (List.of_mem_zip hx).1]
  exact ⟨hrow, fun e he => .inr (hstamped.cached id e he), fun e he => he.imp_right And.left,
    learned_of_calm hcalm fun e => .inl, fun x hx hlate => absurd hlate (hnone x hx),
    fun x hx hlate => absurd hlate (hnone x hx)⟩

/-- After the time to live nothing is served that was loaded before the change. -/
theorem Expiring.expire {began : Time} {D : Resolved → Prop}
    (h : Expiring id p began D c.state (visits.zip c.traces)) (hcalm : Calm id p c)
    (hearly : ∀ visit ∈ visits, visit.2 = false) (hclock : began + resolverTTL < c.state.clock)
    (late : List GoString) :
    Expiring id p began (Resolved.Fits p) c.state
      (visits.zip c.traces ++ (late.map (Task.resolve ·, true)).map fun visit => (visit, [])) := by
  have hnew {J : Visit × ResolverTrace → Prop} (hold : ∀ x ∈ visits.zip c.traces, J x)
      (hJ : ∀ visit, J (visit, [])) : ∀ x ∈ visits.zip c.traces ++
        (late.map (Task.resolve ·, true)).map fun visit => (visit, []), J x := by
    intro x hx
    rcases List.mem_append.mp hx with hx | hx
    · exact hold x hx
    · obtain ⟨visit, -, rfl⟩ := List.mem_map.mp hx
      exact hJ visit
  have hnone : ∀ x ∈ visits.zip c.traces, ¬ x.1.2 = true := by
    intro x hx
    simp [hearly x.1 (List.of_mem_zip hx).1]
  refine ⟨h.row, h.cached, fun e he => ?_, hnew (learned_of_calm hcalm fun _ he => he) ?_,
    hnew (fun x hx hlate => absurd hlate (hnone x hx)) (by simp),
    hnew (fun x hx hlate => absurd hlate (hnone x hx)) (by simp)⟩
  · rcases he with he | ⟨hold, hage⟩
    · exact he
    · have hlong : c.state.clock ≤ began + resolverTTL := by
        calc c.state.clock ≤ resolverTTL + e.loadedAt := sub_le_iff_le_add.mp hage
          _ ≤ resolverTTL + began := add_le_add_right hold _
          _ = began + resolverTTL := add_comm _ _
      exact absurd hclock (not_lt.mpr hlong)
  · simp [leading]

end Runs

/-- Once nobody writes a project any more, a process that is told nothing serves the last row to
whoever begins after the time to live, in the runs in which no load has learned of older rows at
the beginning of this time and at its end. -/
theorem changes_converge (validateModel : Model → Except ServiceError Unit) (id : GoString)
    (p : Project) (repo : Store) (began : Time) (tasks : List Task) (late : List GoString)
    (c c' c'' : TimedConfig)
    (h : Reaches TimedResolver.exec InTime
      (.start ⟨{ repo }, began⟩ (tasks.map (·.program validateModel))) c)
    (hrow : c.state.process.repo.projects.get id = some p) (hcalm : Calm id p c)
    (h' : Reaches TimedResolver.exec (Unwritten id) c c')
    (hclock : c.state.clock + resolverTTL < c'.state.clock) (hcalm' : Calm id p c')
    (h'' : Reaches TimedResolver.exec (Unwritten id)
      (c'.spawn (resolveTasks validateModel late)) c'')
    (n : ℕ) (hn : late[n]? = some id) (r : Option Resolution)
    (hr : c''.result? (c'.processes.length + n) = some r) :
    ∃ e, r = some (.ok e) ∧ e.Fits p := by
  let program (visit : Visit) := visit.1.program validateModel
  have hkeeps (visit : Visit) : (program visit).Keeps taskProtocol visit.1.Returns [] :=
    visit.1.keeps validateModel
  have hearly : ∀ visit ∈ tasks.map (·, false), visit.2 = false := by simp
  have hstart := Config.upholds_start_of_labels (P := fun _ : Visit => taskProtocol)
    (stamped_start repo began tasks) fun visit _ => hkeeps visit
  rw [List.map_map] at hstart
  have hc := h.upholds (fun env st before visit trace after op hinv hissues _ =>
    ⟨taskRelies_exec env op st trace, hinv.step hissues⟩) hstart
  have hchange : c.Upholds (fun _ : Visit => taskProtocol) (fun visit => visit.1.Returns)
      (Expiring id p c.state.clock fun e => e.Fits p ∨ e.loadedAt ≤ c.state.clock)
      (tasks.map (·, false)) := ⟨expiring_of_change hrow hcalm hc.inv hearly, hc.keeps⟩
  have hc' := h'.upholds (fun env st before visit trace after op hinv hissues hguard =>
    ⟨taskRelies_exec env op st trace, hinv.step hissues hguard⟩) hchange
  have hspawn := hc'.spawn (hc'.inv.expire hcalm' hearly hclock late) fun visit _ => hkeeps visit
  have hprograms : (late.map (Task.resolve ·, true)).map program =
      resolveTasks validateModel late := List.map_map
  rw [hprograms] at hspawn
  have hc'' := h''.upholds (fun env st before visit trace after op hinv hissues hguard =>
    ⟨taskRelies_exec env op st trace, hinv.step hissues hguard⟩) hspawn
  have hindex : (tasks.map (·, false) ++
      late.map (Task.resolve ·, true))[c'.processes.length + n]? = some (.resolve id, true) := by
    rw [← hc'.keeps.length_eq, List.getElem?_append_right (Nat.le_add_right _ _),
      Nat.add_sub_cancel_left, List.getElem?_map, hn]
    rfl
  obtain ⟨t, ht, hreturns⟩ := hc''.of_result hindex hr
  obtain ⟨r', rfl, hprovides⟩ :=
    hreturns p (Resolved.Fits p) (fun _ he => he) (hc''.inv.learned _ ht rfl)
  cases r' with
  | ok e => exact ⟨e, rfl, hprovides⟩
  | error err => exact hprovides.elim

/-! ### A suspension elsewhere -/

instance (st : TimedResolver) (others : List ResolverTrace) (trace : ResolverTrace) :
    DecidablePred (InTime st others trace) :=
  inferInstanceAs (DecidablePred (Waits st.process others trace))

instance (id : GoString) (st : TimedResolver) (others : List ResolverTrace)
    (trace : ResolverTrace) : DecidablePred (Unwritten id st others trace) := fun op => by
  induction op using ResolverOp.casesOn with
  | repo c => induction c using Call.casesOn <;> (dsimp only [Unwritten]; infer_instance)
  | _ => dsimp only [Unwritten]; infer_instance

instance (id : GoString) (p : Project) (c : TimedConfig) : Decidable (Calm id p c) :=
  inferInstanceAs (Decidable (∀ t ∈ c.traces, leading t = some id →
    ∀ x ∈ sinceJoin t, UpToDate id p x))

namespace RemoteSuspension

/-- The project is resolved here, another process suspends it, and somebody asks for the time. -/
def tasks : List Task :=
  [.resolve "p",
    .elsewhere (do
      let _ ← (updateProject (fun _ => .ok ()) "p" { status := "suspended" }).run
      return ()),
    .elsewhere (do
      let _ ← (call .now : ServiceM Time).run
      return ())]

def start : TimedConfig :=
  .start ⟨Suspension.start.state, 0⟩ (tasks.map (·.program fun _ => .ok ()))

/-- The process at `i` takes `n` steps, each some time after the last one. -/
def timed (n i delay : ℕ) : List (ℕ × Env × ℕ) := List.replicate n (i, {}, delay)

/-- The project is kept here as it was, and suspended. -/
def suspendedElsewhere : TimedConfig :=
  start.run TimedResolver.exec (timed 7 0 0 ++ timed 3 1 0)

def waited (delay : ℕ) : TimedConfig :=
  suspendedElsewhere.run TimedResolver.exec (timed 1 2 delay)

def asked (delay : ℕ) : TimedConfig :=
  ((waited delay).spawn (resolveTasks (fun _ => .ok ()) ["p"])).run TimedResolver.exec (timed 7 3 0)

end RemoteSuspension

open RemoteSuspension in
theorem remote_suspension_converges :
    ∃ e, (asked 30000000001).result? 3 = some (some (.ok e)) ∧ e.suspended = true := by
  have hsome : ((asked 30000000001).result? 3).isSome := by decide +kernel
  obtain ⟨r, hr⟩ := Option.isSome_iff_exists.mp hsome
  obtain ⟨e, rfl, hfits⟩ := changes_converge (fun _ => .ok ()) "p" Suspension.suspended
    Rename.initial 0 tasks ["p"] suspendedElsewhere (waited 30000000001) (asked 30000000001)
    (reaches_run _ _ _ (by decide +kernel)) (by decide +kernel) (by decide +kernel)
    (reaches_run _ _ _ (by decide +kernel)) (by decide +kernel) (by decide +kernel)
    (reaches_run _ _ _ (by decide +kernel)) 0 rfl r hr
  exact ⟨e, hr, hfits.suspended.mpr rfl⟩

-- Until then the process serves what it has kept.
open RemoteSuspension in
example : (asked 30000000000).result? 3 = some (some (.ok (.of Rename.kids 0))) := by
  decide +kernel

/-! ## The size of the cache -/

/-- Entries go until there is room, or until none is left. -/
theorem size_foldl_erase_lt (keys : List GoString) (cache : GoMap Resolved)
    (h : cache.keys ⊆ keys.toFinset) :
    GoMap.size (keys.foldl (fun cache k => if cache.size < resolverMaxEntries then cache
      else cache.erase k) cache) < resolverMaxEntries := by
  induction keys generalizing cache with
  | nil =>
    have hnone : cache.keys = ∅ := Finset.subset_empty.mp h
    rw [List.foldl_nil, GoMap.size_eq_card_keys, hnone]
    decide
  | cons key keys ih =>
    rw [List.foldl_cons]
    split_ifs with hroom
    · have hstays : keys.foldl (fun cache k => if cache.size < resolverMaxEntries then cache
          else cache.erase k) cache = cache := by
        clear ih h
        induction keys with
        | nil => rfl
        | cons key keys ih => rw [List.foldl_cons, if_pos hroom, ih]
      rw [hstays]
      exact hroom
    · refine ih _ fun k hk => ?_
      rw [Finmap.keys_erase, Finset.mem_erase] at hk
      have hmem := h hk.2
      rw [List.toFinset_cons, Finset.mem_insert] at hmem
      exact hmem.resolve_left hk.1

theorem size_evict_lt (order : MapOrder) (now : Time) (cache : GoMap Resolved) :
    GoMap.size (ResolverState.evict order now cache) < resolverMaxEntries := by
  refine size_foldl_erase_lt _ _ fun k hk => ?_
  rw [List.mem_toFinset, order.mem_list]
  exact hk

theorem size_store_le (st : ResolverState) (order : MapOrder) (now : Time) (projectID : GoString)
    (e : Resolved) : (st.store order now projectID e).cache.size ≤ resolverMaxEntries := by
  refine (GoMap.size_insert_le _ _ _).trans ?_
  split_ifs with hfull
  · exact size_evict_lt order now st.cache
  · exact not_le.mp hfull

theorem size_cache_exec (env : Env) (st : ResolverState) (op : ResolverOp)
    (h : st.cache.size ≤ resolverMaxEntries) :
    (ResolverState.exec env op st).2.cache.size ≤ resolverMaxEntries := by
  cases op with
  | lookup projectID =>
    change (st.lookup env.now projectID).2.cache.size ≤ resolverMaxEntries
    unfold ResolverState.lookup
    split
    · exact h
    · split_ifs
      · exact (GoMap.size_erase_le _ _).trans h
      · exact h
  | store projectID e => exact size_store_le st env.order env.now projectID e
  | invalidate projectID => exact (GoMap.size_erase_le _ _).trans h
  | _ => exact h

/-- The cache keeps to its bound, whoever uses the process and in whatever order. -/
theorem cache_bounded (guard : Guard ResolverState ResolverOp ResolverOp.Reply)
    (st : ResolverState) (hst : st.cache.size ≤ resolverMaxEntries)
    (programs : List (ResolverM (Option Resolution)))
    (c : Config ResolverState ResolverOp ResolverOp.Reply (Option Resolution))
    (h : Reaches ResolverState.exec guard (.start st programs) c) :
    c.state.cache.size ≤ resolverMaxEntries :=
  h.invariant size_cache_exec hst

namespace FullCache

/-- As many projects as there is room for, all of them just loaded. -/
@[irreducible] def cache : GoMap Resolved where
  entries := (Multiset.range resolverMaxEntries).map fun i => ⟨itoa i, { loadedAt := 0 }⟩
  nodupKeys := by
    rw [← Multiset.nodup_keys, Multiset.keys, Multiset.map_map]
    exact (Multiset.nodup_range _).map itoa_injective

theorem size_cache : cache.size = resolverMaxEntries := by
  rw [GoMap.size, cache, Multiset.card_map, Multiset.card_range]

theorem get_cache : cache.get "p" = none := by
  apply Finmap.lookup_eq_none.mpr
  intro hmem
  rw [cache] at hmem
  obtain ⟨⟨k, e⟩, he, rfl : k = str "p"⟩ := Multiset.mem_map.mp hmem
  dsimp only at he
  obtain ⟨i, -, hi⟩ := Multiset.mem_map.mp he
  have hkey : itoa i = str "p" := congrArg Sigma.fst hi
  exact notMem_itoa (d := 'p') (.inr (by decide)) (by decide) i (hkey ▸ by decide)

def full : ResolverState := { Suspension.start.state with cache }

/-- One more project is resolved. -/
def program : ResolverM (Option Resolution) := (Task.resolve "p").program fun _ => .ok ()

theorem ensures_program : program.Ensures (fun _ : Unit => ResolverState.exec {})
    (fun _ st => st.cache.get "p" = some (.of Rename.kids 0)) full := by
  have hmiss : ∀ st : ResolverState, st.cache = cache →
      Unit → ResolverState.exec {} (.lookup "p") st = (none, st) := by
    intro st hst _
    change st.lookup 0 "p" = (none, st)
    rw [ResolverState.lookup, hst, get_cache]
  -- Neither the caller nor the load finds an entry.
  apply Prog.ensures_call_of_eq (hmiss full rfl)
  apply Prog.ensures_call_of_eq fun _ => rfl
  apply Prog.ensures_call_of_eq (hmiss _ rfl)
  -- The row is read at some time and the entry stored before the load lands.
  apply Prog.ensures_call_of_eq fun _ => rfl
  apply Prog.ensures_call_of_eq fun _ => rfl
  apply Prog.ensures_call_of_eq fun _ => rfl
  apply Prog.ensures_call_of_eq fun _ => rfl
  exact (GoMap.get_insert _ _ _ _).trans (if_pos rfl)

end FullCache

open FullCache in
/-- An entry has to go for the one that is stored. -/
theorem cache_bounded_resolving : cache.size = resolverMaxEntries ∧ cache.get "p" = none ∧
    ∃ c, Reaches ResolverState.exec (fun _ _ _ _ => True) (.start full [program]) c ∧
      (c.state.cache.get "p").isSome ∧ c.state.cache.size ≤ resolverMaxEntries := by
  obtain ⟨t, hreach⟩ := (runs_outcome ({} : Env) program full).reaches []
  refine ⟨size_cache, get_cache, _, hreach, ?_, ?_⟩
  · exact Option.isSome_iff_exists.mpr ⟨_, ensures_program.outcome⟩
  · exact cache_bounded _ full size_cache.le [program] _ hreach

end WorkspaceAuthz.Service
