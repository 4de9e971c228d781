import WorkspaceAuthz.Service.Repository
import WorkspaceAuthz.Service.Tuples

/-! # Projects

A project is updated by a patch: what the caller does not provide stays. The patch
is applied to a row that was read in one call, and the whole row is written in
another. A patch leaves alone what a patch of other fields has provided, so that none is
lost as long as every row is written over the one it was made from.
-/
namespace WorkspaceAuthz.Service
open Go Authz Interleaving

def ProjectStatus.ofName? (s : GoString) : Option ProjectStatus :=
  if s = str "active" then some .active
  else if s = str "suspended" then some .suspended
  else none

def maxDataRegionLen : ℕ := 64

/-- A region is a short token of lowercase letters, digits, '-' and '_', or empty. -/
def validateRegion (region : GoString) : Except ServiceError Unit := do
  if region = [] then return ()
  if region.length > maxDataRegionLen then
    throw ⟨.invalidArgument, "data region must be at most %d characters", [itoa maxDataRegionLen]⟩
  if region.any fun c => !((ascii 'a' ≤ c && c ≤ ascii 'z') || (ascii '0' ≤ c && c ≤ ascii '9') ||
      c = ascii '-' || c = ascii '_') then
    throw ⟨.invalidArgument, "data region must be lowercase [a-z0-9_-]", []⟩

def validateMaxCheckReads (n : ℤ) : Except ServiceError Unit :=
  if 0 < n ∧ n < minMaxCheckReads then
    throw ⟨.invalidArgument,
      "max_check_reads, when set, must be >= %d (use 0 for the global default)",
      [itoa minMaxCheckReads.toNat]⟩
  else return ()

/-- What a caller of `UpdateProject` provides; empty values leave a field unchanged. -/
structure ProjectPatch where
  name : GoString := []
  status : GoString := []
  model : Model := ∅
  dataRegion : GoString := []
  clearRegion : Bool := false
  maxCheckReads : ℤ := 0
  clearBudget : Bool := false

namespace ProjectPatch

def validate (validateModel : Model → Except ServiceError Unit) (patch : ProjectPatch) :
    Except ServiceError Unit := do
  if patch.status ≠ [] ∧ (ProjectStatus.ofName? patch.status).isNone then
    throw ⟨.invalidArgument, "status must be active or suspended", []⟩
  validateModel patch.model
  validateRegion patch.dataRegion
  if patch.clearRegion ∧ patch.dataRegion ≠ [] then
    throw ⟨.invalidArgument, "set clear_data_region OR data_region, not both", []⟩
  validateMaxCheckReads patch.maxCheckReads
  if patch.clearBudget ∧ patch.maxCheckReads > 0 then
    throw ⟨.invalidArgument, "set clear_max_check_reads OR max_check_reads, not both", []⟩

def apply (patch : ProjectPatch) (p : Project) : Project :=
  { p with
    name := if patch.name ≠ [] then patch.name else p.name
    status := (ProjectStatus.ofName? patch.status).getD p.status
    model := if patch.model.size > 0 then patch.model else p.model
    dataRegion :=
      if patch.clearRegion then []
      else if patch.dataRegion ≠ [] then patch.dataRegion
      else p.dataRegion
    maxCheckReads :=
      if patch.clearBudget then 0
      else if patch.maxCheckReads > 0 then patch.maxCheckReads
      else p.maxCheckReads }

structure Disjoint (a b : ProjectPatch) : Prop where
  name : a.name = [] ∨ b.name = []
  status : a.status = [] ∨ b.status = []
  model : a.model.size = 0 ∨ b.model.size = 0
  dataRegion : (a.clearRegion = false ∧ a.dataRegion = []) ∨
    (b.clearRegion = false ∧ b.dataRegion = [])
  maxCheckReads : (a.clearBudget = false ∧ a.maxCheckReads ≤ 0) ∨
    (b.clearBudget = false ∧ b.maxCheckReads ≤ 0)

/-- What a patch that passes its checks asks for: a status that a project can have, and
nothing both set and cleared. -/
structure Consistent (patch : ProjectPatch) : Prop where
  status : patch.status = [] ∨ patch.status = str "active" ∨ patch.status = str "suspended"
  dataRegion : patch.clearRegion → patch.dataRegion = []
  maxCheckReads : patch.clearBudget → patch.maxCheckReads ≤ 0

/-- The project has the values that a patch provides. -/
structure CarriedBy (patch : ProjectPatch) (p : Project) : Prop where
  name : patch.name ≠ [] → p.name = patch.name
  status : patch.status ≠ [] →
    (patch.status = str "active" ∧ p.status = .active) ∨
      (patch.status = str "suspended" ∧ p.status = .suspended)
  model : patch.model.size > 0 → p.model = patch.model
  dataRegion : (patch.dataRegion ≠ [] → p.dataRegion = patch.dataRegion) ∧
    (patch.clearRegion → p.dataRegion = [])
  maxCheckReads : (patch.maxCheckReads > 0 → p.maxCheckReads = patch.maxCheckReads) ∧
    (patch.clearBudget → p.maxCheckReads = 0)

variable {a b : ProjectPatch} {p : Project}

theorem ofName_nil : ProjectStatus.ofName? [] = none := by decide

theorem ofName_active : ProjectStatus.ofName? (str "active") = some .active := by decide

theorem ofName_suspended : ProjectStatus.ofName? (str "suspended") = some .suspended := by decide

theorem ofName_isSome {s : GoString} (h : (ProjectStatus.ofName? s).isSome) :
    s = str "active" ∨ s = str "suspended" := by
  unfold ProjectStatus.ofName? at h
  split_ifs at h with hactive hsuspended
  · exact .inl hactive
  · exact .inr hsuspended
  · cases h

theorem consistent_of_validate {validateModel : Model → Except ServiceError Unit}
    (h : a.validate validateModel = .ok ()) : a.Consistent := by
  simp only [validate, guarded_ok_iff, sequence_ok_iff] at h
  obtain ⟨hstatus, -, -, hregion, -, hlast⟩ := h
  have hreads : ¬ (a.clearBudget = true ∧ a.maxCheckReads > 0) := by
    intro hboth
    rw [if_pos hboth] at hlast
    cases hlast
  refine ⟨?_, fun hclear => by_contra fun hne => hregion ⟨hclear, hne⟩,
    fun hclear => not_lt.mp fun hlt => hreads ⟨hclear, hlt⟩⟩
  by_cases hs : a.status = []
  · exact .inl hs
  · apply Or.inr
    apply ofName_isSome
    simpa [hs, Option.isSome_iff_ne_none] using hstatus

theorem carriedBy_apply (h : a.Consistent) : a.CarriedBy (a.apply p) where
  name hname := if_pos hname
  status hstatus := by
    rcases h.status with hs | hs | hs
    · exact absurd hs hstatus
    · exact .inl ⟨hs, by simp only [apply, hs, ofName_active, Option.getD_some]⟩
    · exact .inr ⟨hs, by simp only [apply, hs, ofName_suspended, Option.getD_some]⟩
  model hmodel := if_pos hmodel
  dataRegion := by
    refine ⟨fun hregion => ?_, fun hclear => if_pos hclear⟩
    exact (if_neg fun hclear => hregion (h.dataRegion hclear)).trans (if_pos hregion)
  maxCheckReads := by
    refine ⟨fun hreads => ?_, fun hclear => if_pos hclear⟩
    exact (if_neg fun hclear => (h.maxCheckReads hclear).not_gt hreads).trans (if_pos hreads)

theorem Disjoint.symm (h : a.Disjoint b) : b.Disjoint a :=
  ⟨h.name.symm, h.status.symm, h.model.symm, h.dataRegion.symm, h.maxCheckReads.symm⟩

/-- A patch leaves alone what another provides. -/
theorem Disjoint.carriedBy_apply (h : a.Disjoint b) (hp : a.CarriedBy p) :
    a.CarriedBy (b.apply p) where
  name hname := by
    have hb : b.name = [] := h.name.resolve_left hname
    simpa only [apply, hb, ne_eq, not_true_eq_false, if_false] using hp.name hname
  status hstatus := by
    have hb : b.status = [] := h.status.resolve_left hstatus
    simpa only [apply, hb, ofName_nil, Option.getD_none] using hp.status hstatus
  model hmodel := by
    have hb : b.model.size = 0 := h.model.resolve_left hmodel.ne'
    simpa only [apply, hb, gt_iff_lt, lt_irrefl, if_false] using hp.model hmodel
  dataRegion := by
    rcases h.dataRegion with ⟨hclear, hregion⟩ | ⟨hclear, hregion⟩
    · simp [hclear, hregion]
    · simpa [apply, hclear, hregion] using hp.dataRegion
  maxCheckReads := by
    rcases h.maxCheckReads with ⟨hclear, hreads⟩ | ⟨hclear, hreads⟩
    · simp [hclear, hreads.not_gt]
    · simpa [apply, hclear, hreads.not_gt] using hp.maxCheckReads

theorem CarriedBy.updatedAt (hp : a.CarriedBy p) (now : Time) :
    a.CarriedBy { p with updatedAt := now } :=
  ⟨hp.name, hp.status, hp.model, hp.dataRegion, hp.maxCheckReads⟩

theorem CarriedBy.suspended (hp : a.CarriedBy p) (hstatus : a.status = str "suspended") :
    p.status = .suspended := by
  rcases hp.status (by rw [hstatus]; decide) with ⟨h, -⟩ | ⟨-, h⟩
  · exact absurd (hstatus.symm.trans h) (by decide)
  · exact h

end ProjectPatch

/-! ## Requests -/

section Requests

variable (validateModel : Model → Except ServiceError Unit)

def createProject (id name : GoString) (model : Model) (dataRegion : GoString)
    (maxCheckReads : ℤ) : ServiceM Project := do
  if id = [] then throw ⟨.invalidArgument, "project id is required", []⟩
  if hasControlChar id then
    throw ⟨.invalidArgument, "project id must not contain control characters", []⟩
  checked (validateModel model)
  checked (validateRegion dataRegion)
  checked (validateMaxCheckReads maxCheckReads)
  let now ← call .now
  let p : Project := ⟨id, name, .active, model, dataRegion, maxCheckReads, now, now⟩
  call (.createProject p)
  return p

def getProject (id : GoString) : ServiceM Project := do
  if id = [] then throw ⟨.invalidArgument, "project id is required", []⟩
  call (.getProject id)

/-- The update of the repository; the cache of resolved projects is invalidated afterwards. -/
def updateProject (id : GoString) (patch : ProjectPatch) : ServiceM Project := do
  if id = [] then throw ⟨.invalidArgument, "project id is required", []⟩
  if hasControlChar id then
    throw ⟨.invalidArgument, "project id must not contain control characters", []⟩
  checked (patch.validate validateModel)
  let p ← call (.getProject id)
  let now ← call .now
  let p' := { patch.apply p with updatedAt := now }
  call (.updateProject p')
  return p'

end Requests

/-! ## What an update writes -/

def lastRead : CallTrace → Option Project
  | [] => none
  | ⟨.getProject _, .ok p⟩ :: _ => some p
  | _ :: trace => lastRead trace

def Wrote : (Σ c, Reply c) → Prop
  | ⟨.updateProject _, .ok _⟩ => True
  | _ => False

/-- The patch, which has passed its checks, is applied to the project that was read. -/
def projectProtocol (id : GoString) (patch : ProjectPatch) : Protocol Call Reply where
  issues trace
    | .updateProject p => p.id = id ∧ patch.Consistent ∧
        ∃ read now, lastRead trace = some read ∧ p = { patch.apply read with updatedAt := now }
    | c => c.Quiet
  relies _
    | .getProject id, r => ∀ p, r = .ok p → p.id = id
    | _, _ => True

theorem keeps_updateProject (validateModel : Model → Except ServiceError Unit) (id : GoString)
    (patch : ProjectPatch) (trace : CallTrace) :
    (updateProject validateModel id patch).run.Keeps (projectProtocol id patch)
      (fun t r => ∀ p, r = .ok p → ∃ x ∈ t, Wrote x) trace := by
  refine keeps_ite (fun _ => nofun) fun _ => keeps_ite (fun _ => nofun) fun _ => ?_
  cases hvalid : patch.validate validateModel with
  | error e => exact nofun
  | ok u =>
    have hpatch := ProjectPatch.consistent_of_validate hvalid
    refine keeps_attempt_then trivial (fun _ _ => nofun) fun p hp => ?_
    refine keeps_attempt_then trivial (fun _ _ => nofun) fun now _ => ?_
    refine keeps_attempt_then ⟨hp p rfl, hpatch, p, now, rfl, rfl⟩ (fun _ _ => nofun) fun u _ => ?_
    exact fun _ _ => ⟨_, .head _, trivial⟩

section Updates

variable {id : GoString} {s : Store} {others : List CallTrace} {trace : CallTrace}

/-- The project that is written over is the one that was read. -/
def Unchanged (id : GoString) (s : Store) (_others : List CallTrace) (trace : CallTrace) :
    Call → Prop
  | .updateProject _ => s.projects.get id = lastRead trace
  | _ => True

instance : DecidablePred (Unchanged id s others trace) := fun c => by
  induction c using Call.casesOn <;> (dsimp only [Unchanged]; infer_instance)

def Store.Carries (s : Store) (id : GoString) (patch : ProjectPatch) : Prop :=
  ∃ p, s.projects.get id = some p ∧ patch.CarriedBy p

theorem carries_putProject {p : Project} {patch : ProjectPatch} (hid : p.id = id)
    (h : patch.CarriedBy p) : (s.putProject p).Carries id patch := by
  refine ⟨p, ?_, h⟩
  rw [Store.putProject, GoMap.get_insert, if_pos hid.symm]

/-- What a patch has provided is kept by the updates that follow, and an update that
succeeds provides what its patch does. -/
theorem carries_exec (env : Env) {c : Call} {b : ProjectPatch}
    (hissues : (projectProtocol id b).issues trace c) (hguard : Unchanged id s others trace c) :
    (∀ a : ProjectPatch, a = b ∨ a.Disjoint b → s.Carries id a → (exec env c s).2.Carries id a) ∧
      (Wrote ⟨c, (exec env c s).1⟩ → (exec env c s).2.Carries id b) := by
  cases c with
  | updateProject p =>
    obtain ⟨hid, hpatch, read, now, hread, rfl⟩ := hissues
    have hstored : s.projects.get id = some read := hguard.trans hread
    rw [exec, Store.updateProject_of_some (hid ▸ hstored)]
    have hcarried : (s.putProject { b.apply read with updatedAt := now }).Carries id b :=
      carries_putProject hid ((ProjectPatch.carriedBy_apply hpatch).updatedAt now)
    refine ⟨?_, fun _ => hcarried⟩
    rintro a (rfl | hdisjoint) ⟨p, hp, ha⟩
    · exact hcarried
    · cases hstored.symm.trans hp
      exact carries_putProject hid ((hdisjoint.carriedBy_apply ha).updatedAt now)
  | _ =>
    rw [exec_of_quiet]
    exacts [⟨fun _ _ h => h, fun h => h.elim⟩, hissues]

theorem projectRelies_exec (env : Env) {patch : ProjectPatch} (c : Call) :
    (projectProtocol id patch).relies trace c (exec env c s).1 := by
  cases c with
  | getProject id' =>
    intro p hp
    exact s.projects_keyed id' p (found_eq_ok.mp hp)
  | _ => trivial

end Updates

def projectUpdates (validateModel : Model → Except ServiceError Unit) (id : GoString) (s : Store)
    (patches : List ProjectPatch) : Config Store Call Reply (Except ServiceError Project) :=
  .start s (patches.map fun patch => (updateProject validateModel id patch).run)

/-- The updates that have succeeded, with the patches pairwise disjoint. -/
def UpdatesAddUp (id : GoString) (s : Store) (ts : List (ProjectPatch × CallTrace)) : Prop :=
  (ts.map Prod.fst).Pairwise ProjectPatch.Disjoint ∧
    ∀ t ∈ ts, (∃ x ∈ t.2, Wrote x) → s.Carries id t.1

theorem updatesAddUp_exec (env : Env) {id : GoString} {s : Store}
    {before after : List (ProjectPatch × CallTrace)} {patch : ProjectPatch} {trace : CallTrace}
    {c : Call} (h : UpdatesAddUp id s (before ++ (patch, trace) :: after))
    (hissues : (projectProtocol id patch).issues trace c)
    (hguard : Unchanged id s ((before ++ after).map Prod.snd) trace c) :
    UpdatesAddUp id (exec env c s).2
      (before ++ (patch, ⟨c, (exec env c s).1⟩ :: trace) :: after) := by
  obtain ⟨hdisjoint, hcarries⟩ := h
  have hother : ∀ t ∈ before ++ after, t.1.Disjoint patch := by
    simp only [List.map_append, List.map_cons, List.pairwise_append, List.pairwise_cons,
      List.mem_map, List.mem_cons] at hdisjoint
    intro t ht
    rcases List.mem_append.mp ht with ht | ht
    · exact hdisjoint.2.2 _ ⟨t, ht, rfl⟩ _ (.inl rfl)
    · exact (hdisjoint.2.1.1 _ ⟨t, ht, rfl⟩).symm
  obtain ⟨hkept, hwrote⟩ := carries_exec env hissues hguard
  refine ⟨by simpa using hdisjoint, forall_mem_of_step ?_ fun t ht hw => ?_⟩
  · rintro ⟨x, hx, hw⟩
    rcases List.mem_cons.mp hx with rfl | hx
    · exact hwrote hw
    · exact hkept patch (.inl rfl) (hcarries (patch, trace) (by simp) ⟨x, hx, hw⟩)
  · exact hkept t.1 (.inr (hother t ht)) (hcarries t (mem_of_mem_others ht) hw)

/-- Updates of different fields of a project do not undo each other in the runs in which
every row is written over the one that it was made from. -/
theorem project_patches_add_up (validateModel : Model → Except ServiceError Unit) (id : GoString)
    (s : Store) (patches : List ProjectPatch) (hdisjoint : patches.Pairwise ProjectPatch.Disjoint)
    (c : Config Store Call Reply (Except ServiceError Project))
    (h : Reaches exec (Unchanged id) (projectUpdates validateModel id s patches) c) (n : ℕ)
    (patch : ProjectPatch) (hn : patches[n]? = some patch) (p : Project)
    (hp : c.result? n = some (.ok p)) :
    ∃ stored, c.state.projects.get id = some stored ∧ patch.CarriedBy stored ∧
      (patch.status = str "suspended" → stored.status = .suspended) := by
  have hstart : (projectUpdates validateModel id s patches).Upholds (projectProtocol id)
      (fun _ t r => ∀ p, r = .ok p → ∃ x ∈ t, Wrote x) (UpdatesAddUp id) patches := by
    refine Config.upholds_start_of_labels ⟨by simpa [Function.comp_def] using hdisjoint, ?_⟩
      fun patch _ => keeps_updateProject validateModel id patch []
    intro t ht
    obtain ⟨patch, -, rfl⟩ := List.mem_map.mp ht
    rintro ⟨x, hx, -⟩
    cases hx
  have hend := h.upholds (fun env s before patch trace after call hinv hissues hguard =>
    ⟨projectRelies_exec env call, updatesAddUp_exec env hinv hissues hguard⟩) hstart
  obtain ⟨t, ht, hwrote⟩ := hend.of_result hn hp
  obtain ⟨stored, hstored, hcarried⟩ := hend.inv.2 _ ht (hwrote p rfl)
  exact ⟨stored, hstored, hcarried, hcarried.suspended⟩

/-! ## A rename that lifts a suspension -/

namespace Rename

def kids : Project := ⟨"p", "Kids", .active, ∅, [], 0, 0, 0⟩

def initial : Store := (Store.empty.createProject kids).2

def patches : List ProjectPatch := [{ name := "School" }, { status := "suspended" }]

theorem disjoint : patches.Pairwise ProjectPatch.Disjoint := by
  simp only [patches, List.pairwise_pair]
  exact ⟨.inr rfl, .inl rfl, .inl rfl, .inl ⟨rfl, rfl⟩, .inl ⟨rfl, le_rfl⟩⟩

def start : Config Store Call Reply (Except ServiceError Project) :=
  projectUpdates (fun _ => .ok ()) "p" initial patches

/-- The project is read for the rename, then it is suspended, then it is renamed. -/
def overlapping : List (ℕ × Env) := steps 2 0 ++ steps 3 1 ++ steps 1 0

def inTurn : List (ℕ × Env) := steps 3 1 ++ steps 3 0

end Rename

open Rename in
/-- Both updates succeed, and yet the project is active. -/
theorem rename_lifts_suspension : patches.Pairwise ProjectPatch.Disjoint ∧
    ∃ c, Reaches exec (fun _ _ _ _ => True) start c ∧
      (c.result? 0).map (·.isOk) = some true ∧ (c.result? 1).map (·.isOk) = some true ∧
      (c.state.projects.get "p").map (fun p => (p.name, p.status)) = some (str "School", .active) :=
  ⟨disjoint, start.run exec overlapping,
    reaches_run exec start overlapping (start.admitsAll_true exec overlapping),
    by decide +kernel, by decide +kernel, by decide +kernel⟩

open Rename in
theorem rename_after_suspension : ∃ stored,
    (start.run exec inTurn).state.projects.get "p" = some stored ∧ stored.status = .suspended := by
  have hreach : Reaches exec (Unchanged "p") start (start.run exec inTurn) :=
    reaches_run exec start inTurn (by decide +kernel)
  have hok : ((start.run exec inTurn).result? 1).map (·.isOk) = some true := by decide +kernel
  obtain ⟨r, hr, hrok⟩ := Option.map_eq_some_iff.mp hok
  cases r with
  | error e => cases hrok
  | ok p =>
    obtain ⟨stored, hstored, -, hsuspended⟩ := project_patches_add_up (fun _ => .ok ()) "p" initial
      patches disjoint _ hreach 1 _ rfl p hr
    exact ⟨stored, hstored, hsuspended rfl⟩

end WorkspaceAuthz.Service
