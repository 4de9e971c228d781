import WorkspaceAuthz.Interleaving.Runs
import WorkspaceAuthz.Service.PersonalWorkspaces

/-! # First uses at the same time

Several requests of a user who has no personal workspace yet. Each may find none and
try to create it; the store admits one, the others look again and find it, perhaps
before its owner's row is written.
-/
namespace WorkspaceAuthz.Service
open Go Authz Interleaving

/-- No workspace, no row and no tuple has the id. -/
def Store.unused (s : Store) (projectID tenantID id : GoString) : Bool :=
  let sk := scope projectID tenantID
  (s.workspaces.get₂ sk id).isNone &&
    !(GoMap.inner (GoMap.inner s.memberships sk) id).any (fun _ _ => true) &&
    !(s.tuples.inner sk).any fun _ t => t.ns = str "workspace" ∧ t.objectID = id

/-- Workspaces are created under ids that are not in use. -/
def FreshIDs : Guard Store Call Reply := fun s _ _ c =>
  match c with
  | .createWorkspace w => s.unused w.projectID w.tenantID w.id
  | _ => True

instance (s : Store) (others : List CallTrace) (trace : CallTrace) (c : Call) :
    Decidable (FreshIDs s others trace c) := by
  induction c using Call.casesOn <;> (dsimp only [FreshIDs]; infer_instance)

/-- On which replies a request relies to succeed. -/
def succeeding (p : Principal) : Protocol Call Reply where
  issues := FirstUse p
  relies trace c r := ∀ e, r = .error e → ¬ Unexpected trace e c

/-- What is known while requests of a user run at the same time: either no workspace has been
created, or there is one that all of them agree on. -/
structure Converging (p : Principal) (w : Option Workspace) (s : Store)
    (ts : List (Unit × CallTrace)) : Prop where
  sole : ∀ w', (∃ id, s.workspaces.get₂ (scope p.projectID p.tenantID) id = some w') ∧
    w'.type = .personal ∧ w'.ownerUserID = p.userID ↔ w = some w'
  returned : ∀ x ∈ ts, ∀ w', returned? x.2 = some w' → w = some w'
  pending : ∀ x ∈ ts, ∀ w', pending? x.2 = some w' → w = some w'
  attempted : ∀ x ∈ ts, Attempted x.2 → w ≠ none
  rows : ∀ w', w = some w' → ∀ user m, s.row p.projectID p.tenantID w'.id user = some m →
    user = p.userID
  tuples : ∀ w', w = some w' → ∀ t, s.Stored p.projectID p.tenantID t →
    t.ns = str "workspace" → t.objectID = w'.id → t = roleTuple w'.id p.userID .owner
  owner : ∀ w', w = some w' → s.HasOwner p.projectID p.tenantID w' ∨
    ∃ x ∈ ts, pending? x.2 = some w'

section Converge

variable {p : Principal} {w : Option Workspace} {s : Store} {before after : List (Unit × CallTrace)}
  {trace : CallTrace} {x : Σ c, Reply c}

theorem Store.unused_iff {projectID tenantID id : GoString} :
    s.unused projectID tenantID id = true ↔
      s.workspaces.get₂ (scope projectID tenantID) id = none ∧
      (∀ user, s.row projectID tenantID id user = none) ∧
      ∀ t, s.Stored projectID tenantID t → t.ns = str "workspace" → t.objectID ≠ id := by
  have hrows : (GoMap.inner (GoMap.inner s.memberships (scope projectID tenantID)) id).any
      (fun _ _ => true) = false ↔ ∀ user, s.row projectID tenantID id user = none := by
    rw [← Bool.not_eq_true, GoMap.any_iff]
    simp only [and_true, not_exists]
    exact ⟨fun h user => Option.eq_none_iff_forall_ne_some.mpr (h user),
      fun h user => Option.eq_none_iff_forall_ne_some.mp (h user)⟩
  have htuples : ((s.tuples.inner (scope projectID tenantID)).any fun _ t =>
      t.ns = str "workspace" ∧ t.objectID = id) = false ↔
        ∀ t, s.Stored projectID tenantID t → t.ns = str "workspace" → t.objectID ≠ id := by
    rw [← Bool.not_eq_true, GoMap.any_iff]
    constructor
    · intro h t hstored hns hid
      exact h ⟨tupleKey t, t, hstored, by simp [hns, hid]⟩
    · rintro h ⟨k, t, hget, ht⟩
      have hkey : tupleKey t = k := s.tuples_keyed (scope projectID tenantID) k t hget
      rw [← hkey] at hget
      rw [decide_eq_true_eq] at ht
      exact h t hget ht.1 ht.2
  simp only [Store.unused, Bool.and_eq_true, Bool.not_eq_true', hrows, htuples, and_assoc,
    Option.isNone_iff_eq_none]

theorem others_of_ne {y z : Unit × CallTrace} (hy : y ∈ before ++ z :: after) (hne : y ≠ z) :
    y ∈ before ++ after := by
  simp only [List.mem_append, List.mem_cons, hne, false_or] at hy
  exact List.mem_append.mpr hy

theorem Converging.look (h : Converging p w s (before ++ ((), trace) :: after))
    (hnone : pending? trace = none) (hpending : pending? (x :: trace) = none)
    (hreturned : ∀ w', returned? (x :: trace) = some w' → w = some w')
    (hattempted : Attempted (x :: trace) → w ≠ none) :
    Converging p w s (before ++ ((), x :: trace) :: after) where
  sole := h.sole
  returned := forall_mem_of_step hreturned fun y hy => h.returned y (mem_of_mem_others hy)
  pending := forall_mem_of_step (by simp [hpending]) fun y hy => h.pending y (mem_of_mem_others hy)
  attempted := forall_mem_of_step hattempted fun y hy => h.attempted y (mem_of_mem_others hy)
  rows := h.rows
  tuples := h.tuples
  owner w' hw' := by
    refine (h.owner w' hw').imp_right ?_
    rintro ⟨y, hy, hyw⟩
    exact ⟨y, mem_of_mem_others (others_of_ne hy fun hy' => by simp [hy', hnone] at hyw), hyw⟩

theorem attempted_cons {c : Call} {r : Reply c} (hc : ∀ w, c ≠ .createWorkspace w)
    (h : Attempted (⟨c, r⟩ :: trace)) : Attempted trace := by
  obtain ⟨y, hy, w, hyw⟩ := h
  obtain rfl | hy := List.mem_cons.mp hy
  · exact absurd hyw (hc w)
  · exact ⟨y, hy, w, hyw⟩

theorem Converging.putWorkspace {w₁ : Workspace}
    (h : Converging p none s (before ++ ((), trace) :: after)) (hw₁ : IsPersonalOf p w₁)
    (hfresh : s.unused p.projectID p.tenantID w₁.id = true) :
    Converging p (some w₁) (s.putWorkspace w₁)
      (before ++ ((), ⟨.createWorkspace w₁, .ok ()⟩ :: trace) :: after) where
  sole w' := by
    obtain ⟨hproject, htenant, hpersonal⟩ := hw₁
    constructor
    · rintro ⟨⟨id, hget⟩, hw'⟩
      rw [Store.get_workspaces_putWorkspace] at hget
      split_ifs at hget
      · exact hget
      · exact absurd ((h.sole w').mp ⟨⟨id, hget⟩, hw'⟩) nofun
    · rintro ⟨⟩
      refine ⟨⟨w₁.id, ?_⟩, hpersonal⟩
      rw [Store.get_workspaces_putWorkspace, if_pos ⟨by rw [hproject, htenant], rfl⟩]
  returned := forall_mem_of_step (fun w' hw' => by cases hw') fun y hy w' hw' =>
    absurd (h.returned y (mem_of_mem_others hy) w' hw') (Option.some_ne_none _).symm
  pending := forall_mem_of_step (fun w' hw' => hw') fun y hy w' hw' =>
    absurd (h.pending y (mem_of_mem_others hy) w' hw') (Option.some_ne_none _).symm
  attempted _ _ _ := Option.some_ne_none _
  rows := by
    rintro _ ⟨⟩ user m hrow
    have hnone : s.row p.projectID p.tenantID w₁.id user = none :=
      (Store.unused_iff.mp hfresh).2.1 user
    exact absurd (hnone.symm.trans hrow) (Option.some_ne_none m).symm
  tuples := by
    rintro _ ⟨⟩ t hstored hns hid
    exact absurd hid ((Store.unused_iff.mp hfresh).2.2 t hstored hns)
  owner := by
    rintro _ ⟨⟩
    exact .inr ⟨_, List.mem_append_right before List.mem_cons_self, rfl⟩

theorem Converging.putOwner {w₁ : Workspace}
    (h : Converging p w s (before ++ ((), trace) :: after)) (hw₁ : IsPersonalOf p w₁)
    (hw : pending? trace = some w₁) (hpending : pending? (x :: trace) = none)
    (hreturned : ∀ w', returned? (x :: trace) = some w' → w' = w₁) :
    Converging p w (s.putOwner w₁) (before ++ ((), x :: trace) :: after) := by
  obtain rfl : w = some w₁ := h.pending ((), trace) (by simp) w₁ hw
  obtain ⟨hproject, htenant, -, huser⟩ := hw₁
  have hscope : scope p.projectID p.tenantID = scope w₁.projectID w₁.tenantID := by
    rw [hproject, htenant]
  refine ⟨h.sole, ?_, ?_, fun _ _ _ => Option.some_ne_none _, ?_, ?_, ?_⟩
  · refine forall_mem_of_step (fun w' hw' => ?_) fun y hy => h.returned y (mem_of_mem_others hy)
    rw [hreturned w' hw']
  · exact forall_mem_of_step (by simp [hpending]) fun y hy => h.pending y (mem_of_mem_others hy)
  · rintro _ ⟨⟩ user m hrow
    rw [Store.row_putOwner] at hrow
    split_ifs at hrow with heq
    · rw [heq.2.2, huser]
    · exact h.rows w₁ rfl user m hrow
  · rintro _ ⟨⟩ t hstored hns hid
    obtain ht | ⟨hstored, -⟩ := (Store.stored_putOwner hscope).mp hstored
    · rw [ht, huser]
    · exact h.tuples w₁ rfl t hstored hns hid
  · rintro _ ⟨⟩
    exact .inl (Store.hasOwner_putOwner hscope)

theorem converging_step (env : Env) {c : Call} {others : List CallTrace}
    (h : Converging p w s (before ++ ((), trace) :: after)) (hissues : FirstUse p trace c)
    (hguard : FreshIDs s others trace c) :
    (succeeding p).relies trace c (exec env c s).1 ∧ ∃ w', Converging p w' (exec env c s).2
      (before ++ ((), ⟨c, (exec env c s).1⟩ :: trace) :: after) := by
  have hself : ((), trace) ∈ before ++ ((), trace) :: after := by simp
  cases c with
  | personalWorkspace projectID tenantID userID =>
    obtain ⟨hnone, rfl, rfl, rfl⟩ := hissues
    cases hreply : s.personalWorkspace env.order p.projectID p.tenantID p.userID with
    | ok w₁ =>
      obtain ⟨hget, hw₁⟩ := Store.personalWorkspace_eq_ok hreply
      have hw : w = some w₁ := (h.sole w₁).mp ⟨⟨w₁.id, hget⟩, hw₁⟩
      have hexec : exec env (.personalWorkspace p.projectID p.tenantID p.userID) s =
        (.ok w₁, s) := by
        rw [exec, hreply]
      rw [hexec]
      refine ⟨by rintro _ ⟨⟩, w, h.look hnone rfl ?_ ?_⟩
      · rintro _ ⟨⟩
        exact hw
      · simp [hw]
    | error e =>
      obtain ⟨hmissing, hno⟩ := Store.personalWorkspace_eq_error hreply
      have hexec : exec env (.personalWorkspace p.projectID p.tenantID p.userID) s =
          (.error e, s) := by rw [exec, hreply]
      have hw : w = none := by
        refine Option.eq_none_iff_forall_ne_some.mpr fun w₁ hw₁ => ?_
        obtain ⟨⟨id, hget⟩, hpersonal⟩ := (h.sole w₁).mpr hw₁
        exact hno id w₁ hget hpersonal
      have hattempted : ¬ Attempted trace := fun ht => h.attempted _ hself ht hw
      rw [hexec]
      refine ⟨?_, w, h.look hnone rfl (by rintro _ ⟨⟩) fun ht => ?_⟩
      · rintro _ ⟨⟩ (hother | ht)
        · exact hother hmissing
        · exact hattempted ht
      · exact absurd (attempted_cons (by simp) ht) hattempted
  | now =>
    refine ⟨by rintro _ ⟨⟩, w, h.look hissues rfl (by rintro _ ⟨⟩) fun ht => ?_⟩
    exact h.attempted _ hself (attempted_cons (by simp) ht)
  | newID =>
    refine ⟨by rintro _ ⟨⟩, w, h.look hissues rfl (by rintro _ ⟨⟩) fun ht => ?_⟩
    exact h.attempted _ hself (attempted_cons (by simp) ht)
  | createWorkspace w₁ =>
    obtain ⟨hnone, hw₁⟩ := hissues
    have hfresh : s.unused w₁.projectID w₁.tenantID w₁.id = true := hguard
    obtain ⟨⟨id, ex, hget, hex⟩, hexec⟩ | ⟨hno, hexec⟩ :=
      Store.createWorkspace_personal hw₁.2.2.1 (Store.unused_iff.mp hfresh).1
    · rw [hw₁.1, hw₁.2.1] at hget
      rw [hw₁.2.2.2] at hex
      have hw : w = some ex := (h.sole ex).mp ⟨⟨id, hget⟩, hex⟩
      rw [exec, hexec]
      refine ⟨?_, w, h.look hnone rfl (by rintro _ ⟨⟩) ?_⟩
      · rintro _ ⟨⟩ hother
        exact hother rfl
      · simp [hw]
    · have hw : w = none := by
        refine Option.eq_none_iff_forall_ne_some.mpr fun ex hex => hno ?_
        obtain ⟨⟨id, hget⟩, hpersonal⟩ := (h.sole ex).mpr hex
        rw [hw₁.1, hw₁.2.1, hw₁.2.2.2]
        exact ⟨id, ex, hget, hpersonal⟩
      rw [exec, hexec]
      subst hw
      rw [hw₁.1, hw₁.2.1] at hfresh
      exact ⟨by rintro _ ⟨⟩, some w₁, h.putWorkspace hw₁ hfresh⟩
  | putMembershipAndTuples m inserts deletes =>
    obtain ⟨w₁, hw, hpersonal, rfl, rfl, rfl⟩ := hissues
    obtain ⟨rest, rfl⟩ := eq_cons_of_pending hw
    refine ⟨by rintro _ ⟨⟩, w, h.putOwner hpersonal hw rfl ?_⟩
    rintro _ ⟨⟩
    rfl
  | _ => exact hissues.elim

end Converge

theorem converging_start {p : Principal} {s : Store} {ts : List (Unit × CallTrace)}
    (hfirst : ∀ id w, s.workspaces.get₂ (scope p.projectID p.tenantID) id = some w →
      ¬ (w.type = .personal ∧ w.ownerUserID = p.userID))
    (hts : ∀ x ∈ ts, x.2 = []) : Converging p none s ts where
  sole w := by
    refine iff_of_false ?_ (Option.some_ne_none w).symm
    rintro ⟨⟨id, hget⟩, hw⟩
    exact hfirst id w hget hw
  returned x hx w hw := by
    rw [hts x hx] at hw
    cases hw
  pending x hx w hw := by
    rw [hts x hx] at hw
    cases hw
  attempted x hx h := by
    obtain ⟨y, hy, -⟩ := h
    rw [hts x hx] at hy
    cases hy
  rows _ hw := by cases hw
  tuples _ hw := by cases hw
  owner _ hw := by cases hw

theorem keeps_succeeding (p : Principal) : (ensurePersonalWorkspace p).run.Keeps (succeeding p)
    (fun t r => ∃ w, r = .ok w ∧ returned? t = some w) [] :=
  keeps_ensurePersonalWorkspace p (fun _ w hw => ⟨w, rfl, hw⟩)
    fun _ _ e hrelies hunexpected => absurd hunexpected (hrelies e rfl)

/-- When all requests have returned, the workspace has its owner and nothing else. -/
theorem Converging.finished {p : Principal} {w : Workspace} {s : Store}
    {ts : List (Unit × CallTrace)} (h : Converging p (some w) s ts)
    (hts : ∀ x ∈ ts, pending? x.2 = none) :
    (∀ user, (s.row p.projectID p.tenantID w.id user).isSome ↔ user = p.userID) ∧
      ∀ t, s.Stored p.projectID p.tenantID t ∧ t.ns = str "workspace" ∧ t.objectID = w.id ↔
        t = roleTuple w.id p.userID .owner := by
  have huser : w.ownerUserID = p.userID := ((h.sole w).mpr rfl).2.2
  obtain ⟨⟨m, hrow, -⟩, hstored⟩ : s.HasOwner p.projectID p.tenantID w := by
    obtain howned | ⟨x, hx, hpending⟩ := h.owner w rfl
    · exact howned
    · rw [hts x hx] at hpending
      cases hpending
  rw [huser] at hrow hstored
  refine ⟨fun user => ⟨fun hsome => ?_, ?_⟩, fun t => ⟨fun ht => ?_, ?_⟩⟩
  · obtain ⟨m, hm⟩ := Option.isSome_iff_exists.mp hsome
    exact h.rows w rfl user m hm
  · rintro rfl
    rw [hrow]
    rfl
  · exact h.tuples w rfl t ht.1 ht.2.1 ht.2.2
  · rintro rfl
    exact ⟨hstored, rfl, rfl⟩

def firstUses (s : Store) (p : Principal) (n : ℕ) :
    Config Store Call Reply (Except ServiceError Workspace) :=
  .start s ((List.replicate n ()).map fun _ => (ensurePersonalWorkspace p).run)

/-- All requests return the same workspace, and in the end it is the only one of the user, with
one row and one tuple on it. -/
theorem first_uses_converge (s : Store) (p : Principal) (n : ℕ)
    (hfirst : ∀ id w, s.workspaces.get₂ (scope p.projectID p.tenantID) id = some w →
      ¬ (w.type = .personal ∧ w.ownerUserID = p.userID))
    {c : Config Store Call Reply (Except ServiceError Workspace)}
    (h : Reaches exec FreshIDs (firstUses s p n) c) :
    ∃ id, (∀ i r, c.result? i = some r → ∃ w, r = .ok w ∧ w.id = id) ∧
      (0 < n → c.Finished →
        (∃ w, w.id = id ∧
          ∀ w', (∃ id', c.state.workspaces.get₂ (scope p.projectID p.tenantID) id' = some w') ∧
            w'.type = .personal ∧ w'.ownerUserID = p.userID ↔ w' = w) ∧
        (∀ user, (c.state.row p.projectID p.tenantID id user).isSome ↔ user = p.userID) ∧
        ∀ t, c.state.Stored p.projectID p.tenantID t ∧ t.ns = str "workspace" ∧ t.objectID = id ↔
          t = roleTuple id p.userID .owner) := by
  have hstart : (firstUses s p n).Upholds (fun _ => succeeding p)
      (fun _ t r => ∃ w, r = .ok w ∧ returned? t = some w) (fun s ts => ∃ w, Converging p w s ts)
      (List.replicate n ()) :=
    Config.upholds_start (fun _ hts => ⟨none, converging_start hfirst hts⟩)
      fun _ _ => keeps_succeeding p
  have hend := h.upholds (fun env s before _ trace after c ⟨w, hw⟩ hissues hguard =>
    converging_step env hw hissues hguard) hstart
  obtain ⟨w, hw⟩ := hend.inv
  have hreturned : ∀ i r, c.result? i = some r → ∃ w', r = .ok w' ∧ w = some w' := by
    intro i r hr
    have hi : (List.replicate n ())[i]? = some () := by
      obtain ⟨q, hq, -⟩ := Option.bind_eq_some_iff.mp hr
      obtain ⟨hlt, -⟩ := List.getElem?_eq_some_iff.mp hq
      rw [← hend.keeps.length_eq, List.length_replicate] at hlt
      rw [List.getElem?_replicate, if_pos hlt]
    obtain ⟨t, ht, w', rfl, hw'⟩ := hend.of_result hi hr
    exact ⟨w', rfl, hw.returned _ ht w' hw'⟩
  cases w with
  | none =>
    refine ⟨[], fun i r hr => ?_, fun hn hfinished => ?_⟩
    · obtain ⟨w', -, hw'⟩ := hreturned i r hr
      cases hw'
    · have hlt : 0 < c.processes.length := by
        rw [← hend.keeps.length_eq, List.length_replicate]
        exact hn
      obtain ⟨r, hr⟩ := Option.isSome_iff_exists.mp (hfinished.result?_isSome hlt)
      obtain ⟨w', -, hw'⟩ := hreturned 0 r hr
      cases hw'
  | some w =>
    refine ⟨w.id, fun i r hr => ?_, fun _ hfinished => ⟨⟨w, rfl, fun w' => ?_⟩, hw.finished ?_⟩⟩
    · obtain ⟨w', rfl, hw'⟩ := hreturned i r hr
      cases hw'
      exact ⟨w, rfl, rfl⟩
    · rw [hw.sole, Option.some.injEq, eq_comm]
    · intro x hx
      obtain ⟨_, w', -, hw'⟩ := hend.of_finished hfinished hx
      exact pending_of_returned hw'

namespace FirstRace

/-- Both requests find no workspace; the second one cannot create it, and finds that of the first
before its owner's row is written. -/
def schedule : List (ℕ × Env) :=
  List.replicate 3 (0, { id := "a" }) ++ List.replicate 3 (1, { id := "b" }) ++
    steps 1 0 ++ steps 2 1 ++ steps 1 0

def final : Config Store Call Reply (Except ServiceError Workspace) :=
  (firstUses Store.empty ⟨"alice", "p", "t"⟩ 2).run exec schedule

end FirstRace

open FirstRace in
theorem racing_first_uses_converge :
    final.Finished ∧ ∃ id, (∀ i r, final.result? i = some r → ∃ w, r = .ok w ∧ w.id = id) ∧
      ∀ user, (final.state.row "p" "t" id user).isSome ↔ user = str "alice" := by
  have hfinished : final.Finished := by decide +kernel
  obtain ⟨id, hresults, hend⟩ := first_uses_converge Store.empty ⟨"alice", "p", "t"⟩ 2
    (by simp [Store.empty]) (reaches_run exec _ schedule (by decide +kernel))
  exact ⟨hfinished, id, hresults, (hend (by decide) hfinished).2.1⟩

end WorkspaceAuthz.Service
