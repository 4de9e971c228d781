import WorkspaceAuthz.Service.StorageKeys

/-! # The memory driver

The store that backs the product's entities and the tuples of the engine. Every
method holds the lock for its whole duration, so that it is one step. Rows and
tuples are stored under the keys that their own fields give.
-/
namespace WorkspaceAuthz.Service
open Go Authz FiniteMaps

structure Store where
  projects : GoMap Project := ∅
  workspaces : GoMap (GoMap Workspace) := ∅
  memberships : GoMap (GoMap (GoMap Membership)) := ∅
  invitations : GoMap (GoMap Invitation) := ∅
  groups : GoMap (GoMap Group) := ∅
  enrollments : GoMap (GoMap (GoMap Enrollment)) := ∅
  seatLimits : GoMap (GoMap ℤ) := ∅
  seatAssigns : GoMap (GoMap (GoMap SeatAssignment)) := ∅
  tuples : GoMap (GoMap Tuple) := ∅
  seqs : GoMap ℤ := ∅
  projects_keyed : ∀ id p, projects.get id = some p → p.id = id
  workspaces_keyed : ∀ sk id w, workspaces.get₂ sk id = some w →
    scope w.projectID w.tenantID = sk ∧ w.id = id
  memberships_keyed : ∀ sk ws user m, memberships.get₃ sk ws user = some m →
    scope m.projectID m.tenantID = sk ∧ m.workspaceID = ws ∧ m.userID = user
  invitations_keyed : ∀ sk id inv, invitations.get₂ sk id = some inv →
    scope inv.projectID inv.tenantID = sk ∧ inv.id = id
  groups_keyed : ∀ sk id g, groups.get₂ sk id = some g →
    scope g.projectID g.tenantID = sk ∧ g.id = id
  enrollments_keyed : ∀ sk group k e, enrollments.get₃ sk group k = some e →
    scope e.projectID e.tenantID = sk ∧ e.groupID = group ∧ enrollmentKey e.member = k
  seatAssigns_keyed : ∀ sk sku user a, seatAssigns.get₃ sk sku user = some a →
    scope a.projectID a.tenantID = sk ∧ a.sku = sku ∧ a.userID = user
  tuples_keyed : ∀ sk k t, tuples.get₂ sk k = some t → tupleKey t = k

def errNotFound : ServiceError := { kind := .notFound }

def errAlreadyExists : ServiceError := { kind := .alreadyExists }

def isNotFound (e : ServiceError) : Bool := e.kind = .notFound

def isAlreadyExists (e : ServiceError) : Bool := e.kind = .alreadyExists

/-- A map lookup that fails when there is no entry. -/
def found {α : Type} : Option α → Except ServiceError α
  | some a => .ok a
  | none => .error errNotFound

@[simp] theorem found_eq_ok {α : Type} {o : Option α} {a : α} : found o = .ok a ↔ o = some a := by
  cases o <;> simp [found]

theorem isNotFound_of_found {α : Type} {o : Option α} {e : ServiceError} (h : found o = .error e) :
    isNotFound e := by
  cases o with
  | some a => cases h
  | none =>
    cases h
    rfl

namespace Store

def empty : Store where
  projects_keyed _ _ h := by simp at h
  workspaces_keyed _ _ _ h := by simp at h
  memberships_keyed _ _ _ _ h := by simp at h
  invitations_keyed _ _ _ h := by simp at h
  groups_keyed _ _ _ h := by simp at h
  enrollments_keyed _ _ _ _ h := by simp at h
  seatAssigns_keyed _ _ _ _ h := by simp at h
  tuples_keyed _ _ _ h := by simp at h

/-! ## Tuples -/

def writtenTuples (m : GoMap Tuple) (inserts deletes : List Tuple) : GoMap Tuple :=
  inserts.foldl (fun m t => m.insert (tupleKey t) t)
    (deletes.foldl (fun m t => m.erase (tupleKey t)) m)

/-- The last insert under a key counts, then whether the key is deleted. -/
theorem get_writtenTuples (m : GoMap Tuple) (inserts deletes : List Tuple) (k : GoString) :
    (writtenTuples m inserts deletes).get k = (inserts.reverse.find? (tupleKey · = k)).or
      (if k ∈ deletes.map tupleKey then none else m.get k) := by
  rw [writtenTuples, GoMap.get, Table.lookup_foldl_insert, Table.lookup_foldl_erase, Option.map_id']
  split_ifs <;> rfl

/-- `writeTuplesLocked`: deletes, then inserts. -/
def writeTuples (s : Store) (projectID tenantID : GoString) (inserts deletes : List Tuple) :
    Store :=
  let sk := scope projectID tenantID
  { s with
    tuples := s.tuples.insert sk (writtenTuples (s.tuples.inner sk) inserts deletes)
    seqs := s.seqs.insert sk ((s.seqs.get sk).getD 0 + 1)
    tuples_keyed := by
      intro sk' k t h
      rw [GoMap.get₂, GoMap.inner_insert] at h
      split_ifs at h with hsk
      · rw [get_writtenTuples, Option.or_eq_some_iff] at h
        rcases h with h | ⟨-, h⟩
        · exact of_decide_eq_true (List.find?_some (p := fun x => decide (tupleKey x = k)) h)
        · split_ifs at h
          exact s.tuples_keyed sk k t h
      · exact s.tuples_keyed sk' k t h }

theorem get_tuples_writeTuples (s : Store) (projectID tenantID : GoString)
    (inserts deletes : List Tuple) (sk k : GoString) :
    (s.writeTuples projectID tenantID inserts deletes).tuples.get₂ sk k =
      if sk = scope projectID tenantID then (inserts.reverse.find? (tupleKey · = k)).or
        (if k ∈ deletes.map tupleKey then none else s.tuples.get₂ sk k)
      else s.tuples.get₂ sk k := by
  rw [writeTuples, GoMap.get₂, GoMap.inner_insert]
  split_ifs with hsk hk
  · rw [get_writtenTuples, if_pos hk]
  · rw [get_writtenTuples, if_neg hk, hsk]
    rfl
  · rfl

/-- A write leaves the tuples alone that it does not name. -/
theorem get_tuples_writeTuples_of_ne {s : Store} {projectID tenantID sk : GoString}
    {inserts deletes : List Tuple} {t : Tuple} (h : sk = scope projectID tenantID →
      ∀ t' ∈ inserts ++ deletes, tupleKey t' ≠ tupleKey t) :
    (s.writeTuples projectID tenantID inserts deletes).tuples.get₂ sk (tupleKey t) =
      s.tuples.get₂ sk (tupleKey t) := by
  rw [get_tuples_writeTuples]
  by_cases hsk : sk = scope projectID tenantID
  · have hinsert : inserts.reverse.find? (tupleKey · = tupleKey t) = none := by
      rw [List.find?_eq_none]
      intro t' ht'
      simpa using h hsk t' (List.mem_append_left _ (List.mem_reverse.mp ht'))
    have hdelete : tupleKey t ∉ deletes.map tupleKey := by
      intro hmem
      obtain ⟨t', ht', heq⟩ := List.mem_map.mp hmem
      exact h hsk t' (List.mem_append_right _ ht') heq
    rw [if_pos hsk, hinsert, if_neg hdelete, Option.none_or]
  · rw [if_neg hsk]

theorem mem_or_get_of_writeTuples {s : Store} {projectID tenantID : GoString}
    {inserts deletes : List Tuple} {sk k : GoString} {t : Tuple}
    (h : (s.writeTuples projectID tenantID inserts deletes).tuples.get₂ sk k = some t) :
    t ∈ inserts ∨ s.tuples.get₂ sk k = some t := by
  rw [get_tuples_writeTuples] at h
  by_cases hsk : sk = scope projectID tenantID
  · rw [if_pos hsk, Option.or_eq_some_iff] at h
    obtain h | ⟨-, h⟩ := h
    · exact .inl (List.mem_reverse.mp (List.mem_of_find?_eq_some h))
    · right
      split_ifs at h
      exact h
  · rw [if_neg hsk] at h
    exact .inr h

/-- A tuple with the identity of `t` is stored. -/
def Holds (s : Store) (projectID tenantID : GoString) (t : Tuple) : Prop :=
  (s.tuples.get₂ (scope projectID tenantID) (tupleKey t)).isSome

instance (s : Store) (projectID tenantID : GoString) (t : Tuple) :
    Decidable (s.Holds projectID tenantID t) :=
  inferInstanceAs (Decidable (_ = true))

/-- The tuple itself is stored. -/
def Stored (s : Store) (projectID tenantID : GoString) (t : Tuple) : Prop :=
  s.tuples.get₂ (scope projectID tenantID) (tupleKey t) = some t

theorem holds_writeTuples {s : Store} {projectID tenantID : GoString} {inserts deletes : List Tuple}
    {t : Tuple} : (s.writeTuples projectID tenantID inserts deletes).Holds projectID tenantID t ↔
      (∃ t' ∈ inserts, tupleKey t' = tupleKey t) ∨
        (s.Holds projectID tenantID t ∧ ∀ t' ∈ deletes, tupleKey t' ≠ tupleKey t) := by
  rw [Holds, get_tuples_writeTuples, if_pos rfl, Option.isSome_or, Bool.or_eq_true]
  refine or_congr (by simp) ?_
  by_cases hdel : tupleKey t ∈ deletes.map tupleKey
  · rw [if_pos hdel]
    obtain ⟨t', ht', hkey⟩ := List.mem_map.mp hdel
    refine ⟨fun h => ?_, fun h => absurd hkey (h.2 t' ht')⟩
    cases h
  · rw [if_neg hdel]
    exact ⟨fun h => ⟨h, fun t' ht' hkey => hdel (List.mem_map.mpr ⟨t', ht', hkey⟩)⟩, And.left⟩

theorem holds_writeTuples_of_scope_eq {s : Store}
    {projectID tenantID projectID' tenantID' : GoString}
    {inserts deletes : List Tuple} {t : Tuple}
    (hscope : scope projectID tenantID = scope projectID' tenantID') :
    (s.writeTuples projectID' tenantID' inserts deletes).Holds projectID tenantID t ↔
      (∃ t' ∈ inserts, tupleKey t' = tupleKey t) ∨
        (s.Holds projectID tenantID t ∧ ∀ t' ∈ deletes, tupleKey t' ≠ tupleKey t) := by
  have h : ∀ s' : Store, s'.Holds projectID tenantID t ↔ s'.Holds projectID' tenantID' t := by
    intro s'
    rw [Holds, Holds, hscope]
  rw [h, h, holds_writeTuples]

theorem holds_iff_exists_values {s : Store} {projectID tenantID : GoString} {t : Tuple}
    (order : MapOrder) : s.Holds projectID tenantID t ↔
      ∃ t' ∈ (s.tuples.inner (scope projectID tenantID)).values order, tupleKey t' =
        tupleKey t := by
  rw [Holds, Option.isSome_iff_exists]
  constructor
  · rintro ⟨t', ht'⟩
    exact ⟨t', GoMap.mem_values.mpr ⟨_, ht'⟩, s.tuples_keyed _ _ _ ht'⟩
  · rintro ⟨t', ht', hkey⟩
    obtain ⟨k, hk⟩ := GoMap.mem_values.mp ht'
    rw [← hkey, s.tuples_keyed _ k t' hk]
    exact ⟨t', hk⟩

/-- A write of role tuples of one member, seen at one role tuple. -/
theorem holds_roleTuple_of_write {s s' : Store} {projectID tenantID ws user : GoString} {r : Role}
    (ws' user' : GoString) (ins del : List Role) (h : ∀ t, s'.Holds projectID tenantID t ↔
      (∃ t' ∈ ins.map (roleTuple ws' user'), tupleKey t' = tupleKey t) ∨
        (s.Holds projectID tenantID t ∧
          ∀ t' ∈ del.map (roleTuple ws' user'), tupleKey t' ≠ tupleKey t)) :
    s'.Holds projectID tenantID (roleTuple ws user r) ↔ (ws' = ws ∧ user' = user ∧ r ∈ ins) ∨
      (s.Holds projectID tenantID (roleTuple ws user r) ∧
        ¬ (ws' = ws ∧ user' = user ∧ r ∈ del)) := by
  rw [h, exists_roleTuple_key_eq_iff,
    ← (exists_roleTuple_key_eq_iff : _ ↔ ws' = ws ∧ user' = user ∧ r ∈ del)]
  push Not
  rfl

/-- The tuples that the engine reads, in an order of iteration. -/
def listSubjects (s : Store) (order : MapOrder) (now : Time) (projectID tenantID : GoString)
    (n : SubjectSet) : List Subject :=
  (((s.tuples.inner (scope projectID tenantID)).values order).filter fun t =>
    t.ns = n.ns ∧ t.objectID = n.objectID ∧ t.relation = n.relation ∧ t.activeAt now).map
      (·.subject)

theorem mem_listSubjects {s : Store} {order : MapOrder} {now : Time}
    {projectID tenantID : GoString} {n : SubjectSet} {subject : Subject} :
    subject ∈ s.listSubjects order now projectID tenantID n ↔
      ∃ t, s.Stored projectID tenantID t ∧ t.activeAt now ∧ t.subject = subject ∧
        t.ns = n.ns ∧ t.objectID = n.objectID ∧ t.relation = n.relation := by
  simp only [listSubjects, List.mem_map, List.mem_filter, GoMap.mem_values, decide_eq_true_eq]
  constructor
  · rintro ⟨t, ⟨⟨k, hk⟩, hns, hobject, hrelation, hactive⟩, hsubject⟩
    have hstored : s.Stored projectID tenantID t := by
      rw [Stored, s.tuples_keyed _ k t hk]
      exact hk
    exact ⟨t, hstored, hactive, hsubject, hns, hobject, hrelation⟩
  · rintro ⟨t, hstored, hactive, hsubject, hns, hobject, hrelation⟩
    exact ⟨t, ⟨⟨_, hstored⟩, hns, hobject, hrelation, hactive⟩, hsubject⟩

/-- The objects of a namespace that have a tuple. -/
def listObjectIDs (s : Store) (order : MapOrder) (now : Time)
    (projectID tenantID ns : GoString) : List GoString :=
  ((((s.tuples.inner (scope projectID tenantID)).values order).filter fun t =>
    t.ns = ns ∧ t.activeAt now).map (·.objectID)).dedup.insertionSort (· ≤ ·)

/-- The tuples that a filter admits, by the keys under which they are stored. -/
def readTuples (s : Store) (order : MapOrder) (now : Time) (projectID tenantID : GoString)
    (f : TupleFilter) : List Tuple :=
  (((s.tuples.inner (scope projectID tenantID)).values order).filter fun t =>
    t.activeAt now && f.admits t).insertionSort fun a b => tupleKey a ≤ tupleKey b

def keepTuples (s : Store) (projectID tenantID : GoString) (keep : Tuple → Bool) : Store :=
  let sk := scope projectID tenantID
  { s with
    tuples := s.tuples.insert sk ((s.tuples.inner sk).filter fun _ t => keep t)
    seqs := s.seqs.insert sk ((s.seqs.get sk).getD 0 + 1)
    tuples_keyed := by
      intro sk' k t h
      rw [GoMap.get₂, GoMap.inner_insert] at h
      split_ifs at h with hsk
      · rw [GoMap.get_filter, Option.filter_eq_some_iff] at h
        exact s.tuples_keyed sk k t h.1
      · exact s.tuples_keyed sk' k t h }

theorem get_tuples_keepTuples (s : Store) (projectID tenantID : GoString) (keep : Tuple → Bool)
    (sk k : GoString) : (s.keepTuples projectID tenantID keep).tuples.get₂ sk k =
      if sk = scope projectID tenantID then (s.tuples.get₂ sk k).filter keep
      else s.tuples.get₂ sk k := by
  rw [keepTuples, GoMap.get₂, GoMap.inner_insert]
  split_ifs with hsk
  · rw [GoMap.get_filter, hsk]
    rfl
  · rfl

def SameIn (ns : GoString) (s s' : Store) : Prop :=
  ∀ sk t, t.ns = ns → s'.tuples.get₂ sk (tupleKey t) = s.tuples.get₂ sk (tupleKey t)

theorem sameIn_writeTuples {ns : GoString} (s : Store) (projectID tenantID : GoString)
    {inserts deletes : List Tuple} (hns : ∀ t ∈ inserts ++ deletes, t.ns ≠ ns) :
    SameIn ns s (s.writeTuples projectID tenantID inserts deletes) := by
  intro sk t ht
  exact get_tuples_writeTuples_of_ne fun _ t' ht' hkey =>
    hns t' ht' ((tupleKey_inj hkey).1.trans ht)

theorem sameIn_keepTuples {ns : GoString} (s : Store) (projectID tenantID : GoString)
    {keep : Tuple → Bool} (hkeep : ∀ t : Tuple, t.ns = ns → keep t) :
    SameIn ns s (s.keepTuples projectID tenantID keep) := by
  intro sk t ht
  rw [get_tuples_keepTuples]
  cases hget : s.tuples.get₂ sk (tupleKey t) with
  | none => simp
  | some t' =>
    have hns : t'.ns = ns := (tupleKey_inj (s.tuples_keyed _ _ _ hget)).1.trans ht
    simp [hkeep t' hns]

def consistencyToken (s : Store) (projectID tenantID : GoString) : ℤ :=
  (s.seqs.get (scope projectID tenantID)).getD 0

/-! ## Projects -/

def putProject (s : Store) (p : Project) : Store :=
  { s with
    projects := s.projects.insert p.id p
    projects_keyed := GoMap.forall_insert s.projects_keyed rfl }

def createProject (s : Store) (p : Project) : Except ServiceError Unit × Store :=
  if (s.projects.get p.id).isSome then (.error errAlreadyExists, s)
  else (.ok (), s.putProject p)

def getProject (s : Store) (id : GoString) : Except ServiceError Project :=
  found (s.projects.get id)

def updateProject (s : Store) (p : Project) : Except ServiceError Unit × Store :=
  if (s.projects.get p.id).isNone then (.error errNotFound, s)
  else (.ok (), s.putProject p)

theorem updateProject_of_some {s : Store} {p q : Project} (h : s.projects.get p.id = some q) :
    s.updateProject p = (.ok (), s.putProject p) := by
  simp [updateProject, h]

/-- `sort.Slice` by a time, and by a key where times are equal. -/
def sortByTime {α : Type} (time : α → Time) (key : α → GoString) (l : List α) : List α :=
  l.insertionSort fun a b => time a < time b ∨ (time a = time b ∧ key a ≤ key b)

def listProjects (s : Store) (order : MapOrder) : List Project :=
  sortByTime (·.createdAt) (·.id) (s.projects.values order)

/-! ## Workspaces -/

def putWorkspace (s : Store) (w : Workspace) : Store :=
  { s with
    workspaces := s.workspaces.put₂ (scope w.projectID w.tenantID) w.id w
    workspaces_keyed := GoMap.forall_put₂ s.workspaces_keyed ⟨rfl, rfl⟩ }

def createWorkspace (s : Store) (w : Workspace) : Except ServiceError Unit × Store :=
  let sk := scope w.projectID w.tenantID
  if (s.workspaces.get₂ sk w.id).isSome then (.error errAlreadyExists, s)
  else if w.type = .personal ∧ (s.workspaces.inner sk).any fun _ ex =>
      ex.type = .personal ∧ ex.ownerUserID = w.ownerUserID then (.error errAlreadyExists, s)
  else (.ok (), s.putWorkspace w)

theorem createWorkspace_cases (s : Store) (w : Workspace) :
    (∃ e, s.createWorkspace w = (.error e, s)) ∨
      (s.workspaces.get₂ (scope w.projectID w.tenantID) w.id = none ∧
        s.createWorkspace w = (.ok (), s.putWorkspace w)) := by
  simp only [createWorkspace]
  split_ifs with hsome hpersonal
  · exact .inl ⟨_, rfl⟩
  · exact .inl ⟨_, rfl⟩
  · exact .inr ⟨by simpa using hsome, rfl⟩

def getWorkspace (s : Store) (projectID tenantID id : GoString) : Except ServiceError Workspace :=
  found (s.workspaces.get₂ (scope projectID tenantID) id)

def updateWorkspace (s : Store) (w : Workspace) : Except ServiceError Unit × Store :=
  if (s.workspaces.get₂ (scope w.projectID w.tenantID) w.id).isNone then (.error errNotFound, s)
  else (.ok (), s.putWorkspace w)

/-- A workspace goes together with its memberships, its tuples and its invitations. -/
def deleteWorkspace (s : Store) (projectID tenantID id : GoString) :
    Except ServiceError Unit × Store :=
  let sk := scope projectID tenantID
  if (s.workspaces.get₂ sk id).isNone then (.error errNotFound, s)
  else
    let s := s.keepTuples projectID tenantID fun t => ¬ (t.ns = str "workspace" ∧ t.objectID = id)
    (.ok (), { s with
      workspaces := s.workspaces.erase₂ sk id
      memberships := s.memberships.erase₂ sk id
      invitations := s.invitations.insert sk
        ((s.invitations.inner sk).filter fun _ inv => inv.workspaceID ≠ id)
      workspaces_keyed := GoMap.forall_erase₂ s.workspaces_keyed
      memberships_keyed := by
        intro sk' ws user m h
        rw [GoMap.get₃_erase₂] at h
        split_ifs at h
        exact s.memberships_keyed sk' ws user m h
      invitations_keyed := GoMap.forall_filter s.invitations_keyed })

theorem deleteWorkspace_of_some {s : Store} {projectID tenantID id : GoString} {w : Workspace}
    (h : s.workspaces.get₂ (scope projectID tenantID) id = some w) :
    ∃ s' : Store, s.deleteWorkspace projectID tenantID id = (.ok (), s') ∧
      s'.workspaces = s.workspaces.erase₂ (scope projectID tenantID) id ∧
      s'.memberships = s.memberships.erase₂ (scope projectID tenantID) id ∧
      s'.invitations = s.invitations.insert (scope projectID tenantID)
        ((s.invitations.inner (scope projectID tenantID)).filter fun _ inv =>
          inv.workspaceID ≠ id) ∧
      s'.groups = s.groups ∧ s'.enrollments = s.enrollments ∧
      s'.tuples = (s.keepTuples projectID tenantID fun t =>
        ¬ (t.ns = str "workspace" ∧ t.objectID = id)).tuples := by
  simp only [deleteWorkspace, h, Option.isNone_some, Bool.false_eq_true, if_false]
  exact ⟨_, rfl, rfl, rfl, rfl, rfl, rfl, rfl⟩

/-- The first personal workspace of a user, in an order of iteration. -/
def personalWorkspace (s : Store) (order : MapOrder) (projectID tenantID userID : GoString) :
    Except ServiceError Workspace :=
  found (((s.workspaces.inner (scope projectID tenantID)).values order).find? fun w =>
    w.type = .personal ∧ w.ownerUserID = userID)

/-- Who has no personal workspace can create one under a new id. -/
theorem createWorkspace_of_error {s : Store} {order : MapOrder} {w : Workspace} {e : ServiceError}
    (h : s.personalWorkspace order w.projectID w.tenantID w.ownerUserID = .error e)
    (hnone : s.workspaces.get₂ (scope w.projectID w.tenantID) w.id = none) :
    s.createWorkspace w = (.ok (), s.putWorkspace w) := by
  simp only [createWorkspace, hnone, Option.isSome_none, Bool.false_eq_true, if_false]
  refine if_neg fun hany => ?_
  obtain ⟨k, ex, hget, hex⟩ := GoMap.any_iff.mp hany.2
  have hmem : ex ∈ (s.workspaces.inner (scope w.projectID w.tenantID)).values order :=
    GoMap.mem_values.mpr ⟨k, hget⟩
  have hsome : (((s.workspaces.inner (scope w.projectID w.tenantID)).values order).find? fun w' =>
      w'.type = .personal ∧ w'.ownerUserID = w.ownerUserID).isSome :=
    List.find?_isSome.mpr ⟨ex, hmem, hex⟩
  obtain ⟨w', hw'⟩ := Option.isSome_iff_exists.mp hsome
  rw [personalWorkspace, hw'] at h
  cases h

def workspacesForUser (s : Store) (order : MapOrder) (projectID tenantID userID : GoString) :
    List Workspace :=
  let sk := scope projectID tenantID
  sortByTime (·.createdAt) (·.id) ((order.list (s.memberships.inner sk).keys).filterMap fun ws => do
    let m ← s.memberships.get₃ sk ws userID
    if m.status ≠ .active then none
    else s.workspaces.get₂ sk ws)

/-! ## Memberships -/

def row (s : Store) (projectID tenantID workspaceID userID : GoString) : Option Membership :=
  s.memberships.get₃ (scope projectID tenantID) workspaceID userID

def getMembership (s : Store) (projectID tenantID workspaceID userID : GoString) :
    Except ServiceError Membership :=
  found (s.row projectID tenantID workspaceID userID)

def listMembers (s : Store) (order : MapOrder) (projectID tenantID workspaceID : GoString) :
    List Membership :=
  sortByTime (·.createdAt) (·.userID)
    (((s.memberships.inner (scope projectID tenantID)).inner workspaceID).values order)

def putMembership (s : Store) (m : Membership) : Store :=
  let sk := scope m.projectID m.tenantID
  { s with
    memberships := s.memberships.put₃ sk m.workspaceID m.userID m
    memberships_keyed := GoMap.forall_put₃ s.memberships_keyed ⟨rfl, rfl, rfl⟩ }

def putMembershipAndTuples (s : Store) (m : Membership) (inserts deletes : List Tuple) : Store :=
  (s.putMembership m).writeTuples m.projectID m.tenantID inserts deletes

def deleteMembership (s : Store) (projectID tenantID workspaceID userID : GoString) :
    Except ServiceError Unit × Store :=
  let sk := scope projectID tenantID
  if (s.row projectID tenantID workspaceID userID).isNone then (.error errNotFound, s)
  else (.ok (), { s with
    memberships := s.memberships.erase₃ sk workspaceID userID
    memberships_keyed := GoMap.forall_erase₃ s.memberships_keyed })

/-- A missing row leaves the tuples untouched. -/
def deleteMembershipAndTuples (s : Store) (projectID tenantID workspaceID userID : GoString)
    (deletes : List Tuple) : Except ServiceError Unit × Store :=
  match s.deleteMembership projectID tenantID workspaceID userID with
  | (.error e, s) => (.error e, s)
  | (.ok (), s) => (.ok (), s.writeTuples projectID tenantID [] deletes)

section Rows

variable {s : Store} {projectID tenantID ws user : GoString}

theorem row_keyed {m : Membership} (h : s.row projectID tenantID ws user = some m) :
    scope m.projectID m.tenantID = scope projectID tenantID ∧ m.workspaceID = ws ∧
      m.userID = user :=
  s.memberships_keyed _ _ _ _ h

theorem row_putMembershipAndTuples {m : Membership} {inserts deletes : List Tuple} :
    (s.putMembershipAndTuples m inserts deletes).row projectID tenantID ws user =
      if scope projectID tenantID = scope m.projectID m.tenantID ∧ ws = m.workspaceID ∧
        user = m.userID then some m else s.row projectID tenantID ws user :=
  GoMap.get₃_put₃ _ _ _ _ _ _ _ _

theorem holds_putMembershipAndTuples {m : Membership} {inserts deletes : List Tuple} {t : Tuple}
    (hscope : scope projectID tenantID = scope m.projectID m.tenantID) :
    (s.putMembershipAndTuples m inserts deletes).Holds projectID tenantID t ↔
      (∃ t' ∈ inserts, tupleKey t' = tupleKey t) ∨
        (s.Holds projectID tenantID t ∧ ∀ t' ∈ deletes, tupleKey t' ≠ tupleKey t) :=
  holds_writeTuples_of_scope_eq hscope

theorem deleteMembershipAndTuples_of_none {deletes : List Tuple}
    (h : s.row projectID tenantID ws user = none) :
    s.deleteMembershipAndTuples projectID tenantID ws user deletes = (.error errNotFound, s) := by
  simp [deleteMembershipAndTuples, deleteMembership, h]

section Delete

variable {m : Membership} {deletes : List Tuple} (h : s.row projectID tenantID ws user = some m)
include h

theorem deleteMembershipAndTuples_of_some :
    ∃ s' : Store, s'.tuples = s.tuples ∧ s'.seatAssigns = s.seatAssigns ∧
      s.deleteMembershipAndTuples projectID tenantID ws user deletes =
        (.ok (), s'.writeTuples projectID tenantID [] deletes) := by
  simp only [deleteMembershipAndTuples, deleteMembership, h, Option.isNone_some,
    Bool.false_eq_true, if_false]
  refine ⟨_, ?_, ?_, rfl⟩ <;> rfl

theorem row_deleteMembershipAndTuples {projectID' tenantID' ws' user' : GoString} :
    (s.deleteMembershipAndTuples projectID tenantID ws user deletes).2.row projectID' tenantID' ws'
      user' = if scope projectID' tenantID' = scope projectID tenantID ∧ ws' = ws ∧
        user' = user then
        none else s.row projectID' tenantID' ws' user' := by
  simp only [deleteMembershipAndTuples, deleteMembership, h, Option.isNone_some,
    Bool.false_eq_true, if_false]
  exact GoMap.get₃_erase₃ _ _ _ _ _ _ _

theorem holds_deleteMembershipAndTuples {t : Tuple} :
    (s.deleteMembershipAndTuples projectID tenantID ws user deletes).2.Holds projectID tenantID t ↔
      s.Holds projectID tenantID t ∧ ∀ t' ∈ deletes, tupleKey t' ≠ tupleKey t := by
  simp only [deleteMembershipAndTuples, deleteMembership, h, Option.isNone_some,
    Bool.false_eq_true, if_false]
  rw [holds_writeTuples]
  simp [Holds]

theorem holds_deleteMembershipAndTuples_of_ne {projectID' tenantID' : GoString} {t : Tuple}
    (hne : scope projectID' tenantID' ≠ scope projectID tenantID) :
    (s.deleteMembershipAndTuples projectID tenantID ws user deletes).2.Holds projectID' tenantID'
        t ↔ s.Holds projectID' tenantID' t := by
  simp only [deleteMembershipAndTuples, deleteMembership, h, Option.isNone_some,
    Bool.false_eq_true, if_false]
  rw [Holds, get_tuples_writeTuples, if_neg hne]
  rfl

end Delete

end Rows

/-! ## Invitations -/

def putInvitation (s : Store) (inv : Invitation) : Store :=
  { s with
    invitations := s.invitations.put₂ (scope inv.projectID inv.tenantID) inv.id inv
    invitations_keyed := GoMap.forall_put₂ s.invitations_keyed ⟨rfl, rfl⟩ }

def createInvitation (s : Store) (inv : Invitation) : Except ServiceError Unit × Store :=
  if (s.invitations.get₂ (scope inv.projectID inv.tenantID) inv.id).isSome then
    (.error errAlreadyExists, s)
  else (.ok (), s.putInvitation inv)

def getInvitation (s : Store) (projectID tenantID id : GoString) :
    Except ServiceError Invitation :=
  found (s.invitations.get₂ (scope projectID tenantID) id)

/-- The first invitation with the hash, in an order of iteration. -/
def getInvitationByTokenHash (s : Store) (order : MapOrder)
    (projectID tenantID tokenHash : GoString) :
    Except ServiceError Invitation :=
  found (((s.invitations.inner (scope projectID tenantID)).values order).find?
    (·.tokenHash = tokenHash))

def updateInvitation (s : Store) (inv : Invitation) : Except ServiceError Unit × Store :=
  if (s.invitations.get₂ (scope inv.projectID inv.tenantID) inv.id).isNone then
    (.error errNotFound, s)
  else (.ok (), s.putInvitation inv)

def listInvitations (s : Store) (order : MapOrder) (projectID tenantID workspaceID : GoString) :
    List Invitation :=
  sortByTime (·.createdAt) (·.id)
    (((s.invitations.inner (scope projectID tenantID)).values order).filter
      (·.workspaceID = workspaceID))

end Store

end WorkspaceAuthz.Service
