import WorkspaceAuthz.Service.Memory

/-! # Groups, enrollments and seats in the memory driver

A group goes together with its tuples and its enrollments. A seat is an
assignment and a tuple, which are written and deleted in one step, and so is an
enrollment; deprovisioning goes through all shards of a project.
-/
namespace WorkspaceAuthz.Service
open Go Authz

namespace Store

/-! ## Groups -/

def putGroup (s : Store) (g : Group) : Store :=
  { s with
    groups := s.groups.put₂ (scope g.projectID g.tenantID) g.id g
    groups_keyed := GoMap.forall_put₂ s.groups_keyed ⟨rfl, rfl⟩ }

def createGroup (s : Store) (g : Group) : Except ServiceError Unit × Store :=
  if (s.groups.get₂ (scope g.projectID g.tenantID) g.id).isSome then (.error errAlreadyExists, s)
  else (.ok (), s.putGroup g)

def getGroup (s : Store) (projectID tenantID id : GoString) : Except ServiceError Group :=
  found (s.groups.get₂ (scope projectID tenantID) id)

def listGroups (s : Store) (order : MapOrder) (projectID tenantID workspaceID : GoString) :
    List Group :=
  sortByTime (·.createdAt) (·.id)
    (((s.groups.inner (scope projectID tenantID)).values order).filter fun g =>
      workspaceID = [] ∨ g.workspaceID = workspaceID)

def deleteGroup (s : Store) (projectID tenantID id : GoString) : Except ServiceError Unit × Store :=
  let sk := scope projectID tenantID
  if (s.groups.get₂ sk id).isNone then (.error errNotFound, s)
  else
    let s := s.keepTuples projectID tenantID fun t => ¬ (t.ns = str "group" ∧ t.objectID = id)
    (.ok (), { s with
      groups := s.groups.erase₂ sk id
      enrollments := s.enrollments.erase₂ sk id
      groups_keyed := GoMap.forall_erase₂ s.groups_keyed
      enrollments_keyed := by
        intro sk' group k e h
        rw [GoMap.get₃_erase₂] at h
        split_ifs at h
        exact s.enrollments_keyed sk' group k e h })

theorem deleteGroup_of_some {s : Store} {projectID tenantID id : GoString} {g : Group}
    (h : s.groups.get₂ (scope projectID tenantID) id = some g) :
    ∃ s' : Store, s.deleteGroup projectID tenantID id = (.ok (), s') ∧
      s'.groups = s.groups.erase₂ (scope projectID tenantID) id ∧
      s'.enrollments = s.enrollments.erase₂ (scope projectID tenantID) id ∧
      s'.workspaces = s.workspaces ∧ s'.memberships = s.memberships ∧
      s'.tuples = (s.keepTuples projectID tenantID fun t =>
        ¬ (t.ns = str "group" ∧ t.objectID = id)).tuples := by
  simp only [deleteGroup, h, Option.isNone_some, Bool.false_eq_true, if_false]
  exact ⟨_, rfl, rfl, rfl, rfl, rfl, rfl⟩

/-! ## Enrollments -/

def enrollment (s : Store) (projectID tenantID groupID : GoString) (member : GroupMember) :
    Option Enrollment :=
  s.enrollments.get₃ (scope projectID tenantID) groupID (enrollmentKey member)

def getEnrollment (s : Store) (projectID tenantID groupID : GoString) (member : GroupMember) :
    Except ServiceError Enrollment :=
  found (s.enrollment projectID tenantID groupID member)

def setEnrollment (s : Store) (e : Enrollment) : Store :=
  { s with
    enrollments := s.enrollments.put₃ (scope e.projectID e.tenantID) e.groupID
      (enrollmentKey e.member) e
    enrollments_keyed := GoMap.forall_put₃ s.enrollments_keyed ⟨rfl, rfl, rfl⟩ }

def setEnrollmentAndTuples (s : Store) (e : Enrollment) (inserts deletes : List Tuple) : Store :=
  (s.setEnrollment e).writeTuples e.projectID e.tenantID inserts deletes

theorem enrollment_setEnrollmentAndTuples {s : Store} {projectID tenantID groupID : GoString}
    {member : GroupMember} {e : Enrollment} {inserts deletes : List Tuple} :
    (s.setEnrollmentAndTuples e inserts deletes).enrollment projectID tenantID groupID member =
      if scope projectID tenantID = scope e.projectID e.tenantID ∧ groupID = e.groupID ∧
        enrollmentKey member = enrollmentKey e.member then some e
      else s.enrollment projectID tenantID groupID member :=
  GoMap.get₃_put₃ _ _ _ _ _ _ _ _

def listEnrollments (s : Store) (order : MapOrder) (projectID tenantID groupID : GoString) :
    List Enrollment :=
  sortByTime (·.createdAt) (enrollmentKey ·.member)
    (((s.enrollments.inner (scope projectID tenantID)).inner groupID).values order)

/-! ## Seats -/

/-- Without a limit the cap is cleared. -/
def setSeatLimit (s : Store) (projectID tenantID sku : GoString) (limit : Option ℤ) : Store :=
  let sk := scope projectID tenantID
  match limit with
  | none => { s with seatLimits := s.seatLimits.erase₂ sk sku }
  | some limit => { s with seatLimits := s.seatLimits.put₂ sk sku limit }

def seatUsage (s : Store) (sk sku : GoString) : ℕ × Option ℤ :=
  (((s.seatAssigns.inner sk).inner sku).size, s.seatLimits.get₂ sk sku)

def getSeatUsage (s : Store) (projectID tenantID sku : GoString) : SeatUsage :=
  let (used, limit) := s.seatUsage (scope projectID tenantID) sku
  ⟨sku, used, limit.getD 0, limit.isSome⟩

def seat (s : Store) (projectID tenantID sku userID : GoString) : Option SeatAssignment :=
  s.seatAssigns.get₃ (scope projectID tenantID) sku userID

def assignSeat (s : Store) (a : SeatAssignment) : Store :=
  { s with
    seatAssigns := s.seatAssigns.put₃ (scope a.projectID a.tenantID) a.sku a.userID a
    seatAssigns_keyed := GoMap.forall_put₃ s.seatAssigns_keyed ⟨rfl, rfl, rfl⟩ }

/-- The tuple of a seat that is already held is written again. -/
def assignSeatAndTuple (s : Store) (a : SeatAssignment) (tuple : Tuple) :
    Except ServiceError Bool × Store :=
  let (used, limit) := s.seatUsage (scope a.projectID a.tenantID) a.sku
  if (s.seat a.projectID a.tenantID a.sku a.userID).isSome then
    (.ok true, s.writeTuples a.projectID a.tenantID [tuple] [])
  else if limit.any fun limit => (used : ℤ) ≥ limit then (.error { kind := .resourceExhausted }, s)
  else (.ok false, (s.assignSeat a).writeTuples a.projectID a.tenantID [tuple] [])

/-- A seat is held, or none is left, or a new one is given. -/
theorem assignSeatAndTuple_cases (s : Store) (a : SeatAssignment) (tuple : Tuple) :
    ((s.seat a.projectID a.tenantID a.sku a.userID).isSome ∧ s.assignSeatAndTuple a tuple =
      (.ok true, s.writeTuples a.projectID a.tenantID [tuple] [])) ∨
    (s.seat a.projectID a.tenantID a.sku a.userID = none ∧ s.assignSeatAndTuple a tuple =
      (.error { kind := .resourceExhausted }, s)) ∨
    (s.seat a.projectID a.tenantID a.sku a.userID = none ∧
      (∀ limit, s.seatLimits.get₂ (scope a.projectID a.tenantID) a.sku = some limit →
        (((s.seatAssigns.inner (scope a.projectID a.tenantID)).inner a.sku).size : ℤ) < limit) ∧
      s.assignSeatAndTuple a tuple =
        (.ok false, (s.assignSeat a).writeTuples a.projectID a.tenantID [tuple] [])) := by
  by_cases hseat : (s.seat a.projectID a.tenantID a.sku a.userID).isSome
  · exact .inl ⟨hseat, if_pos hseat⟩
  have hnone : s.seat a.projectID a.tenantID a.sku a.userID = none := by simpa using hseat
  by_cases hfull : ((s.seatUsage (scope a.projectID a.tenantID) a.sku).2.any fun limit =>
      ((s.seatUsage (scope a.projectID a.tenantID) a.sku).1 : ℤ) ≥ limit)
  · exact .inr (.inl ⟨hnone, (if_neg hseat).trans (if_pos hfull)⟩)
  · refine .inr (.inr ⟨hnone, fun limit hlimit => ?_, (if_neg hseat).trans (if_neg hfull)⟩)
    simpa [seatUsage, hlimit] using hfull

def revokeSeat (s : Store) (projectID tenantID sku userID : GoString) : Store :=
  { s with
    seatAssigns := s.seatAssigns.erase₃ (scope projectID tenantID) sku userID
    seatAssigns_keyed := GoMap.forall_erase₃ s.seatAssigns_keyed }

def revokeSeatAndTuple (s : Store) (projectID tenantID sku userID : GoString) (tuple : Tuple) :
    Store :=
  (s.revokeSeat projectID tenantID sku userID).writeTuples projectID tenantID [] [tuple]

def listSeats (s : Store) (order : MapOrder) (projectID tenantID sku : GoString) :
    List SeatAssignment :=
  sortByTime (·.assignedAt) (·.userID)
    (((s.seatAssigns.inner (scope projectID tenantID)).inner sku).values order)

/-! ## Deprovisioning -/

/-- What the shards of a project begin with. -/
def inProject (projectID sk : GoString) : Bool := (projectID ++ [0]).isPrefixOf sk

theorem inProject_iff {projectID sk : GoString} :
    inProject projectID sk ↔ ∃ tenantID, sk = scope projectID tenantID := by
  rw [inProject, List.isPrefixOf_iff_prefix]
  simp [List.IsPrefix, scope, eq_comm]

/-- Ids without separators are not taken for each other. -/
theorem inProject_scope_iff {projectID projectID' tenantID : GoString} (hproject : 0 ∉ projectID')
    (htenant : 0 ∉ tenantID) : inProject projectID (scope projectID' tenantID) ↔
      projectID' = projectID := by
  rw [inProject_iff]
  constructor
  · rintro ⟨tenantID', h⟩
    exact ((List.append_cons_inj_of_notMem hproject htenant).mp h).1
  · rintro rfl
    exact ⟨tenantID, rfl⟩

/-- The subject is this user, not a userset or everyone. -/
def isConcrete (userID : GoString) (t : Tuple) : Bool :=
  t.subject.set.isNone && !t.subject.wildcard && t.subject.userID = userID

def withoutSubject (projectID userID : GoString) (tuples : GoMap (GoMap Tuple)) :
    GoMap (GoMap Tuple) :=
  tuples.mapValues fun sk m =>
    if inProject projectID sk then m.filter fun _ t => !isConcrete userID t else m

def withoutSeats (projectID userID : GoString) (seats : GoMap (GoMap (GoMap SeatAssignment))) :
    GoMap (GoMap (GoMap SeatAssignment)) :=
  seats.mapValues fun sk bySKU =>
    if inProject projectID sk then bySKU.mapValues fun _ byUser => byUser.erase userID else bySKU

theorem get_withoutSubject (projectID userID : GoString) (tuples : GoMap (GoMap Tuple))
    (sk k : GoString) : (withoutSubject projectID userID tuples).get₂ sk k =
      if inProject projectID sk then (tuples.get₂ sk k).filter fun t => !isConcrete userID t
      else tuples.get₂ sk k := by
  rw [withoutSubject, GoMap.get₂, GoMap.inner_mapValues]
  · split_ifs
    · exact GoMap.get_filter _ _ _
    · rfl
  · split_ifs <;> rfl

theorem get_withoutSeats (projectID userID : GoString)
    (seats : GoMap (GoMap (GoMap SeatAssignment))) (sk sku user : GoString) :
    (withoutSeats projectID userID seats).get₃ sk sku user =
      if inProject projectID sk ∧ user = userID then none else seats.get₃ sk sku user := by
  rw [withoutSeats, GoMap.get₃, GoMap.inner_mapValues]
  · by_cases hsk : inProject projectID sk
    · rw [if_pos hsk, GoMap.get₂, GoMap.inner_mapValues, GoMap.get_erase]
      · simp only [hsk, true_and]
        rfl
      · rfl
    · rw [if_neg hsk, if_neg fun h => hsk h.1]
      rfl
  · split_ifs <;> rfl

/-- The tuples and the seats of a user go, in all tenants; the tuples are counted. -/
def deleteAllSubjectTuplesInProject (s : Store) (projectID userID : GoString) : ℕ × Store :=
  ((s.tuples.entries.map fun e => if inProject projectID e.1 then
      (e.2.filter fun _ t => isConcrete userID t).size else 0).sum,
    { s with
      tuples := withoutSubject projectID userID s.tuples
      seatAssigns := withoutSeats projectID userID s.seatAssigns
      tuples_keyed := by
        intro sk k t h
        rw [get_withoutSubject] at h
        split_ifs at h
        · rw [Option.filter_eq_some_iff] at h
          exact s.tuples_keyed sk k t h.1
        · exact s.tuples_keyed sk k t h
      seatAssigns_keyed := by
        intro sk sku user a h
        rw [get_withoutSeats] at h
        split_ifs at h
        exact s.seatAssigns_keyed sk sku user a h })

/-- What names the user goes, in the shards of the project. -/
theorem stored_deleteAllSubjectTuplesInProject {s : Store}
    {projectID userID projectID' tenantID : GoString} {t : Tuple} :
    (s.deleteAllSubjectTuplesInProject projectID userID).2.Stored projectID' tenantID t ↔
      s.Stored projectID' tenantID t ∧
        (inProject projectID (scope projectID' tenantID) → ¬ isConcrete userID t) := by
  have hget : (s.deleteAllSubjectTuplesInProject projectID userID).2.tuples.get₂
      (scope projectID' tenantID) (tupleKey t) = _ := get_withoutSubject _ _ _ _ _
  rw [Stored, hget, Stored]
  split_ifs with hproject
  · simp [Option.filter_eq_some_iff, hproject]
  · simp [hproject]

/-! ## Listings across tenants -/

/-- What follows the first separator of a shard's key. -/
def tenantOfScope (sk : GoString) : GoString := (sk.dropWhile (· ≠ 0)).drop 1

def sortTupleAt (ts : List TupleAt) : List TupleAt :=
  ts.insertionSort fun a b => a.tenantID < b.tenantID ∨
    (a.tenantID = b.tenantID ∧ tupleKey a.tuple ≤ tupleKey b.tuple)

def tuplesInProject (s : Store) (order : MapOrder) (projectID : GoString) (cond : Tuple → Bool) :
    List TupleAt :=
  sortTupleAt (((order.list s.tuples.keys).filter (inProject projectID)).flatMap fun sk =>
    (((s.tuples.inner sk).values order).filter cond).map fun t => ⟨tenantOfScope sk, t⟩)

def listSubjectTuplesInProject (s : Store) (order : MapOrder) (now : Time)
    (projectID userID : GoString) : List TupleAt :=
  s.tuplesInProject order projectID fun t => isConcrete userID t && t.activeAt now

def listTuplesForSubjectSetsInProject (s : Store) (order : MapOrder) (now : Time)
    (projectID : GoString) (sets : List SubjectSet) : List TupleAt :=
  if sets = [] then []
  else s.tuplesInProject order projectID fun t =>
    t.subject.set.any (· ∈ sets) && t.activeAt now

end Store

end WorkspaceAuthz.Service
