import WorkspaceAuthz.Service.DriverAgreement
import WorkspaceAuthz.Service.PostgresRows
import WorkspaceAuthz.Service.WorkspaceListings

/-! # What the database returns

A database represents a store if its tables follow the maps of the store and every
row comes back as it was: times are whole microseconds, conditions have names, and
configurations survive as JSON. Then every query returns what the memory store
returns. Where a statement leaves the order of rows open, some iteration over the
map of the store has the same order.
-/
namespace WorkspaceAuthz.Service
open Go Authz FiniteMaps

namespace Postgres

/-! ## What comes back as it was -/

/-- A time without nanoseconds. -/
def WholeMicros (t : Time) : Prop := storedTime t = t

structure ProjectExact (codec : ConfigCodec) (p : Project) : Prop where
  model : p.model.WellFormed
  config : codec.Survives (projectConfig p)
  created : WholeMicros p.createdAt
  updated : WholeMicros p.updatedAt

structure EnrollmentExact (e : Enrollment) : Prop where
  member : memberFromKey (memberKey e.member).1 (memberKey e.member).2 = e.member
  created : WholeMicros e.createdAt
  updated : WholeMicros e.updatedAt

/-- The rows of a store that a database returns as they are in the store. -/
structure Exact (codecs : Codecs) (s : Store) : Prop where
  projects : ∀ id p, s.projects.get id = some p → ProjectExact codecs.config p
  workspaces : ∀ sk id w, s.workspaces.get₂ sk id = some w → workspaceRow w = w
  memberships : ∀ sk ws user m, s.memberships.get₃ sk ws user = some m → membershipRow m = m
  invitations : ∀ sk id inv, s.invitations.get₂ sk id = some inv → invitationRow inv = inv
  groups : ∀ sk id g, s.groups.get₂ sk id = some g → groupRow g = g
  enrollments : ∀ sk group k e, s.enrollments.get₃ sk group k = some e → EnrollmentExact e
  seats : ∀ sk sku user a, s.seatAssigns.get₃ sk sku user = some a → seatRow a = a
  tuples : ∀ sk k t, s.tuples.get₂ sk k = some t → normalTuple t = t

/-- The database holds what the store holds, and nothing is lost. -/
structure Represents (codecs : Codecs) (s : Store) (D : Database) : Prop where
  contents : Serial.Mirrors codecs.params s D.toContents
  projects : ∀ id, D.projects.lookup id = (s.projects.get id).map (projectCells codecs.config)
  members : ∀ k c, D.enrollments.lookup k = some c → ∃ member, memberKey member = k.member
  exact : Exact codecs s

namespace Serial

/-! ## Listings -/

section Sorting

variable {α β : Type}

theorem insertionSort_congr {r r' : α → α → Prop} [DecidableRel r] [DecidableRel r']
    {l : List α} (h : ∀ a ∈ l, ∀ b ∈ l, r a b ↔ r' a b) :
    l.insertionSort r = l.insertionSort r' := by
  have hmap := List.map_insertionSort (r := r) (s := r') id l h
  simpa using hmap

/-- Earlier, or at the same time and with a key that does not come after. -/
abbrev byTime (time : α → Time) (key : α → GoString) (a b : α) : Prop :=
  time a < time b ∨ (time a = time b ∧ key a ≤ key b)

instance (time : α → Time) (key : α → GoString) : Std.Total (byTime time key) where
  total a b := by
    rcases lt_trichotomy (time a : ℤ) (time b) with hlt | heq | hlt
    · exact .inl (.inl hlt)
    · obtain hle | hle := List.le_total (key a) (key b)
      · exact .inl (.inr ⟨heq, hle⟩)
      · exact .inr (.inr ⟨heq.symm, hle⟩)
    · exact .inr (.inl hlt)

instance (time : α → Time) (key : α → GoString) : IsTrans α (byTime time key) where
  trans a b c := by
    rintro (hab | ⟨hab, hkey⟩) (hbc | ⟨hbc, hkey'⟩)
    · exact .inl (lt_trans (α := ℤ) hab hbc)
    · exact .inl (hbc ▸ hab)
    · exact .inl (hab ▸ hbc)
    · exact .inr ⟨hab.trans hbc, List.le_trans hkey hkey'⟩

theorem byTime_antisymm {time : α → Time} {key : α → GoString} {a b : α}
    (hab : byTime time key a b) (hba : byTime time key b a) : key a = key b := by
  obtain hlt | ⟨heq, hkey⟩ := hab <;> obtain hlt' | ⟨heq', hkey'⟩ := hba
  · exact absurd hlt' (lt_asymm (α := ℤ) hlt)
  · exact absurd hlt (heq' ▸ lt_irrefl (α := ℤ) _)
  · exact absurd hlt' (heq ▸ lt_irrefl (α := ℤ) _)
  · exact List.le_antisymm hkey hkey'

/-- What is sorted by a key that no two values share does not depend on the order before. -/
theorem sortByTime_of_perm {time : α → Time} {key : α → GoString} {l l' : List α}
    (h : l.Perm l') (hkey : ∀ a ∈ l, ∀ b ∈ l, key a = key b → a = b) :
    Store.sortByTime time key l = Store.sortByTime time key l' := by
  have hperm : (Store.sortByTime time key l).Perm (Store.sortByTime time key l') :=
    ((List.perm_insertionSort _ l).trans h).trans (List.perm_insertionSort _ l').symm
  refine hperm.eq_of_pairwise ?_ (List.pairwise_insertionSort (byTime time key) l)
    (List.pairwise_insertionSort (byTime time key) l')
  intro a b ha hb hab hba
  have hl {x : α} : x ∈ Store.sortByTime time key l ↔ x ∈ l := List.mem_insertionSort _
  rw [← hperm.mem_iff] at hb
  exact hkey a (hl.mp ha) b (hl.mp hb) (byTime_antisymm hab hba)

/-- Texts that are compared by their bytes are sorted as the memory store sorts them. -/
theorem orderRows_id (time : α → Time) (key : α → GoString) (l : List α) :
    orderRows id time (fun a => [key a]) l = Store.sortByTime time key l := by
  apply insertionSort_congr
  intro a _ b _
  rw [orderBy_id_le_iff]

theorem eq_iff_of_lt_iff {a b a' b' : ℤ} (h : a < b ↔ a' < b') (h' : b < a ↔ b' < a') :
    a = b ↔ a' = b' := by
  omega

/-- Rows are read after they have been sorted, values are sorted as they are. -/
theorem orderRows_map (collate : GoString → GoString) (time : α → Time) (key : α → GoString)
    (time' : β → ℤ) (texts : β → List GoString) (f : α → β) {l : List α}
    (htime : ∀ a ∈ l, ∀ b ∈ l, time' (f a) < time' (f b) ↔ time a < time b)
    (htexts : ∀ a ∈ l, ∀ b ∈ l,
      orderBy collate (texts (f a)) ≤ orderBy collate (texts (f b)) ↔ key a ≤ key b) :
    orderRows collate time' texts (l.map f) = (Store.sortByTime time key l).map f := by
  symm
  apply List.map_insertionSort
  intro a ha b hb
  have heq : time' (f a) = time' (f b) ↔ time a = time b :=
    eq_iff_of_lt_iff (htime a ha b hb) (htime b hb a ha)
  rw [htime a ha b hb, htexts a ha b hb, heq]

end Sorting

/-! ## Rows by key -/

section Lookups

variable {ι κ β : Type} [DecidableEq κ] {enc : GoString → GoString → ι → κ} {row : β → β}
  {look : GoString → ι → Option β} {T : Table κ β} {projectID tenantID : GoString}

theorem map_of_exact {row : β → β} {o : Option β} (h : ∀ v, o = some v → row v = v) :
    o.map row = o := by
  cases o with
  | none => rfl
  | some v => rw [Option.map_some, h v rfl]

theorem Tracks.lookup_eq (h : Tracks enc row look T)
    (hexact : ∀ sk i v, look sk i = some v → row v = v) (hproject : 0 ∉ projectID)
    (htenant : 0 ∉ tenantID) (i : ι) :
    T.lookup (enc projectID tenantID i) = look (scope projectID tenantID) i := by
  rw [h projectID tenantID i hproject htenant]
  exact map_of_exact (hexact _ i)

end Lookups

section Selections

variable {κ β ρ : Type} [DecidableEq κ]

/-- The rows that a query selects are the values of a map that satisfy a condition. -/
theorem select_values {T : Table κ ρ} {m : GoMap β} (cond : κ → ρ → Bool) (want : β → Bool)
    (key : β → κ) (row : β → ρ)
    (hinj : ∀ k v k' v', m.get k = some v → m.get k' = some v' → key v = key v' → k = k')
    (hrow : ∀ k v, m.get k = some v →
      T.lookup (key v) = some (row v) ∧ cond (key v) (row v) = want v)
    (honly : ∀ k r, T.lookup k = some r → cond k r → ∃ i v, m.get i = some v ∧ key v = k)
    (scan : RowOrder κ) (order : MapOrder) :
    ∃ vs : List β, vs.Perm ((m.values order).filter want) ∧
      T.select scan cond = vs.map fun v => ⟨key v, row v⟩ := by
  have hmem : ∀ v, v ∈ (m.values order).filter want ↔ (∃ i, m.get i = some v) ∧ want v := by
    intro v
    rw [List.mem_filter, GoMap.mem_values]
  have hentries : (T.filter cond).entries =
      (((m.values order).filter want : List β) : Multiset β).map fun v => ⟨key v, row v⟩ := by
    apply Table.entries_filter_eq_map
    · have hnodup : (m.entries.map fun e => key e.2).Nodup := by
        apply Multiset.Nodup.map_on _ (Multiset.Nodup.of_map Sigma.fst (Table.nodup_keys m))
        rintro ⟨k, v⟩ hv ⟨k', v'⟩ hv' heq
        have hget := GoMap.mem_entries.mp hv
        have hget' := GoMap.mem_entries.mp hv'
        obtain rfl := hinj k v k' v' hget hget' heq
        cases hget.symm.trans hget'
        rfl
      have hvalues : (m.values order : Multiset β).map key = m.entries.map fun e => key e.2 := by
        rw [GoMap.coe_values, Multiset.map_map]
        rfl
      rw [coe_filter]
      exact Multiset.nodup_of_le (Multiset.map_le_map (Multiset.filter_le _ _))
        (hvalues ▸ hnodup)
    · intro k r
      simp only [Multiset.mem_coe, hmem]
      constructor
      · rintro ⟨hk, hcond⟩
        obtain ⟨i, v, hv, rfl⟩ := honly k r hk hcond
        obtain ⟨hlookup, hwant⟩ := hrow i v hv
        obtain rfl := Option.some.inj (hlookup.symm.trans hk)
        exact ⟨v, ⟨⟨i, hv⟩, hwant ▸ hcond⟩, rfl, rfl⟩
      · rintro ⟨v, ⟨⟨i, hv⟩, hwant⟩, rfl, rfl⟩
        obtain ⟨hlookup, heq⟩ := hrow i v hv
        exact ⟨hlookup, heq.trans hwant⟩
  exact Table.select_eq_map hentries scan

section Keyed

variable {T : Table κ β} {m : GoMap β} (enc : GoString → κ) (idOf : β → GoString)
  (cond : κ → β → Bool) (want : β → Bool) (henc : Function.Injective enc)
  (hlookup : ∀ i, T.lookup (enc i) = m.get i) (hkeyed : ∀ i v, m.get i = some v → idOf v = i)
  (hcond : ∀ k v, cond k v ↔ (∃ i, k = enc i) ∧ want v)
include henc hlookup hkeyed hcond

theorem select_rows (scan : RowOrder κ) (order : MapOrder) :
    ((T.select scan cond).map (·.2)).Perm ((m.values order).filter want) := by
  obtain ⟨vs, hperm, hselect⟩ := select_values (T := T) (m := m) cond want
    (fun v => enc (idOf v)) id
    (fun k v k' v' hv hv' heq => by
      rw [← hkeyed k v hv, ← hkeyed k' v' hv']
      exact henc heq)
    (fun k v hv => by
      refine ⟨?_, ?_⟩
      · rw [hlookup, hkeyed k v hv]
        exact hv
      · rw [Bool.eq_iff_iff, hcond]
        simp)
    (fun k v hk hv => by
      obtain ⟨⟨i, rfl⟩, -⟩ := (hcond k v).mp hv
      rw [hlookup] at hk
      exact ⟨i, v, hk, by rw [hkeyed i v hk]⟩) scan order
  rw [hselect, List.map_map]
  exact (List.Perm.of_eq (List.map_id vs)).trans hperm

/-- A listing that is ordered by a time and the key. -/
theorem orderRows_select (scan : RowOrder κ) (order : MapOrder) (time : β → Time) :
    orderRows id time (fun v => [idOf v]) ((T.select scan cond).map (·.2)) =
      Store.sortByTime time idOf ((m.values order).filter want) := by
  have hperm := select_rows enc idOf cond want henc hlookup hkeyed hcond scan order
  rw [orderRows_id]
  apply sortByTime_of_perm hperm
  intro a ha b hb heq
  obtain ⟨i, hi⟩ := GoMap.mem_values.mp (List.mem_filter.mp (hperm.mem_iff.mp ha)).1
  obtain ⟨j, hj⟩ := GoMap.mem_values.mp (List.mem_filter.mp (hperm.mem_iff.mp hb)).1
  rw [hkeyed i a hi, hkeyed j b hj] at heq
  subst heq
  exact Option.some.inj (hi.symm.trans hj)

/-- The first row that a query comes upon is the first that some iteration finds. -/
theorem exists_find_eq (scan : RowOrder κ) :
    ∃ order : MapOrder,
      (m.values order).find? want = (T.select scan cond).head?.map (·.2) := by
  obtain ⟨order, horder⟩ := GoMap.exists_filter_values_eq
    (select_rows enc idOf cond want henc hlookup hkeyed hcond scan .ascending)
  refine ⟨order, ?_⟩
  rw [← List.head?_filter, horder, List.head?_map]

end Keyed

end Selections

section Rows

variable {codecs : Codecs} {s : Store} {D : Database} {projectID tenantID : GoString}

theorem scope_inj (hproject : 0 ∉ projectID) (htenant : 0 ∉ tenantID)
    {projectID' tenantID' : GoString}
    (h : scope projectID' tenantID' = scope projectID tenantID) :
    projectID' = projectID ∧ tenantID' = tenantID := by
  obtain ⟨heq, -, heq'⟩ := (List.append_cons_inj_of_notMem hproject htenant).mp h.symm
  exact ⟨heq.symm, heq'.symm⟩

theorem getWorkspace_eq (h : Represents codecs s D) {id : GoString}
    (htexts : ∀ x ∈ [projectID, tenantID, id], isText x) :
    getWorkspace D.toContents projectID tenantID id = s.getWorkspace projectID tenantID id := by
  have hrow := h.contents.workspaces.lookup_eq h.exact.workspaces
    (zero_notMem_of_isText (htexts projectID (by simp)))
    (zero_notMem_of_isText (htexts tenantID (by simp))) id
  rw [getWorkspace, query_of_isText htexts, hrow]
  rfl

theorem getInvitation_eq (h : Represents codecs s D) {id : GoString}
    (htexts : ∀ x ∈ [projectID, tenantID, id], isText x) :
    getInvitation D.toContents projectID tenantID id = s.getInvitation projectID tenantID id := by
  have hrow := h.contents.invitations.lookup_eq h.exact.invitations
    (zero_notMem_of_isText (htexts projectID (by simp)))
    (zero_notMem_of_isText (htexts tenantID (by simp))) id
  rw [getInvitation, query_of_isText htexts, hrow]
  rfl

theorem getGroup_eq (h : Represents codecs s D) {id : GoString}
    (htexts : ∀ x ∈ [projectID, tenantID, id], isText x) :
    getGroup D.toContents projectID tenantID id = s.getGroup projectID tenantID id := by
  have hrow := h.contents.groups.lookup_eq h.exact.groups
    (zero_notMem_of_isText (htexts projectID (by simp)))
    (zero_notMem_of_isText (htexts tenantID (by simp))) id
  rw [getGroup, query_of_isText htexts, hrow]
  rfl

theorem getMembership_eq (h : Represents codecs s D) {workspaceID userID : GoString}
    (htexts : ∀ x ∈ [projectID, tenantID, workspaceID, userID], isText x) :
    getMembership D.toContents projectID tenantID workspaceID userID =
      s.getMembership projectID tenantID workspaceID userID := by
  have hrow := h.contents.memberships.lookup_eq
    (fun sk i m => h.exact.memberships sk i.1 i.2 m)
    (zero_notMem_of_isText (htexts projectID (by simp)))
    (zero_notMem_of_isText (htexts tenantID (by simp))) (workspaceID, userID)
  rw [getMembership, query_of_isText htexts, hrow]
  rfl

theorem isText_memberKey {m : GroupMember} (huser : isText m.userID) (hgroup : isText m.groupID) :
    isText (memberKey m).1 ∧ isText (memberKey m).2 := by
  have hgroupKind : isText (str "group") := by decide
  have huserKind : isText (str "user") := by decide
  unfold memberKey
  split_ifs
  · exact ⟨hgroupKind, hgroup⟩
  · exact ⟨huserKind, huser⟩

theorem scanEnrollment_eq (h : Represents codecs s D) (hproject : 0 ∉ projectID)
    (htenant : 0 ∉ tenantID) {groupID k : GoString} {e : Enrollment}
    (he : s.enrollments.get₃ (scope projectID tenantID) groupID k = some e) :
    scanEnrollment ⟨projectID, tenantID, groupID, memberKey e.member⟩ (enrollmentCells e) = e := by
  obtain ⟨hscope, rfl, -⟩ := s.enrollments_keyed _ _ _ _ he
  obtain ⟨rfl, rfl⟩ := scope_inj hproject htenant hscope
  obtain ⟨hmember, hcreated, hupdated⟩ := h.exact.enrollments _ _ _ _ he
  unfold WholeMicros storedTime at hcreated hupdated
  simp only [scanEnrollment, enrollmentCells, hmember, hcreated, hupdated]

theorem getEnrollment_eq (h : Represents codecs s D) {groupID : GoString} {member : GroupMember}
    (htexts : ∀ x ∈ [projectID, tenantID, groupID, member.userID, member.groupID], isText x) :
    getEnrollment D.toContents projectID tenantID groupID member =
      s.getEnrollment projectID tenantID groupID member := by
  have hproject := zero_notMem_of_isText (htexts projectID (by simp))
  have htenant := zero_notMem_of_isText (htexts tenantID (by simp))
  have hmember := isText_memberKey (htexts member.userID (by simp))
    (htexts member.groupID (by simp))
  have hargs : ∀ x ∈ [projectID, tenantID, groupID, (memberKey member).1, (memberKey member).2],
      isText x := by
    have hgroup : isText groupID := htexts _ (by simp)
    simp [htexts projectID (by simp), htexts tenantID (by simp), hgroup, hmember]
  have hrow := h.contents.enrollments projectID tenantID (groupID, member) hproject htenant
  have hscan : ((s.enrollment projectID tenantID groupID member).map enrollmentCells).map
      (scanEnrollment ⟨projectID, tenantID, groupID, memberKey member⟩) =
        s.enrollment projectID tenantID groupID member := by
    cases he : s.enrollment projectID tenantID groupID member with
    | none => rfl
    | some e =>
      have hkey := (s.enrollments_keyed _ _ _ _ he).2.2
      rw [Option.map_some, Option.map_some, ← enrollmentKey_eq_iff.mp hkey,
        scanEnrollment_eq h hproject htenant he]
  rw [getEnrollment]
  dsimp only
  rw [query_of_isText hargs]
  exact congrArg found ((congrArg (Option.map _) hrow).trans hscan)

/-! ## Rows by a condition -/

theorem listMembers_eq (h : Represents codecs s D) {workspaceID : GoString}
    (htexts : ∀ x ∈ [projectID, tenantID, workspaceID], isText x) (scan : RowOrder MembershipKey)
    (order : MapOrder) :
    listMembers D.toContents projectID tenantID id scan workspaceID =
      .ok (s.listMembers order projectID tenantID workspaceID) := by
  have hlookup := fun user => h.contents.memberships.lookup_eq
    (fun sk i m => h.exact.memberships sk i.1 i.2 m)
    (zero_notMem_of_isText (htexts projectID (by simp)))
    (zero_notMem_of_isText (htexts tenantID (by simp))) (workspaceID, user)
  have hsort := orderRows_select (T := D.memberships)
    (m := (s.memberships.inner (scope projectID tenantID)).inner workspaceID)
    (fun user => ⟨projectID, tenantID, workspaceID, user⟩) (·.userID)
    (fun k _ => k.projectID = projectID ∧ k.tenantID = tenantID ∧ k.workspaceID = workspaceID)
    (fun _ => true) (fun _ _ heq => (MembershipKey.mk.inj heq).2.2.2) hlookup
    (fun user m hm => (s.memberships_keyed _ _ _ m hm).2.2)
    (by
      rintro ⟨projectID', tenantID', workspaceID', user⟩ m
      simp) scan order (·.createdAt)
  rw [listMembers, query_of_isText htexts, Store.listMembers, ← List.filter_true
    (((s.memberships.inner (scope projectID tenantID)).inner workspaceID).values order), ← hsort]
  rfl

theorem rowKey_injective : Function.Injective (RowKey.mk projectID tenantID) :=
  fun _ _ heq => (RowKey.mk.inj heq).2.2

theorem listInvitations_eq (h : Represents codecs s D) {workspaceID : GoString}
    (htexts : ∀ x ∈ [projectID, tenantID, workspaceID], isText x) (scan : RowOrder RowKey)
    (order : MapOrder) :
    listInvitations D.toContents projectID tenantID id scan workspaceID =
      .ok (s.listInvitations order projectID tenantID workspaceID) := by
  have hlookup := h.contents.invitations.lookup_eq h.exact.invitations
    (zero_notMem_of_isText (htexts projectID (by simp)))
    (zero_notMem_of_isText (htexts tenantID (by simp)))
  have hsort := orderRows_select (RowKey.mk projectID tenantID) (·.id)
    (fun k inv => k.projectID = projectID ∧ k.tenantID = tenantID ∧ inv.workspaceID = workspaceID)
    (·.workspaceID = workspaceID) rowKey_injective hlookup
    (fun id inv hinv => (s.invitations_keyed _ id inv hinv).2)
    (by
      rintro ⟨projectID', tenantID', id⟩ inv
      simp [and_assoc]) scan order (·.createdAt)
  rw [listInvitations, query_of_isText htexts, Store.listInvitations, ← hsort]
  rfl

theorem listGroups_eq (h : Represents codecs s D) {workspaceID : GoString}
    (htexts : ∀ x ∈ [projectID, tenantID, workspaceID], isText x) (scan : RowOrder RowKey)
    (order : MapOrder) :
    listGroups D.toContents projectID tenantID id scan workspaceID =
      .ok (s.listGroups order projectID tenantID workspaceID) := by
  have hlookup := h.contents.groups.lookup_eq h.exact.groups
    (zero_notMem_of_isText (htexts projectID (by simp)))
    (zero_notMem_of_isText (htexts tenantID (by simp)))
  have hsort := orderRows_select (RowKey.mk projectID tenantID) (·.id)
    (fun k g => k.projectID = projectID ∧ k.tenantID = tenantID ∧
      (workspaceID = [] ∨ g.workspaceID = workspaceID))
    (fun g => workspaceID = [] ∨ g.workspaceID = workspaceID) rowKey_injective hlookup
    (fun id g hg => (s.groups_keyed _ id g hg).2)
    (by
      rintro ⟨projectID', tenantID', id⟩ g
      simp [and_assoc]) scan order (·.createdAt)
  rw [listGroups, query_of_isText htexts, Store.listGroups, ← hsort]
  rfl

theorem listSeats_eq (h : Represents codecs s D) {sku : GoString}
    (htexts : ∀ x ∈ [projectID, tenantID, sku], isText x) (scan : RowOrder SeatKey)
    (order : MapOrder) :
    listSeats D.toContents projectID tenantID id scan sku =
      .ok (s.listSeats order projectID tenantID sku) := by
  have hlookup := fun user => h.contents.seats.lookup_eq
    (fun sk i a => h.exact.seats sk i.1 i.2 a)
    (zero_notMem_of_isText (htexts projectID (by simp)))
    (zero_notMem_of_isText (htexts tenantID (by simp))) (sku, user)
  have hsort := orderRows_select (T := D.seatAssignments)
    (m := (s.seatAssigns.inner (scope projectID tenantID)).inner sku)
    (SeatKey.mk ⟨projectID, tenantID, sku⟩) (·.userID)
    (fun k _ => k.toSkuKey = ⟨projectID, tenantID, sku⟩) (fun _ => true)
    (fun _ _ heq => (SeatKey.mk.inj heq).2) hlookup
    (fun user a ha => (s.seatAssigns_keyed _ _ _ a ha).2.2)
    (by
      rintro ⟨q, user⟩ a
      simp) scan order (·.assignedAt)
  rw [listSeats, query_of_isText htexts, Store.listSeats, ← List.filter_true
    (((s.seatAssigns.inner (scope projectID tenantID)).inner sku).values order), ← hsort]
  rfl

theorem exists_personalWorkspace_eq (h : Represents codecs s D) {userID : GoString}
    (htexts : ∀ x ∈ [projectID, tenantID, userID], isText x) (scan : RowOrder RowKey) :
    ∃ order : MapOrder, s.personalWorkspace order projectID tenantID userID =
      personalWorkspace D.toContents projectID tenantID scan userID := by
  have hlookup := h.contents.workspaces.lookup_eq h.exact.workspaces
    (zero_notMem_of_isText (htexts projectID (by simp)))
    (zero_notMem_of_isText (htexts tenantID (by simp)))
  obtain ⟨order, horder⟩ := exists_find_eq (RowKey.mk projectID tenantID) (·.id)
    (fun k w => k.projectID = projectID ∧ k.tenantID = tenantID ∧ w.ownerUserID = userID ∧
      w.type = .personal)
    (fun w => w.type = .personal ∧ w.ownerUserID = userID) rowKey_injective hlookup
    (fun id w hw => (s.workspaces_keyed _ id w hw).2)
    (by
      rintro ⟨projectID', tenantID', id⟩ w
      simp [and_assoc, and_comm]) scan
  refine ⟨order, ?_⟩
  rw [personalWorkspace, query_of_isText htexts]
  exact congrArg found horder

theorem exists_getInvitationByTokenHash_eq (h : Represents codecs s D) {tokenHash : GoString}
    (htexts : ∀ x ∈ [projectID, tenantID, tokenHash], isText x) (scan : RowOrder RowKey) :
    ∃ order : MapOrder, s.getInvitationByTokenHash order projectID tenantID tokenHash =
      getInvitationByTokenHash D.toContents projectID tenantID scan tokenHash := by
  have hlookup := h.contents.invitations.lookup_eq h.exact.invitations
    (zero_notMem_of_isText (htexts projectID (by simp)))
    (zero_notMem_of_isText (htexts tenantID (by simp)))
  obtain ⟨order, horder⟩ := exists_find_eq (RowKey.mk projectID tenantID) (·.id)
    (fun k inv => k.projectID = projectID ∧ k.tenantID = tenantID ∧ inv.tokenHash = tokenHash)
    (·.tokenHash = tokenHash) rowKey_injective hlookup
    (fun id inv hinv => (s.invitations_keyed _ id inv hinv).2)
    (by
      rintro ⟨projectID', tenantID', id⟩ inv
      simp [and_assoc]) scan
  refine ⟨order, ?_⟩
  rw [getInvitationByTokenHash, query_of_isText htexts]
  exact congrArg found horder

/-- The join finds the workspaces that the memory store finds. -/
theorem workspacesForUser_eq (h : Represents codecs s D) {userID : GoString}
    (htexts : ∀ x ∈ [projectID, tenantID, userID], isText x) (scan : RowOrder MembershipKey)
    (order : MapOrder) :
    workspacesForUser D.toContents projectID tenantID id scan userID =
      .ok (s.workspacesForUser order projectID tenantID userID) := by
  have hproject := zero_notMem_of_isText (htexts projectID (by simp))
  have htenant := zero_notMem_of_isText (htexts tenantID (by simp))
  have hworkspace := h.contents.workspaces.lookup_eq h.exact.workspaces hproject htenant
  have hmembership := fun ws => h.contents.memberships.lookup_eq
    (fun sk i m => h.exact.memberships sk i.1 i.2 m) hproject htenant (ws, userID)
  have hkeyed {ws : GoString} {w : Workspace}
      (hw : s.workspaces.get₂ (scope projectID tenantID) ws = some w) : w.id = ws :=
    (s.workspaces_keyed _ ws w hw).2
  have hids {rows : List (Σ _ : MembershipKey, Membership)} : (rows.filterMap fun e =>
      D.workspaces.lookup ⟨projectID, tenantID, e.1.workspaceID⟩) =
      (rows.map (·.1.workspaceID)).filterMap (s.workspaces.get₂ (scope projectID tenantID)) := by
    rw [List.filterMap_map]
    exact List.filterMap_congr fun e _ => hworkspace e.1.workspaceID
  rw [workspacesForUser, query_of_isText htexts]
  refine congrArg Except.ok ?_
  rw [orderRows_id, hids]
  have hmem : ∀ w, w ∈ ((D.memberships.select scan fun k m => k.projectID = projectID ∧
      k.tenantID = tenantID ∧ k.userID = userID ∧ m.status = .active).map
        (·.1.workspaceID)).filterMap (s.workspaces.get₂ (scope projectID tenantID)) ↔
      w ∈ s.workspacesForUser order projectID tenantID userID := by
    intro w
    rw [Store.mem_workspacesForUser]
    simp only [List.mem_filterMap, List.mem_map, Sigma.exists, Table.mem_select, decide_eq_true_eq]
    constructor
    · rintro ⟨_, ⟨⟨projectID', tenantID', ws, user⟩, m, ⟨hm, rfl, rfl, rfl, hstatus⟩, rfl⟩, hw⟩
      rw [hmembership] at hm
      obtain rfl := hkeyed hw
      exact ⟨found_eq_ok.mpr hw, m, hm, hstatus⟩
    · rintro ⟨hw, m, hm, hstatus⟩
      exact ⟨w.id, ⟨⟨projectID, tenantID, w.id, userID⟩, m,
        ⟨(hmembership w.id).trans hm, rfl, rfl, rfl, hstatus⟩, rfl⟩, found_eq_ok.mp hw⟩
  have hperm := (List.perm_ext_iff_of_nodup ?_
    Store.nodup_workspacesForUser.of_map).mpr hmem
  · refine sortByTime_of_perm (hperm.trans (List.perm_insertionSort _ _)) fun w hw w' hw' heq => ?_
    exact List.inj_on_of_nodup_map Store.nodup_workspacesForUser ((hmem w).mp hw)
      ((hmem w').mp hw') heq
  · refine List.Nodup.filterMap (fun ws ws' w hw hw' => ?_) ?_
    · rw [← hkeyed hw, ← hkeyed hw']
    · have hnodup := (Table.nodup_keys_select D.memberships scan fun k m =>
        k.projectID = projectID ∧ k.tenantID = tenantID ∧ k.userID = userID ∧
          m.status = .active).of_map
      refine hnodup.map_on fun e he e' he' heq => ?_
      obtain ⟨⟨projectID₁, tenantID₁, ws₁, user₁⟩, m₁⟩ := e
      obtain ⟨⟨projectID₂, tenantID₂, ws₂, user₂⟩, m₂⟩ := e'
      obtain ⟨hm₁, hcond₁⟩ := Table.mem_select.mp he
      obtain ⟨hm₂, hcond₂⟩ := Table.mem_select.mp he'
      simp only [decide_eq_true_eq] at hcond₁ hcond₂ heq
      obtain ⟨rfl, rfl, rfl, -⟩ := hcond₁
      obtain ⟨rfl, rfl, rfl, -⟩ := hcond₂
      subst heq
      rw [Option.some.inj (hm₁.symm.trans hm₂)]

/-- Members of different kinds are ordered by kind, in a key as in the columns. -/
theorem enrollmentKey_le_iff (m m' : GroupMember) :
    orderBy id [(memberKey m).1, (memberKey m).2] ≤
        orderBy id [(memberKey m').1, (memberKey m').2] ↔
      enrollmentKey m ≤ enrollmentKey m' := by
  have hgroup : str "group" = [103, 114, 111, 117, 112] := by decide
  have huser : str "user" = [117, 115, 101, 114] := by decide
  have hkind : (103 : UInt8) < 117 := by decide
  have hkind' : ¬ (117 : UInt8) < 103 := by decide
  refine not_congr ?_
  unfold enrollmentKey memberKey
  split_ifs <;>
    simp [orderBy, List.cons_lt_cons_iff, hgroup, huser, hkind, hkind']

theorem micros_lt_iff {a b : Time} (ha : WholeMicros a) (hb : WholeMicros b) :
    micros a < micros b ↔ a < b := by
  have hmono : ∀ m n : ℤ, m < n ↔ m * 1000 < n * 1000 := by omega
  refine (hmono _ _).trans ?_
  change ofMicros (micros a) < ofMicros (micros b) ↔ a < b
  rw [show ofMicros (micros a) = a from ha, show ofMicros (micros b) = b from hb]

theorem listEnrollments_eq (h : Represents codecs s D) {groupID : GoString}
    (htexts : ∀ x ∈ [projectID, tenantID, groupID], isText x) (scan : RowOrder EnrollmentKey)
    (order : MapOrder) :
    listEnrollments D.toContents projectID tenantID id scan groupID =
      .ok (s.listEnrollments order projectID tenantID groupID) := by
  have hproject := zero_notMem_of_isText (htexts projectID (by simp))
  have htenant := zero_notMem_of_isText (htexts tenantID (by simp))
  have hkeyed := s.enrollments_keyed (scope projectID tenantID) groupID
  have hrow (member : GroupMember) :
      D.enrollments.lookup ⟨projectID, tenantID, groupID, memberKey member⟩ =
        (s.enrollments.get₃ (scope projectID tenantID) groupID (enrollmentKey member)).map
          enrollmentCells :=
    h.contents.enrollments projectID tenantID (groupID, member) hproject htenant
  obtain ⟨es, hperm, hselect⟩ := select_values (T := D.enrollments)
    (m := (s.enrollments.inner (scope projectID tenantID)).inner groupID)
    (fun k _ => k.projectID = projectID ∧ k.tenantID = tenantID ∧ k.groupID = groupID)
    (fun _ => true) (fun e => ⟨projectID, tenantID, groupID, memberKey e.member⟩) enrollmentCells
    (fun k e k' e' he he' heq => by
      rw [← (hkeyed k e he).2.2, ← (hkeyed k' e' he').2.2]
      exact enrollmentKey_eq_iff.mpr (EnrollmentKey.mk.inj heq).2.2.2)
    (fun k e he => by
      refine ⟨?_, by simp⟩
      rw [hrow, (hkeyed k e he).2.2]
      exact congrArg (Option.map enrollmentCells) he)
    (fun k c hk hcond => by
      obtain ⟨member, hmember⟩ := h.members k c hk
      obtain ⟨projectID', tenantID', groupID', k'⟩ := k
      obtain ⟨rfl, rfl, rfl⟩ := of_decide_eq_true hcond
      obtain rfl : memberKey member = k' := hmember
      rw [hrow, Option.map_eq_some_iff] at hk
      obtain ⟨e, he, -⟩ := hk
      refine ⟨enrollmentKey member, e, he, ?_⟩
      rw [enrollmentKey_eq_iff.mp (hkeyed _ e he).2.2]) scan order
  rw [List.filter_true] at hperm
  have hget : ∀ e ∈ es, s.enrollments.get₃ (scope projectID tenantID) groupID
      (enrollmentKey e.member) = some e := by
    intro e he
    obtain ⟨k, hk⟩ := GoMap.mem_values.mp (hperm.mem_iff.mp he)
    rw [(hkeyed k e hk).2.2]
    exact hk
  have hexact : ∀ e ∈ es, EnrollmentExact e := fun e he => h.exact.enrollments _ _ _ _ (hget e he)
  have hsort := orderRows_map id (·.createdAt) (enrollmentKey ·.member) (·.2.createdAt)
    (fun e => [e.1.member.1, e.1.member.2])
    (fun e => (⟨⟨projectID, tenantID, groupID, memberKey e.member⟩, enrollmentCells e⟩ :
      Σ _ : EnrollmentKey, EnrollmentCells))
    (fun a ha b hb => micros_lt_iff (hexact a ha).created (hexact b hb).created)
    (fun a _ b _ => enrollmentKey_le_iff a.member b.member)
  have hscan : ((Store.sortByTime (·.createdAt) (enrollmentKey ·.member) es).map fun e =>
      scanEnrollment ⟨projectID, tenantID, groupID, memberKey e.member⟩ (enrollmentCells e)) =
        Store.sortByTime (·.createdAt) (enrollmentKey ·.member) es := by
    refine (List.map_congr_left fun e he => ?_).trans (List.map_id _)
    exact scanEnrollment_eq h hproject htenant
      (hget e ((List.mem_insertionSort _).mp he))
  rw [listEnrollments, query_of_isText htexts, hselect]
  refine congrArg Except.ok ?_
  rw [hsort, List.map_map]
  refine hscan.trans (sortByTime_of_perm hperm fun a ha b hb heq => ?_)
  have hb' := hget b hb
  rw [← heq, hget a ha] at hb'
  exact Option.some.inj hb'

/-- Tuples that lose nothing are found in an order in which some iteration finds them. -/
theorem exists_listSubjects_eq (h : Represents codecs s D) {n : SubjectSet}
    (htexts : ∀ x ∈ [projectID, tenantID, n.ns, n.objectID, n.relation], isText x)
    (scan : RowOrder TupleKey) (now : Time) :
    ∃ order : MapOrder, .ok (s.listSubjects order now projectID tenantID n) =
      listSubjects D.toContents codecs.params scan now projectID tenantID n := by
  have hproject : 0 ∉ projectID := zero_notMem_of_isText (htexts _ (by simp))
  obtain ⟨tuples, hperm, hstorable, hselect⟩ := select_shard h.contents hproject tenantID scan
    .ascending
    (fun k c => (k.projectID = projectID ∧ k.tenantID = tenantID ∧ k.ns = n.ns ∧
      k.objectID = n.objectID ∧ k.relation = n.relation) && isActive now c)
    (fun t => t.ns = n.ns ∧ t.objectID = n.objectID ∧ t.relation = n.relation ∧
      t.activeAt now)
    (by simp only [Bool.and_eq_true, decide_eq_true_eq]; tauto)
    (by intro t ht; rw [isActive_eq ht]; simp [TupleRow.key, Bool.and_assoc])
  obtain ⟨order, horder⟩ := GoMap.exists_filter_values_eq hperm
  have hnormal : tuples.map normalTuple = tuples := by
    refine (List.map_congr_left fun t ht => ?_).trans (List.map_id _)
    obtain ⟨k, hk⟩ := GoMap.mem_values.mp (List.mem_filter.mp (hperm.mem_iff.mp ht)).1
    exact h.exact.tuples _ k t hk
  refine ⟨order, ?_⟩
  rw [listSubjects, query_of_isText htexts, hselect]
  simp only [bind, Except.bind, mapM_scanTuple hstorable, hnormal]
  rw [Store.listSubjects, horder]
  rfl

/-! ## Projects -/

theorem eq_empty_of_size {β : Type} {m : GoMap β} (h : ¬ 0 < m.size) : m = ∅ := by
  have hentries : m.entries = 0 := Multiset.card_eq_zero.mp (Nat.eq_zero_of_not_pos h)
  exact Finmap.ext hentries

theorem scanProject_eq {codec : ConfigCodec} {p : Project} (h : ProjectExact codec p)
    (order : MapOrder) : scanProject codec order p.id (projectCells codec p) = .ok p := by
  obtain ⟨hmodel, ⟨stored, hstored, hread⟩, hcreated, hupdated⟩ := h
  have hne := codec.jsonb_ne_nil _ _ hstored
  unfold WholeMicros storedTime at hcreated hupdated
  simp only [scanProject, projectCells, encodeProjectConfig, hstored, Option.getD_some,
    decodeProjectConfig, if_neg hne, hread, hcreated, hupdated]
  by_cases hsize : 0 < p.model.size
  · simp only [projectConfig, if_pos hsize, toModel_fromModel hmodel]
  · simp only [projectConfig, if_neg hsize, ← eq_empty_of_size hsize]

theorem getProject_eq (h : Represents codecs s D) {id : GoString} (hid : ∀ x ∈ [id], isText x)
    (order : MapOrder) : getProject codecs.config order D id = s.getProject id := by
  rw [getProject, query_of_isText hid, h.projects, Store.getProject]
  cases hp : s.projects.get id with
  | none => rfl
  | some p =>
    obtain rfl := s.projects_keyed id p hp
    exact scanProject_eq (h.exact.projects _ p hp) order

theorem listProjects_eq (h : Represents codecs s D) (scan : RowOrder GoString)
    (order order' : MapOrder) :
    listProjects codecs.config order D scan id = .ok (s.listProjects order') := by
  obtain ⟨ps, hperm, hselect⟩ := select_values (T := D.projects) (m := s.projects)
    (fun _ _ => true) (fun _ => true) (·.id) (projectCells codecs.config)
    (fun k p k' p' hp hp' heq => by
      rw [← s.projects_keyed k p hp, ← s.projects_keyed k' p' hp', heq])
    (fun k p hp => by
      rw [s.projects_keyed k p hp, h.projects, hp]
      exact ⟨rfl, rfl⟩)
    (fun k c hk _ => by
      rw [h.projects, Option.map_eq_some_iff] at hk
      obtain ⟨p, hp, -⟩ := hk
      exact ⟨k, p, hp, s.projects_keyed k p hp⟩) scan order'
  rw [List.filter_true] at hperm
  have hget : ∀ p ∈ ps, s.projects.get p.id = some p := by
    intro p hp
    obtain ⟨k, hk⟩ := GoMap.mem_values.mp (hperm.mem_iff.mp hp)
    rw [s.projects_keyed k p hk]
    exact hk
  have hexact : ∀ p ∈ ps, ProjectExact codecs.config p :=
    fun p hp => h.exact.projects _ p (hget p hp)
  have hsort := orderRows_map id (·.createdAt) (·.id) (·.2.createdAt) ([·.1])
    (fun p : Project => (⟨p.id, projectCells codecs.config p⟩ : Σ _ : GoString, ProjectCells))
    (fun a ha b hb => micros_lt_iff (hexact a ha).created (hexact b hb).created)
    (fun _ _ _ _ => orderBy_id_le_iff)
  rw [listProjects, hselect, hsort, List.mapM_map]
  have hscan := mapM_of_ok (l := Store.sortByTime (·.createdAt) (·.id) ps)
    (f := fun p => scanProject codecs.config order p.id (projectCells codecs.config p)) (g := id)
    (fun p hp => scanProject_eq (hexact p ((List.mem_insertionSort _).mp hp)) order)
  refine hscan.trans (congrArg Except.ok ?_)
  rw [List.map_id]
  refine sortByTime_of_perm hperm fun a ha b hb heq => ?_
  have hb' := hget b hb
  rw [← heq, hget a ha] at hb'
  exact Option.some.inj hb'

end Rows

/-! ## Listings across tenants -/

section Listings

variable {codecs : Codecs} {s : Store} {D : Database} {projectID : GoString}

/-- The rows of a project that a query selects, tenant by tenant. -/
theorem collectTupleAt_perm (h : Represents codecs s D) (hproject : 0 ∉ projectID)
    (cond : SubjectCols → Bool) (want : Tuple → Bool)
    (hwant : ∀ t, Storable codecs.params t → cond (tupleCols t) = want t)
    (scan : RowOrder TupleKey) (collate : GoString → GoString) (order : MapOrder) (now : Time) :
    ∃ tas, collectTupleAt D.toContents codecs.params scan collate now projectID cond = .ok tas ∧
      tas.Perm (s.tuplesInProject order projectID fun t => want t && t.activeAt now) := by
  have hlisted : ((s.tuplesInProject order projectID fun t => want t && t.activeAt now :
      List TupleAt) : Multiset TupleAt) = (s.tuplesOf projectID).filter
        fun ta => want ta.tuple && ta.tuple.activeAt now := by
    rw [coe_tuplesInProject]
    simp [mislabel_eq_nil.mpr hproject]
  have hmem {ta : TupleAt} : ta ∈ (s.tuplesOf projectID).filter
      (fun ta => want ta.tuple && ta.tuple.activeAt now) ↔
      s.Stored projectID ta.tenantID ta.tuple ∧ want ta.tuple && ta.tuple.activeAt now := by
    rw [Multiset.mem_filter, mem_tuplesOf]
  have hentries : (D.relationTuples.filter fun k c =>
      k.projectID = projectID && cond k.subject && isActive now c).entries =
      ((s.tuplesOf projectID).filter fun ta => want ta.tuple && ta.tuple.activeAt now).map
        fun ta => ⟨TupleRow.key ⟨projectID, ta.tenantID, ta.tuple⟩,
          tupleCells codecs.params ta.tuple⟩ := by
    apply Table.entries_filter_eq_map
    · exact Multiset.nodup_of_le (Multiset.map_le_map (Multiset.filter_le _ _))
        (nodup_keys_tuplesOf s projectID)
    · intro k c
      have hrow := lookup_relationTuples_iff h.contents hproject (k := k) (c := c)
      simp only [hmem]
      constructor
      · rintro ⟨hk, hcond⟩
        simp only [Bool.and_eq_true, decide_eq_true_eq] at hcond
        obtain ⟨tenantID, t, ht, rfl, rfl⟩ := hrow.mp ⟨hk, hcond.1.1⟩
        refine ⟨⟨tenantID, t⟩, ⟨ht, ?_⟩, rfl, rfl⟩
        have hstored := (h.contents.storable _ _ _ ht).1
        rw [← hwant t hstored, ← isActive_eq hstored, Bool.and_eq_true]
        exact ⟨hcond.1.2, hcond.2⟩
      · rintro ⟨⟨tenantID, t⟩, ⟨ht, hcond⟩, rfl, rfl⟩
        have hstored := (h.contents.storable _ _ _ ht).1
        refine ⟨(hrow.mpr ⟨tenantID, t, ht, rfl, rfl⟩).1, ?_⟩
        rw [← hwant t hstored, ← isActive_eq hstored] at hcond
        simpa [TupleRow.key] using hcond
  rw [← hlisted] at hentries
  obtain ⟨tas, hperm, hselect⟩ := Table.select_eq_map hentries scan
  -- the rows are sorted before they are read
  obtain ⟨sorted, hsorted, hrows⟩ := exists_perm_map
    ((List.perm_insertionSort (fun a b : Σ _ : TupleKey, TupleCells =>
      orderBy collate [a.1.tenantID, a.1.ns, a.1.objectID, a.1.relation] ≤
        orderBy collate [b.1.tenantID, b.1.ns, b.1.objectID, b.1.relation]) _).trans
        (.of_eq hselect))
  refine ⟨sorted, ?_, hsorted.trans hperm⟩
  have hscan : ∀ ta ∈ sorted, scanTupleAt codecs.params
      (TupleRow.key ⟨projectID, ta.tenantID, ta.tuple⟩) (tupleCells codecs.params ta.tuple) =
        .ok ta := by
    intro ta hta
    rw [(hsorted.trans hperm).mem_iff, ← Multiset.mem_coe, hlisted, hmem] at hta
    rw [scanTupleAt, scanTuple_eq (h.contents.storable _ _ _ hta.1).1,
      h.exact.tuples _ _ _ hta.1]
    rfl
  rw [collectTupleAt, hrows, List.mapM_map]
  exact (mapM_of_ok (g := id) hscan).trans (by rw [List.map_id])

theorem listSubjectTuplesInProject_perm (h : Represents codecs s D) {userID : GoString}
    (htexts : ∀ x ∈ [projectID, userID], isText x) (scan : RowOrder TupleKey)
    (collate : GoString → GoString) (order : MapOrder) (now : Time) :
    ∃ tas, listSubjectTuplesInProject D.toContents codecs.params scan collate now projectID
        userID = .ok tas ∧
      tas.Perm (s.listSubjectTuplesInProject order now projectID userID) := by
  have hproject := zero_notMem_of_isText (htexts projectID (by simp))
  have hcollect := collectTupleAt_perm h hproject (fun c => c.kind = .user && c.userID = userID)
    (Store.isConcrete userID) (fun t _ => by
      rw [tupleCols, Store.isConcrete]
      cases t.subject.wildcard <;> cases t.subject.set <;> simp) scan collate order now
  rw [listSubjectTuplesInProject, query_of_isText htexts]
  exact hcollect

theorem listTuplesForSubjectSetsInProject_perm (h : Represents codecs s D)
    {sets : List SubjectSet} (htexts : ∀ x ∈ projectID ::
      sets.flatMap fun set => [set.ns, set.objectID, set.relation], isText x)
    (scan : RowOrder TupleKey) (collate : GoString → GoString) (order : MapOrder) (now : Time) :
    ∃ tas, listTuplesForSubjectSetsInProject D.toContents codecs.params scan collate now projectID
        sets = .ok tas ∧
      tas.Perm (s.listTuplesForSubjectSetsInProject order now projectID sets) := by
  have hproject := zero_notMem_of_isText (htexts projectID (by simp))
  have hcollect := collectTupleAt_perm h hproject
    (fun c => c.kind = .set && (⟨c.ns, c.objectID, c.relation⟩ : SubjectSet) ∈ sets)
    (fun t => t.subject.set.any (· ∈ sets)) (fun t ht => by
      have hvalid := ht.valid
      unfold Subject.Valid at hvalid
      rw [tupleCols]
      cases hset : t.subject.set <;> cases hwildcard : t.subject.wildcard <;> simp_all)
    scan collate order now
  rw [listTuplesForSubjectSetsInProject, query_of_isText htexts,
    Store.listTuplesForSubjectSetsInProject]
  split_ifs with hsets
  · exact ⟨[], rfl, .refl _⟩
  · exact hcollect

/-- The listings of tuples return the same up to the order. -/
structure SameListings (codecs : Codecs) (s : Store) (T : Contents) : Prop where
  tuples : ∀ (scan : RowOrder TupleKey) (collate : GoString → GoString) (order : MapOrder)
    (now : Time) (projectID tenantID : GoString) (f : TupleFilter),
    (∀ x ∈ [projectID, tenantID, f.ns, f.objectID, f.relation, f.subjectUserID], isText x) →
    ∃ tuples, readTuples T codecs.params scan collate now projectID tenantID f = .ok tuples ∧
      tuples.Perm (s.readTuples order now projectID tenantID f)
  subject : ∀ (scan : RowOrder TupleKey) (collate : GoString → GoString) (order : MapOrder)
    (now : Time) (projectID userID : GoString), (∀ x ∈ [projectID, userID], isText x) →
    ∃ tas, listSubjectTuplesInProject T codecs.params scan collate now projectID userID =
        .ok tas ∧ tas.Perm (s.listSubjectTuplesInProject order now projectID userID)
  sets : ∀ (scan : RowOrder TupleKey) (collate : GoString → GoString) (order : MapOrder)
    (now : Time) (projectID : GoString) (sets : List SubjectSet),
    (∀ x ∈ projectID :: sets.flatMap fun set => [set.ns, set.objectID, set.relation], isText x) →
    ∃ tas, listTuplesForSubjectSetsInProject T codecs.params scan collate now projectID sets =
        .ok tas ∧ tas.Perm (s.listTuplesForSubjectSetsInProject order now projectID sets)

theorem sameListings (h : Represents codecs s D) : SameListings codecs s D.toContents where
  tuples scan collate order now projectID tenantID f htexts := by
    obtain ⟨tuples, heq, hperm⟩ := readTuples_perm h.contents scan collate order now htexts
    have hnormal : (s.readTuples order now projectID tenantID f).map normalTuple =
        s.readTuples order now projectID tenantID f := by
      refine (List.map_congr_left fun t ht => ?_).trans (List.map_id _)
      have hmem := (List.mem_filter.mp ((List.mem_insertionSort _).mp ht)).1
      obtain ⟨k, hk⟩ := GoMap.mem_values.mp hmem
      exact h.exact.tuples _ k t hk
    exact ⟨tuples, heq, hnormal ▸ hperm⟩
  subject scan collate order now _ _ htexts :=
    listSubjectTuplesInProject_perm h htexts scan collate order now
  sets scan collate order now _ _ htexts :=
    listTuplesForSubjectSetsInProject_perm h htexts scan collate order now

end Listings

end Serial

end Postgres

end WorkspaceAuthz.Service
