import WorkspaceAuthz.Service.PostgresStore

/-! # The two drivers agree

The memory store and the Postgres tables are run side by side on the same calls.
Every map of the store is followed by a table: what is stored in a shard under a key
of the map is the row under the columns that the key is made of. Calls get the same
results, and keep the tables in step with the maps.
-/
namespace WorkspaceAuthz.Service
open Go Authz Interleaving FiniteMaps

namespace Postgres

/-! ## What is written -/

def normalSubject (s : Subject) : Subject :=
  { s with condition := s.condition.filter (·.name ≠ []) }

def normalTuple (t : Tuple) : Tuple := { t with subject := normalSubject t.subject }

def tupleTexts (t : Tuple) : List GoString :=
  tupleFields t ++ t.subject.userID ::
    (t.subject.set.elim [] fun set => [set.ns, set.objectID, set.relation]) ++
    (t.subject.condition.elim [] fun c => [c.name])

/-- A tuple that can be stored in the database and read back. -/
structure Storable (codec : ParamsCodec) (t : Tuple) : Prop where
  valid : t.subject.Valid
  params : ∀ c, t.subject.condition = some c → codec.Survives c.params
  expiry : ∀ expiry, t.expiresAt = some expiry → (1000 : ℤ) ∣ expiry
  texts : ∀ x ∈ tupleTexts t, isText x

def Mutation.texts : Mutation → List GoString
  | .writeTuples projectID tenantID _ _ => [projectID, tenantID]
  | .putMembershipAndTuples m _ _ => [m.projectID, m.tenantID, m.workspaceID, m.userID]
  | .deleteMembershipAndTuples projectID tenantID workspaceID userID _ =>
    [projectID, tenantID, workspaceID, userID]
  | .setEnrollmentAndTuples e _ _ =>
    [e.projectID, e.tenantID, e.groupID, e.member.userID, e.member.groupID]
  | .assignSeatAndTuple a _ => [a.projectID, a.tenantID, a.sku, a.userID]
  | .revokeSeatAndTuple projectID tenantID sku userID _ => [projectID, tenantID, sku, userID]
  | .setSeatLimit projectID tenantID sku _ => [projectID, tenantID, sku]
  | .createWorkspace w =>
    [w.projectID, w.tenantID, w.id, w.slug, w.displayName, w.ownerUserID]
  | .deleteWorkspace projectID tenantID id => [projectID, tenantID, id]
  | .createGroup g =>
    [g.projectID, g.tenantID, g.id, g.workspaceID, g.slug, g.displayName, g.createdBy]
  | .deleteGroup projectID tenantID id => [projectID, tenantID, id]
  | .deleteAllSubjectTuplesInProject projectID userID => [projectID, userID]

def Mutation.tuples : Mutation → List Tuple
  | .writeTuples _ _ inserts deletes | .putMembershipAndTuples _ inserts deletes
  | .setEnrollmentAndTuples _ inserts deletes => inserts ++ deletes
  | .deleteMembershipAndTuples _ _ _ _ deletes => deletes
  | .assignSeatAndTuple _ tuple | .revokeSeatAndTuple _ _ _ _ tuple => [tuple]
  | _ => []

def Mutation.limit : Mutation → Option ℤ
  | .setSeatLimit _ _ _ limit => limit
  | _ => none

structure Mutation.Validated (codec : ParamsCodec) (m : Mutation) : Prop where
  texts : ∀ x ∈ m.texts, isText x
  tuples : ∀ t ∈ m.tuples, Storable codec t
  limit : ∀ limit, m.limit = some limit → isInteger limit

namespace Serial

/-! ## Texts -/

theorem zero_notMem_of_isText {s : GoString} (h : isText s) : 0 ∉ s := by
  simp only [isText, Bool.and_eq_true, decide_eq_true_eq] at h
  exact h.1

theorem isText_str {l : List String} (h : ∀ s ∈ l, 0 ∉ str s) : ∀ x ∈ l.map str, isText x := by
  intro x hx
  obtain ⟨s, hs, rfl⟩ := List.mem_map.mp hx
  simp only [isText, Bool.and_eq_true, decide_eq_true_eq, ByteArray.validateUTF8_eq_true_iff]
  exact ⟨h s hs, s.isValidUTF8⟩

theorem isText_append {s s' : GoString} (h : isText s) (h' : isText s') : isText (s ++ s') := by
  simp only [isText, Bool.and_eq_true, decide_eq_true_eq, ByteArray.validateUTF8_eq_true_iff]
    at h h' ⊢
  refine ⟨by simp [h.1, h'.1], ?_⟩
  have hbytes : (⟨(s ++ s').toArray⟩ : ByteArray) = ⟨s.toArray⟩ ++ ⟨s'.toArray⟩ := by
    apply ByteArray.ext
    simp
  rw [hbytes]
  exact h.2.append h'.2

theorem isText_seatLockKey {q : SkuKey} (hproject : isText q.projectID)
    (htenant : isText q.tenantID) (hsku : isText q.sku) : isText (seatLockKey q) := by
  have hseparator : ∀ {s : GoString}, isText s → isText (0x1F :: s) :=
    fun h => isText_append (s := [0x1F]) (by decide) h
  exact isText_append (isText_append (isText_append (by decide) (hseparator hproject))
    (hseparator htenant)) (hseparator hsku)

theorem isText_keyArgs {codec : ParamsCodec} {projectID tenantID : GoString} {t : Tuple}
    (hproject : isText projectID) (htenant : isText tenantID) (ht : Storable codec t) :
    ∀ x ∈ keyArgs (TupleRow.key ⟨projectID, tenantID, t⟩), isText x := by
  have htexts := ht.texts
  have hempty : isText [] := by decide
  have hkind : ∀ kind : SubjectKind, isText kind.name := by
    intro kind
    cases kind <;> decide
  unfold keyArgs TupleRow.key SubjectCols.columns tupleCols
  unfold tupleTexts tupleFields at htexts
  cases t.subject.wildcard <;> cases hset : t.subject.set <;>
    simp_all

theorem isText_conditionName {codec : ParamsCodec} {t : Tuple} (ht : Storable codec t) :
    isText (conditionCols codec t).1 := by
  have hempty : isText [] := by decide
  unfold conditionCols
  cases hcondition : t.subject.condition with
  | none => exact hempty
  | some c =>
    have hname : isText c.name := ht.texts _ (by simp [tupleTexts, hcondition])
    dsimp only
    split_ifs
    · exact hempty
    · exact hname

theorem jsonb_isSome {codec : ParamsCodec} {t : Tuple} (ht : Storable codec t) :
    (codec.jsonb (conditionCols codec t).2).isSome := by
  unfold conditionCols
  cases hcondition : t.subject.condition with
  | none => exact codec.jsonb_object
  | some c =>
    obtain ⟨text, stored, hmarshal, hjsonb, -⟩ := ht.params c hcondition
    dsimp only
    split_ifs
    · exact codec.jsonb_object
    · rw [hmarshal, Option.getD_some, hjsonb]
      rfl

/-! ## Transactions -/

section Transactions

variable {α β : Type} {T T' : Contents} {a : α}

theorem txExec_of_isText {args : List GoString} {run : Contents → α × Contents}
    (h : ∀ x ∈ args, isText x) (T : Contents) : txExec args run T = .ok (run T) :=
  if_pos (List.all_eq_true.mpr h)

theorem bind_of_ok {x : Tx α} {f : α → Tx β} (h : x T = .ok (a, T')) : (x >>= f) T = f a T' := by
  change (x T >>= fun p => f p.1 p.2) = _
  rw [h]
  rfl

theorem bind_of_error {x : Tx α} {f : α → Tx β} {e : ServiceError} (h : x T = .error e) :
    (x >>= f) T = .error e := by
  change (x T >>= fun p => f p.1 p.2) = _
  rw [h]
  rfl

theorem txExec_bind {args : List GoString} (h : ∀ x ∈ args, isText x)
    (run : Contents → α × Contents) (f : α → Tx β) (T : Contents) :
    (txExec args run >>= f) T = f (run T).1 (run T).2 :=
  bind_of_ok (txExec_of_isText h T)

theorem transact_of_ok {x : Tx α} (h : x T = .ok (a, T')) : transact x T = (.ok a, T') := by
  rw [transact, h]

theorem transact_of_error {x : Tx α} {e : ServiceError} (h : x T = .error e) :
    transact x T = (.error e, T) := by
  rw [transact, h]

theorem forM_of_ok {γ : Type} {l : List γ} {body : γ → Tx Unit}
    (next : Table TupleKey TupleCells → γ → Table TupleKey TupleCells)
    (h : ∀ c ∈ l, ∀ T, body c T = .ok ((), { T with
      relationTuples := next T.relationTuples c })) (T : Contents) :
    l.forM body T = .ok ((), { T with relationTuples := l.foldl next T.relationTuples }) := by
  induction l generalizing T with
  | nil => rfl
  | cons c l ih =>
    rw [List.forM_eq_forM, List.forM_cons, bind_of_ok (h c List.mem_cons_self T),
      ← List.forM_eq_forM, ih fun c' hc' => h c' (List.mem_cons_of_mem c hc')]
    rfl

end Transactions

/-! ## Tables that follow maps -/

section Tracks

variable {ι κ β ρ : Type} [DecidableEq κ]

/-- In the shards of ids without NUL, the table has the rows that the lookups find. -/
def Tracks (enc : GoString → GoString → ι → κ) (row : β → ρ) (look : GoString → ι → Option β)
    (T : Table κ ρ) : Prop :=
  ∀ projectID tenantID i, 0 ∉ projectID → 0 ∉ tenantID →
    T.lookup (enc projectID tenantID i) = (look (scope projectID tenantID) i).map row

theorem scope_eq_scope_iff {projectID tenantID projectID' tenantID' : GoString}
    (hproject : 0 ∉ projectID) (hproject' : 0 ∉ projectID') :
    scope projectID tenantID = scope projectID' tenantID' ↔
      projectID = projectID' ∧ tenantID = tenantID' := by
  constructor
  · exact append_cons_inj hproject hproject'
  · rintro ⟨rfl, rfl⟩
    rfl

variable {enc : GoString → GoString → ι → κ} {row : β → ρ} {look look' : GoString → ι → Option β}
  {T : Table κ ρ}

section Key

variable {projectID tenantID : GoString} (same : ι → Prop) [DecidablePred same] (i₀ : ι)
  (hproject : 0 ∉ projectID)
  (henc : ∀ projectID' tenantID' i, enc projectID' tenantID' i = enc projectID tenantID i₀ ↔
    projectID' = projectID ∧ tenantID' = tenantID ∧ same i)
include hproject henc

theorem Tracks.insert {v : β} (h : Tracks enc row look T)
    (hlook : ∀ sk i, look' sk i = if sk = scope projectID tenantID ∧ same i then some v
      else look sk i) :
    Tracks enc row look' (T.insert (enc projectID tenantID i₀) (row v)) := by
  intro projectID' tenantID' i hproject' htenant'
  rw [Table.lookup_insert_ite, hlook, h _ _ _ hproject' htenant']
  simp only [henc, scope_eq_scope_iff hproject' hproject, and_assoc]
  split_ifs <;> rfl

theorem Tracks.erase (h : Tracks enc row look T)
    (hlook : ∀ sk i, look' sk i = if sk = scope projectID tenantID ∧ same i then none
      else look sk i) :
    Tracks enc row look' (T.erase (enc projectID tenantID i₀)) := by
  intro projectID' tenantID' i hproject' htenant'
  rw [Table.lookup_erase_ite, hlook, h _ _ _ hproject' htenant']
  simp only [henc, scope_eq_scope_iff hproject' hproject, and_assoc]
  split_ifs <;> rfl

end Key

theorem Tracks.filter {keep : κ → ρ → Bool} (keep' : GoString → ι → β → Bool)
    (h : Tracks enc row look T)
    (hlook : ∀ sk i, look' sk i = (look sk i).filter (keep' sk i))
    (hkeep : ∀ projectID tenantID i v, 0 ∉ projectID → 0 ∉ tenantID →
      look (scope projectID tenantID) i = some v →
        keep (enc projectID tenantID i) (row v) = keep' (scope projectID tenantID) i v) :
    Tracks enc row look' (T.filter keep) := by
  intro projectID tenantID i hproject htenant
  rw [Table.lookup_filter, hlook, h _ _ _ hproject htenant]
  cases hv : look (scope projectID tenantID) i with
  | none => rfl
  | some v =>
    simp only [Option.map_some, Option.filter_some, hkeep _ _ _ _ hproject htenant hv]
    split_ifs <;> rfl

theorem Tracks.delete {keep : κ → ρ → Bool} (gone : GoString → ι → Prop)
    [∀ sk i, Decidable (gone sk i)] (h : Tracks enc row look T)
    (hlook : ∀ sk i, look' sk i = if gone sk i then none else look sk i)
    (hkeep : ∀ projectID tenantID i r, 0 ∉ projectID → 0 ∉ tenantID →
      (keep (enc projectID tenantID i) r ↔ ¬ gone (scope projectID tenantID) i)) :
    Tracks enc row look' (T.filter keep) := by
  apply Tracks.filter (fun sk i _ => ¬ gone sk i) h
  · intro sk i
    rw [hlook]
    cases look sk i <;> by_cases hgone : gone sk i <;> simp [hgone, Option.filter]
  · intro projectID tenantID i v hproject htenant _
    rw [Bool.eq_iff_iff, hkeep _ _ _ _ hproject htenant, decide_eq_true_eq]

end Tracks

/-- The tables are in step with the maps of the store. -/
structure Mirrors (codec : ParamsCodec) (s : Store) (T : Contents) : Prop where
  workspaces : Tracks RowKey.mk workspaceRow s.workspaces.get₂ T.workspaces
  memberships : Tracks (fun projectID tenantID (i : GoString × GoString) =>
      MembershipKey.mk projectID tenantID i.1 i.2) membershipRow
    (fun sk i => s.memberships.get₃ sk i.1 i.2) T.memberships
  invitations : Tracks RowKey.mk invitationRow s.invitations.get₂ T.invitations
  groups : Tracks RowKey.mk groupRow s.groups.get₂ T.groups
  enrollments : Tracks
    (fun projectID tenantID (i : GoString × GroupMember) =>
      EnrollmentKey.mk projectID tenantID i.1 (memberKey i.2))
    enrollmentCells (fun sk i => s.enrollments.get₃ sk i.1 (enrollmentKey i.2)) T.enrollments
  seatLimits : Tracks SkuKey.mk id s.seatLimits.get₂ T.seatLimits
  seats : Tracks (fun projectID tenantID (i : GoString × GoString) =>
      SeatKey.mk ⟨projectID, tenantID, i.1⟩ i.2) seatRow
    (fun sk i => s.seatAssigns.get₃ sk i.1 i.2) T.seatAssignments
  seqs : Tracks (fun projectID tenantID (_ : Unit) => ShardKey.mk projectID tenantID) id
    (fun sk _ => s.seqs.get sk) T.consistencySeq
  tuples : Tracks (fun projectID tenantID t => TupleRow.key ⟨projectID, tenantID, t⟩)
    (tupleCells codec) (fun sk t => s.tuples.get₂ sk (tupleKey t)) T.relationTuples
  tupleKeys : ∀ k c, T.relationTuples.lookup k = some c → ∃ projectID tenantID t,
    0 ∉ projectID ∧ 0 ∉ tenantID ∧ TupleRow.key ⟨projectID, tenantID, t⟩ = k
  storable : ∀ sk k t, s.tuples.get₂ sk k = some t → Storable codec t ∧
    ∃ projectID tenantID, 0 ∉ projectID ∧ 0 ∉ tenantID ∧ scope projectID tenantID = sk

theorem mirrors_empty (codec : ParamsCodec) : Mirrors codec .empty {} where
  workspaces _ _ _ _ _ := by simp [Store.empty]
  memberships _ _ _ _ _ := by simp [Store.empty]
  invitations _ _ _ _ _ := by simp [Store.empty]
  groups _ _ _ _ _ := by simp [Store.empty]
  enrollments _ _ _ _ _ := by simp [Store.empty]
  seatLimits _ _ _ _ _ := by simp [Store.empty]
  seats _ _ _ _ _ := by simp [Store.empty]
  seqs _ _ _ _ _ := by simp [Store.empty]
  tuples _ _ _ _ _ := by simp [Store.empty]
  tupleKeys _ _ h := by simp at h
  storable _ _ _ h := by simp [Store.empty] at h

/-! ## Writing tuples -/

theorem key_eq_key_iff {projectID tenantID projectID' tenantID' : GoString} {t t' : Tuple} :
    TupleRow.key ⟨projectID, tenantID, t⟩ = TupleRow.key ⟨projectID', tenantID', t'⟩ ↔
      projectID = projectID' ∧ tenantID = tenantID' ∧ tupleKey t = tupleKey t' := by
  rw [tupleKey_eq_tupleKey_iff, subjectKey_eq_iff_tupleCols]
  simp [TupleRow.key]

def writtenRows (codec : ParamsCodec) (projectID tenantID : GoString)
    (inserts deletes : List Tuple) (rows : Table TupleKey TupleCells) :
    Table TupleKey TupleCells :=
  inserts.foldl
    (fun rows t => rows.insert (TupleRow.key ⟨projectID, tenantID, t⟩) (tupleCells codec t))
    (deletes.foldl (fun rows t => rows.erase (TupleRow.key ⟨projectID, tenantID, t⟩)) rows)

def bumpedSeq (projectID tenantID : GoString) (seqs : Table ShardKey ℤ) : Table ShardKey ℤ :=
  seqs.insert ⟨projectID, tenantID⟩ ((seqs.lookup ⟨projectID, tenantID⟩).getD 0 + 1)

section Writes

variable {codec : ParamsCodec} {s : Store} {T : Contents} {projectID tenantID : GoString}

theorem bumpSeqExec_eq (hproject : isText projectID) (htenant : isText tenantID) (T : Contents) :
    bumpSeqExec projectID tenantID T = .ok ((), { T with
      consistencySeq := bumpedSeq projectID tenantID T.consistencySeq }) := by
  rw [bumpSeqExec, txExec_of_isText (by simp [hproject, htenant]), bumpedSeq]
  cases T.consistencySeq.lookup ⟨projectID, tenantID⟩ <;> rfl

theorem writeTuplesExec_eq (hproject : isText projectID) (htenant : isText tenantID)
    {inserts deletes : List Tuple} (hinserts : ∀ t ∈ inserts, Storable codec t)
    (hdeletes : ∀ t ∈ deletes, Storable codec t) (T : Contents) :
    writeTuplesExec codec projectID tenantID inserts deletes T = .ok ((), { T with
      relationTuples := writtenRows codec projectID tenantID inserts deletes T.relationTuples
      consistencySeq := bumpedSeq projectID tenantID T.consistencySeq }) := by
  have hdelete : ∀ t ∈ deletes, ∀ T, deleteTuple projectID tenantID t T = .ok ((), { T with
      relationTuples := T.relationTuples.erase (TupleRow.key ⟨projectID, tenantID, t⟩) }) :=
    fun t ht T => by
      rw [deleteTuple, txExec_of_isText (isText_keyArgs hproject htenant (hdeletes t ht))]
  have hinsert : ∀ t ∈ inserts, ∀ T, upsertTuple codec projectID tenantID t T = .ok ((), { T with
      relationTuples := T.relationTuples.insert (TupleRow.key ⟨projectID, tenantID, t⟩)
        (tupleCells codec t) }) := by
    intro t ht T
    have hargs : ∀ x ∈ keyArgs (TupleRow.key ⟨projectID, tenantID, t⟩) ++
        [(conditionCols codec t).1], isText x := by
      intro x hx
      obtain hx | hx := List.mem_append.mp hx
      · exact isText_keyArgs hproject htenant (hinserts t ht) x hx
      · rw [List.mem_singleton.mp hx]
        exact isText_conditionName (hinserts t ht)
    rw [upsertTuple, if_pos (jsonb_isSome (hinserts t ht)), txExec_of_isText hargs]
  have hdeleted := forM_of_ok
    (fun rows t => rows.erase (TupleRow.key ⟨projectID, tenantID, t⟩)) hdelete T
  have hinserted := forM_of_ok (fun rows t =>
    rows.insert (TupleRow.key ⟨projectID, tenantID, t⟩) (tupleCells codec t)) hinsert
  rw [writeTuplesExec, bind_of_ok hdeleted, bind_of_ok (hinserted _),
    bumpSeqExec_eq hproject htenant]
  rfl

theorem tracks_bumpedSeq (h : Mirrors codec s T) (hproject : 0 ∉ projectID)
    (htenant : 0 ∉ tenantID) :
    Tracks (fun projectID tenantID (_ : Unit) => ShardKey.mk projectID tenantID) id
      (fun sk _ => GoMap.get (s.seqs.insert (scope projectID tenantID)
        ((s.seqs.get (scope projectID tenantID)).getD 0 + 1)) sk)
      (bumpedSeq projectID tenantID T.consistencySeq) := by
  have hseq : T.consistencySeq.lookup ⟨projectID, tenantID⟩ =
      s.seqs.get (scope projectID tenantID) := by
    rw [h.seqs projectID tenantID () hproject htenant, Option.map_id]
    rfl
  rw [bumpedSeq, hseq]
  refine Tracks.insert (fun _ => True) () hproject (by simp) h.seqs fun sk _ => ?_
  rw [GoMap.get_insert]
  simp

/-- The last insert with a key counts, on both sides. -/
theorem tracks_writtenRows (h : Mirrors codec s T) (hproject : 0 ∉ projectID)
    (inserts deletes : List Tuple) :
    Tracks (fun projectID tenantID t => TupleRow.key ⟨projectID, tenantID, t⟩) (tupleCells codec)
      (fun sk t =>
        (s.writeTuples projectID tenantID inserts deletes).tuples.get₂ sk (tupleKey t))
      (writtenRows codec projectID tenantID inserts deletes T.relationTuples) := by
  intro projectID' tenantID' t hproject' htenant'
  have hrow := h.tuples projectID' tenantID' t hproject' htenant'
  rw [writtenRows, Table.lookup_foldl_insert, Table.lookup_foldl_erase, hrow]
  simp only [Store.get_tuples_writeTuples, scope_eq_scope_iff hproject' hproject]
  by_cases hshard : projectID' = projectID ∧ tenantID' = tenantID
  · obtain ⟨rfl, rfl⟩ := hshard
    simp only [key_eq_key_iff, List.mem_map, true_and, and_self, if_true, Option.map_or]
    congr 1
    split_ifs <;> rfl
  · have hne : ∀ t' : Tuple, TupleRow.key ⟨projectID, tenantID, t'⟩ ≠
        TupleRow.key ⟨projectID', tenantID', t⟩ := by
      intro t' heq
      obtain ⟨rfl, rfl, -⟩ := key_eq_key_iff.mp heq
      exact hshard ⟨rfl, rfl⟩
    have hfind : (inserts.reverse.find? fun t' => TupleRow.key ⟨projectID, tenantID, t'⟩ =
        TupleRow.key ⟨projectID', tenantID', t⟩) = none :=
      List.find?_eq_none.mpr (by simp [hne])
    rw [hfind]
    simp [hne, hshard]

theorem Mirrors.writeTuples (h : Mirrors codec s T) (hproject : 0 ∉ projectID)
    (htenant : 0 ∉ tenantID) {inserts : List Tuple}
    (hinserts : ∀ t ∈ inserts, Storable codec t) (deletes : List Tuple) :
    Mirrors codec (s.writeTuples projectID tenantID inserts deletes) { T with
      relationTuples := writtenRows codec projectID tenantID inserts deletes T.relationTuples
      consistencySeq := bumpedSeq projectID tenantID T.consistencySeq } where
  workspaces := h.workspaces
  memberships := h.memberships
  invitations := h.invitations
  groups := h.groups
  enrollments := h.enrollments
  seatLimits := h.seatLimits
  seats := h.seats
  seqs := tracks_bumpedSeq h hproject htenant
  tuples := tracks_writtenRows h hproject inserts deletes
  tupleKeys := by
    intro k c hk
    rw [writtenRows, Table.lookup_foldl_insert, Table.lookup_foldl_erase] at hk
    cases hfind : inserts.reverse.find? fun t => TupleRow.key ⟨projectID, tenantID, t⟩ = k with
    | some t =>
      have hkey := List.find?_some hfind
      exact ⟨projectID, tenantID, t, hproject, htenant, of_decide_eq_true hkey⟩
    | none =>
      rw [hfind, Option.map_none, Option.none_or] at hk
      split_ifs at hk
      exact h.tupleKeys k c hk
  storable := by
    intro sk k t ht
    rw [Store.get_tuples_writeTuples] at ht
    split_ifs at ht with hsk hdeleted
    · rw [Option.or_none] at ht
      have hmem := List.mem_reverse.mp (List.mem_of_find?_eq_some ht)
      exact ⟨hinserts t hmem, projectID, tenantID, hproject, htenant, hsk.symm⟩
    · obtain hfind | ⟨-, hget⟩ := Option.or_eq_some_iff.mp ht
      · have hmem := List.mem_reverse.mp (List.mem_of_find?_eq_some hfind)
        exact ⟨hinserts t hmem, projectID, tenantID, hproject, htenant, hsk.symm⟩
      · exact h.storable sk k t hget
    · exact h.storable sk k t ht

end Writes

/-! ## Calls -/

/-- A transaction returns what the store returns, and the tables stay in step. -/
def Agrees {α : Type} (codec : ParamsCodec) (x : Tx α) (T : Contents)
    (r : Except ServiceError α × Store) : Prop :=
  (transact x T).1 = r.1 ∧ Mirrors codec r.2 (transact x T).2

section Calls

variable {codec : ParamsCodec} {s s' : Store} {T T' : Contents} {projectID tenantID : GoString}

theorem Agrees.of_ok {α : Type} {x : Tx α} {a : α} {r : Except ServiceError α × Store}
    (hx : x T = .ok (a, T')) (hr : r = (.ok a, s')) (h : Mirrors codec s' T') :
    Agrees codec x T r := by
  rw [Agrees, transact_of_ok hx, hr]
  exact ⟨rfl, h⟩

theorem Agrees.of_error {α : Type} {x : Tx α} {e : ServiceError}
    {r : Except ServiceError α × Store} (hx : x T = .error e) (hr : r = (.error e, s))
    (h : Mirrors codec s T) : Agrees codec x T r := by
  rw [Agrees, transact_of_error hx, hr]
  exact ⟨rfl, h⟩

theorem storable_nil (codec : ParamsCodec) : ∀ t ∈ ([] : List Tuple), Storable codec t := by simp

theorem agrees_writeTuplesExec {inserts deletes : List Tuple} (h : Mirrors codec s T)
    (hproject : isText projectID) (htenant : isText tenantID)
    (hinserts : ∀ t ∈ inserts, Storable codec t) (hdeletes : ∀ t ∈ deletes, Storable codec t) :
    ∃ T', writeTuplesExec codec projectID tenantID inserts deletes T = .ok ((), T') ∧
      Mirrors codec (s.writeTuples projectID tenantID inserts deletes) T' :=
  ⟨_, writeTuplesExec_eq hproject htenant hinserts hdeletes T,
    h.writeTuples (zero_notMem_of_isText hproject) (zero_notMem_of_isText htenant) hinserts
      deletes⟩

/-! ### Memberships -/

theorem agrees_putMembershipAndTuples {m : Membership} {inserts deletes : List Tuple}
    (h : Mirrors codec s T)
    (htexts : ∀ x ∈ [m.projectID, m.tenantID, m.workspaceID, m.userID], isText x)
    (hinserts : ∀ t ∈ inserts, Storable codec t) (hdeletes : ∀ t ∈ deletes, Storable codec t) :
    Agrees codec (putMembershipAndTuples codec m inserts deletes) T
      (.ok (), s.putMembershipAndTuples m inserts deletes) := by
  have hproject : isText m.projectID := htexts _ (by simp)
  have htenant : isText m.tenantID := htexts _ (by simp)
  have hput : Mirrors codec (s.putMembership m) { T with
      memberships := T.memberships.insert (membershipKey m) (membershipRow m) } :=
    { h with
      memberships := Tracks.insert (· = (m.workspaceID, m.userID)) (m.workspaceID, m.userID)
        (zero_notMem_of_isText hproject) (by simp [Prod.ext_iff]) h.memberships (by
          intro sk i
          simp only [Store.putMembership, GoMap.get₃_put₃, Prod.ext_iff]) }
  obtain ⟨T', hwrite, hmirrors⟩ :=
    agrees_writeTuplesExec hput hproject htenant hinserts hdeletes
  refine .of_ok ?_ rfl hmirrors
  rw [putMembershipAndTuples, putMembershipExec, txExec_bind htexts, hwrite]

theorem agrees_deleteMembershipAndTuples {workspaceID userID : GoString} {deletes : List Tuple}
    (h : Mirrors codec s T)
    (htexts : ∀ x ∈ [projectID, tenantID, workspaceID, userID], isText x)
    (hdeletes : ∀ t ∈ deletes, Storable codec t) :
    Agrees codec (deleteMembershipAndTuples codec projectID tenantID workspaceID userID deletes) T
      (s.deleteMembershipAndTuples projectID tenantID workspaceID userID deletes) := by
  have hproject : isText projectID := htexts _ (by simp)
  have htenant : isText tenantID := htexts _ (by simp)
  have hrow : T.memberships.lookup ⟨projectID, tenantID, workspaceID, userID⟩ =
      (s.row projectID tenantID workspaceID userID).map membershipRow :=
    h.memberships projectID tenantID (workspaceID, userID) (zero_notMem_of_isText hproject)
      (zero_notMem_of_isText htenant)
  have hdelete : deleteMembershipExec projectID tenantID workspaceID userID T =
      (if (s.row projectID tenantID workspaceID userID).isSome then pure () else
        throw errNotFound : Tx Unit) { T with
          memberships := T.memberships.erase ⟨projectID, tenantID, workspaceID, userID⟩ } := by
    rw [deleteMembershipExec, txExec_bind htexts, hrow, Option.isSome_map]
  cases hs : s.row projectID tenantID workspaceID userID with
  | none =>
    refine .of_error ?_ (Store.deleteMembershipAndTuples_of_none hs) h
    rw [hs] at hdelete
    exact bind_of_error hdelete
  | some m =>
    have hstore : ∃ s₁ : Store, Mirrors codec s₁ { T with
        memberships := T.memberships.erase ⟨projectID, tenantID, workspaceID, userID⟩ } ∧
        s.deleteMembershipAndTuples projectID tenantID workspaceID userID deletes =
          (.ok (), s₁.writeTuples projectID tenantID [] deletes) := by
      simp only [Store.deleteMembershipAndTuples, Store.deleteMembership, hs, Option.isNone_some,
        Bool.false_eq_true, if_false]
      refine ⟨_, ?_, rfl⟩
      exact { h with
        memberships := Tracks.erase (· = (workspaceID, userID)) (workspaceID, userID)
          (zero_notMem_of_isText hproject) (by simp [Prod.ext_iff]) h.memberships (by
            intro sk i
            simp only [GoMap.get₃_erase₃, Prod.ext_iff]) }
    obtain ⟨s₁, hs₁, hr⟩ := hstore
    obtain ⟨T', hwrite, hmirrors⟩ :=
      agrees_writeTuplesExec hs₁ hproject htenant (storable_nil codec) hdeletes
    rw [hs] at hdelete
    refine .of_ok ?_ hr hmirrors
    rw [deleteMembershipAndTuples, bind_of_ok hdelete, hwrite]

/-! ### Workspaces -/

theorem violatesUnique_eq {w : Workspace} (h : Mirrors codec s T) (hproject : 0 ∉ w.projectID)
    (htenant : 0 ∉ w.tenantID) : violatesUnique T w =
      ((s.workspaces.get₂ (scope w.projectID w.tenantID) w.id).isSome ||
        decide (w.type = .personal ∧ (s.workspaces.inner (scope w.projectID w.tenantID)).any
          fun _ ex => ex.type = .personal ∧ ex.ownerUserID = w.ownerUserID)) := by
  have hrow := fun id => h.workspaces w.projectID w.tenantID id hproject htenant
  have hany : (T.workspaces.any fun k ex => k.projectID = w.projectID ∧ k.tenantID = w.tenantID ∧
      ex.type = .personal ∧ ex.ownerUserID = w.ownerUserID) = true ↔
      ((s.workspaces.inner (scope w.projectID w.tenantID)).any fun _ ex =>
        ex.type = .personal ∧ ex.ownerUserID = w.ownerUserID) = true := by
    rw [Table.any_iff, GoMap.any_iff]
    simp only [decide_eq_true_eq]
    constructor
    · rintro ⟨⟨projectID, tenantID, id⟩, r, hr, rfl, rfl, htype, howner⟩
      rw [hrow, Option.map_eq_some_iff] at hr
      obtain ⟨ex, hex, rfl⟩ := hr
      exact ⟨id, ex, hex, htype, howner⟩
    · rintro ⟨id, ex, hex, htype, howner⟩
      refine ⟨⟨w.projectID, w.tenantID, id⟩, workspaceRow ex, ?_, rfl, rfl, htype, howner⟩
      rw [hrow, Option.map_eq_some_iff]
      exact ⟨ex, hex, rfl⟩
  rw [violatesUnique, workspaceKey, hrow, Option.isSome_map, Bool.eq_iff_iff]
  simp only [Bool.or_eq_true, Bool.and_eq_true, decide_eq_true_eq, hany]

theorem agrees_createWorkspace {w : Workspace} (h : Mirrors codec s T)
    (htexts : ∀ x ∈ [w.projectID, w.tenantID, w.id, w.slug, w.displayName, w.ownerUserID],
      isText x) : Agrees codec (createWorkspace w) T (s.createWorkspace w) := by
  have hproject : 0 ∉ w.projectID := zero_notMem_of_isText (htexts _ (by simp))
  have htenant : 0 ∉ w.tenantID := zero_notMem_of_isText (htexts _ (by simp))
  have hviolates := violatesUnique_eq h hproject htenant
  have hcreate : s.createWorkspace w = if violatesUnique T w then (.error errAlreadyExists, s)
      else (.ok (), s.putWorkspace w) := by
    rw [hviolates, Store.createWorkspace]
    simp only [Bool.or_eq_true, decide_eq_true_eq]
    split_ifs <;> simp_all
  cases hunique : violatesUnique T w with
  | true =>
    rw [hunique, if_pos rfl] at hcreate
    refine .of_error ?_ hcreate h
    rw [createWorkspace, txExec_bind htexts, if_pos hunique]
    rfl
  | false =>
    have hput : Mirrors codec (s.putWorkspace w) { T with
        workspaces := T.workspaces.insert (workspaceKey w) (workspaceRow w) } :=
      { h with
        workspaces := Tracks.insert (· = w.id) w.id hproject (by simp) h.workspaces
          (GoMap.get₂_put₂ _ _ _ _) }
    have hunique : ¬ violatesUnique T w = true := by simp [hunique]
    rw [if_neg hunique] at hcreate
    refine .of_ok ?_ hcreate hput
    rw [createWorkspace, txExec_bind htexts, if_neg hunique]
    rfl

theorem tracks_deletedObject (h : Mirrors codec s T) (hproject : 0 ∉ projectID)
    (ns id : GoString) :
    Tracks (fun projectID tenantID t => TupleRow.key ⟨projectID, tenantID, t⟩) (tupleCells codec)
      (fun sk t => (s.keepTuples projectID tenantID fun t =>
        ¬ (t.ns = ns ∧ t.objectID = id)).tuples.get₂ sk (tupleKey t))
      (T.relationTuples.filter fun k _ =>
        ¬ (k.projectID = projectID ∧ k.tenantID = tenantID ∧ k.ns = ns ∧ k.objectID = id)) := by
  apply Tracks.filter (fun sk _ t =>
    ¬ (sk = scope projectID tenantID ∧ t.ns = ns ∧ t.objectID = id)) h.tuples
  · intro sk t
    rw [Store.get_tuples_keepTuples]
    cases s.tuples.get₂ sk (tupleKey t) <;> by_cases hsk : sk = scope projectID tenantID <;>
      simp [hsk, Option.filter]
  · intro projectID' tenantID' t t' hproject' _ ht'
    obtain ⟨hns, hobject, -, -⟩ := tupleKey_inj (s.tuples_keyed _ _ _ ht')
    rw [decide_eq_decide, scope_eq_scope_iff hproject' hproject, hns, hobject, and_assoc]
    rfl

theorem tupleKeys_of_filter (h : Mirrors codec s T) {keep : TupleKey → TupleCells → Bool}
    {k : TupleKey} {c : TupleCells} (hk : (T.relationTuples.filter keep).lookup k = some c) :
    ∃ projectID tenantID t, 0 ∉ projectID ∧ 0 ∉ tenantID ∧
      TupleRow.key ⟨projectID, tenantID, t⟩ = k := by
  rw [Table.lookup_filter, Option.filter_eq_some_iff] at hk
  exact h.tupleKeys k c hk.1

theorem storable_of_keepTuples (h : Mirrors codec s T) {keep : Tuple → Bool} {sk k : GoString}
    {t : Tuple} (ht : (s.keepTuples projectID tenantID keep).tuples.get₂ sk k = some t) :
    Storable codec t ∧
      ∃ projectID tenantID, 0 ∉ projectID ∧ 0 ∉ tenantID ∧ scope projectID tenantID = sk := by
  rw [Store.get_tuples_keepTuples] at ht
  split_ifs at ht
  · exact h.storable sk k t (Option.filter_eq_some_iff.mp ht).1
  · exact h.storable sk k t ht

theorem agrees_deleteWorkspace {id : GoString} (h : Mirrors codec s T)
    (htexts : ∀ x ∈ [projectID, tenantID, id], isText x) :
    Agrees codec (deleteWorkspace projectID tenantID id) T
      (s.deleteWorkspace projectID tenantID id) := by
  have hproject : isText projectID := htexts _ (by simp)
  have htenant : isText tenantID := htexts _ (by simp)
  have hrow : T.workspaces.lookup ⟨projectID, tenantID, id⟩ =
      (s.workspaces.get₂ (scope projectID tenantID) id).map workspaceRow :=
    h.workspaces projectID tenantID id (zero_notMem_of_isText hproject)
      (zero_notMem_of_isText htenant)
  cases hs : s.workspaces.get₂ (scope projectID tenantID) id with
  | none =>
    refine .of_error (e := errNotFound) ?_ ?_ h
    · rw [deleteWorkspace, txExec_bind htexts, hrow, hs]
      rfl
    · simp [Store.deleteWorkspace, hs]
  | some w =>
    have hdelete : deleteWorkspace projectID tenantID id T = .ok ((), { T with
        workspaces := T.workspaces.erase ⟨projectID, tenantID, id⟩
        memberships := T.memberships.filter fun k _ =>
          ¬ (k.projectID = projectID ∧ k.tenantID = tenantID ∧ k.workspaceID = id)
        invitations := T.invitations.filter fun k inv =>
          ¬ (k.projectID = projectID ∧ k.tenantID = tenantID ∧ inv.workspaceID = id)
        relationTuples := T.relationTuples.filter fun k _ =>
          ¬ (k.projectID = projectID ∧ k.tenantID = tenantID ∧ k.ns = str "workspace" ∧
            k.objectID = id)
        consistencySeq := bumpedSeq projectID tenantID T.consistencySeq }) := by
      rw [deleteWorkspace, txExec_bind htexts, hrow, hs, Option.map_some, Option.isSome_some,
        if_pos rfl, txExec_bind htexts, txExec_bind htexts, deleteObjectTuples,
        txExec_bind htexts, bumpSeqExec_eq hproject htenant]
    have hproject := zero_notMem_of_isText hproject
    have hmemberships : Tracks (fun projectID tenantID (i : GoString × GoString) =>
        MembershipKey.mk projectID tenantID i.1 i.2) membershipRow
        (fun sk i => (s.memberships.erase₂ (scope projectID tenantID) id).get₃ sk i.1 i.2)
        (T.memberships.filter fun k _ =>
          ¬ (k.projectID = projectID ∧ k.tenantID = tenantID ∧ k.workspaceID = id)) := by
      apply Tracks.delete (fun sk i => sk = scope projectID tenantID ∧ i.1 = id) h.memberships
      · intro sk i
        exact GoMap.get₃_erase₂ _ _ _ _ _ _
      · intro projectID' tenantID' i r hproject' _
        rw [decide_eq_true_eq, scope_eq_scope_iff hproject' hproject, and_assoc]
    have hinvitations : Tracks RowKey.mk invitationRow
        (GoMap.get₂ (s.invitations.insert (scope projectID tenantID)
          ((s.invitations.inner (scope projectID tenantID)).filter fun _ inv =>
            inv.workspaceID ≠ id)))
        (T.invitations.filter fun k inv =>
          ¬ (k.projectID = projectID ∧ k.tenantID = tenantID ∧ inv.workspaceID = id)) := by
      apply Tracks.filter (fun sk _ inv => ¬ (sk = scope projectID tenantID ∧
        inv.workspaceID = id)) h.invitations
      · intro sk i
        rw [GoMap.get₂, GoMap.inner_insert]
        by_cases hsk : sk = scope projectID tenantID
        · simp [hsk, GoMap.get₂]
        · simp only [hsk, if_false, false_and, not_false_eq_true, decide_true]
          cases hget : s.invitations.get₂ sk i <;> exact hget
      · intro projectID' tenantID' i inv hproject' _ _
        simp [scope_eq_scope_iff hproject' hproject, invitationRow]
    have hr : s.deleteWorkspace projectID tenantID id =
        (.ok (), (s.deleteWorkspace projectID tenantID id).2) := by
      simp [Store.deleteWorkspace, hs]
    refine .of_ok hdelete hr ?_
    simp only [Store.deleteWorkspace, hs, Option.isNone_some, Bool.false_eq_true, if_false]
    exact { h with
      workspaces := Tracks.erase (· = id) id hproject (by simp) h.workspaces
        (GoMap.get₂_erase₂ _ _ _)
      memberships := hmemberships
      invitations := hinvitations
      seqs := tracks_bumpedSeq h hproject (zero_notMem_of_isText htenant)
      tuples := tracks_deletedObject h hproject "workspace" id
      tupleKeys := fun _ _ => tupleKeys_of_filter h
      storable := fun _ _ _ => storable_of_keepTuples h }

/-! ### Groups and enrollments -/

theorem enrollmentKey_eq_iff {m m' : GroupMember} :
    enrollmentKey m = enrollmentKey m' ↔ memberKey m = memberKey m' := by
  have hkind : ∀ m : GroupMember, ascii ':' ∉ (memberKey m).1 := by
    intro m
    unfold memberKey
    split_ifs <;> dsimp only <;> decide
  constructor
  · intro h
    obtain ⟨hfst, hsnd⟩ := append_cons_inj (hkind m) (hkind m') h
    exact Prod.ext hfst hsnd
  · intro h
    rw [enrollmentKey, enrollmentKey, h]

theorem agrees_createGroup {g : Group} (h : Mirrors codec s T)
    (htexts : ∀ x ∈ [g.projectID, g.tenantID, g.id, g.workspaceID, g.slug, g.displayName,
      g.createdBy], isText x) : Agrees codec (createGroup g) T (s.createGroup g) := by
  have hproject : 0 ∉ g.projectID := zero_notMem_of_isText (htexts _ (by simp))
  have htenant : 0 ∉ g.tenantID := zero_notMem_of_isText (htexts _ (by simp))
  have hrow : (T.groups.lookup (groupKey g)).isSome =
      (s.groups.get₂ (scope g.projectID g.tenantID) g.id).isSome := by
    rw [groupKey, h.groups g.projectID g.tenantID g.id hproject htenant, Option.isSome_map]
  by_cases hs : (s.groups.get₂ (scope g.projectID g.tenantID) g.id).isSome
  · refine .of_error ?_ (if_pos hs) h
    rw [createGroup, txExec_bind htexts, if_pos (hrow.trans hs)]
    rfl
  · have hput : Mirrors codec (s.putGroup g) { T with
        groups := T.groups.insert (groupKey g) (groupRow g) } :=
      { h with
        groups := Tracks.insert (· = g.id) g.id hproject (by simp) h.groups
          (GoMap.get₂_put₂ _ _ _ _) }
    refine .of_ok ?_ (if_neg hs) hput
    rw [← hrow] at hs
    rw [createGroup, txExec_bind htexts, if_neg hs]
    rfl

theorem agrees_deleteGroup {id : GoString} (h : Mirrors codec s T)
    (htexts : ∀ x ∈ [projectID, tenantID, id], isText x) :
    Agrees codec (deleteGroup projectID tenantID id) T
      (s.deleteGroup projectID tenantID id) := by
  have hproject : isText projectID := htexts _ (by simp)
  have htenant : isText tenantID := htexts _ (by simp)
  have hrow : T.groups.lookup ⟨projectID, tenantID, id⟩ =
      (s.groups.get₂ (scope projectID tenantID) id).map groupRow :=
    h.groups projectID tenantID id (zero_notMem_of_isText hproject)
      (zero_notMem_of_isText htenant)
  cases hs : s.groups.get₂ (scope projectID tenantID) id with
  | none =>
    refine .of_error (e := errNotFound) ?_ ?_ h
    · rw [deleteGroup, txExec_bind htexts, hrow, hs]
      rfl
    · simp [Store.deleteGroup, hs]
  | some g =>
    have hdelete : deleteGroup projectID tenantID id T = .ok ((), { T with
        groups := T.groups.erase ⟨projectID, tenantID, id⟩
        relationTuples := T.relationTuples.filter fun k _ =>
          ¬ (k.projectID = projectID ∧ k.tenantID = tenantID ∧ k.ns = str "group" ∧
            k.objectID = id)
        enrollments := T.enrollments.filter fun k _ =>
          ¬ (k.projectID = projectID ∧ k.tenantID = tenantID ∧ k.groupID = id)
        consistencySeq := bumpedSeq projectID tenantID T.consistencySeq }) := by
      rw [deleteGroup, txExec_bind htexts, hrow, hs, Option.map_some, Option.isSome_some,
        if_pos rfl, deleteObjectTuples, txExec_bind htexts, txExec_bind htexts,
        bumpSeqExec_eq hproject htenant]
    have hproject := zero_notMem_of_isText hproject
    have henrollments : Tracks (fun projectID tenantID (i : GoString × GroupMember) =>
        EnrollmentKey.mk projectID tenantID i.1 (memberKey i.2)) enrollmentCells
        (fun sk i => (s.enrollments.erase₂ (scope projectID tenantID) id).get₃ sk i.1
          (enrollmentKey i.2))
        (T.enrollments.filter fun k _ =>
          ¬ (k.projectID = projectID ∧ k.tenantID = tenantID ∧ k.groupID = id)) := by
      apply Tracks.delete (fun sk i => sk = scope projectID tenantID ∧ i.1 = id) h.enrollments
      · intro sk i
        exact GoMap.get₃_erase₂ _ _ _ _ _ _
      · intro projectID' tenantID' i r hproject' _
        rw [decide_eq_true_eq, scope_eq_scope_iff hproject' hproject, and_assoc]
    have hr : s.deleteGroup projectID tenantID id =
        (.ok (), (s.deleteGroup projectID tenantID id).2) := by
      simp [Store.deleteGroup, hs]
    refine .of_ok hdelete hr ?_
    simp only [Store.deleteGroup, hs, Option.isNone_some, Bool.false_eq_true, if_false]
    exact { h with
      groups := Tracks.erase (· = id) id hproject (by simp) h.groups (GoMap.get₂_erase₂ _ _ _)
      enrollments := henrollments
      seqs := tracks_bumpedSeq h hproject (zero_notMem_of_isText htenant)
      tuples := tracks_deletedObject h hproject "group" id
      tupleKeys := fun _ _ => tupleKeys_of_filter h
      storable := fun _ _ _ => storable_of_keepTuples h }

theorem agrees_setEnrollmentAndTuples {e : Enrollment} {inserts deletes : List Tuple}
    (h : Mirrors codec s T)
    (htexts : ∀ x ∈ [e.projectID, e.tenantID, e.groupID, e.member.userID, e.member.groupID],
      isText x)
    (hinserts : ∀ t ∈ inserts, Storable codec t) (hdeletes : ∀ t ∈ deletes, Storable codec t) :
    Agrees codec (setEnrollmentAndTuples codec e inserts deletes) T
      (.ok (), s.setEnrollmentAndTuples e inserts deletes) := by
  have hproject : isText e.projectID := htexts _ (by simp)
  have htenant : isText e.tenantID := htexts _ (by simp)
  have hmember : isText (memberKey e.member).1 ∧ isText (memberKey e.member).2 := by
    have hgroup : isText (str "group") := by decide
    have huser : isText (str "user") := by decide
    unfold memberKey
    split_ifs
    · exact ⟨hgroup, htexts _ (by simp)⟩
    · exact ⟨huser, htexts _ (by simp)⟩
  have hargs : ∀ x ∈ [e.projectID, e.tenantID, e.groupID, (memberKey e.member).1,
      (memberKey e.member).2], isText x := by
    have hgroup : isText e.groupID := htexts _ (by simp)
    simp [hproject, htenant, hgroup, hmember]
  have hput : Mirrors codec (s.setEnrollment e) { T with
      enrollments := T.enrollments.insert (enrollmentRowKey e) (enrollmentCells e) } :=
    { h with
      enrollments := Tracks.insert (fun i => i.1 = e.groupID ∧ memberKey i.2 = memberKey e.member)
        (e.groupID, e.member) (zero_notMem_of_isText hproject) (by simp) h.enrollments (by
          intro sk i
          simp only [Store.setEnrollment, GoMap.get₃_put₃, enrollmentKey_eq_iff]) }
  obtain ⟨T', hwrite, hmirrors⟩ :=
    agrees_writeTuplesExec hput hproject htenant hinserts hdeletes
  refine .of_ok ?_ rfl hmirrors
  rw [setEnrollmentAndTuples]
  exact (txExec_bind hargs _ _ T).trans hwrite

/-! ### Seats -/

theorem agrees_setSeatLimit {sku : GoString} {limit : Option ℤ} (h : Mirrors codec s T)
    (htexts : ∀ x ∈ [projectID, tenantID, sku], isText x)
    (hlimit : ∀ n, limit = some n → isInteger n) :
    Agrees codec (setSeatLimit ⟨projectID, tenantID, sku⟩ limit) T
      (.ok (), s.setSeatLimit projectID tenantID sku limit) := by
  have hproject : 0 ∉ projectID := zero_notMem_of_isText (htexts _ (by simp))
  cases limit with
  | none =>
    have hclear : setSeatLimit ⟨projectID, tenantID, sku⟩ none T = .ok ((), { T with
        seatLimits := T.seatLimits.erase ⟨projectID, tenantID, sku⟩ }) := by
      rw [setSeatLimit]
      exact txExec_of_isText htexts T
    refine .of_ok hclear rfl ?_
    exact { h with
      seatLimits := Tracks.erase (· = sku) sku hproject (by simp) h.seatLimits
        (GoMap.get₂_erase₂ _ _ _) }
  | some n =>
    have hset : setSeatLimit ⟨projectID, tenantID, sku⟩ (some n) T = .ok ((), { T with
        seatLimits := T.seatLimits.insert ⟨projectID, tenantID, sku⟩ n }) := by
      rw [setSeatLimit, if_pos (hlimit n rfl)]
      exact txExec_of_isText htexts T
    refine .of_ok hset rfl ?_
    exact { h with
      seatLimits := Tracks.insert (· = sku) sku hproject (by simp) h.seatLimits
        (GoMap.get₂_put₂ _ _ _ _) }

theorem countSeats_eq (h : Mirrors codec s T) (hproject : 0 ∉ projectID) (htenant : 0 ∉ tenantID)
    (sku : GoString) : countSeats T ⟨projectID, tenantID, sku⟩ =
      ((s.seatAssigns.inner (scope projectID tenantID)).inner sku).size := by
  have hentries : (T.seatAssignments.filter fun k _ =>
      k.toSkuKey = ⟨projectID, tenantID, sku⟩).entries =
      ((s.seatAssigns.inner (scope projectID tenantID)).inner sku).entries.map fun e =>
        ⟨SeatKey.mk ⟨projectID, tenantID, sku⟩ e.1, seatRow e.2⟩ := by
    apply Table.entries_filter_eq_map
    · have hmk : Function.Injective (SeatKey.mk ⟨projectID, tenantID, sku⟩) :=
        fun _ _ heq => (SeatKey.mk.inj heq).2
      have hnodup := (Table.nodup_keys
        ((s.seatAssigns.inner (scope projectID tenantID)).inner sku)).map hmk
      rwa [Multiset.map_map] at hnodup
    · rintro ⟨q, user⟩ r
      have hrow := h.seats projectID tenantID (sku, user) hproject htenant
      constructor
      · rintro ⟨hlookup, hq⟩
        obtain rfl : q = ⟨projectID, tenantID, sku⟩ := of_decide_eq_true hq
        rw [hrow, Option.map_eq_some_iff] at hlookup
        obtain ⟨a, ha, rfl⟩ := hlookup
        exact ⟨⟨user, a⟩, GoMap.mem_entries.mpr ha, rfl, rfl⟩
      · rintro ⟨⟨user', a⟩, ha, heq, rfl⟩
        cases heq
        exact ⟨hrow.trans (congrArg _ (GoMap.mem_entries.mp ha)), decide_eq_true rfl⟩
  rw [countSeats, Table.count, hentries, Multiset.card_map]
  rfl

theorem enforceLimit_eq {sku : GoString} (h : Mirrors codec s T)
    (htexts : ∀ x ∈ [projectID, tenantID, sku], isText x) :
    enforceLimit ⟨projectID, tenantID, sku⟩ T =
      if (s.seatUsage (scope projectID tenantID) sku).2.any fun limit =>
        ((s.seatUsage (scope projectID tenantID) sku).1 : ℤ) ≥ limit
      then .error { kind := .resourceExhausted } else .ok ((), T) := by
  have hproject : 0 ∉ projectID := zero_notMem_of_isText (htexts _ (by simp))
  have htenant : 0 ∉ tenantID := zero_notMem_of_isText (htexts _ (by simp))
  have hlimit : T.seatLimits.lookup ⟨projectID, tenantID, sku⟩ =
      s.seatLimits.get₂ (scope projectID tenantID) sku := by
    rw [h.seatLimits projectID tenantID sku hproject htenant, Option.map_id]
    rfl
  have hargs : ∀ x ∈ skuArgs ⟨projectID, tenantID, sku⟩, isText x := htexts
  rw [enforceLimit, txExec_bind hargs, hlimit, Store.seatUsage]
  cases s.seatLimits.get₂ (scope projectID tenantID) sku with
  | none => rfl
  | some limit =>
    dsimp only
    rw [txExec_bind hargs, countSeats_eq h hproject htenant, Option.any_some]
    by_cases hfull :
        (((s.seatAssigns.inner (scope projectID tenantID)).inner sku).size : ℤ) ≥ limit
    · rw [if_pos hfull, if_pos (decide_eq_true hfull)]
      rfl
    · rw [if_neg hfull, if_neg (by simpa using hfull)]
      rfl

theorem Mirrors.assignSeat {a : SeatAssignment} (h : Mirrors codec s T)
    (hproject : 0 ∉ a.projectID) : Mirrors codec (s.assignSeat a) { T with
      seatAssignments := T.seatAssignments.insert (seatKey a) (seatRow a) } :=
  { h with
    seats := Tracks.insert (· = (a.sku, a.userID)) (a.sku, a.userID) hproject
      (by simp [Prod.ext_iff, and_assoc]) h.seats (by
        intro sk i
        simp only [Store.assignSeat, GoMap.get₃_put₃, Prod.ext_iff]) }

theorem agrees_assignSeatAndTuple {a : SeatAssignment} {tuple : Tuple} (h : Mirrors codec s T)
    (htexts : ∀ x ∈ [a.projectID, a.tenantID, a.sku, a.userID], isText x)
    (htuple : Storable codec tuple) :
    Agrees codec (assignSeatAndTuple codec a tuple) T (s.assignSeatAndTuple a tuple) := by
  have hproject : isText a.projectID := htexts _ (by simp)
  have htenant : isText a.tenantID := htexts _ (by simp)
  have hsku : isText a.sku := htexts _ (by simp)
  have hproject₀ := zero_notMem_of_isText hproject
  have htuples : ∀ t ∈ [tuple], Storable codec t := by simp [htuple]
  have hlock : ∀ x ∈ [seatLockKey (seatKey a).toSkuKey], isText x := by
    intro x hx
    rw [List.mem_singleton.mp hx]
    exact isText_seatLockKey hproject htenant hsku
  have hargs : ∀ x ∈ skuArgs (seatKey a).toSkuKey ++ [a.userID], isText x := htexts
  have hrow : (T.seatAssignments.lookup (seatKey a)).isSome =
      (s.seat a.projectID a.tenantID a.sku a.userID).isSome := by
    have hlookup := h.seats a.projectID a.tenantID (a.sku, a.userID) hproject₀
      (zero_notMem_of_isText htenant)
    rw [seatKey, hlookup, Option.isSome_map]
    rfl
  rw [Store.assignSeatAndTuple]
  by_cases hheld : (s.seat a.projectID a.tenantID a.sku a.userID).isSome
  · obtain ⟨T', hwrite, hmirrors⟩ :=
      agrees_writeTuplesExec h hproject htenant htuples (storable_nil codec)
    refine .of_ok (a := true) ?_ (if_pos hheld) hmirrors
    rw [assignSeatAndTuple, txExec_bind hlock, txExec_bind hargs, if_pos (hrow.trans hheld),
      bind_of_ok hwrite]
    rfl
  have hnone : ¬ (T.seatAssignments.lookup (seatKey a)).isSome = true := hrow ▸ hheld
  have hskuTexts : ∀ x ∈ [a.projectID, a.tenantID, a.sku], isText x := by
    simp [hproject, htenant, hsku]
  have hlimit := enforceLimit_eq h hskuTexts
  by_cases hfull : (s.seatUsage (scope a.projectID a.tenantID) a.sku).2.any fun limit =>
      ((s.seatUsage (scope a.projectID a.tenantID) a.sku).1 : ℤ) ≥ limit
  · refine .of_error ?_ ((if_neg hheld).trans (if_pos hfull)) h
    rw [if_pos hfull] at hlimit
    rw [assignSeatAndTuple, txExec_bind hlock, txExec_bind hargs, if_neg hnone]
    exact bind_of_error hlimit
  · obtain ⟨T', hwrite, hmirrors⟩ := agrees_writeTuplesExec (h.assignSeat hproject₀) hproject
      htenant htuples (storable_nil codec)
    refine .of_ok (a := false) ?_ ((if_neg hheld).trans (if_neg hfull)) hmirrors
    have hinsert : insertSeat a T = .ok ((), { T with
        seatAssignments := T.seatAssignments.insert (seatKey a) (seatRow a) }) := by
      rw [insertSeat, txExec_bind hargs, if_neg hnone]
      rfl
    rw [if_neg hfull] at hlimit
    rw [assignSeatAndTuple, txExec_bind hlock, txExec_bind hargs, if_neg hnone]
    exact (bind_of_ok hlimit).trans ((bind_of_ok hinsert).trans (bind_of_ok hwrite))

theorem agrees_revokeSeatAndTuple {sku userID : GoString} {tuple : Tuple} (h : Mirrors codec s T)
    (htexts : ∀ x ∈ [projectID, tenantID, sku, userID], isText x)
    (htuple : Storable codec tuple) :
    Agrees codec (revokeSeatAndTuple codec ⟨⟨projectID, tenantID, sku⟩, userID⟩ tuple) T
      (.ok (), s.revokeSeatAndTuple projectID tenantID sku userID tuple) := by
  have hproject : isText projectID := htexts _ (by simp)
  have htenant : isText tenantID := htexts _ (by simp)
  have hrevoke : Mirrors codec (s.revokeSeat projectID tenantID sku userID) { T with
      seatAssignments := T.seatAssignments.erase ⟨⟨projectID, tenantID, sku⟩, userID⟩ } :=
    { h with
      seats := Tracks.erase (· = (sku, userID)) (sku, userID) (zero_notMem_of_isText hproject)
        (by simp [Prod.ext_iff, and_assoc]) h.seats (by
          intro sk i
          simp only [Store.revokeSeat, GoMap.get₃_erase₃, Prod.ext_iff]) }
  have htuples : ∀ t ∈ [tuple], Storable codec t := by simp [htuple]
  obtain ⟨T', hwrite, hmirrors⟩ :=
    agrees_writeTuplesExec hrevoke hproject htenant (storable_nil codec) htuples
  refine .of_ok ?_ rfl hmirrors
  rw [revokeSeatAndTuple]
  exact (txExec_bind htexts _ _ T).trans hwrite

/-! ### Deprovisioning -/

theorem isConcrete_eq_ofUser {userID : GoString} {t t' : Tuple} (h : tupleKey t' = tupleKey t) :
    (TupleRow.key ⟨projectID, tenantID, t⟩).ofUser projectID userID =
      Store.isConcrete userID t' := by
  have hcols := subjectKey_eq_iff_tupleCols.mp (tupleKey_inj h).2.2.2
  rw [TupleKey.ofUser, TupleRow.key, ← hcols, tupleCols, Store.isConcrete]
  cases t'.subject.wildcard <;> cases t'.subject.set <;> simp

theorem sum_map_ite {α : Type} (m : Multiset α) (p : α → Bool) (f : α → ℕ) :
    (m.map fun a => if p a then f a else 0).sum = ((m.filter (p ·)).map f).sum := by
  induction m using Multiset.induction_on with
  | empty => rfl
  | cons a m ih => by_cases ha : p a <;> simp [ha, ih]

/-- The tuples that are counted are those of the project that name the user. -/
theorem count_deleteAllSubjectTuplesInProject (s : Store) (projectID userID : GoString) :
    (s.deleteAllSubjectTuplesInProject projectID userID).1 =
      ((s.tuplesOf projectID).filter (Store.isConcrete userID ·.tuple)).card := by
  have hkeys : s.tuples.keys.val = s.tuples.entries.map Sigma.fst := rfl
  rw [Store.deleteAllSubjectTuplesInProject, sum_map_ite, Store.tuplesOf, Multiset.filter_bind,
    Multiset.card_bind, hkeys, Multiset.filter_map, Multiset.map_map]
  refine congrArg Multiset.sum (Multiset.map_congr rfl fun e he => ?_)
  have hinner : s.tuples.inner e.1 = e.2 := by
    rw [GoMap.inner, GoMap.mem_entries.mp (Multiset.mem_filter.mp he).1]
    rfl
  simp only [Function.comp_apply, hinner, Multiset.filter_map, Multiset.card_map]
  rfl

theorem Mirrors.lookup_key (h : Mirrors codec s T) (hproject : 0 ∉ projectID)
    (htenant : 0 ∉ tenantID) (t : Tuple) :
    T.relationTuples.lookup (TupleRow.key ⟨projectID, tenantID, t⟩) =
      (s.tuples.get₂ (scope projectID tenantID) (tupleKey t)).map (tupleCells codec) :=
  h.tuples projectID tenantID t hproject htenant

/-- The rows of a project are its stored tuples. -/
theorem lookup_relationTuples_iff (h : Mirrors codec s T) (hproject : 0 ∉ projectID)
    {k : TupleKey} {c : TupleCells} :
    (T.relationTuples.lookup k = some c ∧ k.projectID = projectID) ↔
      ∃ tenantID t, s.Stored projectID tenantID t ∧
        TupleRow.key ⟨projectID, tenantID, t⟩ = k ∧ tupleCells codec t = c := by
  constructor
  · rintro ⟨hk, rfl⟩
    obtain ⟨projectID, tenantID, t, hproject', htenant, rfl⟩ := h.tupleKeys k c hk
    rw [h.lookup_key hproject' htenant, Option.map_eq_some_iff] at hk
    obtain ⟨t', ht', rfl⟩ := hk
    have hkey := s.tuples_keyed _ _ _ ht'
    refine ⟨tenantID, t', ?_, key_eq_key_iff.mpr ⟨rfl, rfl, hkey⟩, rfl⟩
    rw [← hkey] at ht'
    exact ht'
  · rintro ⟨tenantID, t, ht, rfl, rfl⟩
    obtain ⟨-, projectID', tenantID', hproject', htenant', hscope⟩ := h.storable _ _ _ ht
    obtain ⟨rfl, rfl⟩ := (scope_eq_scope_iff hproject' hproject).mp hscope
    refine ⟨?_, rfl⟩
    rw [h.lookup_key hproject htenant', ht]
    rfl

theorem nodup_keys_inner (s : Store) (sk projectID tenantID : GoString) :
    ((s.tuples.inner sk).entries.map fun e =>
      TupleRow.key ⟨projectID, tenantID, e.2⟩).Nodup := by
  apply Multiset.Nodup.map_on _ (Multiset.Nodup.of_map Sigma.fst (Table.nodup_keys _))
  rintro ⟨k, t⟩ ht ⟨k', t'⟩ ht' heq
  have hget := GoMap.mem_entries.mp ht
  have hget' := GoMap.mem_entries.mp ht'
  have hkey : k = k' := by
    rw [← s.tuples_keyed sk k t hget, ← s.tuples_keyed sk k' t' hget']
    exact (key_eq_key_iff.mp heq).2.2
  subst hkey
  cases hget.symm.trans hget'
  rfl

theorem nodup_keys_tuplesOf (s : Store) (projectID : GoString) :
    ((s.tuplesOf projectID).map fun ta =>
      TupleRow.key ⟨projectID, ta.tenantID, ta.tuple⟩).Nodup := by
  rw [Store.tuplesOf, Multiset.map_bind, Multiset.nodup_bind]
  constructor
  · intro sk _
    rw [Multiset.map_map]
    exact nodup_keys_inner s sk projectID _
  · apply Multiset.Nodup.pairwise _ (s.tuples.keys.nodup.filter _)
    intro sk hsk sk' hsk' hne
    obtain ⟨tenantID, rfl⟩ := Store.inProject_iff.mp (Multiset.mem_filter.mp hsk).2
    obtain ⟨tenantID', rfl⟩ := Store.inProject_iff.mp (Multiset.mem_filter.mp hsk').2
    rw [Function.onFun, Multiset.disjoint_left]
    simp only [drop_scope, Multiset.map_map, Multiset.mem_map, Function.comp_apply]
    rintro _ ⟨e, -, rfl⟩ ⟨e', -, heq⟩
    exact hne (by rw [(key_eq_key_iff.mp heq).2.1])

theorem agrees_deleteAllSubjectTuplesInProject {userID : GoString} (h : Mirrors codec s T)
    (htexts : ∀ x ∈ [projectID, userID], isText x) :
    Agrees codec (deleteAllSubjectTuplesInProject projectID userID) T
      (.ok (s.deleteAllSubjectTuplesInProject projectID userID).1,
        (s.deleteAllSubjectTuplesInProject projectID userID).2) := by
  have hproject : 0 ∉ projectID := zero_notMem_of_isText (htexts _ (by simp))
  have hcount : T.relationTuples.count (fun k _ => k.ofUser projectID userID) =
      (s.deleteAllSubjectTuplesInProject projectID userID).1 := by
    have hentries : (T.relationTuples.filter fun k _ => k.ofUser projectID userID).entries =
        ((s.tuplesOf projectID).filter (Store.isConcrete userID ·.tuple)).map fun ta =>
          ⟨TupleRow.key ⟨projectID, ta.tenantID, ta.tuple⟩, tupleCells codec ta.tuple⟩ := by
      apply Table.entries_filter_eq_map
      · exact Multiset.nodup_of_le (Multiset.map_le_map (Multiset.filter_le _ _))
          (nodup_keys_tuplesOf s projectID)
      · intro k c
        have hrow := lookup_relationTuples_iff h hproject (k := k) (c := c)
        constructor
        · rintro ⟨hk, huser⟩
          have hk' : k.projectID = projectID := by
            simp only [TupleKey.ofUser, Bool.and_eq_true, decide_eq_true_eq] at huser
            exact huser.1.1
          obtain ⟨tenantID, t, ht, rfl, hc⟩ := hrow.mp ⟨hk, hk'⟩
          refine ⟨⟨tenantID, t⟩, Multiset.mem_filter.mpr ⟨mem_tuplesOf.mpr ht, ?_⟩, rfl, hc⟩
          rw [← isConcrete_eq_ofUser rfl]
          exact huser
        · rintro ⟨⟨tenantID, t⟩, hta, rfl, rfl⟩
          obtain ⟨hmem, hconcrete⟩ := Multiset.mem_filter.mp hta
          have hlookup := (hrow.mpr ⟨tenantID, t, mem_tuplesOf.mp hmem, rfl, rfl⟩).1
          exact ⟨hlookup, (isConcrete_eq_ofUser rfl).trans hconcrete⟩
    rw [Table.count, hentries, Multiset.card_map, count_deleteAllSubjectTuplesInProject]
  have hseats : Tracks (fun projectID tenantID (i : GoString × GoString) =>
      SeatKey.mk ⟨projectID, tenantID, i.1⟩ i.2) seatRow
      (fun sk i => (Store.withoutSeats projectID userID s.seatAssigns).get₃ sk i.1 i.2)
      (T.seatAssignments.filter fun k _ => !k.ofUser projectID userID) := by
    apply Tracks.delete (fun sk i => Store.inProject projectID sk ∧ i.2 = userID) h.seats
    · intro sk i
      exact Store.get_withoutSeats _ _ _ _ _ _
    · intro projectID' tenantID' i r hproject' htenant'
      rw [Store.inProject_scope_iff hproject' htenant', not_and_or]
      simp [SeatKey.ofUser]
  have htuples : Tracks (fun projectID tenantID t => TupleRow.key ⟨projectID, tenantID, t⟩)
      (tupleCells codec)
      (fun sk t => (Store.withoutSubject projectID userID s.tuples).get₂ sk (tupleKey t))
      (T.relationTuples.filter fun k _ => !k.ofUser projectID userID) := by
    apply Tracks.filter (fun sk _ t =>
      !(Store.inProject projectID sk && Store.isConcrete userID t)) h.tuples
    · intro sk t
      rw [Store.get_withoutSubject]
      cases s.tuples.get₂ sk (tupleKey t) <;> cases Store.inProject projectID sk <;>
        simp [Option.filter]
    · intro projectID' tenantID' t t' hproject' htenant' ht'
      have hkey := s.tuples_keyed _ _ _ ht'
      have hin : Store.inProject projectID (scope projectID' tenantID') ↔
          projectID' = projectID := Store.inProject_scope_iff hproject' htenant'
      by_cases heq : projectID' = projectID
      · subst heq
        rw [isConcrete_eq_ofUser hkey, hin.mpr rfl, Bool.true_and]
      · have hne : ¬ Store.inProject projectID (scope projectID' tenantID') = true := fun hyes =>
          heq (hin.mp hyes)
        simp [TupleKey.ofUser, TupleRow.key, heq, hne]
  have hdelete : deleteAllSubjectTuplesInProject projectID userID T =
      .ok ((s.deleteAllSubjectTuplesInProject projectID userID).1, { T with
        relationTuples := T.relationTuples.filter fun k _ => !k.ofUser projectID userID
        seatAssignments := T.seatAssignments.filter fun k _ => !k.ofUser projectID userID }) := by
    rw [deleteAllSubjectTuplesInProject, txExec_bind htexts, txExec_bind htexts, hcount]
    rfl
  refine .of_ok hdelete rfl ?_
  exact { h with
    seats := hseats
    tuples := htuples
    tupleKeys := fun _ _ => tupleKeys_of_filter h
    storable := by
      intro sk k t ht
      have hget : (Store.withoutSubject projectID userID s.tuples).get₂ sk k = some t := ht
      rw [Store.get_withoutSubject] at hget
      split_ifs at hget
      · exact h.storable sk k t (Option.filter_eq_some_iff.mp hget).1
      · exact h.storable sk k t hget }

theorem agrees_perform {m : Mutation} (h : Mirrors codec s T) (hm : m.Validated codec)
    (env : Env) : Agrees codec (m.tx codec) T (Service.exec env m.call s) := by
  obtain ⟨htexts, htuples, hlimit⟩ := hm
  cases m with
  | writeTuples projectID tenantID inserts deletes =>
    obtain ⟨hinserts, hdeletes⟩ := List.forall_mem_append.mp htuples
    obtain ⟨T', hwrite, hmirrors⟩ := agrees_writeTuplesExec h
      (htexts projectID (by simp [Mutation.texts])) (htexts tenantID (by simp [Mutation.texts]))
      hinserts hdeletes
    exact .of_ok hwrite rfl hmirrors
  | putMembershipAndTuples m inserts deletes =>
    obtain ⟨hinserts, hdeletes⟩ := List.forall_mem_append.mp htuples
    exact agrees_putMembershipAndTuples h htexts hinserts hdeletes
  | deleteMembershipAndTuples projectID tenantID workspaceID userID deletes =>
    exact agrees_deleteMembershipAndTuples h htexts htuples
  | setEnrollmentAndTuples e inserts deletes =>
    obtain ⟨hinserts, hdeletes⟩ := List.forall_mem_append.mp htuples
    exact agrees_setEnrollmentAndTuples h htexts hinserts hdeletes
  | assignSeatAndTuple a tuple =>
    exact agrees_assignSeatAndTuple h htexts (htuples tuple List.mem_cons_self)
  | revokeSeatAndTuple projectID tenantID sku userID tuple =>
    exact agrees_revokeSeatAndTuple h htexts (htuples tuple List.mem_cons_self)
  | setSeatLimit projectID tenantID sku limit => exact agrees_setSeatLimit h htexts hlimit
  | createWorkspace w => exact agrees_createWorkspace h htexts
  | deleteWorkspace projectID tenantID id => exact agrees_deleteWorkspace h htexts
  | createGroup g => exact agrees_createGroup h htexts
  | deleteGroup projectID tenantID id => exact agrees_deleteGroup h htexts
  | deleteAllSubjectTuplesInProject projectID userID =>
    exact agrees_deleteAllSubjectTuplesInProject h htexts

end Calls

/-! ## Queries -/

/-- The queries of the two drivers return the same: subjects and tuples up to their order, object
ids in order if texts are compared by their bytes. -/
structure SameReads (codec : ParamsCodec) (s : Store) (T : Contents) : Prop where
  subjects : ∀ (scan : RowOrder TupleKey) (order : MapOrder) (now : Time)
    (projectID tenantID : GoString) (n : SubjectSet),
    (∀ x ∈ [projectID, tenantID, n.ns, n.objectID, n.relation], isText x) →
    ∃ subjects, listSubjects T codec scan now projectID tenantID n = .ok subjects ∧
      subjects.Perm ((s.listSubjects order now projectID tenantID n).map normalSubject)
  objectIDs : ∀ (scan : RowOrder TupleKey) (collate : GoString → GoString) (order : MapOrder)
    (now : Time) (projectID tenantID ns : GoString),
    (∀ x ∈ [projectID, tenantID, ns], isText x) →
    ∃ ids, listObjectIDs T scan collate now projectID tenantID ns = .ok ids ∧
      ids.Perm (s.listObjectIDs order now projectID tenantID ns) ∧
      (collate = id → ids = s.listObjectIDs order now projectID tenantID ns)
  tuples : ∀ (scan : RowOrder TupleKey) (collate : GoString → GoString) (order : MapOrder)
    (now : Time) (projectID tenantID : GoString) (f : TupleFilter),
    (∀ x ∈ [projectID, tenantID, f.ns, f.objectID, f.relation, f.subjectUserID], isText x) →
    ∃ tuples, readTuples T codec scan collate now projectID tenantID f = .ok tuples ∧
      tuples.Perm ((s.readTuples order now projectID tenantID f).map normalTuple)
  seats : ∀ projectID tenantID sku, (∀ x ∈ [projectID, tenantID, sku], isText x) →
    getSeatUsage T projectID tenantID sku = .ok (s.getSeatUsage projectID tenantID sku)
  token : ∀ projectID tenantID, (∀ x ∈ [projectID, tenantID], isText x) →
    consistencyToken T projectID tenantID = .ok (s.consistencyToken projectID tenantID)

section Queries

variable {codec : ParamsCodec} {s : Store} {T : Contents} {projectID tenantID : GoString}
  {t : Tuple} {now : Time}

theorem query_of_isText {α : Type} {args : List GoString} (h : ∀ x ∈ args, isText x)
    (answer : α) : query args answer = .ok answer :=
  if_pos (List.all_eq_true.mpr h)

theorem mapM_of_ok {α β : Type} {l : List α} {f : α → Except ServiceError β} {g : α → β}
    (h : ∀ a ∈ l, f a = .ok (g a)) : l.mapM f = .ok (l.map g) := by
  induction l with
  | nil => rfl
  | cons a l ih =>
    rw [List.mapM_cons, h a List.mem_cons_self, ih fun a' ha' => h a' (List.mem_cons_of_mem a ha')]
    rfl

theorem scanSubject_tupleCols (h : t.subject.Valid) :
    scanSubject (tupleCols t) = { t.subject with condition := none } := by
  obtain ⟨ns, objectID, relation, ⟨userID, set, wildcard, condition⟩, expiresAt⟩ := t
  obtain ⟨-, hset, hwildcard⟩ | ⟨huser, hset, hwildcard⟩ | ⟨huser, hset, hwildcard⟩ := h <;>
    cases set <;> simp_all [scanSubject, tupleCols]

theorem ofMicros_expiresAt (h : ∀ expiry, t.expiresAt = some expiry → (1000 : ℤ) ∣ expiry) :
    (t.expiresAt.map micros).map ofMicros = t.expiresAt := by
  cases hexpiry : t.expiresAt with
  | none => rfl
  | some expiry => exact congrArg some (Int.ediv_mul_cancel (h expiry hexpiry))

/-- What is stored is read back, but for a nameless condition. -/
theorem scanTuple_eq (h : Storable codec t) :
    scanTuple codec (TupleRow.key ⟨projectID, tenantID, t⟩) (tupleCells codec t) =
      .ok (normalTuple t) := by
  have hsubject := scanSubject_tupleCols h.valid
  have hexpiry := ofMicros_expiresAt h.expiry
  cases hcondition : t.subject.condition with
  | none =>
    simp only [scanTuple, TupleRow.key, tupleCells, hsubject, hexpiry, conditionCols, normalTuple,
      normalSubject, hcondition]
    rfl
  | some c =>
    by_cases hname : c.name = []
    · simp only [scanTuple, TupleRow.key, tupleCells, hsubject, hexpiry, conditionCols,
        normalTuple, normalSubject, hcondition, hname, if_true]
      simp [Option.filter, hname]
      rfl
    · obtain ⟨text, stored, hmarshal, hjsonb, hunmarshal⟩ := h.params c hcondition
      have hstored := codec.jsonb_ne_nil text stored hjsonb
      simp only [scanTuple, TupleRow.key, tupleCells, hsubject, hexpiry, conditionCols,
        normalTuple, normalSubject, hcondition, hname, if_false]
      simp [Option.filter, hname, hmarshal, hjsonb, hunmarshal, hstored]
      rfl

theorem isActive_eq (h : Storable codec t) :
    isActive now (tupleCells codec t) = t.activeAt now := by
  rw [isActive, tupleCells, Tuple.activeAt]
  cases hexpiry : t.expiresAt with
  | none => rfl
  | some expiry =>
    have hdvd : (1000 : ℤ) ∣ expiry := h.expiry expiry hexpiry
    have hlt : micros now < micros expiry ↔ now < expiry := by
      obtain ⟨n, rfl⟩ := hdvd
      rw [micros, micros, Int.mul_ediv_cancel_left n (by decide), mul_comm]
      exact Int.ediv_lt_iff_lt_mul (by decide : (0 : ℤ) < 1000)
    simp only [Option.map_some, Option.all_some, hlt, Time.after]

/-- A query of a shard selects the rows of the tuples that the store selects. -/
theorem select_shard (h : Mirrors codec s T) (hproject : 0 ∉ projectID) (tenantID : GoString)
    (scan : RowOrder TupleKey) (order : MapOrder) (cond : TupleKey → TupleCells → Bool)
    (want : Tuple → Bool)
    (hshard : ∀ k c, cond k c → k.projectID = projectID ∧ k.tenantID = tenantID)
    (hwant : ∀ t, Storable codec t →
      cond (TupleRow.key ⟨projectID, tenantID, t⟩) (tupleCells codec t) = want t) :
    ∃ tuples : List Tuple, tuples.Perm
        (((s.tuples.inner (scope projectID tenantID)).values order).filter want) ∧
      (∀ t ∈ tuples, Storable codec t) ∧ T.relationTuples.select scan cond =
        tuples.map fun t => ⟨TupleRow.key ⟨projectID, tenantID, t⟩, tupleCells codec t⟩ := by
  have hmem : ∀ t, t ∈ ((s.tuples.inner (scope projectID tenantID)).values order).filter want ↔
      s.Stored projectID tenantID t ∧ want t := by
    intro t
    rw [List.mem_filter, GoMap.mem_values]
    apply and_congr_left'
    constructor
    · rintro ⟨k, hget⟩
      have hkey := s.tuples_keyed (scope projectID tenantID) k t hget
      rw [← hkey] at hget
      exact hget
    · intro hget
      exact ⟨tupleKey t, hget⟩
  have hentries : (T.relationTuples.filter cond).entries =
      ((((s.tuples.inner (scope projectID tenantID)).values order).filter want : List Tuple) :
        Multiset Tuple).map fun t =>
          ⟨TupleRow.key ⟨projectID, tenantID, t⟩, tupleCells codec t⟩ := by
    apply Table.entries_filter_eq_map
    · have hkeys := nodup_keys_inner s (scope projectID tenantID) projectID tenantID
      have hmap := Multiset.map_map (fun t => TupleRow.key ⟨projectID, tenantID, t⟩) Sigma.snd
        (s.tuples.inner (scope projectID tenantID)).entries
      rw [← GoMap.coe_values _ order] at hmap
      rw [coe_filter]
      exact Multiset.nodup_of_le (Multiset.map_le_map (Multiset.filter_le _ _)) (hmap ▸ hkeys)
    · intro k c
      have hrow := lookup_relationTuples_iff h hproject (k := k) (c := c)
      simp only [Multiset.mem_coe, hmem]
      constructor
      · rintro ⟨hk, hcond⟩
        obtain ⟨hk', htenant⟩ := hshard k c hcond
        obtain ⟨tenantID', t, ht, rfl, rfl⟩ := hrow.mp ⟨hk, hk'⟩
        obtain rfl : tenantID' = tenantID := htenant
        rw [hwant t (h.storable _ _ _ ht).1] at hcond
        exact ⟨t, ⟨ht, hcond⟩, rfl, rfl⟩
      · rintro ⟨t, ⟨ht, hcond⟩, rfl, rfl⟩
        rw [← hwant t (h.storable _ _ _ ht).1] at hcond
        exact ⟨(hrow.mpr ⟨tenantID, t, ht, rfl, rfl⟩).1, hcond⟩
  obtain ⟨tuples, hperm, hselect⟩ := Table.select_eq_map hentries scan
  refine ⟨tuples, hperm, fun t ht => ?_, hselect⟩
  exact (h.storable _ _ _ ((hmem t).mp (hperm.mem_iff.mp ht)).1).1

theorem tupleCols_userID (h : t.subject.Valid) : (tupleCols t).userID = t.subject.userID := by
  obtain ⟨ns, objectID, relation, ⟨userID, set, wildcard, condition⟩, expiresAt⟩ := t
  obtain ⟨-, hset, hwildcard⟩ | ⟨huser, hset, hwildcard⟩ | ⟨huser, hset, hwildcard⟩ := h <;>
    cases set <;> simp_all [tupleCols]

theorem mapM_scanTuple {tuples : List Tuple} (h : ∀ t ∈ tuples, Storable codec t) :
    (tuples.map fun t => (⟨TupleRow.key ⟨projectID, tenantID, t⟩, tupleCells codec t⟩ :
        Σ _ : TupleKey, TupleCells)).mapM (fun e => scanTuple codec e.1 e.2) =
      .ok (tuples.map normalTuple) := by
  rw [List.mapM_map]
  exact mapM_of_ok fun t ht => scanTuple_eq (h t ht)

theorem listSubjects_perm (h : Mirrors codec s T) (scan : RowOrder TupleKey) (order : MapOrder)
    (now : Time) {n : SubjectSet}
    (htexts : ∀ x ∈ [projectID, tenantID, n.ns, n.objectID, n.relation], isText x) :
    ∃ subjects, listSubjects T codec scan now projectID tenantID n = .ok subjects ∧
      subjects.Perm ((s.listSubjects order now projectID tenantID n).map normalSubject) := by
  have hproject : 0 ∉ projectID := zero_notMem_of_isText (htexts _ (by simp))
  obtain ⟨tuples, hperm, hstorable, hselect⟩ := select_shard h hproject tenantID scan
    order
    (fun k c => (k.projectID = projectID ∧ k.tenantID = tenantID ∧ k.ns = n.ns ∧
      k.objectID = n.objectID ∧ k.relation = n.relation) && isActive now c)
    (fun t => t.ns = n.ns ∧ t.objectID = n.objectID ∧ t.relation = n.relation ∧
      t.activeAt now)
    (by simp only [Bool.and_eq_true, decide_eq_true_eq]; tauto)
    (by intro t ht; rw [isActive_eq ht]; simp [TupleRow.key, Bool.and_assoc])
  refine ⟨(tuples.map normalTuple).map (·.subject), ?_, ?_⟩
  · rw [listSubjects, query_of_isText htexts, hselect]
    simp only [bind, Except.bind, mapM_scanTuple hstorable]
    rfl
  · rw [List.map_map, Store.listSubjects, List.map_map]
    exact hperm.map _

theorem orderBy_id_le_iff {a b : GoString} : orderBy id [a] ≤ orderBy id [b] ↔ a ≤ b := by
  have hlt : orderBy id [b] < orderBy id [a] ↔ b < a := by
    simp [orderBy, List.cons_lt_cons_iff]
  exact not_congr hlt

theorem listObjectIDs_perm (h : Mirrors codec s T) (scan : RowOrder TupleKey)
    (collate : GoString → GoString) (order : MapOrder) (now : Time) {ns : GoString}
    (htexts : ∀ x ∈ [projectID, tenantID, ns], isText x) :
    ∃ ids, listObjectIDs T scan collate now projectID tenantID ns = .ok ids ∧
      ids.Perm (s.listObjectIDs order now projectID tenantID ns) ∧
      (collate = id → ids = s.listObjectIDs order now projectID tenantID ns) := by
  have hproject : 0 ∉ projectID := zero_notMem_of_isText (htexts _ (by simp))
  obtain ⟨tuples, hperm, hstorable, hselect⟩ := select_shard h hproject tenantID scan
    order
    (fun k c => (k.projectID = projectID ∧ k.tenantID = tenantID ∧ k.ns = ns) &&
      isActive now c)
    (fun t => t.ns = ns ∧ t.activeAt now)
    (by simp only [Bool.and_eq_true, decide_eq_true_eq]; tauto)
    (by intro t ht; rw [isActive_eq ht]; simp [TupleRow.key])
  have hids : (tuples.map (·.objectID)).dedup.insertionSort
      (fun a b => orderBy collate [a] ≤ orderBy collate [b]) |>.Perm
      (s.listObjectIDs order now projectID tenantID ns) := by
    refine (List.perm_insertionSort _ _).trans ?_
    refine List.Perm.trans ?_ (List.perm_insertionSort _ _).symm
    exact (hperm.map _).dedup
  refine ⟨_, ?_, hids, ?_⟩
  · rw [listObjectIDs, query_of_isText htexts, hselect]
    simp only [bind, Except.bind, List.map_map]
    rfl
  · rintro rfl
    have hsorted := List.pairwise_insertionSort (fun a b => orderBy id [a] ≤ orderBy id [b])
      (tuples.map (·.objectID)).dedup
    exact hids.eq_of_pairwise' (hsorted.imp orderBy_id_le_iff.mp)
      (List.pairwise_insertionSort (· ≤ ·) _)

theorem readTuples_perm (h : Mirrors codec s T) (scan : RowOrder TupleKey)
    (collate : GoString → GoString) (order : MapOrder) (now : Time) {f : TupleFilter}
    (htexts : ∀ x ∈ [projectID, tenantID, f.ns, f.objectID, f.relation, f.subjectUserID],
      isText x) :
    ∃ tuples, readTuples T codec scan collate now projectID tenantID f = .ok tuples ∧
      tuples.Perm ((s.readTuples order now projectID tenantID f).map normalTuple) := by
  have hproject : 0 ∉ projectID := zero_notMem_of_isText (htexts _ (by simp))
  obtain ⟨tuples, hperm, hstorable, hselect⟩ := select_shard h hproject tenantID scan
    order
    (fun k c => (k.projectID = projectID ∧ k.tenantID = tenantID ∧
        (f.ns = [] ∨ k.ns = f.ns) ∧ (f.objectID = [] ∨ k.objectID = f.objectID) ∧
        (f.relation = [] ∨ k.relation = f.relation) ∧
        (f.subjectUserID = [] ∨ k.subject.userID = f.subjectUserID)) && isActive now c)
    (fun t => t.activeAt now && f.admits t)
    (by simp only [Bool.and_eq_true, decide_eq_true_eq]; tauto)
    (by
      intro t ht
      rw [isActive_eq ht, Bool.and_comm]
      simp [TupleRow.key, TupleFilter.admits, tupleCols_userID ht.valid, Bool.and_assoc])
  -- the rows are sorted before they are read
  obtain ⟨sorted, hsorted, hrows⟩ := exists_perm_map
    ((List.perm_insertionSort (fun a b : Σ _ : TupleKey, TupleCells =>
      orderBy collate (tupleColumns a.1) ≤ orderBy collate (tupleColumns b.1)) _).trans
        (.of_eq hselect))
  refine ⟨sorted.map normalTuple, ?_, ?_⟩
  · rw [readTuples, query_of_isText htexts]
    simp only [bind, Except.bind]
    rw [hrows]
    exact mapM_scanTuple fun t ht => hstorable t (hsorted.mem_iff.mp ht)
  · exact ((hsorted.trans hperm).trans (List.perm_insertionSort _ _).symm).map _

theorem getSeatUsage_eq (h : Mirrors codec s T) {sku : GoString}
    (htexts : ∀ x ∈ [projectID, tenantID, sku], isText x) :
    getSeatUsage T projectID tenantID sku = .ok (s.getSeatUsage projectID tenantID sku) := by
  have hproject : 0 ∉ projectID := zero_notMem_of_isText (htexts _ (by simp))
  have htenant : 0 ∉ tenantID := zero_notMem_of_isText (htexts _ (by simp))
  have hlimit := h.seatLimits projectID tenantID sku hproject htenant
  rw [Option.map_id] at hlimit
  simp only [getSeatUsage, skuArgs, query_of_isText htexts, countSeats_eq h hproject htenant,
    hlimit, bind, Except.bind, Store.getSeatUsage, Store.seatUsage]
  cases s.seatLimits.get₂ (scope projectID tenantID) sku <;> rfl

theorem consistencyToken_eq (h : Mirrors codec s T)
    (htexts : ∀ x ∈ [projectID, tenantID], isText x) :
    consistencyToken T projectID tenantID = .ok (s.consistencyToken projectID tenantID) := by
  have hseq := h.seqs projectID tenantID () (zero_notMem_of_isText (htexts _ (by simp)))
    (zero_notMem_of_isText (htexts _ (by simp)))
  rw [Option.map_id] at hseq
  rw [consistencyToken, query_of_isText htexts, hseq]
  rfl

theorem Mirrors.sameReads (h : Mirrors codec s T) : SameReads codec s T where
  subjects scan order now _ _ _ htexts := listSubjects_perm h scan order now htexts
  objectIDs scan collate order now _ _ _ htexts :=
    listObjectIDs_perm h scan collate order now htexts
  tuples scan collate order now _ _ _ htexts := readTuples_perm h scan collate order now htexts
  seats _ _ _ htexts := getSeatUsage_eq h htexts
  token _ _ htexts := consistencyToken_eq h htexts

/-- Served by either driver, a sequence of calls gets the same replies, and the same is read
after it. -/
theorem drivers_agree (codec : ParamsCodec) (env : Env) (mutations : List Mutation)
    (h : ∀ m ∈ mutations, m.Validated codec) :
    (performAll (Mutation.perform codec) mutations {}).1 =
        (performAll (fun m s => Service.exec env m.call s) mutations .empty).1 ∧
      SameReads codec (performAll (fun m s => Service.exec env m.call s) mutations .empty).2
        (performAll (Mutation.perform codec) mutations {}).2 := by
  obtain ⟨htrace, hmirrors⟩ := performAll_simulates (R := Mirrors codec)
    (fun m hm s T hmirrors => agrees_perform hmirrors (h m hm) env) (mirrors_empty codec)
  exact ⟨htrace, hmirrors.sameReads⟩

/-- A seat under a limit and one above it, tuples of all kinds of subjects, and the deletion of a
user. -/
def sampleMutations : List Mutation :=
  [.setSeatLimit "p" "t" "pro" (some 1),
    .assignSeatAndTuple ⟨"p", "t", "pro", "ann", 0⟩ (userTuple "sku" "pro" "holder" "ann"),
    .assignSeatAndTuple ⟨"p", "t", "pro", "bob", 0⟩ (userTuple "sku" "pro" "holder" "bob"),
    .writeTuples "p" "t"
      [⟨"doc", "readme", "viewer", { userID := "bob", condition := some ⟨"office", ∅⟩ }, some 5000⟩,
        ⟨"doc", "readme", "viewer", { set := some ⟨"group", "eng", "member"⟩ }, none⟩,
        ⟨"doc", "readme", "viewer", { wildcard := true }, none⟩]
      [userTuple "doc" "readme" "viewer" "ann"],
    .deleteAllSubjectTuplesInProject "p" "ann"]

/-- Parameters are the empty object. -/
def emptyObjects : ParamsCodec where
  marshal _ := some "\x7b\x7d"
  jsonb text := if text = [] then none else some text
  unmarshal _ := some ∅
  jsonb_object := by decide
  jsonb_ne_nil text stored h := by
    split_ifs at h with hnil
    cases h
    exact hnil

theorem storable_of_strings {t : Tuple} (l : List String) (hvalid : t.subject.Valid)
    (hcondition : t.subject.condition = none) (hexpiry : t.expiresAt = none)
    (htexts : tupleTexts t = l.map str) (h : ∀ s ∈ l, 0 ∉ str s) : Storable codec t where
  valid := hvalid
  params c hc := by
    rw [hcondition] at hc
    cases hc
  expiry expiry hexpiry' := by
    rw [hexpiry] at hexpiry'
    cases hexpiry'
  texts := htexts ▸ isText_str h

theorem sampleMutations_validated : ∀ m ∈ sampleMutations, m.Validated emptyObjects := by
  simp only [sampleMutations, List.forall_mem_cons]
  refine ⟨?_, ?_, ?_, ?_, ?_, List.forall_mem_nil _⟩
  · refine ⟨isText_str (l := ["p", "t", "pro"]) (by decide), List.forall_mem_nil _, ?_⟩
    rintro _ ⟨⟩
    decide
  · refine ⟨isText_str (l := ["p", "t", "pro", "ann"]) (by decide), ?_, fun _ h => by cases h⟩
    exact List.forall_mem_singleton.mpr
      (storable_of_strings ["sku", "pro", "holder", "ann"] (by decide) rfl rfl rfl (by decide))
  · refine ⟨isText_str (l := ["p", "t", "pro", "bob"]) (by decide), ?_, fun _ h => by cases h⟩
    exact List.forall_mem_singleton.mpr
      (storable_of_strings ["sku", "pro", "holder", "bob"] (by decide) rfl rfl rfl (by decide))
  · refine ⟨isText_str (l := ["p", "t"]) (by decide), ?_, fun _ h => by cases h⟩
    simp only [Mutation.tuples, List.cons_append, List.nil_append, List.forall_mem_cons]
    refine ⟨⟨by decide, ?_, ?_, ?_⟩, ?_, ?_, ?_, List.forall_mem_nil _⟩
    · rintro _ ⟨⟩
      exact ⟨"\x7b\x7d", "\x7b\x7d", rfl, by decide, rfl⟩
    · rintro _ ⟨⟩
      decide
    · exact isText_str (l := ["doc", "readme", "viewer", "bob", "office"]) (by decide)
    · exact storable_of_strings ["doc", "readme", "viewer", "", "group", "eng", "member"]
        (by decide) rfl rfl rfl (by decide)
    · exact storable_of_strings ["doc", "readme", "viewer", ""] (by decide) rfl rfl rfl (by decide)
    · exact storable_of_strings ["doc", "readme", "viewer", "ann"] (by decide) rfl rfl rfl
        (by decide)
  · exact ⟨isText_str (l := ["p", "ann"]) (by decide), List.forall_mem_nil _,
      fun _ h => by cases h⟩

theorem drivers_agree_on_sample : (∀ m ∈ sampleMutations, m.Validated emptyObjects) ∧
    ∀ env, (performAll (Mutation.perform emptyObjects) sampleMutations {}).1 =
        (performAll (fun m s => Service.exec env m.call s) sampleMutations .empty).1 ∧
      SameReads emptyObjects
        (performAll (fun m s => Service.exec env m.call s) sampleMutations .empty).2
        (performAll (Mutation.perform emptyObjects) sampleMutations {}).2 :=
  ⟨sampleMutations_validated, fun env =>
    drivers_agree emptyObjects env sampleMutations sampleMutations_validated⟩

end Queries

end Serial

end Postgres

end WorkspaceAuthz.Service
