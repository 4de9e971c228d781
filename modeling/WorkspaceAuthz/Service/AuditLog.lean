import WorkspaceAuthz.Batches
import WorkspaceAuthz.Service.ListingOrder
import WorkspaceAuthz.Service.Requests

/-! # The audit log of tuple changes

A write is followed by a record for every tuple that was inserted, then by one for
every tuple that was deleted, while the store deletes before it inserts. To replay
the log gives the tuples of the shard unless the last batch that mentions some
tuple deletes and inserts it at once.
-/
namespace WorkspaceAuthz.Service
open Go Authz Interleaving Batches Postgres

inductive TupleOpKind where
  | insert
  | delete
deriving DecidableEq, Repr

/-- The record of a grant or a revocation; `at` is written `instant` here. -/
structure TupleChangeRecord where
  op : TupleOpKind
  projectID : GoString
  tenantID : GoString
  ns : GoString
  objectID : GoString
  relation : GoString
  subjectUserID : GoString
  subjectSet : Option SubjectSet
  wildcard : Bool
  instant : Time
deriving DecidableEq, Repr

/-- What makes a tuple the tuple it is; condition and expiry are its data. -/
structure TupleIdentity where
  ns : GoString
  objectID : GoString
  relation : GoString
  userID : GoString
  set : Option SubjectSet
  wildcard : Bool
deriving DecidableEq, Repr

def identity (t : Tuple) : TupleIdentity :=
  ⟨t.ns, t.objectID, t.relation, t.subject.userID, t.subject.set, t.subject.wildcard⟩

def inserted (ops : List TupleOp) : List Tuple := (ops.filter fun op => !op.delete).map (·.tuple)

def deleted (ops : List TupleOp) : List Tuple := (ops.filter (·.delete)).map (·.tuple)

section Requests

variable (p : Principal)

def auditTupleChanges (now : Time) (inserts deletes : List Tuple) : List TupleChangeRecord :=
  let emit (op : TupleOpKind) (ts : List Tuple) := ts.map fun t : Tuple =>
    (⟨op, p.projectID, p.tenantID, t.ns, t.objectID, t.relation, t.subject.userID, t.subject.set,
      t.subject.wildcard, now⟩ : TupleChangeRecord)
  emit .insert inserts ++ emit .delete deletes

/-- `WriteTuples` of a service with an audit logger, with the records that it emits
when it succeeds. -/
def writeTuplesAudited (ops : List TupleOp) : ServiceM (ℤ × List TupleChangeRecord) := do
  let seq ← writeTuples p ops
  let now ← call .now
  return (seq, auditTupleChanges p now (inserted ops) (deleted ops))

/-- Batches that succeed one after the other, with all the records that they emit. -/
inductive AuditedWrites (s : Store) : List (List TupleOp) → List TupleChangeRecord → Store → Prop
  | none : AuditedWrites s [] [] s
  | write {batches ops records emitted s' s'' seq} : AuditedWrites s batches records s' →
      Runs exec (writeTuplesAudited p ops).run s' (.ok (seq, emitted)) s'' →
      AuditedWrites s (batches ++ [ops]) (records ++ emitted) s''

end Requests

/-! ## Replay -/

def TupleChangeRecord.change (r : TupleChangeRecord) : Batches.Change TupleIdentity :=
  let i : TupleIdentity :=
    ⟨r.ns, r.objectID, r.relation, r.subjectUserID, r.subjectSet, r.wildcard⟩
  match r.op with
  | .insert => .insert i
  | .delete => .delete i

/-- The tuples that the records leave, oldest record first. -/
def replayRecords (records : List TupleChangeRecord) : Finset TupleIdentity :=
  replay (records.map TupleChangeRecord.change)

def identityBatch (ops : List TupleOp) : Batch TupleIdentity :=
  ⟨(inserted ops).map identity, (deleted ops).map identity⟩

theorem map_change_auditTupleChanges (p : Principal) (now : Time) (ops : List TupleOp) :
    (auditTupleChanges p now (inserted ops) (deleted ops)).map TupleChangeRecord.change =
      (identityBatch ops).log := by
  simp only [auditTupleChanges, List.map_append, List.map_map, identityBatch, Batch.log]
  rfl

/-! ## What a write leaves in the shard -/

def Store.identities (s : Store) (projectID tenantID : GoString) : Set TupleIdentity :=
  {i | ∃ t, s.Stored projectID tenantID t ∧ identity t = i}

/-- The subjects of all tuples in a shard are of one kind. -/
def Store.OneKind (s : Store) (projectID tenantID : GoString) : Prop :=
  ∀ t, s.Stored projectID tenantID t → subjectKinds t.subject = 1

theorem subjectKinds_of_validateTuple {t : Tuple} (h : validateTuple t = .ok ()) :
    subjectKinds t.subject = 1 := by
  by_contra hkinds
  unfold validateTuple at h
  split_ifs at h
  all_goals cases h

theorem valid_of_subjectKinds {s : Subject} (h : subjectKinds s = 1) : s.Valid := by
  unfold subjectKinds at h
  unfold Subject.Valid
  cases hset : s.set <;> cases hwild : s.wildcard <;> by_cases huser : s.userID = [] <;>
    simp_all

/-- Among tuples whose subjects are of one kind, the key is the identity. -/
theorem tupleKey_eq_iff {a b : Tuple} (ha : subjectKinds a.subject = 1)
    (hb : subjectKinds b.subject = 1) : tupleKey a = tupleKey b ↔ identity a = identity b := by
  rw [tupleKey_eq_tupleKey_iff,
    subjectKey_eq_iff_of_valid (valid_of_subjectKinds ha) (valid_of_subjectKinds hb)]
  simp only [identity, TupleIdentity.mk.injEq]
  tauto

section Store

variable {s : Store} {projectID tenantID : GoString} {inserts deletes : List Tuple}

theorem Store.identity_mem_iff (hs : s.OneKind projectID tenantID) {t : Tuple}
    (ht : subjectKinds t.subject = 1) :
    identity t ∈ s.identities projectID tenantID ↔ s.Holds projectID tenantID t := by
  constructor
  · rintro ⟨t', hstored, hid⟩
    rw [Store.Holds, ← (tupleKey_eq_iff (hs t' hstored) ht).mpr hid, hstored]
    rfl
  · intro h
    obtain ⟨t', hget⟩ := Option.isSome_iff_exists.mp h
    have hkey : tupleKey t' = tupleKey t := s.tuples_keyed _ _ t' hget
    have hstored : s.Stored projectID tenantID t' := by rwa [Store.Stored, hkey]
    exact ⟨t', hstored, (tupleKey_eq_iff (hs t' hstored) ht).mp hkey⟩

theorem Store.OneKind.writeTuples (hs : s.OneKind projectID tenantID)
    (hinserts : ∀ t ∈ inserts, subjectKinds t.subject = 1) :
    (s.writeTuples projectID tenantID inserts deletes).OneKind projectID tenantID := by
  intro t ht
  rcases Store.mem_or_get_of_writeTuples ht with hmem | hget
  · exact hinserts t hmem
  · exact hs t hget

theorem Store.mem_identities_writeTuples (hs : s.OneKind projectID tenantID)
    (hinserts : ∀ t ∈ inserts, subjectKinds t.subject = 1)
    (hdeletes : ∀ t ∈ deletes, subjectKinds t.subject = 1) (i : TupleIdentity) :
    i ∈ (s.writeTuples projectID tenantID inserts deletes).identities projectID tenantID ↔
      (i ∈ s.identities projectID tenantID ∧ i ∉ deletes.map identity) ∨
        i ∈ inserts.map identity := by
  have hs' : (s.writeTuples projectID tenantID inserts deletes).OneKind projectID tenantID :=
    hs.writeTuples hinserts
  by_cases hi : ∃ t : Tuple, subjectKinds t.subject = 1 ∧ identity t = i
  · obtain ⟨t, ht, rfl⟩ := hi
    have hmem {ts : List Tuple} (hts : ∀ t ∈ ts, subjectKinds t.subject = 1) :
        identity t ∈ ts.map identity ↔ ∃ t' ∈ ts, tupleKey t' = tupleKey t := by
      rw [List.mem_map]
      exact exists_congr fun t' => and_congr_right fun ht' => (tupleKey_eq_iff (hts t' ht') ht).symm
    rw [Store.identity_mem_iff hs' ht, Store.identity_mem_iff hs ht, Store.holds_writeTuples,
      hmem hinserts, hmem hdeletes, or_comm]
    push Not
    rfl
  · -- no tuple that anyone may write has this identity
    have hnot {ts : List Tuple} (hts : ∀ t ∈ ts, subjectKinds t.subject = 1) :
        i ∉ ts.map identity := by
      intro h
      obtain ⟨t, ht, hid⟩ := List.mem_map.mp h
      exact hi ⟨t, hts t ht, hid⟩
    have hnot' {s : Store} (hs : s.OneKind projectID tenantID) :
        i ∉ s.identities projectID tenantID := by
      rintro ⟨t, ht, hid⟩
      exact hi ⟨t, hs t ht, hid⟩
    simp [hnot hinserts, hnot' hs, hnot' hs']

end Store

section Writes

variable {p : Principal} {s s' s'' : Store} {ops : List TupleOp} {batches : List (List TupleOp)}
  {records : List TupleChangeRecord}

theorem ensures_writeTuples (p : Principal) (ops : List TupleOp) (s : Store) :
    (writeTuples p ops).run.Ensures exec (fun r s' => ∀ seq, r = .ok seq →
      (∀ op ∈ ops, validateTuple op.tuple = .ok ()) ∧
        s' = s.writeTuples p.projectID p.tenantID (inserted ops) (deleted ops)) s := by
  have hfail {e : ServiceError} {P : ℤ → Prop} :
      ∀ seq, (.error e : Except ServiceError ℤ) = .ok seq → P seq := by
    rintro _ ⟨⟩
  unfold writeTuples
  cases h : ops.forM fun op => validateTuple op.tuple with
  | error e => exact hfail
  | ok u =>
    have hvalid : ∀ op ∈ ops, validateTuple op.tuple = .ok () := forM_eq_ok h
    have hwrite : ExceptT.run (do
        call (.writeTuples p.projectID p.tenantID (inserted ops) (deleted ops))
        call (.consistencyToken p.projectID p.tenantID)) |>.Ensures exec (fun r s' => ∀ seq,
          r = .ok seq → (∀ op ∈ ops, validateTuple op.tuple = .ok ()) ∧
            s' = s.writeTuples p.projectID p.tenantID (inserted ops) (deleted ops)) s := by
      apply ensures_attempt_then
      · exact fun env e _ => hfail
      · intro env u _ env' seq _
        exact ⟨hvalid, rfl⟩
    apply ensures_attempt_then
    · exact fun env e _ => hfail
    · intro env u _
      apply ensures_ite
      · intro _
        apply ensures_attempt_then
        · exact fun env' e _ => hfail
        · intro env' m _
          rw [ensures_sequence]
          generalize (List.forM _ _ : Except ServiceError Unit) = r
          cases r with
          | error e => exact hfail
          | ok u => exact hwrite
      · exact fun _ => hwrite

theorem runs_writeTuplesAudited {seq : ℤ}
    (h : Runs exec (writeTuplesAudited p ops).run s (.ok (seq, records)) s') :
    (∀ op ∈ ops, validateTuple op.tuple = .ok ()) ∧
      s' = s.writeTuples p.projectID p.tenantID (inserted ops) (deleted ops) ∧
      ∃ now, records = auditTupleChanges p now (inserted ops) (deleted ops) := by
  have hensures : (writeTuplesAudited p ops).run.Ensures exec (fun r s' => ∀ x, r = .ok x →
      (∀ op ∈ ops, validateTuple op.tuple = .ok ()) ∧
        s' = s.writeTuples p.projectID p.tenantID (inserted ops) (deleted ops) ∧
        ∃ now, x.2 = auditTupleChanges p now (inserted ops) (deleted ops)) s := by
    rw [writeTuplesAudited, ensures_sequence]
    refine (ensures_writeTuples p ops s).mono fun r s' hr => ?_
    cases r with
    | error e => rintro _ ⟨⟩
    | ok seq =>
      obtain ⟨hvalid, hs'⟩ := hr seq rfl
      rintro env x ⟨⟩
      exact ⟨hvalid, hs', env.now, rfl⟩
  exact h.of_ensures hensures _ rfl

theorem AuditedWrites.identities (hempty : ∀ t, ¬ s.Stored p.projectID p.tenantID t)
    (h : AuditedWrites p s batches records s') :
    s'.OneKind p.projectID p.tenantID ∧
      s'.identities p.projectID p.tenantID = written (batches.map identityBatch) ∧
      records.map TupleChangeRecord.change = (batches.map identityBatch).flatMap Batch.log := by
  induction h with
  | none =>
    refine ⟨fun t ht => absurd ht (hempty t), ?_, rfl⟩
    ext i
    refine iff_of_false ?_ (Finset.notMem_empty i)
    rintro ⟨t, ht, -⟩
    exact hempty t ht
  | @write batches ops records emitted s' s'' seq _ hrun ih =>
    obtain ⟨hkind, hids, hlog⟩ := ih
    obtain ⟨hvalid, rfl, now, rfl⟩ := runs_writeTuplesAudited hrun
    have hinserts : ∀ t ∈ inserted ops, subjectKinds t.subject = 1 := by
      intro t ht
      obtain ⟨op, hop, rfl⟩ := List.mem_map.mp ht
      exact subjectKinds_of_validateTuple (hvalid op (List.mem_filter.mp hop).1)
    have hdeletes : ∀ t ∈ deleted ops, subjectKinds t.subject = 1 := by
      intro t ht
      obtain ⟨op, hop, rfl⟩ := List.mem_map.mp ht
      exact subjectKinds_of_validateTuple (hvalid op (List.mem_filter.mp hop).1)
    refine ⟨hkind.writeTuples hinserts, ?_, ?_⟩
    · ext i
      rw [Store.mem_identities_writeTuples hkind hinserts hdeletes, hids, List.map_append,
        List.map_singleton, Finset.mem_coe, Finset.mem_coe, mem_written_append]
      rfl
    · rw [List.map_append, hlog, map_change_auditTupleChanges, List.map_append, List.flatMap_append,
        List.map_singleton, List.flatMap_singleton]

end Writes

/-! ## When the log replays to the store -/

/-- A tuple that a batch deletes and inserts at once occurs in a later batch again. -/
def Rewritten (batches : List (List TupleOp)) : Prop :=
  ∀ before ops after, batches = before ++ ops :: after → ∀ ins ∈ ops, ∀ del ∈ ops,
    ins.delete = false → del.delete = true → identity ins.tuple = identity del.tuple →
      ∃ later ∈ after, ∃ op ∈ later, identity op.tuple = identity ins.tuple

theorem mem_inserts_iff {ops : List TupleOp} {i : TupleIdentity} :
    i ∈ (identityBatch ops).inserts ↔ ∃ op ∈ ops, op.delete = false ∧ identity op.tuple = i := by
  simp [identityBatch, inserted, and_assoc]

theorem mem_deletes_iff {ops : List TupleOp} {i : TupleIdentity} :
    i ∈ (identityBatch ops).deletes ↔ ∃ op ∈ ops, op.delete = true ∧ identity op.tuple = i := by
  simp [identityBatch, deleted, and_assoc]

theorem mentions_iff {ops : List TupleOp} {i : TupleIdentity} :
    (identityBatch ops).Mentions i ↔ ∃ op ∈ ops, identity op.tuple = i := by
  rw [Batch.Mentions, mem_inserts_iff, mem_deletes_iff, ← exists_or]
  apply exists_congr
  intro op
  cases op.delete <;> simp

theorem rewritten_iff (batches : List (List TupleOp)) :
    Rewritten batches ↔ ∀ i, Superseded (batches.map identityBatch) i := by
  constructor
  · intro h i before b after heq hins hdel
    obtain ⟨before, rest, rfl, rfl, hrest⟩ := List.map_eq_append_iff.mp heq
    obtain ⟨ops, after, rfl, rfl, rfl⟩ := List.map_eq_cons_iff.mp hrest
    obtain ⟨ins, hmem, hinsert, hid⟩ := mem_inserts_iff.mp hins
    obtain ⟨del, hmem', hdelete, hid'⟩ := mem_deletes_iff.mp hdel
    obtain ⟨later, hlater, op, hop, hid''⟩ :=
      h before ops after rfl ins hmem del hmem' hinsert hdelete (hid.trans hid'.symm)
    exact ⟨_, List.mem_map_of_mem hlater, mentions_iff.mpr ⟨op, hop, hid''.trans hid⟩⟩
  · intro h before ops after heq ins hmem del hmem' hinsert hdelete hid
    obtain ⟨b, hb, hmentions⟩ := h (identity ins.tuple) (before.map identityBatch)
      (identityBatch ops) (after.map identityBatch) (by simp [heq])
      (mem_inserts_iff.mpr ⟨ins, hmem, hinsert, rfl⟩)
      (mem_deletes_iff.mpr ⟨del, hmem', hdelete, hid.symm⟩)
    obtain ⟨later, hlater, rfl⟩ := List.mem_map.mp hb
    exact ⟨later, hlater, mentions_iff.mp hmentions⟩

/-- After batches on an empty shard, the records of the audit log give the tuples that are
stored iff no tuple is left that was deleted and inserted by one batch. -/
theorem audit_log_replays_iff (p : Principal) (s s' : Store) (batches : List (List TupleOp))
    (records : List TupleChangeRecord) (hempty : ∀ t, ¬ s.Stored p.projectID p.tenantID t)
    (h : AuditedWrites p s batches records s') :
    (replayRecords records : Set TupleIdentity) = s'.identities p.projectID p.tenantID ↔
      Rewritten batches := by
  obtain ⟨-, hids, hlog⟩ := h.identities hempty
  rw [hids, replayRecords, hlog, Finset.coe_inj, replay_eq_written_iff, rewritten_iff]

theorem AuditedWrites.outcome {p : Principal} {s s' : Store} {batches : List (List TupleOp)}
    {ops : List TupleOp} {records emitted : List TupleChangeRecord} {seq : ℤ} (env : Env)
    (h : AuditedWrites p s batches records s')
    (hok : ((writeTuplesAudited p ops).run.outcome exec env s').1 = .ok (seq, emitted)) :
    AuditedWrites p s (batches ++ [ops]) (records ++ emitted)
      ((writeTuplesAudited p ops).run.outcome exec env s').2 :=
  .write h (hok ▸ runs_outcome env _ _)

namespace Reinsertion

def principal : Principal := ⟨str "svc", str "proj", str "t"⟩

def grant : Tuple := ⟨str "doc", str "plan", str "viewer", { userID := str "ann" }, none⟩

/-- The grant with a time from which on it does not count any more. -/
def expiring : Tuple := { grant with expiresAt := some 100 }

def first : List TupleOp := [⟨false, grant⟩]

def second : List TupleOp := [⟨true, grant⟩, ⟨false, expiring⟩]

def record (op : TupleOpKind) : TupleChangeRecord :=
  ⟨op, str "proj", str "t", str "doc", str "plan", str "viewer", str "ann", none, false, 0⟩

def afterFirst : Store := ((writeTuplesAudited principal first).run.outcome exec {} .empty).2

def afterSecond : Store := ((writeTuplesAudited principal second).run.outcome exec {} afterFirst).2

theorem not_stored_empty (t : Tuple) :
    ¬ Store.empty.Stored principal.projectID principal.tenantID t := by
  simp [Store.Stored, Store.empty]

theorem writes_first : AuditedWrites principal .empty [first] [record .insert] afterFirst := by
  have hok : ((writeTuplesAudited principal first).run.outcome exec {} .empty).1 =
      .ok (1, [record .insert]) := by
    decide +kernel
  exact AuditedWrites.none.outcome {} hok

theorem writes_second : AuditedWrites principal .empty [first, second]
    [record .insert, record .insert, record .delete] afterSecond := by
  have hok : ((writeTuplesAudited principal second).run.outcome exec {} afterFirst).1 =
      .ok (2, [record .insert, record .delete]) := by
    decide +kernel
  exact writes_first.outcome {} hok

theorem rewritten_first : Rewritten [first] := by
  intro before ops after heq ins _ del hdel _ hdelete
  have hops : ops ∈ [first] := by simp [heq]
  rw [List.mem_singleton.mp hops, first, List.mem_singleton] at hdel
  rw [hdel] at hdelete
  cases hdelete

end Reinsertion

open Reinsertion in
theorem first_grant_replayed :
    (replayRecords [record .insert] : Set TupleIdentity) = afterFirst.identities "proj" "t" :=
  (audit_log_replays_iff principal .empty afterFirst [first] [record .insert] not_stored_empty
    writes_first).mpr rewritten_first

open Reinsertion in
/-- Ann's grant is stored with its new expiry, but to replay the log takes it away. -/
theorem reinserted_grant_not_replayed :
    AuditedWrites principal .empty [first, second]
      [record .insert, record .insert, record .delete] afterSecond ∧
    identity grant ∈ afterSecond.identities "proj" "t" ∧
    identity grant ∉ replayRecords [record .insert, record .insert, record .delete] := by
  refine ⟨writes_second, ?_, by decide +kernel⟩
  apply (Store.identity_mem_iff (writes_second.identities not_stored_empty).1 rfl).mpr
  have hstored : (afterSecond.tuples.get₂ (scope "proj" "t") (tupleKey grant)).isSome = true := by
    decide +kernel
  exact hstored

end WorkspaceAuthz.Service
