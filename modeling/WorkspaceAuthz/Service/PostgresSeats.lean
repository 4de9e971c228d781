import WorkspaceAuthz.Interleaving.Transactions
import WorkspaceAuthz.Service.Types

/-! # Seats in Postgres

The tables that seats are kept in, the statements on them, and the three
transactions that write them. Assignments of one product take an advisory lock;
revoking a seat and deprovisioning a user do not.
-/
namespace WorkspaceAuthz.Service
open Go Authz Interleaving

namespace Postgres

inductive SubjectKind where
  | user
  | set
  | wildcard
deriving DecidableEq, Repr

/-- The subject columns of a tuple. -/
structure SubjectCols where
  kind : SubjectKind
  userID : GoString := []
  ns : GoString := []
  objectID : GoString := []
  relation : GoString := []
deriving DecidableEq, Repr

def tupleCols (t : Tuple) : SubjectCols :=
  if t.subject.wildcard then { kind := .wildcard }
  else match t.subject.set with
    | some set => { kind := .set, ns := set.ns, objectID := set.objectID, relation := set.relation }
    | none => { kind := .user, userID := t.subject.userID }

structure TupleRow where
  projectID : GoString
  tenantID : GoString
  tuple : Tuple

/-- The primary key of `relation_tuples`. -/
structure TupleKey where
  projectID : GoString
  tenantID : GoString
  ns : GoString
  objectID : GoString
  relation : GoString
  subject : SubjectCols
deriving DecidableEq, Repr

def TupleRow.key (r : TupleRow) : TupleKey :=
  ⟨r.projectID, r.tenantID, r.tuple.ns, r.tuple.objectID, r.tuple.relation, tupleCols r.tuple⟩

/-- The primary key of `seat_limits`. -/
structure SkuKey where
  projectID : GoString
  tenantID : GoString
  sku : GoString
deriving DecidableEq, Repr

/-- The primary key of `seat_assignments`. -/
structure SeatKey extends SkuKey where
  userID : GoString
deriving DecidableEq, Repr

def seatKey (a : SeatAssignment) : SeatKey := ⟨⟨a.projectID, a.tenantID, a.sku⟩, a.userID⟩

def SeatKey.tupleKey (k : SeatKey) : TupleKey :=
  TupleRow.key ⟨k.projectID, k.tenantID, seatTuple k.sku k.userID⟩

structure Tables where
  seats : List SeatAssignment
  limits : SkuKey → Option ℤ
  tuples : List TupleRow
  seqs : GoString × GoString → ℕ

namespace Tables

def hasSeat (T : Tables) (k : SeatKey) : Bool := T.seats.any (seatKey · = k)

def hasTuple (T : Tables) (k : TupleKey) : Bool := T.tuples.any (·.key = k)

def countSeats (T : Tables) (q : SkuKey) : ℕ :=
  T.seats.countP fun a => (seatKey a).toSkuKey = q

end Tables

/-- What a statement leaves to be committed; a deletion names the rows that it has found. -/
inductive RowWrite where
  | insertSeat (a : SeatAssignment)
  | deleteSeats (keys : List SeatKey)
  | upsertTuple (r : TupleRow)
  | deleteTuples (keys : List TupleKey)
  | bumpSeq (projectID tenantID : GoString)

def Tables.write (T : Tables) : RowWrite → Tables
  | .insertSeat a => { T with seats := T.seats ++ [a] }
  | .deleteSeats keys => { T with seats := T.seats.filter (seatKey · ∉ keys) }
  | .upsertTuple r => { T with tuples := T.tuples.filter (·.key ≠ r.key) ++ [r] }
  | .deleteTuples keys => { T with tuples := T.tuples.filter (·.key ∉ keys) }
  | .bumpSeq projectID tenantID =>
    let seq := T.seqs (projectID, tenantID) + 1
    { T with seqs := Function.update T.seqs (projectID, tenantID) seq }

inductive Statement where
  | seatExists (k : SeatKey)
  | seatLimit (q : SkuKey)
  | countSeats (q : SkuKey)
  | insertSeat (a : SeatAssignment)
  | deleteSeat (k : SeatKey)
  | deleteUserSeats (projectID userID : GoString)
  | upsertTuple (r : TupleRow)
  | deleteTuple (k : TupleKey)
  | deleteUserTuples (projectID userID : GoString)
  | bumpSeq (projectID tenantID : GoString)

abbrev Statement.Answer : Statement → Type
  | .seatExists _ => Bool
  | .seatLimit _ => Option ℤ
  | .countSeats _ => ℕ
  | .deleteUserTuples .. => ℕ
  | _ => Unit

def SeatKey.ofUser (projectID userID : GoString) (k : SeatKey) : Bool :=
  k.projectID = projectID && k.userID = userID

def TupleKey.ofUser (projectID userID : GoString) (k : TupleKey) : Bool :=
  k.projectID = projectID && k.subject.kind = .user && k.subject.userID = userID

def Tables.seatKeys (T : Tables) (cond : SeatKey → Bool) : List SeatKey :=
  (T.seats.map seatKey).filter cond

def Tables.tupleKeys (T : Tables) (cond : TupleKey → Bool) : List TupleKey :=
  (T.tuples.map (·.key)).filter cond

def Tables.run (T : Tables) : (st : Statement) → st.Answer × List RowWrite
  | .seatExists k => (T.hasSeat k, [])
  | .seatLimit q => (T.limits q, [])
  | .countSeats q => (T.countSeats q, [])
  | .insertSeat a => ((), [.insertSeat a])
  | .deleteSeat k => ((), [.deleteSeats (T.seatKeys (· = k))])
  | .deleteUserSeats projectID userID =>
    ((), [.deleteSeats (T.seatKeys (SeatKey.ofUser projectID userID))])
  | .upsertTuple r => ((), [.upsertTuple r])
  | .deleteTuple k => ((), [.deleteTuples (T.tupleKeys (· = k))])
  | .deleteUserTuples projectID userID =>
    let keys := T.tupleKeys (TupleKey.ofUser projectID userID)
    (keys.length, [.deleteTuples keys])
  | .bumpSeq projectID tenantID => ((), [.bumpSeq projectID tenantID])

abbrev SeatOp := TxOp Statement GoString

abbrev SeatReply : SeatOp → Type := TxReply Statement.Answer

abbrev SeatTrace := Trace SeatOp SeatReply

abbrev SeatDatabase := Database Tables RowWrite GoString

def dialect : Dialect Tables RowWrite Statement Statement.Answer where
  apply := Tables.write
  run st T := T.run st

abbrev execute : Unit → (op : SeatOp) → SeatDatabase → SeatReply op × SeatDatabase :=
  Database.exec dialect

/-! ## The transactions -/

abbrev SeatM := Prog SeatOp SeatReply

section Transactions

variable (tx : ℕ)

def act (action : Action Statement GoString) : SeatM (SeatReply (tx, action)) :=
  Prog.perform (tx, action)

def statement (st : Statement) : SeatM st.Answer := act tx (.statement st)

def commit : SeatM Unit := act tx .commit

def writeTuplesExec (projectID tenantID : GoString) (inserts deletes : List Tuple) :
    SeatM Unit := do
  deletes.forM fun t => statement tx (.deleteTuple (TupleRow.key ⟨projectID, tenantID, t⟩))
  inserts.forM fun t => statement tx (.upsertTuple ⟨projectID, tenantID, t⟩)
  statement tx (.bumpSeq projectID tenantID)

/-- The fields are joined by the unit separator. -/
def seatLockKey (q : SkuKey) : GoString :=
  str "seat" ++ 0x1F :: q.projectID ++ 0x1F :: q.tenantID ++ 0x1F :: q.sku

def insertNewSeat (a : SeatAssignment) (tuple : Tuple) : SeatM (Except ServiceError Bool) := do
  statement tx (.insertSeat a)
  writeTuplesExec tx a.projectID a.tenantID [tuple] []
  commit tx
  return .ok false

/-- Whether the seat was held already. -/
def assignSeatAndTuple (a : SeatAssignment) (tuple : Tuple) :
    SeatM (Except ServiceError Bool) := do
  let q := (seatKey a).toSkuKey
  act tx (.lock (seatLockKey q))
  let held ← statement tx (.seatExists (seatKey a))
  if held then
    writeTuplesExec tx a.projectID a.tenantID [tuple] []
    commit tx
    return .ok true
  else
    let limit ← statement tx (.seatLimit q)
    match limit with
    | none => insertNewSeat tx a tuple
    | some limit =>
      let used ← statement tx (.countSeats q)
      if limit ≤ used then
        act tx .rollback
        return .error ⟨.resourceExhausted, [], []⟩
      else insertNewSeat tx a tuple

def revokeSeatAndTuple (k : SeatKey) (tuple : Tuple) : SeatM Unit := do
  statement tx (.deleteSeat k)
  writeTuplesExec tx k.projectID k.tenantID [] [tuple]
  commit tx

/-- How many tuples were deleted. -/
def deleteAllSubjectTuplesInProject (projectID userID : GoString) : SeatM ℕ := do
  let n ← statement tx (.deleteUserTuples projectID userID)
  statement tx (.deleteUserSeats projectID userID)
  commit tx
  return n

end Transactions

section Sequences

variable {tx : ℕ} {trace : SeatTrace} {P : Protocol SeatOp SeatReply} {α : Type}
  {Q : SeatTrace → α → Prop} {projectID tenantID : GoString} {tuple : Tuple} {f : Unit → SeatM α}

theorem keeps_act_then {action : Action Statement GoString} {f : SeatReply (tx, action) → SeatM α}
    (hissues : P.issues trace (tx, action))
    (h : ∀ r, (f r).Keeps P Q (⟨(tx, action), r⟩ :: trace)) :
    (act tx action >>= f).Keeps P Q trace :=
  ⟨hissues, fun r _ => h r⟩

theorem keeps_insertTuple_then
    (hupsert : P.issues trace (tx, .statement (.upsertTuple ⟨projectID, tenantID, tuple⟩)))
    (hbump : ∀ t, P.issues t (tx, .statement (.bumpSeq projectID tenantID)))
    (h : (f ()).Keeps P Q (⟨(tx, .statement (.bumpSeq projectID tenantID)), ()⟩ ::
      ⟨(tx, .statement (.upsertTuple ⟨projectID, tenantID, tuple⟩)), ()⟩ :: trace)) :
    (writeTuplesExec tx projectID tenantID [tuple] [] >>= f).Keeps P Q trace :=
  ⟨hupsert, fun _ _ => ⟨hbump _, fun _ _ => h⟩⟩

theorem keeps_deleteTuple_then
    (hdelete : P.issues trace
      (tx, .statement (.deleteTuple (TupleRow.key ⟨projectID, tenantID, tuple⟩))))
    (hbump : ∀ t, P.issues t (tx, .statement (.bumpSeq projectID tenantID)))
    (h : (f ()).Keeps P Q (⟨(tx, .statement (.bumpSeq projectID tenantID)), ()⟩ ::
      ⟨(tx, .statement (.deleteTuple (TupleRow.key ⟨projectID, tenantID, tuple⟩))), ()⟩ :: trace)) :
    (writeTuplesExec tx projectID tenantID [] [tuple] >>= f).Keeps P Q trace :=
  ⟨hdelete, fun _ _ => ⟨hbump _, fun _ _ => h⟩⟩

end Sequences

/-- A transaction, as the service asks for it. -/
inductive SeatTransaction where
  | assign (a : SeatAssignment)
  | revoke (k : SeatKey)
  | deprovision (projectID userID : GoString)
deriving DecidableEq, Repr

def SeatTransaction.prog (tx : ℕ) : SeatTransaction → SeatM Unit
  | .assign a => do
    let _ ← assignSeatAndTuple tx a (seatTuple a.sku a.userID)
    return ()
  | .revoke k => revokeSeatAndTuple tx k (seatTuple k.sku k.userID)
  | .deprovision projectID userID => do
    let _ ← deleteAllSubjectTuplesInProject tx projectID userID
    return ()

def numbered (transactions : List SeatTransaction) : List (ℕ × SeatTransaction) :=
  transactions.zipIdx.map Prod.swap

theorem numbered_nodup (transactions : List SeatTransaction) :
    ((numbered transactions).map Prod.fst).Nodup := by
  have hfst : (numbered transactions).map Prod.fst = List.range' 0 transactions.length := by
    rw [numbered, List.map_map, ← List.zipIdx_map_snd]
    rfl
  rw [hfst]
  exact List.nodup_range'

def seatTransactions (T : Tables) (transactions : List SeatTransaction) :
    Config SeatDatabase SeatOp SeatReply Unit :=
  .start (.idle T) ((numbered transactions).map fun q => q.2.prog q.1)

end Postgres

end WorkspaceAuthz.Service
