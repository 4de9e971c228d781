import WorkspaceAuthz.Service.SeatLimits

/-! # Seats under concurrent transactions

Assignments of one product exclude each other, so that no limit is exceeded. An
assignment and a revocation do not, and neither do they exclude a
deprovisioning: a statement may find a seat, or find none, which at the commit of
its transaction is no longer true. Row and tuple of a seat stay together as long as
no seat is given or taken while another transaction is at work on it.
-/
namespace WorkspaceAuthz.Service
open Go Authz Interleaving

namespace Postgres

/-! ## Row and tuple of one seat -/

section Seat

variable {k : SeatKey} {T T' : Tables} {writes : List RowWrite} {st : Statement}

/-- Whether a seat has its row, and whether it has its tuple. -/
def Tables.seatState (T : Tables) (k : SeatKey) : Bool × Bool :=
  (T.hasSeat k, T.hasTuple k.tupleKey)

theorem Tables.mem_seatKeys {cond : SeatKey → Bool} :
    k ∈ T.seatKeys cond ↔ T.hasSeat k ∧ cond k := by
  simp [seatKeys, hasSeat]

theorem Tables.mem_tupleKeys {k : TupleKey} {cond : TupleKey → Bool} :
    k ∈ T.tupleKeys cond ↔ T.hasTuple k ∧ cond k := by
  simp [tupleKeys, hasTuple]

theorem Tables.hasSeat_deleteSeats {keys : List SeatKey} :
    (T.write (.deleteSeats keys)).hasSeat k ↔ T.hasSeat k ∧ k ∉ keys := by
  simp only [write, hasSeat, List.any_eq_true, List.mem_filter, decide_eq_true_eq]
  constructor
  · rintro ⟨a, ⟨ha, hkeys⟩, rfl⟩
    exact ⟨⟨a, ha, rfl⟩, hkeys⟩
  · rintro ⟨⟨a, ha, rfl⟩, hkeys⟩
    exact ⟨a, ⟨ha, hkeys⟩, rfl⟩

theorem Tables.hasTuple_deleteTuples {k : TupleKey} {keys : List TupleKey} :
    (T.write (.deleteTuples keys)).hasTuple k ↔ T.hasTuple k ∧ k ∉ keys := by
  simp only [write, hasTuple, List.any_eq_true, List.mem_filter, decide_eq_true_eq]
  constructor
  · rintro ⟨r, ⟨hr, hkeys⟩, rfl⟩
    exact ⟨⟨r, hr, rfl⟩, hkeys⟩
  · rintro ⟨⟨r, hr, rfl⟩, hkeys⟩
    exact ⟨r, ⟨hr, hkeys⟩, rfl⟩

theorem Tables.hasSeat_delete_found (cond : SeatKey → Bool) :
    (T.write (.deleteSeats (T.seatKeys cond))).hasSeat k = (T.hasSeat k && !cond k) := by
  rw [Bool.eq_iff_iff, hasSeat_deleteSeats, mem_seatKeys]
  grind

theorem Tables.hasTuple_delete_found {k : TupleKey} (cond : TupleKey → Bool) :
    (T.write (.deleteTuples (T.tupleKeys cond))).hasTuple k = (T.hasTuple k && !cond k) := by
  rw [Bool.eq_iff_iff, hasTuple_deleteTuples, mem_tupleKeys]
  grind

theorem Tables.hasTuple_upsertTuple {k : TupleKey} {r : TupleRow} :
    (T.write (.upsertTuple r)).hasTuple k ↔ T.hasTuple k ∨ r.key = k := by
  simp only [write, hasTuple, List.any_append, List.any_cons, List.any_nil, Bool.or_false,
    Bool.or_eq_true, List.any_eq_true, List.mem_filter, decide_eq_true_eq]
  constructor
  · rintro (⟨x, ⟨hx, -⟩, rfl⟩ | h)
    · exact .inl ⟨x, hx, rfl⟩
    · exact .inr h
  · rintro (⟨x, hx, rfl⟩ | h)
    · by_cases hkey : x.key = r.key
      · exact .inr hkey.symm
      · exact .inl ⟨x, ⟨hx, hkey⟩, rfl⟩
    · exact .inr h

theorem SeatKey.tupleKey_inj {k k' : SeatKey} : k.tupleKey = k'.tupleKey ↔ k = k' := by
  refine ⟨fun h => ?_, congrArg _⟩
  obtain ⟨⟨projectID, tenantID, sku⟩, userID⟩ := k
  obtain ⟨⟨projectID', tenantID', sku'⟩, userID'⟩ := k'
  simp only [tupleKey, TupleRow.key, tupleCols, userTuple, TupleKey.mk.injEq] at h
  grind

theorem SeatKey.ofUser_tupleKey {projectID userID : GoString} :
    k.tupleKey.ofUser projectID userID = k.ofUser projectID userID := by
  simp [tupleKey, TupleRow.key, tupleCols, TupleKey.ofUser, SeatKey.ofUser, userTuple]

theorem SeatKey.key_seatTuple_eq_iff (k k' : SeatKey) :
    TupleRow.key ⟨k.projectID, k.tenantID, seatTuple k.sku k.userID⟩ = k'.tupleKey ↔ k = k' :=
  tupleKey_inj

/-- What a statement does to row and tuple of a seat. -/
def Statement.effect (k : SeatKey) : Statement → Bool × Bool → Bool × Bool
  | .insertSeat a, (row, tuple) => (row || seatKey a = k, tuple)
  | .deleteSeat k', (row, tuple) => (row && !decide (k = k'), tuple)
  | .deleteUserSeats projectID userID, (row, tuple) => (row && !k.ofUser projectID userID, tuple)
  | .upsertTuple r, (row, tuple) => (row, tuple || r.key = k.tupleKey)
  | .deleteTuple k', (row, tuple) => (row, tuple && !decide (k.tupleKey = k'))
  | .deleteUserTuples projectID userID, (row, tuple) =>
    (row, tuple && !k.tupleKey.ofUser projectID userID)
  | _, state => state

/-- A statement reads or may write row or tuple of the seat. -/
def Statement.concerns (k : SeatKey) : Statement → Bool
  | .seatExists k' => k' = k
  | .insertSeat a => seatKey a = k
  | .deleteSeat k' => k' = k
  | .deleteUserSeats projectID userID => k.ofUser projectID userID
  | .upsertTuple r => r.key = k.tupleKey
  | .deleteTuple k' => k' = k.tupleKey
  | .deleteUserTuples projectID userID => k.tupleKey.ofUser projectID userID
  | _ => false

theorem seatState_run :
    ((T.run st).2.foldl Tables.write T).seatState k = st.effect k (T.seatState k) := by
  cases st with
  | insertSeat a => simp [Tables.run, Tables.seatState, Statement.effect, Tables.write,
      Tables.hasSeat, Tables.hasTuple]
  | deleteSeat k' => exact Prod.ext (Tables.hasSeat_delete_found _) rfl
  | deleteUserSeats projectID userID => exact Prod.ext (Tables.hasSeat_delete_found _) rfl
  | upsertTuple r =>
    refine Prod.ext rfl (Bool.eq_iff_iff.mpr (Tables.hasTuple_upsertTuple.trans ?_))
    simp [Statement.effect, Tables.seatState]
  | deleteTuple k' => exact Prod.ext rfl (Tables.hasTuple_delete_found _)
  | deleteUserTuples projectID userID => exact Prod.ext rfl (Tables.hasTuple_delete_found _)
  | _ => rfl

theorem effect_of_not_concerns (h : st.concerns k = false) (state : Bool × Bool) :
    st.effect k state = state := by
  cases st <;> simp_all [Statement.concerns, Statement.effect] <;> grind

/-- The writes of a statement leave alone what it does not concern. -/
theorem seatState_writes_of_not_concerns (h : st.concerns k = false) (T T' : Tables) :
    ((T.run st).2.foldl Tables.write T').seatState k = T'.seatState k := by
  have hseats : ∀ cond : SeatKey → Bool, cond k = false →
      (T'.write (.deleteSeats (T.seatKeys cond))).seatState k = T'.seatState k := fun cond hcond =>
    Prod.ext (Bool.eq_iff_iff.mpr (by
      simp [Tables.seatState, Tables.hasSeat_deleteSeats, Tables.mem_seatKeys, hcond])) rfl
  have htuples : ∀ cond : TupleKey → Bool, cond k.tupleKey = false →
      (T'.write (.deleteTuples (T.tupleKeys cond))).seatState k = T'.seatState k :=
        fun cond hcond =>
    Prod.ext rfl (Bool.eq_iff_iff.mpr (by
      simp [Tables.seatState, Tables.hasTuple_deleteTuples, Tables.mem_tupleKeys, hcond]))
  cases st with
  | insertSeat a =>
    have hne : seatKey a ≠ k := of_decide_eq_false h
    simp [Tables.run, Tables.seatState, Tables.write, Tables.hasSeat, Tables.hasTuple, hne]
  | deleteSeat k' => exact hseats _ (by simpa [Statement.concerns, eq_comm] using h)
  | deleteUserSeats projectID userID => exact hseats _ h
  | upsertTuple r =>
    refine Prod.ext rfl (Bool.eq_iff_iff.mpr (Tables.hasTuple_upsertTuple.trans ?_))
    simp_all [Statement.concerns, Tables.seatState]
  | deleteTuple k' => exact htuples _ (by simpa [Statement.concerns, eq_comm] using h)
  | deleteUserTuples projectID userID => exact htuples _ h
  | _ => rfl

/-- What writes make of a seat depends on nothing but the seat. -/
theorem seatState_foldl_congr (h : T.seatState k = T'.seatState k) :
    (writes.foldl Tables.write T).seatState k = (writes.foldl Tables.write T').seatState k := by
  induction writes generalizing T T' with
  | nil => exact h
  | cons w writes ih =>
    refine ih ?_
    obtain ⟨hrow, htuple⟩ := Prod.ext_iff.mp h
    cases w with
    | insertSeat a =>
      refine Prod.ext ?_ htuple
      simpa [Tables.seatState, Tables.write, Tables.hasSeat] using congrArg (· || _) hrow
    | deleteSeats keys =>
      refine Prod.ext (Bool.eq_iff_iff.mpr ?_) htuple
      exact Tables.hasSeat_deleteSeats.trans
        ((and_congr_left' (Bool.eq_iff_iff.mp hrow)).trans Tables.hasSeat_deleteSeats.symm)
    | upsertTuple r =>
      refine Prod.ext hrow (Bool.eq_iff_iff.mpr ?_)
      exact Tables.hasTuple_upsertTuple.trans
        ((or_congr_left (Bool.eq_iff_iff.mp htuple)).trans Tables.hasTuple_upsertTuple.symm)
    | deleteTuples keys =>
      refine Prod.ext hrow (Bool.eq_iff_iff.mpr ?_)
      exact Tables.hasTuple_deleteTuples.trans
        ((and_congr_left' (Bool.eq_iff_iff.mp htuple)).trans Tables.hasTuple_deleteTuples.symm)
    | bumpSeq projectID tenantID => exact h

end Seat

/-! ## What a transaction has made of a seat -/

/-- Row and tuple as an open transaction sees them, if both were there before or both were not. -/
def seatAfter (k : SeatKey) (b : Bool) : SeatTrace → Bool × Bool
  | [] => (b, b)
  | ⟨(_, .lock _), _⟩ :: trace => seatAfter k b trace
  | ⟨(_, .statement st), _⟩ :: trace => st.effect k (seatAfter k b trace)
  | ⟨(_, .commit), _⟩ :: _ => (b, b)
  | ⟨(_, .rollback), _⟩ :: _ => (b, b)

/-- The open transaction is at work on the seat. -/
def engaged (k : SeatKey) : SeatTrace → Bool
  | [] => false
  | ⟨(_, .lock _), _⟩ :: trace => engaged k trace
  | ⟨(_, .statement st), _⟩ :: trace => st.concerns k || engaged k trace
  | ⟨(_, .commit), _⟩ :: _ => false
  | ⟨(_, .rollback), _⟩ :: _ => false

/-- Whether the open transaction has found the seat's row, if it has looked. -/
def sawSeat (k : SeatKey) : SeatTrace → Option Bool
  | [] => none
  | ⟨(_, .lock _), _⟩ :: trace => sawSeat k trace
  | ⟨(_, .statement (.seatExists k')), found⟩ :: trace =>
    if k' = k then some found else sawSeat k trace
  | ⟨(_, .statement _), _⟩ :: trace => sawSeat k trace
  | ⟨(_, .commit), _⟩ :: _ => none
  | ⟨(_, .rollback), _⟩ :: _ => none

section Protocol

variable {k : SeatKey} {b : Bool} {tx : ℕ} {trace : SeatTrace}

theorem seatAfter_of_not_engaged (h : engaged k trace = false) : seatAfter k b trace = (b, b) := by
  induction trace with
  | nil => rfl
  | cons e trace ih =>
    obtain ⟨⟨_, action⟩, r⟩ := e
    cases action with
    | lock => exact ih h
    | statement st =>
      obtain ⟨hst, hrest⟩ := Bool.or_eq_false_iff.mp h
      rw [seatAfter, effect_of_not_concerns hst, ih hrest]
    | commit => rfl
    | rollback => rfl

theorem sawSeat_of_not_engaged (h : engaged k trace = false) : sawSeat k trace = none := by
  induction trace with
  | nil => rfl
  | cons e trace ih =>
    obtain ⟨⟨_, action⟩, r⟩ := e
    cases action with
    | lock => exact ih h
    | statement st =>
      obtain ⟨hst, hrest⟩ := Bool.or_eq_false_iff.mp h
      cases st with
      | seatExists k' => exact (if_neg (of_decide_eq_false hst)).trans (ih hrest)
      | _ => exact ih hrest
    | commit => rfl
    | rollback => rfl

/-- A transaction looks for a seat first, and commits row and tuple together if what it has
found is still true. -/
def seatProtocol (k : SeatKey) (tx : ℕ) : Protocol SeatOp SeatReply where
  issues trace op := op.1 = tx ∧
    (∀ k', op.2 = .statement (.seatExists k') → engaged k trace = false) ∧
    (op.2 = .commit → ∀ b, (∀ found, sawSeat k trace = some found → found = b) →
      (seatAfter k b trace).1 = (seatAfter k b trace).2)

theorem keeps_insertNewSeat {a : SeatAssignment} (h : ∀ b, seatAfter k b trace = (b, b)) :
    (insertNewSeat tx a (seatTuple a.sku a.userID)).Keeps (seatProtocol k tx)
      (fun _ _ => True) trace := by
  refine keeps_act_then ⟨rfl, nofun, nofun⟩ fun _ => ?_
  refine keeps_insertTuple_then ⟨rfl, nofun, nofun⟩ (fun _ => ⟨rfl, nofun, nofun⟩) ?_
  refine keeps_act_then ⟨rfl, nofun, fun _ b _ => ?_⟩ fun _ => trivial
  have hkey := SeatKey.key_seatTuple_eq_iff (seatKey a) k
  simp only [seatAfter, Statement.effect, h]
  exact congrArg (b || ·) (decide_eq_decide.mpr hkey.symm)

theorem keeps_assignSeatAndTuple {a : SeatAssignment} :
    (assignSeatAndTuple tx a (seatTuple a.sku a.userID)).Keeps (seatProtocol k tx)
      (fun _ _ => True) [] := by
  refine keeps_act_then ⟨rfl, nofun, nofun⟩ fun _ => ?_
  refine keeps_act_then ⟨rfl, fun _ _ => rfl, nofun⟩ fun held => ?_
  split_ifs with hheld
  · refine keeps_insertTuple_then ⟨rfl, nofun, nofun⟩ (fun _ => ⟨rfl, nofun, nofun⟩) ?_
    refine keeps_act_then ⟨rfl, nofun, fun _ b hsaw => ?_⟩ fun _ => trivial
    have hkey := SeatKey.key_seatTuple_eq_iff (seatKey a) k
    simp only [seatAfter, Statement.effect]
    by_cases hk : seatKey a = k
    · obtain rfl : held = b := hsaw held (if_pos hk)
      simp [hheld]
    · exact (Bool.or_eq_left_iff_imp.mpr fun h => absurd (hkey.mp (of_decide_eq_true h)) hk).symm
  · refine keeps_act_then ⟨rfl, nofun, nofun⟩ fun limit => ?_
    cases limit with
    | none => exact keeps_insertNewSeat fun _ => rfl
    | some limit =>
      refine keeps_act_then ⟨rfl, nofun, nofun⟩ fun used => ?_
      split_ifs
      · exact keeps_act_then ⟨rfl, nofun, nofun⟩ fun _ => trivial
      · exact keeps_insertNewSeat fun _ => rfl

theorem keeps_revokeSeatAndTuple {k' : SeatKey} :
    (revokeSeatAndTuple tx k' (seatTuple k'.sku k'.userID)).Keeps (seatProtocol k tx)
      (fun _ _ => True) [] := by
  refine keeps_act_then ⟨rfl, nofun, nofun⟩ fun _ => ?_
  refine keeps_deleteTuple_then ⟨rfl, nofun, nofun⟩ (fun _ => ⟨rfl, nofun, nofun⟩) ?_
  refine ⟨⟨rfl, nofun, fun _ b _ => ?_⟩, fun _ _ => trivial⟩
  have hkey := SeatKey.key_seatTuple_eq_iff k' k
  simp only [seatAfter, Statement.effect]
  exact congrArg (b && !·) (decide_eq_decide.mpr (by rw [eq_comm, ← hkey, eq_comm]))

theorem keeps_deleteAllSubjectTuplesInProject {projectID userID : GoString} :
    (deleteAllSubjectTuplesInProject tx projectID userID).Keeps (seatProtocol k tx)
      (fun _ _ => True) [] := by
  refine keeps_act_then ⟨rfl, nofun, nofun⟩ fun n => ?_
  refine keeps_act_then ⟨rfl, nofun, nofun⟩ fun _ => ?_
  refine keeps_act_then ⟨rfl, nofun, fun _ b _ => ?_⟩ fun _ => trivial
  simp only [seatAfter, Statement.effect, SeatKey.ofUser_tupleKey]

theorem keeps_prog (transaction : SeatTransaction) :
    (transaction.prog tx).Keeps (seatProtocol k tx) (fun _ _ => True) [] := by
  cases transaction with
  | assign a => exact Prog.keeps_bind.mpr (keeps_assignSeatAndTuple.mono fun _ _ _ => trivial)
  | revoke k => exact keeps_revokeSeatAndTuple
  | deprovision projectID userID =>
    exact Prog.keeps_bind.mpr (keeps_deleteAllSubjectTuplesInProject.mono fun _ _ _ => trivial)

end Protocol

/-! ## Row and tuple stay together -/

section Together

variable {k : SeatKey} {b : Bool} {db : SeatDatabase} {i : ℕ × SeatTransaction}
  {trace : SeatTrace} {action : Action Statement GoString}

/-- A seat is given or taken by a commit only while nobody else is at work on it. -/
def Separate (k : SeatKey) (db : SeatDatabase) (others : List SeatTrace) : SeatOp → Prop
  | (tx, .commit) => (db.view dialect tx).hasSeat k ≠ db.committed.hasSeat k →
      ∀ t ∈ others, engaged k t = false
  | _ => True

instance (others : List SeatTrace) : (op : SeatOp) → Decidable (Separate k db others op)
  | (_, .commit) => inferInstanceAs (Decidable (_ → _))
  | (_, .statement _) | (_, .lock _) | (_, .rollback) => inferInstanceAs (Decidable True)

/-- What a transaction has done accounts for what it sees of a seat. -/
structure Tracks (k : SeatKey) (b : Bool) (db : SeatDatabase)
    (x : (ℕ × SeatTransaction) × SeatTrace) : Prop where
  view : (db.view dialect x.1.1).seatState k = seatAfter k b x.2
  saw : ∀ found, sawSeat k x.2 = some found → found = b
  idle : engaged k x.2 = false → ∀ T : Tables,
    ((db.pending x.1.1).foldl Tables.write T).seatState k = T.seatState k

/-- Row and tuple are both committed or both not, and all transactions are accounted for. -/
def Together (k : SeatKey) (db : SeatDatabase)
    (ts : List ((ℕ × SeatTransaction) × SeatTrace)) : Prop :=
  (ts.map (·.1.1)).Nodup ∧
    ∃ b, db.committed.seatState k = (b, b) ∧ ∀ x ∈ ts, Tracks k b db x

theorem tracks_close {tx : ℕ} {content : Tables} {e : Σ op, SeatReply op}
    (htx : i.1 = tx) (hcontent : content.seatState k = (b, b))
    (he : e.1.2 = .commit ∨ e.1.2 = .rollback) :
    Tracks k b (db.close tx content) (i, e :: trace) := by
  subst htx
  obtain ⟨⟨_, action⟩, r⟩ := e
  refine ⟨?_, ?_, fun _ T => by rw [Database.pending_close]; rfl⟩
  · rw [Database.view_close, hcontent]
    rcases he with rfl | rfl <;> rfl
  · rcases he with rfl | rfl <;> exact nofun

theorem Tracks.statement (h : Tracks k b db (i, trace)) {st : Statement}
    (hissues : (seatProtocol k i.1).issues trace (i.1, .statement st)) :
    Tracks k b (execute () (i.1, .statement st) db).2
      (i, ⟨(i.1, .statement st), (execute () (i.1, .statement st) db).1⟩ :: trace) := by
  refine ⟨?_, fun found hfound => ?_, fun hengaged T => ?_⟩
  · rw [Database.view_statement]
    exact seatState_run.trans (congrArg (st.effect k) h.view)
  · cases st with
    | seatExists k' =>
      by_cases hk : k' = k
      · subst hk
        have hview := h.view.trans (seatAfter_of_not_engaged (hissues.2.1 k' rfl))
        have hreply := Option.some.inj ((if_pos rfl).symm.trans hfound)
        exact hreply.symm.trans (congrArg Prod.fst hview)
      · exact h.saw found ((if_neg hk).symm.trans hfound)
    | _ => exact h.saw found hfound
  · obtain ⟨hst, hrest⟩ := Bool.or_eq_false_iff.mp hengaged
    rw [Database.pending_statement, List.foldl_append]
    exact (seatState_writes_of_not_concerns hst _ _).trans (h.idle hrest T)

/-- The others stand still, and a commit does not change the seat unless they have not begun. -/
theorem Tracks.others {db' : SeatDatabase} {b' : Bool} {x : (ℕ × SeatTransaction) × SeatTrace}
    (h : Tracks k b db x) (hpending : db'.pending x.1.1 = db.pending x.1.1)
    (hbefore : db.committed.seatState k = (b, b)) (hafter : db'.committed.seatState k = (b', b'))
    (hengaged : b' ≠ b → engaged k x.2 = false) : Tracks k b' db' x := by
  by_cases hb : b' = b
  · subst hb
    refine ⟨?_, h.saw, by rw [hpending]; exact h.idle⟩
    rw [← h.view, Database.view, Database.view, hpending]
    exact seatState_foldl_congr (hafter.trans hbefore.symm)
  · have hidle := hengaged hb
    refine ⟨?_, fun found hfound => ?_, by rw [hpending]; exact h.idle⟩
    · rw [Database.view, hpending, seatAfter_of_not_engaged hidle]
      exact (h.idle hidle _).trans hafter
    · rw [sawSeat_of_not_engaged hidle] at hfound
      cases hfound

theorem together_exec {before after : List ((ℕ × SeatTransaction) × SeatTrace)}
    (h : Together k db (before ++ (i, trace) :: after)) {op : SeatOp}
    (hissues : (seatProtocol k i.1).issues trace op)
    (hguard : Separate k db ((before ++ after).map Prod.snd) op) :
    Together k (execute () op db).2
      (before ++ (i, ⟨op, (execute () op db).1⟩ :: trace) :: after) := by
  obtain ⟨hnodup, b, hb, htracks⟩ := h
  obtain ⟨tx, action⟩ := op
  obtain rfl : tx = i.1 := hissues.1
  have hmine := htracks (i, trace) (by simp)
  have hpending : ∀ y ∈ before ++ after, (execute () (i.1, action) db).2.pending y.1.1 =
      db.pending y.1.1 := fun y hy =>
    Database.pending_exec_of_ne (number_ne_of_nodup hnodup y hy) action
  have hothers : ∀ b', (execute () (i.1, action) db).2.committed.seatState k = (b', b') →
      (b' ≠ b → ∀ t ∈ (before ++ after).map Prod.snd, engaged k t = false) →
      ∀ y ∈ before ++ after, Tracks k b' (execute () (i.1, action) db).2 y :=
    fun b' hb' hengaged y hy => (htracks y (mem_of_mem_others hy)).others (hpending y hy) hb hb'
      fun hne => hengaged hne _ (List.mem_map_of_mem hy)
  refine ⟨by simpa using hnodup, ?_⟩
  cases action with
  | lock key =>
    exact ⟨b, hb, forall_mem_of_step ⟨hmine.view, hmine.saw, hmine.idle⟩
      (hothers b hb fun hne => absurd rfl hne)⟩
  | statement st =>
    exact ⟨b, hb, forall_mem_of_step (hmine.statement hissues)
      (hothers b hb fun hne => absurd rfl hne)⟩
  | commit =>
    have hview := hmine.view
    have heq := hissues.2.2 rfl b hmine.saw
    generalize hstate : seatAfter k b trace = state at hview heq
    obtain ⟨b', tuple⟩ := state
    obtain rfl : b' = tuple := heq
    refine ⟨b', hview, forall_mem_of_step (tracks_close rfl hview (.inl rfl))
      (hothers b' hview fun hne => hguard fun hsame => hne ?_)⟩
    exact (congrArg Prod.fst hview).symm.trans (hsame.trans (congrArg Prod.fst hb))
  | rollback =>
    exact ⟨b, hb, forall_mem_of_step (tracks_close rfl hb (.inr rfl))
      (hothers b hb fun hne => absurd rfl hne)⟩

theorem together_of_reaches {T : Tables} {transactions : List SeatTransaction}
    {c : Config SeatDatabase SeatOp SeatReply Unit} (hstart : T.hasSeat k = T.hasTuple k.tupleKey)
    (h : Reaches execute (fun db others _ op => db.Ready op ∧ Separate k db others op)
      (seatTransactions T transactions) c) :
    c.state.committed.hasSeat k = c.state.committed.hasTuple k.tupleKey := by
  have hend : c.Upholds (fun i => seatProtocol k i.1) (fun _ _ _ => True) (Together k)
      (numbered transactions) := by
    refine h.upholds (fun _ db before i trace after op hinv hissues hguard =>
      ⟨trivial, together_exec hinv hissues hguard.2⟩) ?_
    refine Config.upholds_start_of_labels ⟨?_, T.hasSeat k, Prod.ext rfl hstart.symm, ?_⟩
      fun i _ => keeps_prog i.2
    · simpa [Function.comp_def] using numbered_nodup transactions
    · intro x hx
      obtain ⟨i, -, rfl⟩ := List.mem_map.mp hx
      exact ⟨Prod.ext rfl hstart.symm, nofun, fun _ _ => rfl⟩
  obtain ⟨-, b, hb, -⟩ := hend.inv
  exact (congrArg Prod.fst hb).trans (congrArg Prod.snd hb).symm

end Together

/-- In all runs no assignment takes a seat when the limit that it has read is reached; in a run
in which no seat is given or taken while another transaction is at work on it, a seat has its row
if and only if it has its tuple. -/
theorem seat_rows_and_tuples_agree (T : Tables) (transactions : List SeatTransaction)
    (c : Config SeatDatabase SeatOp SeatReply Unit) :
    (Reaches execute Database.waits (seatTransactions T transactions) c →
      ∀ t ∈ c.traces, ∀ q limit, took q t → limitRead q t = some limit →
        c.state.committed.countSeats q < limit) ∧
    ∀ k : SeatKey, T.hasSeat k = T.hasTuple k.tupleKey →
      Reaches execute (fun db others _ op => db.Ready op ∧ Separate k db others op)
        (seatTransactions T transactions) c →
      (c.state.committed.hasSeat k ↔ c.state.committed.hasTuple k.tupleKey) :=
  ⟨fun h _ ht _ _ htook hlimit => countSeats_lt_limitRead h ht htook hlimit,
    fun _ hstart h => Bool.eq_iff_iff.mp (together_of_reaches hstart h)⟩

/-! ## An assignment between the statements of which a seat is revoked -/

namespace Reassignment

def seat : SeatKey := ⟨⟨"p", "t", "pro"⟩, "bob"⟩

/-- Bob holds one of two seats. -/
def initial : Tables where
  seats := [⟨"p", "t", "pro", "bob", 0⟩]
  limits _ := some 2
  tuples := [⟨"p", "t", seatTuple "pro" "bob"⟩]
  seqs _ := 0

def start : Config SeatDatabase SeatOp SeatReply Unit :=
  seatTransactions initial [.assign ⟨"p", "t", "pro", "bob", 1⟩, .revoke seat]

/-- The seat is found, revoked, and then given its tuple. -/
def final : Config SeatDatabase SeatOp SeatReply Unit :=
  start.run execute ([(0, ()), (0, ())] ++ List.replicate 4 (1, ()) ++ List.replicate 3 (0, ()))

end Reassignment

open Reassignment in
theorem revoked_seat_keeps_tuple :
    initial.hasSeat seat = initial.hasTuple seat.tupleKey ∧
    Reaches execute Database.waits start final ∧ final.Finished ∧
    final.state.committed.hasSeat seat = false ∧ final.state.committed.hasTuple seat.tupleKey :=
  ⟨by decide +kernel, reaches_run execute start _ (by decide +kernel), by decide +kernel,
    by decide +kernel, by decide +kernel⟩

open Reassignment in
/-- Carol is given a seat, and then Bob's is taken. -/
theorem seats_changed_in_turn :
    let start := seatTransactions initial [.assign ⟨"p", "t", "pro", "carol", 1⟩, .revoke seat]
    let c := start.run execute (List.replicate 5 (0, ()))
    let c' := c.run execute (List.replicate 3 (0, ()) ++ List.replicate 4 (1, ()))
    c.state.committed.countSeats seat.toSkuKey < (2 : ℤ) ∧
      (c'.state.committed.hasSeat seat ↔ c'.state.committed.hasTuple seat.tupleKey) :=
  ⟨(seat_rows_and_tuples_agree initial _ _).1 (reaches_run execute _ _ (by decide +kernel)) _
      List.mem_cons_self _ _ rfl rfl,
    (seat_rows_and_tuples_agree initial _ _).2 seat (by decide +kernel)
      ((reaches_run execute _ _ (by decide +kernel)).trans
        (reaches_run execute _ _ (by decide +kernel)))⟩

end Postgres

end WorkspaceAuthz.Service
