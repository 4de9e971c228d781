import WorkspaceAuthz.Service.PostgresSeats

/-! # Seat limits under concurrent transactions

An assignment counts the seats of its product under a lock that every assignment
of the product takes, and before it writes anything. Those that are committed until
it ends can only become fewer, so that a new seat is within the limit that was read.
-/
namespace WorkspaceAuthz.Service
open Go Authz Interleaving

namespace Postgres

variable {q : SkuKey} {db : SeatDatabase} {i : ℕ × SeatTransaction} {trace : SeatTrace} {tx : ℕ}

/-- A statement takes a seat of a product. -/
def Statement.takes (q : SkuKey) : Statement → Bool
  | .insertSeat a => (seatKey a).toSkuKey = q
  | _ => false

/-- The open transaction has taken a seat of the product. -/
def took (q : SkuKey) : SeatTrace → Bool
  | [] => false
  | ⟨(_, .lock _), _⟩ :: trace => took q trace
  | ⟨(_, .statement st), _⟩ :: trace => st.takes q || took q trace
  | ⟨(_, .commit), _⟩ :: _ => false
  | ⟨(_, .rollback), _⟩ :: _ => false

def onlyRead : SeatTrace → Bool
  | [] => true
  | ⟨(_, .lock _), _⟩ :: trace => onlyRead trace
  | ⟨(_, .statement (.seatExists _)), _⟩ :: trace => onlyRead trace
  | ⟨(_, .statement (.seatLimit _)), _⟩ :: trace => onlyRead trace
  | ⟨(_, .statement (.countSeats _)), _⟩ :: trace => onlyRead trace
  | ⟨(_, .statement _), _⟩ :: _ => false
  | ⟨(_, .commit), _⟩ :: _ => true
  | ⟨(_, .rollback), _⟩ :: _ => true

def limitRead (q : SkuKey) : SeatTrace → Option ℤ
  | [] => none
  | ⟨(_, .lock _), _⟩ :: trace => limitRead q trace
  | ⟨(_, .statement (.seatLimit q')), limit⟩ :: trace => if q' = q then limit else limitRead q trace
  | ⟨(_, .statement _), _⟩ :: trace => limitRead q trace
  | ⟨(_, .commit), _⟩ :: _ => none
  | ⟨(_, .rollback), _⟩ :: _ => none

def countRead (q : SkuKey) : SeatTrace → Option ℕ
  | [] => none
  | ⟨(_, .lock _), _⟩ :: trace => countRead q trace
  | ⟨(_, .statement (.countSeats q')), n⟩ :: trace => if q' = q then some n else countRead q trace
  | ⟨(_, .statement _), _⟩ :: trace => countRead q trace
  | ⟨(_, .commit), _⟩ :: _ => none
  | ⟨(_, .rollback), _⟩ :: _ => none

/-- Seats are counted and taken under the lock of the product; they are counted before anything
is written, and taken below the limit. -/
def limitProtocol (q : SkuKey) (tx : ℕ) : Protocol SeatOp SeatReply where
  issues trace op := op.1 = tx ∧ match op.2 with
    | .statement (.seatLimit _) => took q trace = false
    | .statement (.countSeats q') => onlyRead trace ∧ took q trace = false ∧
        (q' = q → holdsLock (seatLockKey q) trace)
    | .statement (.insertSeat a) => (seatKey a).toSkuKey = q → holdsLock (seatLockKey q) trace ∧
        ∀ limit, limitRead q trace = some limit → ∃ n : ℕ, countRead q trace = some n ∧ n < limit
    | _ => True

/-- What keeps the seats of a product below the limit. -/
structure Bounded (q : SkuKey) (db : SeatDatabase) (x : (ℕ × SeatTransaction) × SeatTrace) :
    Prop where
  fresh : onlyRead x.2 → db.pending x.1.1 = []
  gives : took q x.2 = false → ∀ T : Tables,
    ((db.pending x.1.1).foldl Tables.write T).countSeats q ≤ T.countSeats q
  locked : took q x.2 ∨ (countRead q x.2).isSome → holdsLock (seatLockKey q) x.2
  count : ∀ n, countRead q x.2 = some n → db.committed.countSeats q ≤ n
  limit : took q x.2 → ∀ limit, limitRead q x.2 = some limit →
    ∃ n : ℕ, countRead q x.2 = some n ∧ n < limit

theorem countSeats_writes_le {st : Statement} (h : st.takes q = false) (T T' : Tables) :
    ((T.run st).2.foldl Tables.write T').countSeats q ≤ T'.countSeats q := by
  cases st with
  | insertSeat a =>
    have hne : (seatKey a).toSkuKey ≠ q := of_decide_eq_false h
    simp [Tables.run, Tables.write, Tables.countSeats, hne]
  | deleteSeat k => exact List.Sublist.countP_le List.filter_sublist
  | deleteUserSeats projectID userID => exact List.Sublist.countP_le List.filter_sublist
  | _ => exact le_rfl

/-! ## The transactions keep to it -/

theorem bounded_insertNewSeat {a : SeatAssignment} {tuple : Tuple}
    (hlock : (seatKey a).toSkuKey = q → holdsLock (seatLockKey q) trace)
    (hlimit : (seatKey a).toSkuKey = q → ∀ limit, limitRead q trace = some limit →
      ∃ n : ℕ, countRead q trace = some n ∧ n < limit) :
    (insertNewSeat tx a tuple).Keeps (limitProtocol q tx) (fun _ _ => True) trace := by
  refine keeps_act_then ⟨rfl, fun hq => ⟨hlock hq, hlimit hq⟩⟩ fun _ => ?_
  refine keeps_insertTuple_then ⟨rfl, trivial⟩ (fun _ => ⟨rfl, trivial⟩) ?_
  exact keeps_act_then ⟨rfl, trivial⟩ fun _ => trivial

theorem bounded_assignSeatAndTuple {a : SeatAssignment} {tuple : Tuple} :
    (assignSeatAndTuple tx a tuple).Keeps (limitProtocol q tx) (fun _ _ => True) [] := by
  have hlock : (seatKey a).toSkuKey = q →
      decide (seatLockKey (seatKey a).toSkuKey = seatLockKey q) || false := by
    rintro rfl
    simp
  refine keeps_act_then ⟨rfl, trivial⟩ fun _ => ?_
  refine keeps_act_then ⟨rfl, trivial⟩ fun held => ?_
  split_ifs
  · refine keeps_insertTuple_then ⟨rfl, trivial⟩ (fun _ => ⟨rfl, trivial⟩) ?_
    exact keeps_act_then ⟨rfl, trivial⟩ fun _ => trivial
  · refine keeps_act_then ⟨rfl, rfl⟩ fun limit => ?_
    cases limit with
    | none =>
      refine bounded_insertNewSeat hlock fun hq limit hlimit => ?_
      cases (if_pos hq).symm.trans hlimit
    | some limit =>
      refine keeps_act_then ⟨rfl, rfl, rfl, hlock⟩ fun used => ?_
      split_ifs with hused
      · exact keeps_act_then ⟨rfl, trivial⟩ fun _ => trivial
      · refine bounded_insertNewSeat hlock fun hq limit' hlimit => ⟨used, if_pos hq, ?_⟩
        obtain rfl : limit = limit' := Option.some.inj ((if_pos hq).symm.trans hlimit)
        exact not_le.mp hused

theorem bounded_revokeSeatAndTuple {k : SeatKey} {tuple : Tuple} :
    (revokeSeatAndTuple tx k tuple).Keeps (limitProtocol q tx) (fun _ _ => True) [] := by
  refine keeps_act_then ⟨rfl, trivial⟩ fun _ => ?_
  refine keeps_deleteTuple_then ⟨rfl, trivial⟩ (fun _ => ⟨rfl, trivial⟩) ?_
  exact ⟨⟨rfl, trivial⟩, fun _ _ => trivial⟩

theorem bounded_deleteAllSubjectTuplesInProject {projectID userID : GoString} :
    (deleteAllSubjectTuplesInProject tx projectID userID).Keeps (limitProtocol q tx)
      (fun _ _ => True) [] := by
  refine keeps_act_then ⟨rfl, trivial⟩ fun n => ?_
  refine keeps_act_then ⟨rfl, trivial⟩ fun _ => ?_
  exact keeps_act_then ⟨rfl, trivial⟩ fun _ => trivial

theorem bounded_prog (transaction : SeatTransaction) :
    (transaction.prog tx).Keeps (limitProtocol q tx) (fun _ _ => True) [] := by
  cases transaction with
  | assign a => exact Prog.keeps_bind.mpr (bounded_assignSeatAndTuple.mono fun _ _ _ => trivial)
  | revoke k => exact bounded_revokeSeatAndTuple
  | deprovision projectID userID =>
    exact Prog.keeps_bind.mpr (bounded_deleteAllSubjectTuplesInProject.mono fun _ _ _ => trivial)

/-! ## And so do all runs -/

theorem bounded_of_idle (hpending : db.pending i.1 = []) (htook : took q trace = false)
    (hcount : countRead q trace = none) : Bounded q db (i, trace) where
  fresh _ := hpending
  gives _ T := by rw [hpending]; exact le_rfl
  locked h := by simp [htook, hcount] at h
  count n hn := by cases hcount.symm.trans hn
  limit h := by simp [htook] at h

theorem Bounded.statement (h : Bounded q db (i, trace)) {st : Statement}
    (hissues : (limitProtocol q i.1).issues trace (i.1, .statement st)) :
    Bounded q (execute () (i.1, .statement st) db).2
      (i, ⟨(i.1, .statement st), (execute () (i.1, .statement st) db).1⟩ :: trace) := by
  have hpending : (execute () (i.1, .statement st) db).2.pending i.1 = db.pending i.1 ++
      ((db.view dialect i.1).run st).2 := Database.pending_statement st
  have hgives : (st.takes q || took q trace) = false → ∀ T : Tables,
      (((execute () (i.1, .statement st) db).2.pending i.1).foldl Tables.write T).countSeats q ≤
        T.countSeats q := by
    intro htook T
    obtain ⟨hst, htook⟩ := Bool.or_eq_false_iff.mp htook
    rw [hpending, List.foldl_append]
    exact (countSeats_writes_le hst _ _).trans (h.gives htook T)
  cases st with
  | seatExists k =>
    exact ⟨fun hread => hpending.trans (by rw [h.fresh hread]; rfl), hgives, h.locked, h.count,
      h.limit⟩
  | seatLimit q' =>
    refine ⟨fun hread => hpending.trans (by rw [h.fresh hread]; rfl), hgives, h.locked, h.count,
      fun htook => ?_⟩
    exact absurd (hissues.2.symm.trans htook) (by simp)
  | countSeats q' =>
    obtain ⟨-, hread, htook, hlock⟩ := hissues
    refine ⟨fun hread => hpending.trans (by rw [h.fresh hread]; rfl), hgives, fun hor => ?_,
      fun n hn => ?_, fun htook' => absurd (htook.symm.trans htook') (by simp)⟩
    · by_cases hq : q' = q
      · exact hlock hq
      · exact h.locked (by simpa [took, Statement.takes, countRead, hq] using hor)
    · by_cases hq : q' = q
      · -- Without writes of its own the transaction sees what is committed.
        obtain rfl := Option.some.inj ((if_pos hq).symm.trans hn)
        have hview : db.view dialect i.1 = db.committed := by
          rw [Database.view, h.fresh hread]
          rfl
        subst hq
        exact le_of_eq (congrArg (Tables.countSeats · q') hview.symm)
      · exact h.count n ((if_neg hq).symm.trans hn)
  | insertSeat a =>
    by_cases hq : (seatKey a).toSkuKey = q
    · obtain ⟨hlock, hlimit⟩ := hissues.2 hq
      exact ⟨fun hread => (Bool.false_ne_true hread).elim, hgives, fun _ => hlock, h.count,
        fun _ => hlimit⟩
    · have htook : took q (⟨(i.1, .statement (.insertSeat a)), ()⟩ :: trace) = took q trace := by
        simp [took, Statement.takes, hq]
      refine ⟨fun hread => (Bool.false_ne_true hread).elim, hgives, fun hor => h.locked ?_, h.count,
        fun htook' => h.limit ?_⟩
      · exact hor.imp_left htook.symm.trans
      · exact htook.symm.trans htook'
  | _ => exact ⟨fun hread => (Bool.false_ne_true hread).elim, hgives, h.locked, h.count, h.limit⟩

/-- Locks are respected, and each transaction is bounded by what is committed. -/
def AllBounded (q : SkuKey) (db : SeatDatabase)
    (ts : List ((ℕ × SeatTransaction) × SeatTrace)) : Prop :=
  db.LocksHeld ts ∧ ∀ x ∈ ts, Bounded q db x

theorem allBounded_exec {before after : List ((ℕ × SeatTransaction) × SeatTrace)}
    (h : AllBounded q db (before ++ (i, trace) :: after)) {op : SeatOp}
    (hissues : (limitProtocol q i.1).issues trace op) (hready : db.Ready op) :
    AllBounded q (execute () op db).2
      (before ++ (i, ⟨op, (execute () op db).1⟩ :: trace) :: after) := by
  obtain ⟨hlocks, hbounded⟩ := h
  obtain ⟨tx, action⟩ := op
  obtain rfl : tx = i.1 := hissues.1
  have hmem : (i, trace) ∈ before ++ (i, trace) :: after := by simp
  have hmine := hbounded _ hmem
  have hpending : ∀ y ∈ before ++ after, (execute () (i.1, action) db).2.pending y.1.1 =
      db.pending y.1.1 := fun y hy =>
    Database.pending_exec_of_ne (number_ne_of_nodup hlocks.numbers y hy) action
  -- Of the others only the bound on the committed seats is in question.
  have hothers : ∀ y ∈ before ++ after, (∀ n, countRead q y.2 = some n →
      (execute () (i.1, action) db).2.committed.countSeats q ≤ n) →
      Bounded q (execute () (i.1, action) db).2 y := fun y hy hcount =>
    have hold := hbounded y (mem_of_mem_others hy)
    ⟨fun hread => (hpending y hy).trans (hold.fresh hread), by rw [hpending y hy]; exact hold.gives,
      hold.locked, hcount, hold.limit⟩
  refine ⟨hlocks.exec hready, forall_mem_of_step ?_ fun y hy => hothers y hy fun n hn => ?_⟩
  · cases action with
    | lock key =>
      refine ⟨hmine.fresh, hmine.gives, fun hor => ?_, hmine.count, hmine.limit⟩
      exact Bool.or_eq_true_iff.mpr (.inr (hmine.locked hor))
    | statement st => exact hmine.statement hissues
    | commit => exact bounded_of_idle (Database.pending_close _) rfl rfl
    | rollback => exact bounded_of_idle (Database.pending_close _) rfl rfl
  · have hold := hbounded y (mem_of_mem_others hy)
    cases action with
    | commit =>
      have htook : took q trace = false := by
        by_contra htook
        rw [Bool.not_eq_false] at htook
        have hmylock := hmine.locked (.inl htook)
        have hitslock := hold.locked (.inr (Option.isSome_iff_exists.mpr ⟨n, hn⟩))
        exact number_ne_of_nodup hlocks.numbers y hy
          (hlocks.exclusive (mem_of_mem_others hy) hmem hitslock hmylock)
      exact (hmine.gives htook _).trans (hold.count n hn)
    | _ => exact hold.count n hn

/-- Whatever the transactions do, one that has taken a seat finds less seats committed than the
limit that it has read. -/
theorem countSeats_lt_limitRead {T : Tables} {transactions : List SeatTransaction}
    {c : Config SeatDatabase SeatOp SeatReply Unit}
    (h : Reaches execute Database.waits (seatTransactions T transactions) c) {t : SeatTrace}
    (ht : t ∈ c.traces) (htook : took q t) {limit : ℤ} (hlimit : limitRead q t = some limit) :
    c.state.committed.countSeats q < limit := by
  have hend : c.Upholds (fun i => limitProtocol q i.1) (fun _ _ _ => True) (AllBounded q)
      (numbered transactions) := by
    refine h.upholds (fun _ db before i trace after op hinv hissues hguard =>
      ⟨trivial, allBounded_exec hinv hissues hguard⟩) ?_
    refine Config.upholds_start_of_labels ⟨⟨?_, ?_⟩, ?_⟩ fun i _ => bounded_prog i.2
    · simpa [Function.comp_def] using numbered_nodup transactions
    · intro x hx key hkey
      obtain ⟨i, -, rfl⟩ := List.mem_map.mp hx
      cases hkey
    · intro x hx
      obtain ⟨i, -, rfl⟩ := List.mem_map.mp hx
      exact bounded_of_idle rfl rfl rfl
  rw [← hend.map_snd_zip] at ht
  obtain ⟨x, hx, rfl⟩ := List.mem_map.mp ht
  obtain ⟨n, hcount, hlt⟩ := (hend.inv.2 x hx).limit htook limit hlimit
  exact lt_of_le_of_lt (Int.ofNat_le.mpr ((hend.inv.2 x hx).count n hcount)) hlt

end Postgres

end WorkspaceAuthz.Service
