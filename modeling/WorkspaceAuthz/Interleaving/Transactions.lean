import WorkspaceAuthz.Interleaving.Runs
import Mathlib.Data.List.Nodup
import Mathlib.Logic.Function.Basic

/-! # Transactions that read what is committed

Transactions are numbered programs over statements. A statement sees what is
committed when it starts and the writes of its own transaction, and yields
further writes; those become visible to others by the commit. Advisory locks are
exclusive and are given back at the end of a transaction, in either way.
-/
namespace WorkspaceAuthz.Interleaving

/-- What statements read and write: `run` on a content gives the answer and the writes. -/
structure Dialect (τ W Stmt : Type) (Answer : Stmt → Type) where
  apply : τ → W → τ
  run : (st : Stmt) → τ → Answer st × List W

/-- The committed content, the writes of open transactions, and who holds a lock. -/
structure Database (τ W K : Type) where
  committed : τ
  pending : ℕ → List W
  locks : K → Option ℕ

inductive Action (Stmt K : Type) where
  | lock (key : K)
  | statement (st : Stmt)
  | commit
  | rollback

/-- An action of the transaction with a number. -/
abbrev TxOp (Stmt K : Type) := ℕ × Action Stmt K

abbrev TxReply {Stmt K : Type} (Answer : Stmt → Type) : TxOp Stmt K → Type
  | (_, .statement st) => Answer st
  | _ => Unit

variable {τ W K Stmt : Type} {Answer : Stmt → Type}

namespace Database

def idle (content : τ) : Database τ W K := ⟨content, fun _ => [], fun _ => none⟩

variable (d : Dialect τ W Stmt Answer)

def view (db : Database τ W K) (tx : ℕ) : τ := (db.pending tx).foldl d.apply db.committed

/-- The end of a transaction, with the content that is left. -/
def close (db : Database τ W K) (tx : ℕ) (content : τ) : Database τ W K where
  committed := content
  pending := Function.update db.pending tx []
  locks key := if db.locks key = some tx then none else db.locks key

variable {d} {db : Database τ W K} {tx tx' : ℕ}

theorem pending_close (content : τ) : (db.close tx content).pending tx = [] :=
  Function.update_self _ _ _

theorem view_close (content : τ) : (db.close tx content).view d tx = content := by
  rw [view, pending_close]
  rfl

variable (d) [DecidableEq K]

def exec (_ : Unit) : (op : TxOp Stmt K) → Database τ W K →
    TxReply Answer op × Database τ W K
  | (tx, .lock key), db => ((), { db with locks := Function.update db.locks key (some tx) })
  | (tx, .statement st), db =>
    let (answer, writes) := d.run st (db.view d tx)
    (answer, { db with pending := Function.update db.pending tx (db.pending tx ++ writes) })
  | (tx, .commit), db => ((), db.close tx (db.view d tx))
  | (tx, .rollback), db => ((), db.close tx db.committed)

/-- A lock that somebody else holds has to be waited for. -/
def Ready (db : Database τ W K) : TxOp Stmt K → Prop
  | (tx, .lock key) => db.locks key = none ∨ db.locks key = some tx
  | _ => True

instance (db : Database τ W K) : (op : TxOp Stmt K) → Decidable (db.Ready op)
  | (_, .lock _) => inferInstanceAs (Decidable (_ ∨ _))
  | (_, .statement _) | (_, .commit) | (_, .rollback) => inferInstanceAs (Decidable True)

/-- All runs of transactions. -/
abbrev waits : Guard (Database τ W K) (TxOp Stmt K) (TxReply Answer) :=
  fun db _ _ op => db.Ready op

variable {d}

theorem pending_exec_of_ne (h : tx' ≠ tx) (action : Action Stmt K) :
    (exec d () (tx, action) db).2.pending tx' = db.pending tx' := by
  cases action with
  | lock => rfl
  | _ => exact Function.update_of_ne h _ _

theorem pending_statement (st : Stmt) :
    (exec d () (tx, .statement st) db).2.pending tx =
      db.pending tx ++ (d.run st (db.view d tx)).2 :=
  Function.update_self _ _ _

theorem view_statement (st : Stmt) :
    (exec d () (tx, .statement st) db).2.view d tx =
      (d.run st (db.view d tx)).2.foldl d.apply (db.view d tx) := by
  rw [view, pending_statement, List.foldl_append]
  rfl

end Database

/-! ## Locks -/

def holdsLock [DecidableEq K] (key : K) : Trace (TxOp Stmt K) (TxReply Answer) → Bool
  | [] => false
  | ⟨(_, .lock key'), _⟩ :: trace => key' = key || holdsLock key trace
  | ⟨(_, .statement _), _⟩ :: trace => holdsLock key trace
  | ⟨(_, .commit), _⟩ :: _ => false
  | ⟨(_, .rollback), _⟩ :: _ => false

section Locks

variable {ρ : Type} {d : Dialect τ W Stmt Answer} {db : Database τ W K} [DecidableEq K]
  {before after : List ((ℕ × ρ) × Trace (TxOp Stmt K) (TxReply Answer))} {i : ℕ × ρ}
  {trace : Trace (TxOp Stmt K) (TxReply Answer)} {action : Action Stmt K}

/-- Numbers are not shared, and whoever has taken a lock is recorded as its holder. -/
structure Database.LocksHeld (db : Database τ W K)
    (ts : List ((ℕ × ρ) × Trace (TxOp Stmt K) (TxReply Answer))) : Prop where
  numbers : (ts.map (·.1.1)).Nodup
  held : ∀ x ∈ ts, ∀ key, holdsLock key x.2 → db.locks key = some x.1.1

omit [DecidableEq K] in
theorem number_ne_of_nodup
    (h : ((before ++ (i, trace) :: after).map (·.1.1)).Nodup) :
    ∀ y ∈ before ++ after, y.1.1 ≠ i.1 := by
  intro y hy heq
  rw [List.map_append, List.map_cons, List.nodup_middle, List.nodup_cons, ← List.map_append] at h
  exact h.1 (List.mem_map.mpr ⟨y, hy, heq⟩)

theorem Database.LocksHeld.exec (h : db.LocksHeld (before ++ (i, trace) :: after))
    (hready : db.Ready (i.1, action)) :
    (Database.exec d () (i.1, action) db).2.LocksHeld
      (before ++ (i, ⟨(i.1, action), (Database.exec d () (i.1, action) db).1⟩ ::
        trace) :: after) := by
  have hother := number_ne_of_nodup h.numbers
  have hmine := h.held (i, trace) (by simp)
  refine ⟨by simpa using h.numbers, forall_mem_of_step ?_ fun y hy => ?_⟩
  · intro key hkey
    cases action with
    | lock key' =>
      by_cases heq : key = key'
      · subst heq
        exact Function.update_self _ _ _
      · have hkey' : holdsLock key trace := by simpa [holdsLock, Ne.symm heq] using hkey
        exact (Function.update_of_ne heq _ _).trans (hmine key hkey')
    | statement st => exact hmine key hkey
    | commit => cases hkey
    | rollback => cases hkey
  · intro key hkey
    have hheld := h.held y (mem_of_mem_others hy) key hkey
    cases action with
    | lock key' =>
      refine (Function.update_of_ne ?_ _ _).trans hheld
      rintro rfl
      -- Otherwise the lock would have to be waited for.
      rcases hready with hfree | hmine
      · exact absurd (hheld.symm.trans hfree) (by simp)
      · exact hother y hy (Option.some.inj (hheld.symm.trans hmine))
    | statement st => exact hheld
    | commit => exact (if_neg (by simp [hheld, hother y hy])).trans hheld
    | rollback => exact (if_neg (by simp [hheld, hother y hy])).trans hheld

theorem Database.LocksHeld.exclusive {ts : List ((ℕ × ρ) × Trace (TxOp Stmt K) (TxReply Answer))}
    (h : db.LocksHeld ts) {x y : (ℕ × ρ) × Trace (TxOp Stmt K) (TxReply Answer)} (hx : x ∈ ts)
    (hy : y ∈ ts) {key : K} (hxkey : holdsLock key x.2) (hykey : holdsLock key y.2) :
    x.1.1 = y.1.1 :=
  Option.some.inj ((h.held x hx key hxkey).symm.trans (h.held y hy key hykey))

end Locks

end WorkspaceAuthz.Interleaving
