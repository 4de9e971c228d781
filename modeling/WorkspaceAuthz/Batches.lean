import Mathlib.Data.Finset.Union
import Mathlib.Data.List.Induction

/-! # Batches of changes and their replay

A batch adds some elements to a set and removes others. Whoever applies it decides
what happens to an element that is in both lists: a store that removes first keeps
it, a log that lists the additions first loses it. The two agree exactly if no such
element is left as it is by all later batches.
-/
namespace WorkspaceAuthz.Batches

structure Batch (α : Type) where
  inserts : List α
  deletes : List α

inductive Change (α : Type) where
  | insert (a : α)
  | delete (a : α)

variable {α : Type}

def Batch.Mentions (b : Batch α) (a : α) : Prop := a ∈ b.inserts ∨ a ∈ b.deletes

/-- The changes of a batch with the additions first. -/
def Batch.log (b : Batch α) : List (Change α) := b.inserts.map .insert ++ b.deletes.map .delete

/-- An element that a batch adds as well as removes occurs in a later batch again. -/
def Superseded (batches : List (Batch α)) (a : α) : Prop :=
  ∀ before b after, batches = before ++ b :: after → a ∈ b.inserts → a ∈ b.deletes →
    ∃ later ∈ after, later.Mentions a

theorem superseded_append_singleton {batches : List (Batch α)} {b : Batch α} {a : α} :
    Superseded (batches ++ [b]) a ↔
      ¬ (a ∈ b.inserts ∧ a ∈ b.deletes) ∧ (b.Mentions a ∨ Superseded batches a) := by
  constructor
  · intro h
    refine ⟨fun hboth => ?_, or_iff_not_imp_left.mpr fun hb before c after heq hins hdel => ?_⟩
    · obtain ⟨later, hlater, -⟩ := h batches b [] rfl hboth.1 hboth.2
      cases hlater
    · obtain ⟨later, hlater, ha⟩ := h before c (after ++ [b]) (by simp [heq]) hins hdel
      rcases List.mem_append.mp hlater with hlater | hlater
      · exact ⟨later, hlater, ha⟩
      · rw [List.mem_singleton.mp hlater] at ha
        exact absurd ha hb
  · rintro ⟨hboth, h⟩ before c after heq hins hdel
    rcases List.eq_nil_or_concat after with rfl | ⟨after, d, rfl⟩
    · obtain ⟨-, hcb⟩ := List.append_inj' heq rfl
      cases hcb
      exact absurd ⟨hins, hdel⟩ hboth
    · rw [List.concat_eq_append, ← List.cons_append, ← List.append_assoc] at heq
      obtain ⟨hbatches, hdb⟩ := List.append_inj' heq rfl
      cases hdb
      rcases h with hb | h
      · exact ⟨b, by simp, hb⟩
      · obtain ⟨later, hlater, ha⟩ := h before c after hbatches hins hdel
        exact ⟨later, by simp [hlater], ha⟩

variable [DecidableEq α]

def Change.apply (s : Finset α) : Change α → Finset α
  | .insert a => Insert.insert a s
  | .delete a => s.erase a

def replay (changes : List (Change α)) : Finset α := changes.foldl Change.apply ∅

/-- Removals, then additions. -/
def Batch.write (s : Finset α) (b : Batch α) : Finset α :=
  (s \ b.deletes.toFinset) ∪ b.inserts.toFinset

def written (batches : List (Batch α)) : Finset α := batches.foldl Batch.write ∅

theorem mem_foldl_insert (l : List α) (s : Finset α) (a : α) :
    a ∈ (l.map Change.insert).foldl Change.apply s ↔ a ∈ s ∨ a ∈ l := by
  induction l generalizing s with
  | nil => simp
  | cons b l ih =>
    rw [List.map_cons, List.foldl_cons, ih]
    simp only [Change.apply, Finset.mem_insert, List.mem_cons]
    tauto

theorem mem_foldl_delete (l : List α) (s : Finset α) (a : α) :
    a ∈ (l.map Change.delete).foldl Change.apply s ↔ a ∈ s ∧ a ∉ l := by
  induction l generalizing s with
  | nil => simp
  | cons b l ih =>
    rw [List.map_cons, List.foldl_cons, ih]
    simp only [Change.apply, Finset.mem_erase, List.mem_cons]
    tauto

theorem mem_replay_append_log (changes : List (Change α)) (b : Batch α) (a : α) :
    a ∈ replay (changes ++ b.log) ↔ (a ∈ replay changes ∨ a ∈ b.inserts) ∧ a ∉ b.deletes := by
  rw [replay, Batch.log, List.foldl_append, List.foldl_append, mem_foldl_delete, mem_foldl_insert]
  rfl

theorem mem_written_append (batches : List (Batch α)) (b : Batch α) (a : α) :
    a ∈ written (batches ++ [b]) ↔ (a ∈ written batches ∧ a ∉ b.deletes) ∨ a ∈ b.inserts := by
  simp [written, Batch.write]

theorem mem_replay_iff_mem_written_iff (batches : List (Batch α)) (a : α) :
    (a ∈ replay (batches.flatMap Batch.log) ↔ a ∈ written batches) ↔ Superseded batches a := by
  induction batches using List.reverseRecOn with
  | nil =>
    refine iff_of_true Iff.rfl fun before b after heq => ?_
    simp at heq
  | append_singleton batches b ih =>
    rw [List.flatMap_append, List.flatMap_singleton, mem_replay_append_log, mem_written_append,
      superseded_append_singleton, ← ih, Batch.Mentions]
    -- an element that the batch mentions is settled by it, any other as before
    by_cases hins : a ∈ b.inserts <;> by_cases hdel : a ∈ b.deletes <;> simp [hins, hdel]

/-- The replay is what was written iff the last batch with an element never has it twice. -/
theorem replay_eq_written_iff (batches : List (Batch α)) :
    replay (batches.flatMap Batch.log) = written batches ↔ ∀ a, Superseded batches a := by
  rw [Finset.ext_iff]
  exact forall_congr' fun a => mem_replay_iff_mem_written_iff batches a

end WorkspaceAuthz.Batches
