import Mathlib.Data.Nat.Notation

/-! # `singleflight`

A group of calls runs at most one call for each key at a time. Who comes while one
is running follows it and gets its result; who comes otherwise leads a new one.
-/
namespace WorkspaceAuthz.Go

/-- The calls for one key: the one that is running, and the results of those that have ended,
by the order in which they began. -/
structure Flights (ρ : Type) where
  running : Option ℕ := none
  results : List (Option ρ) := []
  running_open : ∀ n ∈ running, results[n]? = some none := by simp

/-- Whether a caller leads a call or follows one. -/
inductive Boarding where
  | leader (n : ℕ)
  | follower (n : ℕ)
deriving DecidableEq

namespace Flights

variable {ρ : Type} {f : Flights ρ} {n n' : ℕ} {r : ρ}

def result? (f : Flights ρ) (n : ℕ) : Option ρ := f.results[n]?.join

def join (f : Flights ρ) : Boarding × Flights ρ :=
  match f.running with
  | some n => (.follower n, f)
  | none => (.leader f.results.length,
    { running := some f.results.length
      results := f.results ++ [none]
      running_open := by simp })

/-- The call has ended; the group forgets it, if it is the one that is running. -/
def land (f : Flights ρ) (n : ℕ) (r : ρ) : Flights ρ where
  running := if f.running = some n then none else f.running
  results := f.results.set n (some r)
  running_open := by
    intro k hk
    by_cases hn : f.running = some n
    · simp [hn] at hk
    · rw [if_neg hn] at hk
      have hne : n ≠ k := fun h => hn (h ▸ hk)
      rw [List.getElem?_set_ne hne]
      exact f.running_open k hk

theorem result?_of_running (h : f.running = some n) : f.result? n = none := by
  rw [result?, f.running_open n h]
  rfl

theorem result?_land : (f.land n r).result? n' =
    if n' = n ∧ n < f.results.length then some r else f.result? n' := by
  simp only [result?, land, List.getElem?_set]
  grind

theorem running_of_follower (h : f.join.1 = .follower n) : f.running = some n := by
  unfold join at h
  cases hrunning : f.running with
  | none => simp [hrunning] at h
  | some k => simpa [hrunning] using h

@[simp] theorem result?_join : f.join.2.result? n = f.result? n := by
  unfold join
  cases hrunning : f.running with
  | none =>
    simp only [result?, List.getElem?_append]
    grind
  | some k => rfl

end Flights

end WorkspaceAuthz.Go
