import Mathlib.Data.List.Basic

/-! # Buffered channels

The buffer of a channel is a queue that never holds more than its capacity. A send
is ready while there is room, a receive while there is something in the buffer.
-/
namespace WorkspaceAuthz.Go

structure Chan (α : Type) where
  capacity : ℕ
  buffer : List α
  length_le : buffer.length ≤ capacity

namespace Chan

variable {α : Type} {c c' : Chan α} {a : α}

def make (capacity : ℕ) : Chan α := ⟨capacity, [], Nat.zero_le capacity⟩

def send? (c : Chan α) (a : α) : Option (Chan α) :=
  if h : c.buffer.length < c.capacity then
    some ⟨c.capacity, c.buffer ++ [a], by rw [List.length_append]; exact h⟩
  else none

def receive? (c : Chan α) : Option (α × Chan α) :=
  match h : c.buffer with
  | [] => none
  | a :: rest => some (a, ⟨c.capacity, rest, by
      have hle := c.length_le
      rw [h, List.length_cons] at hle
      exact Nat.le_of_succ_le hle⟩)

theorem buffer_of_send (h : c.send? a = some c') : c'.buffer = c.buffer ++ [a] := by
  unfold send? at h
  split_ifs at h
  cases h
  rfl

theorem buffer_of_receive (h : c.receive? = some (a, c')) : c.buffer = a :: c'.buffer := by
  unfold receive? at h
  split at h
  · cases h
  · rename_i hbuffer
    cases h
    exact hbuffer

theorem buffer_of_receive_none (h : c.receive? = none) : c.buffer = [] := by
  unfold receive? at h
  split at h
  · rename_i hbuffer
    exact hbuffer
  · cases h

end Chan

end WorkspaceAuthz.Go
