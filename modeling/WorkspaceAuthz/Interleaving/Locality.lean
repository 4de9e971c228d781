import Mathlib.Tactic.SplitIfs

/-! # Operations on parts of a state

A state is made of parts. An operation is local to a part if it leaves the other
parts alone, and if what it returns and what becomes of its part depend on nothing
but the part. Operations that are local to different parts can be exchanged.
-/
namespace WorkspaceAuthz.Interleaving

variable {K : Type} {V : K → Type} {σ α : Type} (part : (k : K) → σ → V k)

/-- The same for all states with the same part. -/
def DependsOn (k : K) (g : σ → α) : Prop := ∀ s s', part k s = part k s' → g s = g s'

/-- A change of one part, given by the part. -/
structure Updates (k : K) (u : σ → σ) : Prop where
  frame : ∀ s k', k' ≠ k → part k' (u s) = part k' s
  effect : DependsOn part k fun s => part k (u s)

structure LocalAt (k : K) (f : σ → α × σ) : Prop where
  reply : DependsOn part k fun s => (f s).1
  updates : Updates part k fun s => (f s).2

variable {part} {k k' : K}

theorem Updates.refl : Updates part k id where
  frame _ _ _ := rfl
  effect _ _ h := h

theorem Updates.comp {u v : σ → σ} (hv : Updates part k v) (hu : Updates part k u) :
    Updates part k (v ∘ u) where
  frame s k' hne := (hv.frame (u s) k' hne).trans (hu.frame s k' hne)
  effect s s' h := hv.effect _ _ (hu.effect s s' h)

namespace LocalAt

theorem read {g : σ → α} (hg : DependsOn part k g) : LocalAt part k fun s => (g s, s) where
  reply := hg
  updates := .refl

theorem write (a : α) {u : σ → σ} (hu : Updates part k u) : LocalAt part k fun s => (a, u s) where
  reply _ _ _ := rfl
  updates := hu

theorem ite {c : σ → Prop} [DecidablePred c] {f g : σ → α × σ} (hc : DependsOn part k c)
    (hf : LocalAt part k f) (hg : LocalAt part k g) :
    LocalAt part k fun s => if c s then f s else g s where
  reply s s' h := by
    simp only [hc s s' h]
    split_ifs
    · exact hf.reply s s' h
    · exact hg.reply s s' h
  updates.frame s k' hne := by
    split_ifs
    · exact hf.updates.frame s k' hne
    · exact hg.updates.frame s k' hne
  updates.effect s s' h := by
    simp only [hc s s' h]
    split_ifs
    · exact hf.updates.effect s s' h
    · exact hg.updates.effect s s' h

variable {β : Type} {f : σ → α × σ} {g : σ → β × σ}

theorem reply_eq (hf : LocalAt part k f) (hg : LocalAt part k' g) (hne : k ≠ k') (s : σ) :
    (f (g s).2).1 = (f s).1 :=
  hf.reply _ _ (hg.updates.frame s k hne)

theorem comm (hf : LocalAt part k f) (hg : LocalAt part k' g) (hne : k ≠ k') (s : σ) (i : K) :
    part i (f (g s).2).2 = part i (g (f s).2).2 := by
  by_cases hi : i = k
  · subst hi
    rw [hg.updates.frame _ i hne]
    exact hf.updates.effect _ _ (hg.updates.frame s i hne)
  · rw [hf.updates.frame _ i hi]
    by_cases hi' : i = k'
    · subst hi'
      exact hg.updates.effect _ _ (hf.updates.frame s i hi).symm
    · rw [hg.updates.frame s i hi', hg.updates.frame _ i hi', hf.updates.frame s i hi]

end LocalAt

end WorkspaceAuthz.Interleaving
