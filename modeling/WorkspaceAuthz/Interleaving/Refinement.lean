import WorkspaceAuthz.Interleaving.Runs

/-! # Refinement of interleaved runs

Programs run against an implementation of their operations as they do against a
specification, if every operation of the one is matched by the other with the same
reply. The environment of the specification may be chosen for each operation, so
that the specification can leave open what the implementation determines.
-/
namespace WorkspaceAuthz.Interleaving

variable {Op : Type} {Reply : Op → Type} {α σ τ ω ω' : Type}

/-- Every operation of the implementation that meets `guard` is one of the specification. -/
def Refines (exec : ω → (op : Op) → τ → Reply op × τ) (spec : ω' → (op : Op) → σ → Reply op × σ)
    (guard : Guard τ Op Reply) (R : σ → τ → Prop) : Prop :=
  ∀ env s t others trace op, R s t → guard t others trace op →
    ∃ env', (spec env' op s).1 = (exec env op t).1 ∧ R (spec env' op s).2 (exec env op t).2

variable {exec : ω → (op : Op) → τ → Reply op × τ} {spec : ω' → (op : Op) → σ → Reply op × σ}
  {guard : Guard τ Op Reply} {R : σ → τ → Prop}

/-- Runs of the implementation are runs of the specification: with the same traces and results,
and with related states. -/
theorem Reaches.refines (h : Refines exec spec guard R) {c c' : Config τ Op Reply α}
    (hrun : Reaches exec guard c c') {s : σ} (hs : R s c.state) :
    ∃ s', R s' c'.state ∧
      Reaches spec (fun _ _ _ _ => True) ⟨s, c.processes⟩ ⟨s', c'.processes⟩ := by
  induction hrun with
  | refl => exact ⟨s, hs, .refl⟩
  | tail _ hlast ih =>
    obtain ⟨s₁, hs₁, hspec⟩ := ih
    cases hlast with
    | @perform t before trace op next after env hguard =>
      obtain ⟨env', hreply, hs'⟩ := h env s₁ t _ trace op hs₁ hguard
      refine ⟨(spec env' op s₁).2, hs', hspec.tail ?_⟩
      rw [← hreply]
      exact .perform env' trivial

end WorkspaceAuthz.Interleaving
