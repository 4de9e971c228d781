import WorkspaceAuthz.Interleaving.Locality
import WorkspaceAuthz.Interleaving.Runs

/-! # Processes that work on parts of a state

A state is made of parts, and every process performs operations on one part. Then the
processes of a part run as they would if there were no others: they make the same
exchanges, and their part of the state is the same in the end.
-/
namespace WorkspaceAuthz.Interleaving

variable {Op : Type} {Reply : Op → Type} {α σ ω K : Type} {V : K → Type}

/-- An operation on one part. It leaves the others alone, and what it does in one state it may do
in every state with the same part, in another environment if need be. -/
structure Parted (exec : ω → (op : Op) → σ → Reply op × σ) (part : (k : K) → σ → V k) (k : K)
    (op : Op) : Prop where
  frame : ∀ env s k', k' ≠ k → part k' (exec env op s).2 = part k' s
  follows : ∀ env s s', part k s = part k s' → ∃ env', (exec env' op s').1 = (exec env op s).1 ∧
    part k (exec env' op s').2 = part k (exec env op s).2

theorem Parted.of_local {exec : ω → (op : Op) → σ → Reply op × σ} {part : (k : K) → σ → V k}
    {k : K} {op : Op} (h : ∀ env, LocalAt part k (exec env op)) : Parted exec part k op where
  frame env := (h env).updates.frame
  follows env s s' hpart :=
    ⟨env, (h env).reply s' s hpart.symm, (h env).updates.effect s' s hpart.symm⟩

section Restriction

variable [DecidableEq K]

/-- Those of some things that have a label. -/
def labelled {β : Type} (labels : List K) (k : K) (l : List β) : List β :=
  ((labels.zip l).filter fun x => x.1 = k).map Prod.snd

theorem labelled_append {β : Type} {labels labels' : List K} {k : K} {l l' : List β}
    (h : labels.length = l.length) :
    labelled (labels ++ labels') k (l ++ l') = labelled labels k l ++ labelled labels' k l' := by
  simp [labelled, List.zip_append h]

theorem labelled_cons {β : Type} {labels : List K} {i k : K} {x : β} {l : List β} :
    labelled (i :: labels) k (x :: l) =
      if i = k then x :: labelled labels k l else labelled labels k l := by
  by_cases h : i = k <;> simp [labelled, h]

theorem labelled_map {ι β : Type} (l : List ι) (owner : ι → K) (k : K) (f : ι → β) :
    labelled (l.map owner) k (l.map f) = (l.filter (owner · = k)).map f := by
  induction l with
  | nil => rfl
  | cons i l ih =>
    rw [List.map_cons, List.map_cons, labelled_cons, ih]
    by_cases h : owner i = k <;> simp [h]

variable {exec : ω → (op : Op) → σ → Reply op × σ} {part : (k : K) → σ → V k}
  {P : K → Protocol Op Reply} {labels : List K} {c c' : Config σ Op Reply α}

/-- The processes of a part run as they would alone, in a state that differs in other parts. -/
theorem Reaches.restrict
    (hparted : ∀ k trace op, (P k).issues trace op → Parted exec part k op)
    (hrelies : ∀ k env s trace op, (P k).relies trace op (exec env op s).1)
    (hkeeps : List.Forall₂ (fun k p => p.prog.Keeps (P k) (fun _ _ => True) p.trace) labels
      c.processes)
    (h : Reaches exec (fun _ _ _ _ => True) c c') {k : K} {s₀ : σ}
    (hs₀ : part k s₀ = part k c.state) :
    ∃ s, part k s = part k c'.state ∧ Reaches exec (fun _ _ _ _ => True)
      ⟨s₀, labelled labels k c.processes⟩ ⟨s, labelled labels k c'.processes⟩ := by
  induction h with
  | refl => exact ⟨s₀, hs₀, .refl⟩
  | @tail c₁ c₂ hfirst hlast ih =>
    obtain ⟨s, hpart, hreaches⟩ := ih
    have hupholds : c₁.Upholds P (fun _ _ _ => True) (fun _ _ => True) labels :=
      Reaches.upholds (fun env s _ i trace _ op _ _ _ => ⟨hrelies i env s trace op, trivial⟩) hfirst
        ⟨trivial, hkeeps⟩
    cases hlast with
    | @perform s₁ before trace op next after env _ =>
      obtain ⟨is, js, rfl, his, hjs⟩ : ∃ is js, labels = is ++ js ∧
          List.Forall₂ (fun i p => p.prog.Keeps (P i) (fun _ _ => True) p.trace) is before ∧
          List.Forall₂ (fun i p => p.prog.Keeps (P i) (fun _ _ => True) p.trace) js
            (⟨trace, .call op next⟩ :: after) :=
        ⟨_, _, (List.take_append_drop before.length labels).symm,
          List.forall₂_take_append _ _ _ hupholds.keeps,
          List.forall₂_drop_append _ _ _ hupholds.keeps⟩
      cases hjs with
      | @cons i _ js _ hi hafter =>
        simp only [labelled_append his.length_eq, labelled_cons] at hreaches ⊢
        by_cases hik : i = k
        · subst hik
          obtain ⟨env', hreply, heffect⟩ := (hparted i trace op hi.1).follows env s₁ s hpart.symm
          refine ⟨(exec env' op s).2, heffect, ?_⟩
          rw [if_pos rfl] at hreaches ⊢
          rw [← hreply]
          exact hreaches.tail (.perform env' trivial)
        · rw [if_neg hik] at hreaches ⊢
          refine ⟨s, ?_, hreaches⟩
          exact hpart.trans ((hparted i trace op hi.1).frame env s₁ k fun h => hik h.symm).symm

end Restriction

end WorkspaceAuthz.Interleaving
