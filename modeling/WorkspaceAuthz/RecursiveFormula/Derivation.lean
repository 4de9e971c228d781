import Mathlib.Data.Nat.Find
import Mathlib.Order.Lattice
import Mathlib.Data.Set.Basic

/-! # Derivations in recursive systems of Boolean formulas

A system assigns a formula to every name, and formulas refer to names, so a
name may refer to itself, also below a negation. A verdict on a formula counts
only when a finite derivation supports it: a system has names on which neither
verdict is derivable, and none on which both are.
-/
namespace WorkspaceAuthz.RecursiveFormula

/-- Formulas over names in `ν`. `read` marks a place where evaluation consults
the outside world once, and `fail` a place where that consultation breaks off. -/
inductive Formula (ν ε : Type*) where
  | const (b : Bool)
  | ref (x : ν)
  | or (f g : Formula ν ε)
  | and (f g : Formula ν ε)
  | not (f : Formula ν ε)
  | read (f : Formula ν ε)
  | fail (e : ε)

variable {ν ε : Type*}

namespace Formula

/-- The short-circuit disjunction of a list, in list order. -/
def any : List (Formula ν ε) → Formula ν ε
  | [] => .const false
  | f :: fs => .or f (any fs)

/-- The short-circuit conjunction of a list, in list order. -/
def all : List (Formula ν ε) → Formula ν ε
  | [] => .const true
  | f :: fs => .and f (all fs)

/-- Every name that occurs, with the parity of the negations above it. -/
def refs : Formula ν ε → Set (Bool × ν)
  | .const _ => ∅
  | .ref x => {(false, x)}
  | .or f g => refs f ∪ refs g
  | .and f g => refs f ∪ refs g
  | .not f => {p | (!p.1, p.2) ∈ refs f}
  | .read f => refs f
  | .fail _ => ∅

/-- A formula that contains no failure. -/
def Total : Formula ν ε → Prop
  | .const _ => True
  | .ref _ => True
  | .or f g => f.Total ∧ g.Total
  | .and f g => f.Total ∧ g.Total
  | .not f => f.Total
  | .read f => f.Total
  | .fail _ => False

theorem any_total {fs : List (Formula ν ε)} (h : ∀ f ∈ fs, f.Total) : (any fs).Total := by
  induction fs with
  | nil => trivial
  | cons f fs ih =>
    exact ⟨h f List.mem_cons_self, ih (fun g hg => h g (List.mem_cons_of_mem f hg))⟩

theorem all_total {fs : List (Formula ν ε)} (h : ∀ f ∈ fs, f.Total) : (all fs).Total := by
  induction fs with
  | nil => trivial
  | cons f fs ih =>
    exact ⟨h f List.mem_cons_self, ih (fun g hg => h g (List.mem_cons_of_mem f hg))⟩

theorem mem_refs_any {fs : List (Formula ν ε)} {p : Bool × ν} :
    p ∈ (any fs).refs ↔ ∃ f ∈ fs, p ∈ f.refs := by
  induction fs with
  | nil => simp [any, refs]
  | cons f fs ih => simp [any, refs, ih]

theorem mem_refs_all {fs : List (Formula ν ε)} {p : Bool × ν} :
    p ∈ (all fs).refs ↔ ∃ f ∈ fs, p ∈ f.refs := by
  induction fs with
  | nil => simp [all, refs]
  | cons f fs ih => simp [all, refs, ih]

end Formula

/-- `DerivesIn sys k v f`: the verdict `v` on `f` has a derivation in which at
most `k` references are nested. -/
inductive DerivesIn (sys : ν → Formula ν ε) : ℕ → Bool → Formula ν ε → Prop
  | const (k b) : DerivesIn sys k b (.const b)
  | ref {k v x} : DerivesIn sys k v (sys x) → DerivesIn sys (k + 1) v (.ref x)
  | orLeft {k f g} : DerivesIn sys k true f → DerivesIn sys k true (.or f g)
  | orRight {k f g} : DerivesIn sys k true g → DerivesIn sys k true (.or f g)
  | orNeither {k f g} : DerivesIn sys k false f → DerivesIn sys k false g →
      DerivesIn sys k false (.or f g)
  | andBoth {k f g} : DerivesIn sys k true f → DerivesIn sys k true g →
      DerivesIn sys k true (.and f g)
  | andLeft {k f g} : DerivesIn sys k false f → DerivesIn sys k false (.and f g)
  | andRight {k f g} : DerivesIn sys k false g → DerivesIn sys k false (.and f g)
  | not {k v f} : DerivesIn sys k (!v) f → DerivesIn sys k v (.not f)
  | read {k v f} : DerivesIn sys k v f → DerivesIn sys k v (.read f)

/-- The verdict `v` on `f` has a finite derivation. -/
def Derives (sys : ν → Formula ν ε) (v : Bool) (f : Formula ν ε) : Prop :=
  ∃ k, DerivesIn sys k v f

variable {sys : ν → Formula ν ε}

theorem DerivesIn.mono {k l : ℕ} {v : Bool} {f : Formula ν ε} (h : DerivesIn sys k v f)
    (hkl : k ≤ l) : DerivesIn sys l v f := by
  induction h generalizing l with
  | const k b => exact .const l b
  | ref _ ih =>
    obtain ⟨l, rfl⟩ : ∃ l', l = l' + 1 := ⟨l - 1, by omega⟩
    exact .ref (ih (by omega))
  | orLeft _ ih => exact .orLeft (ih hkl)
  | orRight _ ih => exact .orRight (ih hkl)
  | orNeither _ _ ihf ihg => exact .orNeither (ihf hkl) (ihg hkl)
  | andBoth _ _ ihf ihg => exact .andBoth (ihf hkl) (ihg hkl)
  | andLeft _ ih => exact .andLeft (ih hkl)
  | andRight _ ih => exact .andRight (ih hkl)
  | not _ ih => exact .not (ih hkl)
  | read _ ih => exact .read (ih hkl)

/-- Derivations are consistent, whatever cycles the system has. -/
theorem DerivesIn.unique {k l : ℕ} {v w : Bool} {f : Formula ν ε} (hv : DerivesIn sys k v f)
    (hw : DerivesIn sys l w f) : v = w := by
  induction hv generalizing l w with
  | const k b => cases hw; rfl
  | ref _ ih => cases hw with | ref h => exact ih h
  | orLeft _ ih =>
    cases hw with
    | orLeft h => rfl
    | orRight h => rfl
    | orNeither hf hg => exact ih hf
  | orRight _ ih =>
    cases hw with
    | orLeft h => rfl
    | orRight h => rfl
    | orNeither hf hg => exact ih hg
  | orNeither _ _ ihf ihg =>
    cases hw with
    | orLeft h => exact ihf h
    | orRight h => exact ihg h
    | orNeither hf hg => rfl
  | andBoth _ _ ihf ihg =>
    cases hw with
    | andBoth hf hg => rfl
    | andLeft h => exact ihf h
    | andRight h => exact ihg h
  | andLeft _ ih =>
    cases hw with
    | andBoth hf hg => exact ih hf
    | andLeft h => rfl
    | andRight h => rfl
  | andRight _ ih =>
    cases hw with
    | andBoth hf hg => exact ih hg
    | andLeft h => rfl
    | andRight h => rfl
  | not _ ih => cases hw with | not h => exact Bool.not_inj (ih h)
  | read _ ih => cases hw with | read h => exact ih h

theorem DerivesIn.derives {k : ℕ} {v : Bool} {f : Formula ν ε} (h : DerivesIn sys k v f) :
    Derives sys v f := ⟨k, h⟩

namespace Derives

theorem unique {v w : Bool} {f : Formula ν ε} (hv : Derives sys v f) (hw : Derives sys w f) :
    v = w := by
  obtain ⟨k, hv⟩ := hv
  obtain ⟨l, hw⟩ := hw
  exact hv.unique hw

theorem const (b : Bool) : Derives sys b (.const b) := ⟨0, .const 0 b⟩

theorem ref {v : Bool} {x : ν} (h : Derives sys v (sys x)) : Derives sys v (.ref x) := by
  obtain ⟨k, h⟩ := h
  exact ⟨k + 1, .ref h⟩

theorem orLeft {f g : Formula ν ε} (h : Derives sys true f) : Derives sys true (.or f g) := by
  obtain ⟨k, h⟩ := h
  exact ⟨k, .orLeft h⟩

theorem orRight {f g : Formula ν ε} (h : Derives sys true g) : Derives sys true (.or f g) := by
  obtain ⟨k, h⟩ := h
  exact ⟨k, .orRight h⟩

theorem orNeither {f g : Formula ν ε} (hf : Derives sys false f) (hg : Derives sys false g) :
    Derives sys false (.or f g) := by
  obtain ⟨k, hf⟩ := hf
  obtain ⟨l, hg⟩ := hg
  exact ⟨max k l, .orNeither (hf.mono (le_max_left k l)) (hg.mono (le_max_right k l))⟩

theorem andBoth {f g : Formula ν ε} (hf : Derives sys true f) (hg : Derives sys true g) :
    Derives sys true (.and f g) := by
  obtain ⟨k, hf⟩ := hf
  obtain ⟨l, hg⟩ := hg
  exact ⟨max k l, .andBoth (hf.mono (le_max_left k l)) (hg.mono (le_max_right k l))⟩

theorem andLeft {f g : Formula ν ε} (h : Derives sys false f) : Derives sys false (.and f g) := by
  obtain ⟨k, h⟩ := h
  exact ⟨k, .andLeft h⟩

theorem andRight {f g : Formula ν ε} (h : Derives sys false g) : Derives sys false (.and f g) := by
  obtain ⟨k, h⟩ := h
  exact ⟨k, .andRight h⟩

theorem not {v : Bool} {f : Formula ν ε} (h : Derives sys (!v) f) : Derives sys v (.not f) := by
  obtain ⟨k, h⟩ := h
  exact ⟨k, .not h⟩

theorem read {v : Bool} {f : Formula ν ε} (h : Derives sys v f) : Derives sys v (.read f) := by
  obtain ⟨k, h⟩ := h
  exact ⟨k, .read h⟩

theorem any_true {f : Formula ν ε} {fs : List (Formula ν ε)} (hf : f ∈ fs)
    (h : Derives sys true f) : Derives sys true (.any fs) := by
  induction fs with
  | nil => exact absurd hf List.not_mem_nil
  | cons g fs ih =>
    rcases List.mem_cons.mp hf with rfl | hf
    · exact orLeft h
    · exact orRight (ih hf)

theorem any_false {fs : List (Formula ν ε)} (h : ∀ f ∈ fs, Derives sys false f) :
    Derives sys false (.any fs) := by
  induction fs with
  | nil => exact const false
  | cons g fs ih =>
    rw [List.forall_mem_cons] at h
    exact orNeither h.1 (ih h.2)

theorem all_true {fs : List (Formula ν ε)} (h : ∀ f ∈ fs, Derives sys true f) :
    Derives sys true (.all fs) := by
  induction fs with
  | nil => exact const true
  | cons g fs ih =>
    rw [List.forall_mem_cons] at h
    exact andBoth h.1 (ih h.2)

theorem all_false {f : Formula ν ε} {fs : List (Formula ν ε)} (hf : f ∈ fs)
    (h : Derives sys false f) : Derives sys false (.all fs) := by
  induction fs with
  | nil => exact absurd hf List.not_mem_nil
  | cons g fs ih =>
    rcases List.mem_cons.mp hf with rfl | hf
    · exact andLeft h
    · exact andRight (ih hf)

end Derives

@[simp] theorem derivesIn_const {k : ℕ} {v b : Bool} :
    DerivesIn sys k v (.const b) ↔ v = b := by
  constructor
  · intro h
    cases h
    rfl
  · rintro rfl
    exact .const k v

theorem derivesIn_ref {k : ℕ} {v : Bool} {x : ν} :
    DerivesIn sys k v (.ref x) ↔ ∃ j, k = j + 1 ∧ DerivesIn sys j v (sys x) := by
  constructor
  · intro h
    cases h with | @ref j _ _ h => exact ⟨j, rfl, h⟩
  · rintro ⟨j, rfl, h⟩
    exact .ref h

theorem derivesIn_not {k : ℕ} {v : Bool} {f : Formula ν ε} :
    DerivesIn sys k v (.not f) ↔ DerivesIn sys k (!v) f := by
  constructor
  · intro h
    cases h with | not h => exact h
  · exact .not

theorem derivesIn_read {k : ℕ} {v : Bool} {f : Formula ν ε} :
    DerivesIn sys k v (.read f) ↔ DerivesIn sys k v f := by
  constructor
  · intro h
    cases h with | read h => exact h
  · exact .read

theorem not_derivesIn_fail {k : ℕ} {v : Bool} {e : ε} : ¬ DerivesIn sys k v (.fail e) := by
  intro h
  cases h

theorem derivesIn_any_true {k : ℕ} {fs : List (Formula ν ε)} :
    DerivesIn sys k true (Formula.any fs) ↔ ∃ f ∈ fs, DerivesIn sys k true f := by
  induction fs with
  | nil =>
    constructor
    · intro h; cases h
    · simp
  | cons f fs ih =>
    simp only [List.mem_cons, exists_eq_or_imp, ← ih]
    constructor
    · intro h
      cases h with
      | orLeft h => exact .inl h
      | orRight h => exact .inr h
    · rintro (h | h)
      · exact .orLeft h
      · exact .orRight h

theorem derivesIn_any_false {k : ℕ} {fs : List (Formula ν ε)} :
    DerivesIn sys k false (Formula.any fs) ↔ ∀ f ∈ fs, DerivesIn sys k false f := by
  induction fs with
  | nil => exact ⟨fun _ => by simp, fun _ => .const k false⟩
  | cons f fs ih =>
    rw [List.forall_mem_cons, ← ih]
    constructor
    · intro h
      cases h with | orNeither hf hg => exact ⟨hf, hg⟩
    · rintro ⟨hf, hg⟩
      exact .orNeither hf hg

theorem derivesIn_all_true {k : ℕ} {fs : List (Formula ν ε)} :
    DerivesIn sys k true (Formula.all fs) ↔ ∀ f ∈ fs, DerivesIn sys k true f := by
  induction fs with
  | nil => exact ⟨fun _ => by simp, fun _ => .const k true⟩
  | cons f fs ih =>
    rw [List.forall_mem_cons, ← ih]
    constructor
    · intro h
      cases h with | andBoth hf hg => exact ⟨hf, hg⟩
    · rintro ⟨hf, hg⟩
      exact .andBoth hf hg

theorem derivesIn_all_false {k : ℕ} {fs : List (Formula ν ε)} :
    DerivesIn sys k false (Formula.all fs) ↔ ∃ f ∈ fs, DerivesIn sys k false f := by
  induction fs with
  | nil =>
    constructor
    · intro h; cases h
    · simp
  | cons f fs ih =>
    simp only [List.mem_cons, exists_eq_or_imp, ← ih]
    constructor
    · intro h
      cases h with
      | andLeft h => exact .inl h
      | andRight h => exact .inr h
    · rintro (h | h)
      · exact .andLeft h
      · exact .andRight h

end WorkspaceAuthz.RecursiveFormula
