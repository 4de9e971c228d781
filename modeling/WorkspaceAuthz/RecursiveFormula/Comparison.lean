import WorkspaceAuthz.RecursiveFormula.Derivation

/-! # Two systems compared by polarity

One system lies below another when it says less in positive places and the same
in negative ones. Then a verdict on a name in the lower system is never
contradicted in the upper one.
-/
namespace WorkspaceAuthz.RecursiveFormula

variable {ν ε : Type*}

/-- `Below R neg f' f`: in a place of parity `neg` the formula `f'` says no more
than `f`. The relation `R` collects the names referred to, with their parity. -/
inductive Below (R : Bool → ν → Prop) : Bool → Formula ν ε → Formula ν ε → Prop
  | least (f) : Below R false (.const false) f
  | const (neg b) : Below R neg (.const b) (.const b)
  | ref {neg x} : R neg x → Below R neg (.ref x) (.ref x)
  | or {neg f' f g' g} : Below R neg f' f → Below R neg g' g → Below R neg (.or f' g') (.or f g)
  | and {neg f' f g' g} : Below R neg f' f → Below R neg g' g → Below R neg (.and f' g') (.and f g)
  | not {neg f' f} : Below R (!neg) f' f → Below R neg (.not f') (.not f)
  | read {neg f' f} : Below R neg f' f → Below R neg (.read f') (.read f)
  | fail (neg e) : Below R neg (.fail e) (.fail e)

variable {R : Bool → ν → Prop} {sys' sys : ν → Formula ν ε}

theorem below_any {α : Type*} {neg : Bool} {f' f : α → Formula ν ε} {as : List α}
    (h : ∀ a ∈ as, Below R neg (f' a) (f a)) :
    Below R neg (.any (as.map f')) (.any (as.map f)) := by
  induction as with
  | nil => exact .const neg false
  | cons a as ih =>
    exact .or (h a List.mem_cons_self) (ih fun b hb => h b (List.mem_cons_of_mem a hb))

theorem below_all {α : Type*} {neg : Bool} {f' f : α → Formula ν ε} {as : List α}
    (h : ∀ a ∈ as, Below R neg (f' a) (f a)) :
    Below R neg (.all (as.map f')) (.all (as.map f)) := by
  induction as with
  | nil => exact .const neg true
  | cons a as ih =>
    exact .and (h a List.mem_cons_self) (ih fun b hb => h b (List.mem_cons_of_mem a hb))

theorem Below.not_contradicted (hR : ∀ neg x, R neg x → Below R neg (sys' x) (sys x)) {k l : ℕ}
    {neg : Bool} {f' f : Formula ν ε} (h : Below R neg f' f) (h' : DerivesIn sys' k (!neg) f')
    (hf : DerivesIn sys l neg f) : False := by
  -- References are followed along `k`, the operators inside a formula along `h`.
  induction k using Nat.strong_induction_on generalizing l neg f' f with
  | _ k ihk =>
  induction h generalizing l with
  | least f => cases h'
  | const neg b =>
    rw [derivesIn_const] at h' hf
    exact Bool.not_ne_self neg (h'.trans hf.symm)
  | @ref neg x hx =>
    obtain ⟨j, rfl, hj⟩ := derivesIn_ref.mp h'
    obtain ⟨i, rfl, hi⟩ := derivesIn_ref.mp hf
    exact ihk j (Nat.lt_succ_self j) (hR neg x hx) hj hi
  | @or neg f' f g' g _ _ ihf ihg =>
    cases neg with
    | false =>
      cases hf with
      | orNeither hf hg =>
        cases h' with
        | orLeft h' => exact ihf h' hf
        | orRight h' => exact ihg h' hg
    | true =>
      cases h' with
      | orNeither hf' hg' =>
        cases hf with
        | orLeft hf => exact ihf hf' hf
        | orRight hg => exact ihg hg' hg
  | @and neg f' f g' g _ _ ihf ihg =>
    cases neg with
    | false =>
      cases h' with
      | andBoth hf' hg' =>
        cases hf with
        | andLeft hf => exact ihf hf' hf
        | andRight hg => exact ihg hg' hg
    | true =>
      cases hf with
      | andBoth hf hg =>
        cases h' with
        | andLeft h' => exact ihf h' hf
        | andRight h' => exact ihg h' hg
  | not _ ih => exact ih (derivesIn_not.mp h') (derivesIn_not.mp hf)
  | read _ ih => exact ih (derivesIn_read.mp h') (derivesIn_read.mp hf)
  | fail neg e => exact not_derivesIn_fail h'

end WorkspaceAuthz.RecursiveFormula
