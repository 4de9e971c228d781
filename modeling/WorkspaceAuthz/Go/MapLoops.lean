import WorkspaceAuthz.Go.Data

/-! # Loops over maps

A loop that visits every entry of a map, in some order, and puts what it makes of
the value under the same key of a new map. It stops at the first entry it cannot
convert; whether it gets through does not depend on the order.
-/
namespace WorkspaceAuthz.Go.GoMap

variable {β γ ε : Type}

/-- The loop over some keys, from the entries that have been converted so far. -/
def convertKeys (f : GoString → β → Except ε γ) (m : GoMap β) (done : GoMap γ) :
    List GoString → Except ε (GoMap γ)
  | [] => .ok done
  | k :: keys => match m.get k with
    | none => convertKeys f m done keys
    | some v => match f k v with
      | .error e => .error e
      | .ok w => convertKeys f m (done.insert k w) keys

def convert (order : MapOrder) (f : GoString → β → Except ε γ) (m : GoMap β) :
    Except ε (GoMap γ) :=
  convertKeys f m ∅ (order.list m.keys)

/-- The value was converted; where there was none, there is none. -/
def Converts (f : β → Except ε γ) : Option β → Option γ → Prop
  | none, w => w = none
  | some v, w => ∃ w', f v = .ok w' ∧ w = some w'

theorem convertKeys_ok_iff {f : GoString → β → Except ε γ} {m : GoMap β} {done m' : GoMap γ}
    {keys : List GoString} (hnodup : keys.Nodup) (hkeys : ∀ k ∈ keys, (m.get k).isSome)
    (hdone : ∀ k ∈ keys, done.get k = none) :
    convertKeys f m done keys = .ok m' ↔
      ∀ k, if k ∈ keys then Converts (f k) (m.get k) (m'.get k) else m'.get k = done.get k := by
  induction keys generalizing done with
  | nil =>
    rw [convertKeys, Except.ok.injEq]
    constructor
    · rintro rfl k
      simp
    · intro h
      apply Finmap.ext_lookup
      intro k
      exact ((if_neg List.not_mem_nil).mp (h k)).symm
  | cons k keys ih =>
    obtain ⟨hk, hnodup⟩ := List.nodup_cons.mp hnodup
    obtain ⟨v, hv⟩ := Option.isSome_iff_exists.mp (hkeys k List.mem_cons_self)
    rw [convertKeys, hv]
    dsimp only
    cases hf : f k v with
    | error e =>
      dsimp only
      constructor
      · rintro ⟨⟩
      · intro h
        have hconv := h k
        rw [if_pos List.mem_cons_self, hv] at hconv
        obtain ⟨w, hw, -⟩ := hconv
        rw [hf] at hw
        cases hw
    | ok w =>
      have hdone' : ∀ k' ∈ keys, get (done.insert k w) k' = none := by
        intro k' hk'
        have hne : k' ≠ k := by
          rintro rfl
          exact hk hk'
        rw [get_insert, if_neg hne]
        exact hdone k' (List.mem_cons_of_mem k hk')
      dsimp only
      rw [ih hnodup (fun k' hk' => hkeys k' (List.mem_cons_of_mem k hk')) hdone']
      apply forall_congr'
      intro k'
      by_cases heq : k' = k
      · subst heq
        simp [hk, hv, Converts, hf, get_insert]
      · simp [heq, get_insert]

theorem convert_ok_iff {order : MapOrder} {f : GoString → β → Except ε γ} {m : GoMap β}
    {m' : GoMap γ} :
    convert order f m = .ok m' ↔ ∀ k, Converts (f k) (m.get k) (m'.get k) := by
  have hmem (k : GoString) : k ∈ order.list m.keys ↔ (m.get k).isSome := by
    rw [order.mem_list, Finmap.mem_keys, ← Finmap.lookup_isSome]
    rfl
  rw [convert, convertKeys_ok_iff (order.nodup _) (fun k => (hmem k).mp) fun k _ => get_empty k]
  apply forall_congr'
  intro k
  by_cases hk : k ∈ order.list m.keys
  · rw [if_pos hk]
  · have hnone : m.get k = none := by
      rw [← Option.not_isSome_iff_eq_none, ← hmem]
      exact hk
    rw [if_neg hk, hnone, get_empty]
    rfl

theorem convertKeys_error {f : GoString → β → Except ε γ} {m : GoMap β} {done : GoMap γ}
    {keys : List GoString} {e : ε} (h : convertKeys f m done keys = .error e) :
    ∃ k v, m.get k = some v ∧ f k v = .error e := by
  induction keys generalizing done with
  | nil => cases h
  | cons k keys ih =>
    rw [convertKeys] at h
    cases hv : m.get k with
    | none =>
      rw [hv] at h
      exact ih h
    | some v =>
      rw [hv] at h
      dsimp only at h
      cases hf : f k v with
      | error e' =>
        rw [hf] at h
        cases h
        exact ⟨k, v, hv, hf⟩
      | ok w =>
        rw [hf] at h
        exact ih h

theorem exists_convert_iff {order : MapOrder} {f : GoString → β → Except ε γ} {m : GoMap β} :
    (∃ m', convert order f m = .ok m') ↔ ∀ k v, m.get k = some v → ∃ w, f k v = .ok w := by
  constructor
  · rintro ⟨m', h⟩ k v hv
    have hk := convert_ok_iff.mp h k
    rw [hv] at hk
    obtain ⟨w, hw, -⟩ := hk
    exact ⟨w, hw⟩
  · intro h
    cases hconv : convert order f m with
    | ok m' => exact ⟨m', rfl⟩
    | error e =>
      obtain ⟨k, v, hv, hf⟩ := convertKeys_error hconv
      obtain ⟨w, hw⟩ := h k v hv
      rw [hf] at hw
      cases hw

theorem mapValues_of_convert {order : MapOrder} {f : GoString → β → Except ε γ} {m : GoMap β}
    {m' : GoMap γ} {g : GoString → γ → β} (h : convert order f m = .ok m')
    (hg : ∀ k v w, m.get k = some v → f k v = .ok w → g k w = v) : mapValues g m' = m := by
  apply Finmap.ext_lookup
  intro k
  change get (mapValues g m') k = get m k
  rw [get_mapValues]
  have hk := convert_ok_iff.mp h k
  cases hv : m.get k with
  | none =>
    rw [hv] at hk
    rw [show m'.get k = none from hk]
    rfl
  | some v =>
    rw [hv] at hk
    obtain ⟨w, hw, hget⟩ := hk
    rw [hget, Option.map_some, hg k v w hv hw]

theorem convert_mapValues {order : MapOrder} {f : GoString → β → Except ε γ} {m' : GoMap γ}
    {g : GoString → γ → β} (h : ∀ k w, m'.get k = some w → f k (g k w) = .ok w) :
    convert order f (mapValues g m') = .ok m' := by
  rw [convert_ok_iff]
  intro k
  rw [get_mapValues]
  cases hw : m'.get k with
  | none => rfl
  | some w => exact ⟨w, h k w hw, rfl⟩

end WorkspaceAuthz.Go.GoMap
