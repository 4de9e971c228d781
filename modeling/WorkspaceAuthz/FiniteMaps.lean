import Mathlib.Data.Finmap
import Mathlib.Data.Finset.Sort
import Mathlib.Data.List.Forall2
import Mathlib.Data.List.Perm.Basic

/-! # Finite maps

A finite map is read through its lookups: maps of a program and tables of a
database, whose rows are found by the columns of a primary key, are both finite
maps. A listing goes through the entries in an order of its own.
-/
namespace WorkspaceAuthz.FiniteMaps

theorem coe_filter {α : Type} (cond : α → Bool) (l : List α) :
    (l.filter cond : Multiset α) = Multiset.filter (cond ·) l := by
  simp [Multiset.filter_coe]

/-- The rows of a table, by primary key. -/
abbrev Table (κ ρ : Type) := Finmap fun _ : κ => ρ

namespace Table

variable {κ ρ α : Type}

theorem lookup_eq_some_iff_mem_entries [DecidableEq κ] {T : Table κ ρ} {k : κ} {r : ρ} :
    T.lookup k = some r ↔ (⟨k, r⟩ : Σ _ : κ, ρ) ∈ T.entries :=
  Finmap.mem_lookup_iff

def filter (p : κ → ρ → Bool) (T : Table κ ρ) : Table κ ρ where
  entries := T.entries.filter fun e => p e.1 e.2
  nodupKeys := by
    obtain ⟨⟨l⟩, hl⟩ := T
    exact List.NodupKeys.sublist List.filter_sublist hl

def count (p : κ → ρ → Bool) (T : Table κ ρ) : ℕ := (T.filter p).entries.card

section Lookups

variable [DecidableEq κ] (T : Table κ ρ)

theorem lookup_insert_ite (k : κ) (r : ρ) (k' : κ) :
    (T.insert k r).lookup k' = if k' = k then some r else T.lookup k' := by
  split_ifs with h
  · rw [h, Finmap.lookup_insert]
  · exact Finmap.lookup_insert_of_ne T h

theorem lookup_erase_ite (k k' : κ) :
    (T.erase k).lookup k' = if k' = k then none else T.lookup k' := by
  split_ifs with h
  · rw [h, Finmap.lookup_erase]
  · exact Finmap.lookup_erase_ne h

theorem lookup_filter (p : κ → ρ → Bool) (k : κ) :
    (T.filter p).lookup k = (T.lookup k).filter (p k) := by
  ext r
  rw [lookup_eq_some_iff_mem_entries, Option.filter_eq_some_iff, lookup_eq_some_iff_mem_entries]
  exact Multiset.mem_filter

theorem lookup_foldl_erase (key : α → κ) (l : List α) (k : κ) :
    (l.foldl (fun T a => T.erase (key a)) T).lookup k =
      if k ∈ l.map key then none else T.lookup k := by
  induction l generalizing T with
  | nil => simp
  | cons a l ih =>
    rw [List.foldl_cons, ih, lookup_erase_ite]
    by_cases hk : k = key a <;> simp [hk]

theorem lookup_foldl_insert (key : α → κ) (row : α → ρ) (l : List α) (k : κ) :
    (l.foldl (fun T a => T.insert (key a) (row a)) T).lookup k =
      ((l.reverse.find? (key · = k)).map row).or (T.lookup k) := by
  induction l generalizing T with
  | nil => simp
  | cons a l ih =>
    rw [List.foldl_cons, ih, lookup_insert_ite, List.reverse_cons, List.find?_append]
    by_cases hk : k = key a
    · cases l.reverse.find? (key · = k) <;> simp [hk]
    · simp [hk, Ne.symm hk]

theorem any_iff {p : κ → ρ → Bool} :
    Finmap.any p T = true ↔ ∃ k r, T.lookup k = some r ∧ p k r = true := by
  have hfold : ∀ (l : List (Σ _ : κ, ρ)) (b : Bool),
      l.foldl (fun b e => b || p e.1 e.2) b = (b || l.any fun e => p e.1 e.2) := by
    intro l
    induction l with
    | nil => simp
    | cons e l ih => simp [ih, Bool.or_assoc]
  have hany : Finmap.any p T = true ↔ ∃ e ∈ T.entries, p e.1 e.2 = true := by
    obtain ⟨⟨l⟩, hl⟩ := T
    change l.foldl (fun b e => b || p e.1 e.2) false = true ↔ _
    simp [hfold]
  rw [hany, Sigma.exists]
  simp only [lookup_eq_some_iff_mem_entries]

end Lookups

theorem nodup_keys (T : Table κ ρ) : (T.entries.map Sigma.fst).Nodup :=
  Multiset.nodup_keys.mpr T.nodupKeys

/-- The entries that satisfy a condition, listed from elsewhere: by what they are, each once. -/
theorem entries_filter_eq_map [DecidableEq κ] {T : Table κ ρ} {p : κ → ρ → Bool}
    {items : Multiset α} {key : α → κ} {row : α → ρ} (hnodup : (items.map key).Nodup)
    (h : ∀ k r, (T.lookup k = some r ∧ p k r = true) ↔ ∃ a ∈ items, key a = k ∧ row a = r) :
    (T.filter p).entries = items.map fun a => ⟨key a, row a⟩ := by
  have hentries : (T.filter p).entries.Nodup := Multiset.Nodup.of_map Sigma.fst (nodup_keys _)
  have hitems : (items.map fun a => (⟨key a, row a⟩ : Σ _ : κ, ρ)).Nodup := by
    apply Multiset.Nodup.of_map Sigma.fst
    rwa [Multiset.map_map]
  apply (Multiset.Nodup.ext hentries hitems).mpr
  rintro ⟨k, r⟩
  rw [← lookup_eq_some_iff_mem_entries, lookup_filter, Option.filter_eq_some_iff, h,
    Multiset.mem_map]
  simp only [Sigma.mk.injEq, heq_eq_eq]

/-- In whatever order the keys come, what is looked up are the entries. -/
theorem coe_filterMap_lookup [DecidableEq κ] (T : Table κ ρ) {keys : List κ}
    (h : (keys : Multiset κ) = T.keys.val) :
    (keys.filterMap fun k => (T.lookup k).map (Sigma.mk k) : Multiset (Σ _ : κ, ρ)) =
      T.entries := by
  have hkeys : (keys : Multiset κ) = T.entries.map Sigma.fst := h
  have hlookup : ∀ e ∈ T.entries,
      ((fun k => (T.lookup k).map (Sigma.mk k)) ∘ Sigma.fst) e = some e := by
    intro e he
    rw [Function.comp_apply, lookup_eq_some_iff_mem_entries.mpr he]
    rfl
  rw [← Multiset.filterMap_coe, hkeys, Multiset.filterMap_map]
  generalize T.entries = entries at hlookup ⊢
  induction entries using Multiset.induction_on with
  | empty => rfl
  | cons e entries ih =>
    rw [Multiset.filterMap_cons_some _ _ _ (hlookup e (Multiset.mem_cons_self e entries)),
      ih fun e' he' => hlookup e' (Multiset.mem_cons_of_mem he')]

end Table

/-! ## Listings -/

/-- An order in which the rows of a table are listed: every key once. -/
structure RowOrder (κ : Type) where
  list : Finset κ → List κ
  nodup : ∀ keys, (list keys).Nodup
  mem_list : ∀ keys k, k ∈ list keys ↔ k ∈ keys

theorem RowOrder.coe_list {κ : Type} (order : RowOrder κ) (keys : Finset κ) :
    (order.list keys : Multiset κ) = keys.val := by
  apply (Multiset.Nodup.ext (Multiset.coe_nodup.mpr (order.nodup keys)) keys.nodup).mpr
  simp [order.mem_list]

def Table.select {κ ρ : Type} [DecidableEq κ] (T : Table κ ρ) (order : RowOrder κ)
    (p : κ → ρ → Bool) : List (Σ _ : κ, ρ) :=
  ((order.list T.keys).filterMap fun k => (T.lookup k).map (Sigma.mk k)).filter fun e => p e.1 e.2

theorem Table.coe_select {κ ρ : Type} [DecidableEq κ] (T : Table κ ρ) (order : RowOrder κ)
    (p : κ → ρ → Bool) :
    (T.select order p : Multiset (Σ _ : κ, ρ)) = (T.filter p).entries := by
  rw [Table.select, coe_filter, coe_filterMap_lookup T (order.coe_list T.keys)]
  rfl

theorem Table.mem_select {κ ρ : Type} [DecidableEq κ] {T : Table κ ρ} {order : RowOrder κ}
    {p : κ → ρ → Bool} {k : κ} {r : ρ} :
    (⟨k, r⟩ : Σ _ : κ, ρ) ∈ T.select order p ↔ T.lookup k = some r ∧ p k r := by
  rw [← Multiset.mem_coe, Table.coe_select, ← lookup_eq_some_iff_mem_entries, lookup_filter,
    Option.filter_eq_some_iff]

theorem Table.nodup_keys_select {κ ρ : Type} [DecidableEq κ] (T : Table κ ρ) (order : RowOrder κ)
    (p : κ → ρ → Bool) : ((T.select order p).map Sigma.fst).Nodup := by
  rw [← Multiset.coe_nodup, ← Multiset.map_coe, Table.coe_select]
  exact nodup_keys _

theorem exists_perm_map {α β : Type} {f : α → β} {l : List β} {items : List α}
    (h : l.Perm (items.map f)) : ∃ items' : List α, items'.Perm items ∧ l = items'.map f := by
  have hmap : List.Forall₂ (fun b a => b = f a) (items.map f) items := by
    rw [List.forall₂_map_left_iff, List.forall₂_same]
    exact fun _ _ => rfl
  obtain ⟨items', hl, hperm⟩ := List.perm_comp_forall₂ h hmap
  refine ⟨items', hperm, ?_⟩
  clear h hmap hperm
  induction hl with
  | nil => rfl
  | cons hab _ ih => rw [List.map_cons, ← hab, ← ih]

/-- Whatever the order of listing, what is selected can be listed from elsewhere. -/
theorem Table.select_eq_map {κ ρ α : Type} [DecidableEq κ] {T : Table κ ρ} {p : κ → ρ → Bool}
    {items : List α} {key : α → κ} {row : α → ρ}
    (h : (T.filter p).entries = (items : Multiset α).map fun a => ⟨key a, row a⟩)
    (order : RowOrder κ) :
    ∃ items' : List α, items'.Perm items ∧
      T.select order p = items'.map fun a => ⟨key a, row a⟩ := by
  apply exists_perm_map
  rw [← Multiset.coe_eq_coe, coe_select, h, Multiset.map_coe]

end WorkspaceAuthz.FiniteMaps
