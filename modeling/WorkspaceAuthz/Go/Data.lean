import Mathlib.Data.List.Lex
import WorkspaceAuthz.FiniteMaps

/-! # Go strings and maps

A Go string is a sequence of bytes, not of characters: lengths, comparisons and
concatenations in the service are all bytewise. Maps are compared by content; a
map of maps is read as if absent inner maps were empty.
-/
namespace WorkspaceAuthz.Go
open FiniteMaps

abbrev GoString := List UInt8

/-- The bytes of a string literal. -/
def str (s : String) : GoString := s.toByteArray.data.toList

instance : Coe String GoString := ⟨str⟩

def ascii (c : Char) : UInt8 := c.toUInt8

/-- The map type `map[string]β`. -/
abbrev GoMap (β : Type) := Finmap fun _ : GoString => β

namespace GoMap

variable {β : Type}

def get (m : GoMap β) (k : GoString) : Option β := m.lookup k

/-- A composite literal; of two entries for one key the first counts. -/
def ofList (entries : List (GoString × β)) : GoMap β :=
  (entries.map fun p => (⟨p.1, p.2⟩ : Σ _ : GoString, β)).toFinmap

/-- `m'` is `m` with some keys removed. -/
def Trims (m' m : GoMap β) : Prop := ∀ k, m'.get k = none ∨ m'.get k = m.get k

@[simp] theorem get_empty (k : GoString) : get (∅ : GoMap β) k = none := Finmap.lookup_empty k

theorem empty_trims (m : GoMap β) : Trims ∅ m := fun k => .inl (get_empty k)

@[simp] theorem get_ofList_nil (k : GoString) : get (ofList ([] : List (GoString × β))) k = none :=
  get_empty k

@[simp] theorem get_ofList_cons (k v) (entries : List (GoString × β)) (k' : GoString) :
    get (ofList ((k, v) :: entries)) k' = if k' = k then some v else get (ofList entries) k' := by
  simp only [get, ofList, List.map_cons, Finmap.toFinmap_cons]
  split_ifs with h
  · rw [h, Finmap.lookup_insert]
  · rw [Finmap.lookup_insert_of_ne _ h]

theorem get_insert (m : GoMap β) (k : GoString) (v : β) (k' : GoString) :
    get (m.insert k v) k' = if k' = k then some v else get m k' :=
  Table.lookup_insert_ite m k v k'

theorem get_erase (m : GoMap β) (k k' : GoString) :
    get (m.erase k) k' = if k' = k then none else get m k' :=
  Table.lookup_erase_ite m k k'

/-- `m[a]`, where a missing inner map reads as an empty one. -/
def inner (m : GoMap (GoMap β)) (a : GoString) : GoMap β := (get m a).getD ∅

def get₂ (m : GoMap (GoMap β)) (a b : GoString) : Option β := get (inner m a) b

/-- `m[a][b] = v`, creating the inner map if there is none. -/
def put₂ (m : GoMap (GoMap β)) (a b : GoString) (v : β) : GoMap (GoMap β) :=
  m.insert a ((inner m a).insert b v)

def erase₂ (m : GoMap (GoMap β)) (a b : GoString) : GoMap (GoMap β) :=
  m.insert a ((inner m a).erase b)

theorem inner_insert (m : GoMap (GoMap β)) (a : GoString) (i : GoMap β) (a' : GoString) :
    inner (m.insert a i) a' = if a' = a then i else inner m a' := by
  unfold inner
  rw [get_insert]
  split_ifs <;> rfl

@[simp] theorem get₂_empty (a b : GoString) : get₂ (∅ : GoMap (GoMap β)) a b = none := by
  simp [get₂, inner]

theorem get₂_put₂ (m : GoMap (GoMap β)) (a b : GoString) (v : β) (a' b' : GoString) :
    get₂ (put₂ m a b v) a' b' = if a' = a ∧ b' = b then some v else get₂ m a' b' := by
  unfold get₂ put₂
  rw [inner_insert]
  by_cases ha : a' = a
  · simp [ha, get_insert]
  · simp [ha]

theorem get₂_erase₂ (m : GoMap (GoMap β)) (a b a' b' : GoString) :
    get₂ (erase₂ m a b) a' b' = if a' = a ∧ b' = b then none else get₂ m a' b' := by
  unfold get₂ erase₂
  rw [inner_insert]
  by_cases ha : a' = a
  · simp [ha, get_erase]
  · simp [ha]

theorem forall_put₂ {m : GoMap (GoMap β)} {R : GoString → GoString → β → Prop} {a b : GoString}
    {v : β} (h : ∀ a b v, get₂ m a b = some v → R a b v) (hv : R a b v) :
    ∀ a' b' v', get₂ (put₂ m a b v) a' b' = some v' → R a' b' v' := by
  intro a' b' v' h'
  rw [get₂_put₂] at h'
  split_ifs at h' with hab
  · obtain ⟨rfl, rfl⟩ := hab
    cases h'
    exact hv
  · exact h _ _ _ h'

def get₃ (m : GoMap (GoMap (GoMap β))) (a b c : GoString) : Option β := get₂ (inner m a) b c

/-- `m[a][b][c] = v`, creating the inner maps if there are none. -/
def put₃ (m : GoMap (GoMap (GoMap β))) (a b c : GoString) (v : β) : GoMap (GoMap (GoMap β)) :=
  m.insert a (put₂ (inner m a) b c v)

def erase₃ (m : GoMap (GoMap (GoMap β))) (a b c : GoString) : GoMap (GoMap (GoMap β)) :=
  m.insert a (erase₂ (inner m a) b c)

@[simp] theorem get₃_empty (a b c : GoString) :
    get₃ (∅ : GoMap (GoMap (GoMap β))) a b c = none := by
  simp [get₃, inner]

theorem get₃_put₃ (m : GoMap (GoMap (GoMap β))) (a b c : GoString) (v : β) (a' b' c' : GoString) :
    get₃ (put₃ m a b c v) a' b' c' =
      if a' = a ∧ b' = b ∧ c' = c then some v else get₃ m a' b' c' := by
  unfold get₃ put₃
  rw [inner_insert]
  by_cases ha : a' = a
  · simp [ha, get₂_put₂]
  · simp [ha]

theorem get₃_erase₃ (m : GoMap (GoMap (GoMap β))) (a b c a' b' c' : GoString) :
    get₃ (erase₃ m a b c) a' b' c' =
      if a' = a ∧ b' = b ∧ c' = c then none else get₃ m a' b' c' := by
  unfold get₃ erase₃
  rw [inner_insert]
  by_cases ha : a' = a
  · simp [ha, get₂_erase₂]
  · simp [ha]

theorem get₃_erase₂ (m : GoMap (GoMap (GoMap β))) (a b a' b' c' : GoString) :
    get₃ (erase₂ m a b) a' b' c' = if a' = a ∧ b' = b then none else get₃ m a' b' c' := by
  unfold get₃ erase₂
  rw [inner_insert]
  by_cases ha : a' = a
  · by_cases hb : b' = b
    · simp [ha, hb, get₂, inner, get_erase]
    · simp [ha, hb, get₂, inner, get_erase]
  · simp [ha]

theorem forall_insert {m : GoMap β} {R : GoString → β → Prop} {k : GoString} {v : β}
    (h : ∀ k v, get m k = some v → R k v) (hv : R k v) :
    ∀ k' v', get (m.insert k v) k' = some v' → R k' v' := by
  intro k' v' h'
  rw [get_insert] at h'
  split_ifs at h' with hk
  · subst hk
    cases h'
    exact hv
  · exact h _ _ h'

theorem forall_put₃ {m : GoMap (GoMap (GoMap β))}
    {R : GoString → GoString → GoString → β → Prop} {a b c : GoString} {v : β}
    (h : ∀ a b c v, get₃ m a b c = some v → R a b c v) (hv : R a b c v) :
    ∀ a' b' c' v', get₃ (put₃ m a b c v) a' b' c' = some v' → R a' b' c' v' := by
  intro a' b' c' v' h'
  rw [get₃_put₃] at h'
  split_ifs at h' with habc
  · obtain ⟨rfl, rfl, rfl⟩ := habc
    cases h'
    exact hv
  · exact h _ _ _ _ h'

theorem forall_erase₃ {m : GoMap (GoMap (GoMap β))}
    {R : GoString → GoString → GoString → β → Prop} {a b c : GoString}
    (h : ∀ a b c v, get₃ m a b c = some v → R a b c v) :
    ∀ a' b' c' v', get₃ (erase₃ m a b c) a' b' c' = some v' → R a' b' c' v' := by
  intro a' b' c' v' h'
  rw [get₃_erase₃] at h'
  split_ifs at h'
  exact h _ _ _ _ h'

theorem forall_erase₂ {m : GoMap (GoMap β)} {R : GoString → GoString → β → Prop} {a b : GoString}
    (h : ∀ a b v, get₂ m a b = some v → R a b v) :
    ∀ a' b' v', get₂ (erase₂ m a b) a' b' = some v' → R a' b' v' := by
  intro a' b' v' h'
  rw [get₂_erase₂] at h'
  split_ifs at h'
  exact h _ _ _ h'

/-! ### Whole maps -/

theorem mem_entries {m : GoMap β} {k : GoString} {v : β} :
    (⟨k, v⟩ : Σ _ : GoString, β) ∈ m.entries ↔ get m k = some v :=
  Table.lookup_eq_some_iff_mem_entries.symm

def filter (p : GoString → β → Bool) (m : GoMap β) : GoMap β where
  entries := m.entries.filter fun e => p e.1 e.2
  nodupKeys := by
    obtain ⟨⟨l⟩, hl⟩ := m
    exact List.NodupKeys.sublist List.filter_sublist hl

@[simp] theorem get_filter (p : GoString → β → Bool) (m : GoMap β) (k : GoString) :
    get (filter p m) k = (get m k).filter (p k) :=
  Table.lookup_filter m p k

theorem forall_filter {m : GoMap (GoMap β)} {R : GoString → GoString → β → Prop} {a : GoString}
    {p : GoString → β → Bool} (h : ∀ a b v, get₂ m a b = some v → R a b v) :
    ∀ a' b' v', get₂ (m.insert a (filter p (inner m a))) a' b' = some v' → R a' b' v' := by
  intro a' b' v' h'
  rw [get₂, inner_insert] at h'
  split_ifs at h' with ha
  · rw [get_filter, Option.filter_eq_some_iff] at h'
    exact ha ▸ h _ _ _ h'.1
  · exact h _ _ _ h'

/-- Every value is replaced, under the same key. -/
def mapValues {γ : Type} (f : GoString → β → γ) (m : GoMap β) : GoMap γ where
  entries := m.entries.map fun e => ⟨e.1, f e.1 e.2⟩
  nodupKeys := by
    obtain ⟨⟨l⟩, hl⟩ := m
    have hkeys : (l.map fun e : Σ _ : GoString, β => (⟨e.1, f e.1 e.2⟩ : Σ _ : GoString, γ)).keys =
        l.keys := by
      simp [List.keys, Function.comp_def]
    change (List.keys _).Nodup
    rw [hkeys]
    exact hl

@[simp] theorem get_mapValues {γ : Type} (f : GoString → β → γ) (m : GoMap β) (k : GoString) :
    get (mapValues f m) k = (get m k).map (f k) := by
  ext v
  rw [← mem_entries, Option.map_eq_some_iff]
  constructor
  · intro h
    obtain ⟨⟨k', w⟩, hmem, heq⟩ := Multiset.mem_map.mp h
    cases heq
    exact ⟨w, mem_entries.mp hmem, rfl⟩
  · rintro ⟨w, hget, rfl⟩
    exact Multiset.mem_map.mpr ⟨⟨k, w⟩, mem_entries.mpr hget, rfl⟩

/-- Inner maps may be replaced as long as empty ones stay empty. -/
theorem inner_mapValues (f : GoString → GoMap β → GoMap β) (m : GoMap (GoMap β)) (a : GoString)
    (hf : f a ∅ = ∅) : inner (mapValues f m) a = f a (inner m a) := by
  rw [inner, get_mapValues, inner]
  cases get m a with
  | none => exact hf.symm
  | some i => rfl

theorem any_iff {m : GoMap β} {p : GoString → β → Bool} :
    m.any p = true ↔ ∃ k v, get m k = some v ∧ p k v = true :=
  Table.any_iff m

def size (m : GoMap β) : ℕ := m.entries.card

theorem size_insert_of_none {m : GoMap β} {k : GoString} {v : β} (h : get m k = none) :
    size (m.insert k v) = size m + 1 := by
  rw [size, Finmap.entries_insert_of_notMem (Finmap.lookup_eq_none.mp h), Multiset.card_cons, size]

theorem size_eq_card_keys (m : GoMap β) : size m = m.keys.card := (Multiset.card_map _ _).symm

theorem size_insert_le (m : GoMap β) (k : GoString) (v : β) :
    size (m.insert k v) ≤ size m + 1 := by
  have hkeys : Finmap.keys (m.insert k v) = insert k m.keys := by
    ext a
    simp [Finmap.mem_keys, Finmap.mem_insert]
  rw [size_eq_card_keys, size_eq_card_keys, hkeys]
  exact Finset.card_insert_le _ _

theorem size_erase_le (m : GoMap β) (k : GoString) : size (m.erase k) ≤ size m := by
  rw [size_eq_card_keys, size_eq_card_keys, Finmap.keys_erase]
  exact Finset.card_erase_le

end GoMap

/-- An order in which maps are iterated: every key once. -/
structure MapOrder where
  list : Finset GoString → List GoString
  nodup : ∀ keys, (list keys).Nodup
  mem_list : ∀ keys k, k ∈ list keys ↔ k ∈ keys

def MapOrder.sorted : MapOrder where
  list keys := keys.sort (· ≤ ·)
  nodup keys := keys.sort_nodup (· ≤ ·)
  mem_list _ _ := Finset.mem_sort (· ≤ ·)

/-- The same order, found by a sort that reduces on concrete keys. -/
def MapOrder.ascending : MapOrder where
  list keys := Quot.liftOn keys.val (List.insertionSort (· ≤ ·)) fun l l' h =>
    ((List.perm_insertionSort (· ≤ ·) l).trans
      (h.trans (List.perm_insertionSort (· ≤ ·) l').symm)).eq_of_pairwise'
        (List.pairwise_insertionSort (· ≤ ·) l) (List.pairwise_insertionSort (· ≤ ·) l')
  nodup keys := by
    obtain ⟨⟨l⟩, hl⟩ := keys
    exact (List.perm_insertionSort (· ≤ ·) l).nodup_iff.mpr hl
  mem_list keys k := by
    obtain ⟨⟨l⟩, hl⟩ := keys
    exact List.mem_insertionSort (· ≤ ·)

theorem MapOrder.coe_list (order : MapOrder) (keys : Finset GoString) :
    (order.list keys : Multiset GoString) = keys.val := by
  apply (Multiset.Nodup.ext (Multiset.coe_nodup.mpr (order.nodup keys)) keys.nodup).mpr
  simp [order.mem_list]

def GoMap.values {β : Type} (m : GoMap β) (order : MapOrder) : List β :=
  (order.list m.keys).filterMap m.get

theorem GoMap.mem_values {β : Type} {m : GoMap β} {order : MapOrder} {v : β} :
    v ∈ m.values order ↔ ∃ k, m.get k = some v := by
  rw [GoMap.values, List.mem_filterMap]
  refine exists_congr fun k => and_iff_right_of_imp fun h => ?_
  rw [order.mem_list, Finmap.mem_keys]
  exact Finmap.mem_of_lookup_eq_some h

/-- In whatever order they are listed, the values are those of the entries. -/
theorem GoMap.coe_values {β : Type} (m : GoMap β) (order : MapOrder) :
    (m.values order : Multiset β) = m.entries.map Sigma.snd := by
  have hvalues : m.values order = ((order.list m.keys).filterMap fun k =>
      (m.lookup k).map (Sigma.mk k)).map Sigma.snd := by
    simp only [GoMap.values, List.map_filterMap, Option.map_map, Function.comp_def, Option.map_id']
    rfl
  rw [hvalues, ← Multiset.map_coe, Table.coe_filterMap_lookup m (order.coe_list m.keys)]

/-- Whatever order the values of a map are in, some iteration finds them in it. -/
theorem GoMap.exists_values_eq {β : Type} {m : GoMap β} {order : MapOrder} {vs : List β}
    (h : vs.Perm (m.values order)) : ∃ order' : MapOrder, m.values order' = vs := by
  have hvalues : m.values order = ((order.list m.keys).filterMap fun k =>
      (m.lookup k).map (Sigma.mk k)).map Sigma.snd := by
    simp only [GoMap.values, List.map_filterMap, Option.map_map, Function.comp_def, Option.map_id']
    rfl
  rw [hvalues] at h
  obtain ⟨entries, hperm, rfl⟩ := exists_perm_map h
  have hentries : (entries : Multiset (Σ _ : GoString, β)) = m.entries := by
    rw [Multiset.coe_eq_coe.mpr hperm, Table.coe_filterMap_lookup m (order.coe_list m.keys)]
  have hkeys : (entries.map Sigma.fst : Multiset GoString) = m.keys.val := by
    rw [← Multiset.map_coe, hentries]
    rfl
  have hnodup : (entries.map Sigma.fst).Nodup := by
    rw [← Multiset.coe_nodup, hkeys]
    exact m.keys.nodup
  let order' : MapOrder := {
    list := fun keys => if keys = m.keys then entries.map Sigma.fst else order.list keys
    nodup := by
      intro keys
      split_ifs
      · exact hnodup
      · exact order.nodup keys
    mem_list := by
      intro keys k
      split_ifs with heq
      · rw [heq, ← Multiset.mem_coe, hkeys]
        rfl
      · exact order.mem_list keys k }
  refine ⟨order', ?_⟩
  have hlist : order'.list m.keys = entries.map Sigma.fst := if_pos rfl
  rw [GoMap.values, hlist, List.filterMap_map]
  refine (List.filterMap_congr fun e he => ?_).trans (congrFun List.filterMap_eq_map _)
  rw [← Multiset.mem_coe, hentries] at he
  exact GoMap.mem_entries.mp he

/-- Some iteration finds the values that satisfy a condition in a given order. -/
theorem GoMap.exists_filter_values_eq {β : Type} {m : GoMap β} {order : MapOrder}
    {want : β → Bool} {vs : List β} (h : vs.Perm ((m.values order).filter want)) :
    ∃ order' : MapOrder, (m.values order').filter want = vs := by
  have hall : (vs ++ (m.values order).filter (!want ·)).Perm (m.values order) :=
    (h.append_right _).trans (List.filter_append_perm want _)
  obtain ⟨order', horder'⟩ := exists_values_eq hall
  refine ⟨order', ?_⟩
  have hvs : ∀ v ∈ vs, want v := fun v hv => (List.mem_filter.mp (h.mem_iff.mp hv)).2
  rw [horder', List.filter_append, List.filter_eq_self.mpr hvs, List.filter_filter]
  simp

/-! ## Decimal numbers -/

/-- `strconv.Itoa` of a number that is not negative. -/
def itoa (n : ℕ) : GoString := (Nat.toDigits 10 n).map ascii

theorem toNat_ascii {c : Char} (h : c.toNat < 128) : (ascii c).toNat = c.toNat :=
  Nat.mod_eq_of_lt (h.trans (by decide))

theorem ascii_inj {c d : Char} (hc : c.toNat < 128) (hd : d.toNat < 128) (h : ascii c = ascii d) :
    c = d := by
  have hnat : (ascii c).toNat = (ascii d).toNat := congrArg UInt8.toNat h
  rw [toNat_ascii hc, toNat_ascii hd] at hnat
  exact Char.toNat_inj.mp hnat

theorem digit_of_mem_toDigits {n : ℕ} {c : Char} (h : c ∈ Nat.toDigits 10 n) :
    48 ≤ c.toNat ∧ c.toNat ≤ 57 := by
  have hdigit := Nat.isDigit_of_mem_toDigits (by decide) (by decide) h
  simpa [Char.isDigit, UInt32.le_iff_toNat_le] using hdigit

theorem map_itoa (n : ℕ) : (itoa n).map (fun b => Char.ofNat b.toNat) = Nat.toDigits 10 n := by
  rw [itoa, List.map_map]
  refine (List.map_congr_left fun c hc => ?_).trans (List.map_id _)
  change Char.ofNat (ascii c).toNat = c
  rw [toNat_ascii ((digit_of_mem_toDigits hc).2.trans_lt (by decide)), Char.ofNat_toNat]

def atoi (digits : GoString) : ℕ :=
  Nat.ofDigitChars 10 (digits.map fun b => Char.ofNat b.toNat) 0

theorem atoi_itoa (n : ℕ) : atoi (itoa n) = n := by
  rw [atoi, map_itoa, Nat.ofDigitChars_ten_toDigits]

theorem itoa_injective : Function.Injective itoa := Function.LeftInverse.injective atoi_itoa

theorem notMem_itoa {d : Char} (hd : d.toNat < 48 ∨ 57 < d.toNat) (hd' : d.toNat < 128) (n : ℕ) :
    ascii d ∉ itoa n := by
  intro h
  obtain ⟨c, hc, hcd⟩ := List.mem_map.mp h
  have hdigit := digit_of_mem_toDigits hc
  rw [ascii_inj (hdigit.2.trans_lt (by decide)) hd' hcd] at hdigit
  omega

/-! ## Checks in sequence -/

section Checks

variable {ε : Type}

theorem sequence_ok_iff {x y : Except ε Unit} :
    (x >>= fun _ => y) = .ok () ↔ x = .ok () ∧ y = .ok () := by
  cases x with
  | error e => simp [bind, Except.bind]
  | ok u => simp [bind, Except.bind]

theorem guarded_ok_iff {c : Prop} [Decidable c] {e : ε} {x y : Except ε Unit} :
    (if c then (throw e : Except ε Unit) >>= fun _ => x else y) = .ok () ↔
      ¬ c ∧ y = .ok () := by
  by_cases h : c
  · simp [h, throw, throwThe, MonadExceptOf.throw, bind, Except.bind]
  · simp [h]

end Checks

end WorkspaceAuthz.Go
