import WorkspaceAuthz.Service.Export
import WorkspaceAuthz.Service.PostgresSeats

/-! # The order of listings

Postgres orders tuples by their columns, the memory store by the keys that it keeps
them under. In a key every field is preceded by its length, so that a short field
may come before a long one that it should follow.
-/
namespace WorkspaceAuthz.Service
open Go Authz

namespace Postgres

def SubjectKind.name : SubjectKind → GoString
  | .user => str "user"
  | .set => str "set"
  | .wildcard => str "wildcard"

def SubjectCols.columns (c : SubjectCols) : List GoString :=
  [c.kind.name, c.userID, c.ns, c.objectID, c.relation]

end Postgres

open Postgres

def tupleFields (t : Tuple) : List GoString := [t.ns, t.objectID, t.relation]

def readTuplesOrder (t : Tuple) : List GoString := tupleFields t ++ (tupleCols t).columns

def tupleAtOrder (ta : TupleAt) : List GoString := ta.tenantID :: tupleFields ta.tuple

/-- The first fields that differ are in the same order if their lengths come first; `rest` is
asked for if all fields are the same. -/
def FieldsAgree (rest : Prop) : List GoString → List GoString → Prop
  | x :: xs, y :: ys => if x = y then FieldsAgree rest xs ys else part x < part y → x < y
  | _, _ => rest

/-- The keys of two tuples are ordered like their columns. -/
def KeysAgree (a b : Tuple) : Prop :=
  FieldsAgree (part (subjectKey a.subject) ≤ part (subjectKey b.subject) →
    (tupleCols a).columns ≤ (tupleCols b).columns) (tupleFields a) (tupleFields b)

/-! ## Keys and columns -/

/-- Lists that differ before either ends are compared by what comes before their ends. -/
theorem append_lt_append_iff {l₁ l₂ r₁ r₂ : GoString} (h₁ : ¬ l₁ <+: l₂) (h₂ : ¬ l₂ <+: l₁) :
    l₁ ++ r₁ < l₂ ++ r₂ ↔ l₁ < l₂ := by
  induction l₁ generalizing l₂ with
  | nil => exact absurd List.nil_prefix h₁
  | cons a l₁ ih =>
    cases l₂ with
    | nil => exact absurd List.nil_prefix h₂
    | cons b l₂ =>
      simp only [List.cons_append, List.cons_lt_cons_iff]
      by_cases hab : a = b
      · subst hab
        simp only [List.cons_prefix_cons, true_and] at h₁ h₂
        rw [ih h₁ h₂]
      · simp [hab]

theorem not_part_prefix_part {x y : GoString} (h : x ≠ y) : ¬ part x <+: part y := by
  rintro ⟨r, hr⟩
  rw [← List.append_nil (part y)] at hr
  exact h (part_append_inj hr).1

theorem part_append_le_iff {x y r r' : GoString} (h : x ≠ y) :
    part x ++ r ≤ part y ++ r' ↔ part x < part y := by
  have hne : part x ++ r ≠ part y ++ r' := fun heq => h (part_append_inj heq).1
  rw [List.le_iff_lt_or_eq, or_iff_left hne,
    append_lt_append_iff (not_part_prefix_part h) (not_part_prefix_part h.symm)]

theorem append_le_append_iff {l r r' : GoString} : l ++ r ≤ l ++ r' ↔ r ≤ r' := by
  induction l with
  | nil => rfl
  | cons a l ih => simp [List.cons_le_cons_iff, ih]

theorem fieldsAgree_iff {rest : Prop} {xs ys cs cs' : List GoString} {r r' : GoString}
    (hlength : xs.length = ys.length) (hrest : rest ↔ (r ≤ r' → cs ≤ cs')) :
    FieldsAgree rest xs ys ↔
      ((xs.map part).flatten ++ r ≤ (ys.map part).flatten ++ r' → xs ++ cs ≤ ys ++ cs') := by
  induction xs generalizing ys with
  | nil =>
    rw [List.eq_nil_of_length_eq_zero hlength.symm]
    exact hrest
  | cons x xs ih =>
    cases ys with
    | nil => cases hlength
    | cons y ys =>
      simp only [FieldsAgree, List.map_cons, List.flatten_cons, List.append_assoc, List.cons_append]
      split_ifs with hxy
      · subst hxy
        rw [append_le_append_iff, ih (Nat.succ.inj hlength)]
        simp [List.cons_le_cons_iff, List.lt_irrefl]
      · rw [part_append_le_iff hxy, List.cons_le_cons_iff]
        simp [hxy]

theorem tupleKey_eq (t : Tuple) :
    tupleKey t = ((tupleFields t).map part).flatten ++ part (subjectKey t.subject) := by
  simp [tupleKey, tupleFields]

theorem keysAgree_iff {a b : Tuple} :
    KeysAgree a b ↔ (tupleKey a ≤ tupleKey b → readTuplesOrder a ≤ readTuplesOrder b) := by
  rw [tupleKey_eq, tupleKey_eq]
  exact fieldsAgree_iff rfl Iff.rfl

theorem fieldsAgree_true_iff {a b : Tuple} :
    FieldsAgree True (tupleFields a) (tupleFields b) ↔
      (tupleKey a ≤ tupleKey b → tupleFields a ≤ tupleFields b) := by
  have h : FieldsAgree True (tupleFields a) (tupleFields b) ↔
      (tupleKey a ≤ tupleKey b → tupleFields a ++ [] ≤ tupleFields b ++ []) := by
    rw [tupleKey_eq, tupleKey_eq]
    exact fieldsAgree_iff rfl (by simp)
  rwa [List.append_nil, List.append_nil] at h

/-! ## Sorted lists -/

/-- A list that is sorted in one way is sorted in another if what precedes in the first precedes
in the second. -/
theorem pairwise_iff_of_pairwise {α β : Type} [LT β] [Std.Asymm (α := β) (· < ·)]
    {r : α → α → Prop} {cols : α → List β} {l : List α} (hsorted : l.Pairwise r)
    (htie : ∀ a b, r a b → r b a → cols a = cols b) :
    l.Pairwise (fun a b => cols a ≤ cols b) ↔ ∀ a ∈ l, ∀ b ∈ l, r a b → cols a ≤ cols b := by
  constructor
  · intro h a ha b hb
    apply List.Pairwise.forall_of_forall_of_flip (R := fun a b => r a b → cols a ≤ cols b)
      _ _ _ ha hb
    · intro a _ _
      exact List.le_refl _
    · apply h.imp
      intro a b hab _
      exact hab
    · apply hsorted.imp
      intro a b hab hba
      rw [htie a b hab hba]
      exact List.le_refl _
  · intro h
    exact hsorted.imp_of_mem fun ha hb hab => h _ ha _ hb hab

theorem subjectKey_eq_iff_tupleCols {a b : Tuple} :
    subjectKey a.subject = subjectKey b.subject ↔ tupleCols a = tupleCols b := by
  rw [subjectKey_eq_iff]
  unfold tupleCols
  cases a.subject.wildcard <;> cases b.subject.wildcard <;>
    rcases a.subject.set with _ | ⟨_, _, _⟩ <;> rcases b.subject.set with _ | ⟨_, _, _⟩ <;>
    simp

theorem readTuplesOrder_eq {a b : Tuple} (h : tupleKey a = tupleKey b) :
    readTuplesOrder a = readTuplesOrder b := by
  obtain ⟨hns, hobject, hrelation, hsubject⟩ := tupleKey_inj h
  rw [readTuplesOrder, readTuplesOrder, subjectKey_eq_iff_tupleCols.mp hsubject]
  simp only [tupleFields, hns, hobject, hrelation]

/-! ## Listings -/

section Listings

variable {s : Store} {order : MapOrder} {now : Time} {projectID tenantID : GoString}

theorem mem_readTuples {f : TupleFilter} {t : Tuple} :
    t ∈ s.readTuples order now projectID tenantID f ↔
      s.Stored projectID tenantID t ∧ t.activeAt now ∧ f.admits t := by
  rw [Store.readTuples, List.mem_insertionSort, List.mem_filter, GoMap.mem_values,
    Bool.and_eq_true]
  apply and_congr_left'
  constructor
  · rintro ⟨k, hget⟩
    have hkey := s.tuples_keyed (scope projectID tenantID) k t hget
    rw [← hkey] at hget
    exact hget
  · intro hget
    exact ⟨tupleKey t, hget⟩

theorem pairwise_readTuples (f : TupleFilter) :
    (s.readTuples order now projectID tenantID f).Pairwise fun a b => tupleKey a ≤ tupleKey b := by
  have htotal : Std.Total fun a b : Tuple => tupleKey a ≤ tupleKey b :=
    ⟨fun a b => List.le_total _ _⟩
  have htrans : IsTrans Tuple fun a b => tupleKey a ≤ tupleKey b :=
    ⟨fun _ _ _ hab hbc => List.le_trans hab hbc⟩
  exact List.pairwise_insertionSort _ _

theorem mem_tuplesInProject {cond : Tuple → Bool} {ta : TupleAt} :
    ta ∈ s.tuplesInProject order projectID cond ↔ ∃ tenantID, s.Stored projectID tenantID ta.tuple ∧
      cond ta.tuple ∧ ta.tenantID = mislabel projectID ++ tenantID := by
  rw [← Multiset.mem_coe, coe_tuplesInProject, Multiset.mem_map]
  constructor
  · rintro ⟨ta, hta, rfl⟩
    obtain ⟨hstored, hcond⟩ := Multiset.mem_filter.mp hta
    exact ⟨ta.tenantID, mem_tuplesOf.mp hstored, hcond, rfl⟩
  · rintro ⟨tenantID, hstored, hcond, htenant⟩
    refine ⟨⟨tenantID, ta.tuple⟩, Multiset.mem_filter.mpr ⟨mem_tuplesOf.mpr hstored, hcond⟩, ?_⟩
    rw [← htenant]

def precedes (a b : TupleAt) : Prop :=
  a.tenantID < b.tenantID ∨ (a.tenantID = b.tenantID ∧ tupleKey a.tuple ≤ tupleKey b.tuple)

instance : DecidableRel precedes := fun a b => by
  unfold precedes
  infer_instance

theorem precedes_total (a b : TupleAt) : precedes a b ∨ precedes b a := by
  obtain hle | hle := List.le_total a.tenantID b.tenantID <;>
    obtain hlt | heq := List.le_iff_lt_or_eq.mp hle
  · exact .inl (.inl hlt)
  · apply (List.le_total (tupleKey a.tuple) (tupleKey b.tuple)).imp
    · exact fun hkey => .inr ⟨heq, hkey⟩
    · exact fun hkey => .inr ⟨heq.symm, hkey⟩
  · exact .inr (.inl hlt)
  · apply (List.le_total (tupleKey a.tuple) (tupleKey b.tuple)).imp
    · exact fun hkey => .inr ⟨heq.symm, hkey⟩
    · exact fun hkey => .inr ⟨heq, hkey⟩

theorem precedes_trans {a b c : TupleAt} (hab : precedes a b) (hbc : precedes b c) :
    precedes a c := by
  obtain hab | ⟨hab, hkey⟩ := hab <;> obtain hbc | ⟨hbc, hkey'⟩ := hbc
  · exact .inl (List.lt_trans hab hbc)
  · exact .inl (hbc ▸ hab)
  · exact .inl (hab ▸ hbc)
  · exact .inr ⟨hab.trans hbc, List.le_trans hkey hkey'⟩

theorem pairwise_tuplesInProject (cond : Tuple → Bool) :
    (s.tuplesInProject order projectID cond).Pairwise precedes := by
  have htotal : Std.Total precedes := ⟨precedes_total⟩
  have htrans : IsTrans TupleAt precedes := ⟨fun _ _ _ => precedes_trans⟩
  exact List.pairwise_insertionSort precedes _

theorem readTuples_ordered_iff {f : TupleFilter} :
    (s.readTuples order now projectID tenantID f).Pairwise
        (fun a b => readTuplesOrder a ≤ readTuplesOrder b) ↔
      ∀ a b, s.Stored projectID tenantID a ∧ a.activeAt now ∧ f.admits a →
        s.Stored projectID tenantID b ∧ b.activeAt now ∧ f.admits b → KeysAgree a b := by
  rw [pairwise_iff_of_pairwise (pairwise_readTuples f)
    fun a b hab hba => readTuplesOrder_eq (List.le_antisymm hab hba)]
  simp only [mem_readTuples, keysAgree_iff]
  exact ⟨fun h a b ha hb => h a ha b hb, fun h a ha b hb => h a b ha hb⟩

theorem tupleAtOrder_le_iff {a b : TupleAt} :
    (precedes a b → tupleAtOrder a ≤ tupleAtOrder b) ↔
      (a.tenantID = b.tenantID → FieldsAgree True (tupleFields a.tuple) (tupleFields b.tuple)) := by
  rw [fieldsAgree_true_iff, tupleAtOrder, tupleAtOrder, List.cons_le_cons_iff, precedes]
  constructor
  · intro h htenant hkey
    obtain hlt | ⟨-, hle⟩ := h (.inr ⟨htenant, hkey⟩)
    · exact absurd hlt (htenant ▸ List.lt_irrefl _)
    · exact hle
  · rintro h (hlt | ⟨htenant, hkey⟩)
    · exact .inl hlt
    · exact .inr ⟨htenant, h htenant hkey⟩

theorem tuplesInProject_ordered_iff {cond : Tuple → Bool} :
    (s.tuplesInProject order projectID cond).Pairwise
        (fun a b => tupleAtOrder a ≤ tupleAtOrder b) ↔
      ∀ tenantID a b, s.Stored projectID tenantID a → s.Stored projectID tenantID b →
        cond a → cond b → FieldsAgree True (tupleFields a) (tupleFields b) := by
  have htie : ∀ a b, precedes a b → precedes b a → tupleAtOrder a = tupleAtOrder b := by
    rintro a b (hlt | ⟨htenant, hkey⟩) (hlt' | ⟨htenant', hkey'⟩)
    · exact absurd hlt' (Std.Asymm.asymm _ _ hlt)
    · exact absurd hlt (htenant' ▸ List.lt_irrefl _)
    · exact absurd hlt' (htenant ▸ List.lt_irrefl _)
    · obtain ⟨hns, hobject, hrelation, -⟩ := tupleKey_inj (List.le_antisymm hkey hkey')
      simp only [tupleAtOrder, tupleFields, htenant, hns, hobject, hrelation]
  rw [pairwise_iff_of_pairwise (pairwise_tuplesInProject cond) htie]
  simp only [tupleAtOrder_le_iff, mem_tuplesInProject]
  constructor
  · intro h tenantID a b ha hb hconda hcondb
    exact h ⟨mislabel projectID ++ tenantID, a⟩ ⟨tenantID, ha, hconda, rfl⟩
      ⟨mislabel projectID ++ tenantID, b⟩ ⟨tenantID, hb, hcondb, rfl⟩ rfl
  · rintro h a ⟨tenantID, ha, hconda, htenant⟩ b ⟨tenantID', hb, hcondb, htenant'⟩ heq
    rw [htenant, htenant'] at heq
    cases List.append_cancel_left heq
    exact h tenantID _ _ ha hb hconda hcondb

end Listings

/-- The listings are in the order of the columns if and only if, of the tuples listed, the first
fields that differ are in the same order with and without their lengths. -/
theorem listings_ordered_iff (s : Store) (order : MapOrder) (now : Time) (projectID : GoString) :
    (∀ tenantID f, (s.readTuples order now projectID tenantID f).Pairwise
        (fun a b => readTuplesOrder a ≤ readTuplesOrder b) ↔
      ∀ a b, s.Stored projectID tenantID a ∧ a.activeAt now ∧ f.admits a →
        s.Stored projectID tenantID b ∧ b.activeAt now ∧ f.admits b → KeysAgree a b) ∧
    (∀ userID, (s.listSubjectTuplesInProject order now projectID userID).Pairwise
        (fun a b => tupleAtOrder a ≤ tupleAtOrder b) ↔
      ∀ tenantID a b, s.Stored projectID tenantID a → s.Stored projectID tenantID b →
        Store.isConcrete userID a ∧ a.activeAt now → Store.isConcrete userID b ∧ b.activeAt now →
          FieldsAgree True (tupleFields a) (tupleFields b)) ∧
    ∀ sets, (s.listTuplesForSubjectSetsInProject order now projectID sets).Pairwise
        (fun a b => tupleAtOrder a ≤ tupleAtOrder b) ↔
      ∀ tenantID a b, s.Stored projectID tenantID a → s.Stored projectID tenantID b →
        a.subject.set.any (· ∈ sets) ∧ a.activeAt now →
        b.subject.set.any (· ∈ sets) ∧ b.activeAt now →
          FieldsAgree True (tupleFields a) (tupleFields b) := by
  refine ⟨fun tenantID f => readTuples_ordered_iff, fun userID => ?_, fun sets => ?_⟩
  · simp only [Store.listSubjectTuplesInProject, tuplesInProject_ordered_iff, Bool.and_eq_true]
  · by_cases hsets : sets = []
    · simp [Store.listTuplesForSubjectSetsInProject, hsets]
    · rw [Store.listTuplesForSubjectSetsInProject, if_neg hsets, tuplesInProject_ordered_iff]
      simp only [Bool.and_eq_true]

namespace ShortIDs

/-- Of the two objects, the one with the shorter id has the greater one. -/
def store : Store := Store.empty.writeTuples "p" "t"
  [userTuple "document" "aa" "viewer" "ann", userTuple "document" "b" "viewer" "ann"] []

end ShortIDs

open ShortIDs in
theorem short_ids_come_first :
    (store.readTuples .ascending 0 "p" "t" {}).map (·.objectID) = [str "b", str "aa"] ∧
      ¬ (store.readTuples .ascending 0 "p" "t" {}).Pairwise
        (fun a b => readTuplesOrder a ≤ readTuplesOrder b) ∧
      ¬ (store.listSubjectTuplesInProject .ascending 0 "p" "ann").Pairwise
        (fun a b => tupleAtOrder a ≤ tupleAtOrder b) := by
  decide +kernel

end WorkspaceAuthz.Service
