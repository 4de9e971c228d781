import WorkspaceAuthz.Authz.SetChecks
import WorkspaceAuthz.Authz.Silence

/-! # What an expanded tree denotes

A tree stands for a set of users by its own algebra, once it is known which of the
usersets listed in its leaves a user is in. The tree of a node denotes the users that
the node grants: without exclusions even where cycles are cut off, since a shortest
derivation never comes back to a node; and with exclusions where nothing is cut off.
-/
namespace WorkspaceAuthz.Authz
open Go RecursiveFormula

/-! ## The algebra of trees -/

section Algebra

variable (H : SubjectSet → Prop) (u : GoString)

mutual

/-- The user is in the set that the tree denotes, where `H` are the usersets that the user
is in. -/
def Tree.Contains : Tree → Prop
  | ⟨_, c :: cs, _, _, _, _, _⟩ => ContainsSome (c :: cs)
  | ⟨_, [], c :: cs, _, _, _, _⟩ => ContainsAll (c :: cs)
  | ⟨_, [], [], some (inc, exc), _, _, _⟩ => Contains inc ∧ ¬ Contains exc
  | ⟨_, [], [], none, users, sets, wildcard⟩ => wildcard = true ∨ u ∈ users ∨ ∃ y ∈ sets, H y

def Tree.ContainsSome : List Tree → Prop
  | [] => False
  | t :: ts => Contains t ∨ ContainsSome ts

def Tree.ContainsAll : List Tree → Prop
  | [] => True
  | t :: ts => Contains t ∧ ContainsAll ts

end

/-- A stored subject names the user, the public, or a userset that the user is in. -/
def Subject.Names (s : Subject) : Prop :=
  match s.leafSet with
  | some y => H y
  | none => s.wildcard = true ∨ s.leafUser = some u

end Algebra

section Algebra

variable {H : SubjectSet → Prop} {u : GoString} {x : SubjectSet}

theorem Subject.leafSet_of_leafUser {s : Subject} {v : GoString} (h : s.leafUser = some v) :
    s.leafSet = none := by
  unfold leafUser at h
  split_ifs at h with hs
  unfold leafSet
  cases hset : s.set <;> simp_all

namespace Tree

theorem containsSome_iff {ts : List Tree} : ContainsSome H u ts ↔ ∃ t ∈ ts, t.Contains H u := by
  induction ts with
  | nil => simp [ContainsSome]
  | cons t ts ih => rw [ContainsSome, ih, List.exists_mem_cons_iff]

theorem containsAll_iff {ts : List Tree} : ContainsAll H u ts ↔ ∀ t ∈ ts, t.Contains H u := by
  induction ts with
  | nil => simp [ContainsAll]
  | cons t ts ih => rw [ContainsAll, ih, List.forall_mem_cons]

theorem contains_bare : ¬ ({ expanded := x } : Tree).Contains H u := by
  simp [Contains]

theorem contains_union {ts : List Tree} :
    ({ expanded := x, union := ts } : Tree).Contains H u ↔ ∃ t ∈ ts, t.Contains H u := by
  cases ts with
  | nil => simp [Contains]
  | cons t ts => rw [Contains, containsSome_iff]

theorem contains_intersection {ts : List Tree} (hts : ts ≠ []) :
    ({ expanded := x, intersection := ts } : Tree).Contains H u ↔ ∀ t ∈ ts, t.Contains H u := by
  cases ts with
  | nil => exact absurd rfl hts
  | cons t ts => rw [Contains, containsAll_iff]

theorem contains_exclude {t t' : Tree} :
    ({ expanded := x, exclude := some (t, t') } : Tree).Contains H u ↔
      t.Contains H u ∧ ¬ t'.Contains H u := by
  rw [Contains]

theorem contains_leaf {ss : List Subject} :
    (ss.foldl addSubject { expanded := x }).Contains H u ↔ ∃ s ∈ ss, s.Names H u := by
  simp only [foldl_addSubject, Contains, List.nil_append, Bool.false_or, List.any_eq_true,
    List.mem_filterMap, Subject.Names]
  constructor
  · rintro (⟨s, hs, hw⟩ | ⟨s, hs, huser⟩ | ⟨y, ⟨s, hs, hset⟩, hy⟩)
    · refine ⟨s, hs, ?_⟩
      rw [Subject.leafSet, if_pos hw]
      exact .inl hw
    · refine ⟨s, hs, ?_⟩
      rw [Subject.leafSet_of_leafUser huser]
      exact .inr huser
    · refine ⟨s, hs, ?_⟩
      rw [hset]
      exact hy
  · rintro ⟨s, hs, hnames⟩
    cases hset : s.leafSet with
    | some y =>
      rw [hset] at hnames
      exact .inr (.inr ⟨y, ⟨s, hs, hset⟩, hnames⟩)
    | none =>
      rw [hset] at hnames
      exact hnames.imp (fun hw => ⟨s, hs, hw⟩) fun huser => .inl ⟨s, hs, huser⟩

end Tree

end Algebra

theorem exists_of_forall₂_left {α β : Type*} {R : α → β → Prop} {as : List α} {bs : List β}
    (h : List.Forall₂ R as bs) {a : α} (ha : a ∈ as) : ∃ b ∈ bs, R a b := by
  induction h with
  | nil => cases ha
  | @cons a' b as bs hab _ ih =>
    rcases List.mem_cons.mp ha with rfl | ha
    · exact ⟨b, List.mem_cons_self, hab⟩
    · obtain ⟨b', hb', h⟩ := ih ha
      exact ⟨b', List.mem_cons_of_mem b hb', h⟩

theorem exists_of_forall₂_right {α β : Type*} {R : α → β → Prop} {as : List α} {bs : List β}
    (h : List.Forall₂ R as bs) {b : β} (hb : b ∈ bs) : ∃ a ∈ as, R a b :=
  exists_of_forall₂_left (R := flip R) h.flip hb

theorem ne_nil_of_forall₂ {α β : Type*} {R : α → β → Prop} {as : List α} {bs : List β}
    (h : List.Forall₂ R as bs) (has : as ≠ []) : bs ≠ [] := by
  rintro rfl
  exact has (List.forall₂_nil_right_iff.mp h)

/-! ## What is stored -/

def Unconditional (reader : Reader) : Prop :=
  ∀ n ss, reader n = .ok ss → ∀ s ∈ ss, s.condition = none

section Stored

variable {m : Model} {reader : Reader} {cc : Context} {u : GoString} {s : Subject}

theorem applies_of_unconditional (hcond : s.condition = none) :
    (userRequest m reader cc u).applies s = true := by
  rw [Request.applies, hcond]
  rfl

theorem names_of_derives (hs : s.Valid) (hcond : s.condition = none) {k : ℕ}
    (h : DerivesIn (userRequest m reader cc u).system k true
      ((userRequest m reader cc u).subjectFormula s)) :
    s.Names (fun y => ∃ j < k, (userRequest m reader cc u).NodeDerivesIn j true y) u := by
  rw [subjectFormula_leaf hs (by rw [hcond]; rfl)] at h
  unfold Subject.Names
  cases hset : s.leafSet with
  | some y =>
    rw [hset] at h
    obtain ⟨j, rfl, hj⟩ := derivesIn_ref.mp h
    exact ⟨j, Nat.lt_succ_self j, Request.nodeDerivesIn_iff.mpr hj⟩
  | none =>
    rw [hset] at h
    have htrue := derivesIn_const.mp h
    simpa using htrue.symm

theorem derives_of_names (hs : s.Valid) (hcond : s.condition = none)
    (h : s.Names (userRequest m reader cc u).Holds u) :
    Derives (userRequest m reader cc u).system true
      ((userRequest m reader cc u).subjectFormula s) := by
  rw [subjectFormula_leaf hs (by rw [hcond]; rfl)]
  unfold Subject.Names at h
  cases hset : s.leafSet with
  | some y =>
    rw [hset] at h
    exact .ref (Request.holds_iff.mp h)
  | none =>
    rw [hset] at h
    have htrue : (s.wildcard || decide (s.leafUser = some u)) = true := by simpa using h
    simp only [htrue]
    exact .const true

end Stored

theorem Subject.Names.mono {H H' : SubjectSet → Prop} {u : GoString} {s : Subject}
    (h : s.Names H u) (hH : ∀ y, s.leafSet = some y → H y → H' y) : s.Names H' u := by
  unfold Subject.Names at h ⊢
  cases hset : s.leafSet with
  | some y =>
    rw [hset] at h
    exact hH y hset h
  | none =>
    rw [hset] at h
    exact h

section Trees

variable {m : Model} {reader : Reader} {cc : Context} {u : GoString} {x : SubjectSet}
  {visit : SubjectSet → Tree → Prop} {rw : Rewrite} {t : Tree}

/-! ## Whom a tree contains -/

/-- Without exclusions, whoever a tree contains is granted the rewrite, even if branches are
missing. -/
theorem derives_of_contains (hwf : WellFormed reader) (hcond : Unconditional reader)
    (hvisit : ∀ y t, visit y t → t.Contains (userRequest m reader cc u).Holds u →
      (userRequest m reader cc u).Holds y)
    (hrw : rw.ExclusionFree) (h : Unfolds reader visit x rw t)
    (hc : t.Contains (userRequest m reader cc u).Holds u) :
    Derives (userRequest m reader cc u).system true
      ((userRequest m reader cc u).rewriteFormula x rw) := by
  induction rw using Rewrite.byView generalizing t with
  | this rw hv =>
    have hview := h.of_view
    rw [hv] at hview
    obtain ⟨ss, hread, rfl⟩ := hview
    obtain ⟨s, hs, hnames⟩ := Tree.contains_leaf.mp hc
    rw [Request.rewriteFormula_eq, hv]
    change Derives _ true (Request.readFormula _ _ _)
    rw [Request.readFormula_ok hread]
    exact .read (.any_true (List.mem_map_of_mem hs)
      (derives_of_names (hwf _ _ hread s hs) (hcond _ _ hread s hs) hnames))
  | union rw cs hv ih =>
    have hview := h.of_view
    rw [hv] at hview
    obtain ⟨ts, hts, rfl⟩ := hview
    obtain ⟨t, ht, hc⟩ := Tree.contains_union.mp hc
    obtain ⟨c, hc', hct⟩ := exists_of_forall₂_right hts ht
    exact verdicts_union hv ⟨c, hc', ih c hc' (hrw.of_union hv c hc') hct hc⟩
  | intersection rw cs hv ih =>
    have hview := h.of_view
    rw [hv] at hview
    obtain ⟨ts, hts, rfl⟩ := hview
    have hne := ne_nil_of_forall₂ hts (Rewrite.view_intersection_ne_nil hv)
    refine verdicts_intersection hv fun c hc' => ?_
    obtain ⟨t, ht, hct⟩ := exists_of_forall₂_left hts hc'
    exact ih c hc' (hrw.of_intersection hv c hc') hct
      ((Tree.contains_intersection hne).mp hc t ht)
  | exclusion rw inc exc hv ihInc ihExc => exact absurd hv hrw.not_exclusion
  | computed rw rel hv =>
    have hview := h.of_view
    rw [hv] at hview
    exact verdicts_computed hv (Request.holds_iff.mp (hvisit _ t hview hc))
  | tupleToUserset rw ts rel hv =>
    have hview := h.of_view
    rw [hv] at hview
    obtain ⟨ss, subs, hread, hsubs, rfl⟩ := hview
    obtain ⟨t, ht, hc⟩ := Tree.contains_union.mp hc
    obtain ⟨y, hy, hyt⟩ := exists_of_forall₂_right hsubs ht
    obtain ⟨s, hs, hpoints⟩ := List.mem_filterMap.mp hy
    obtain ⟨k, hk⟩ := Request.holds_iff.mp (hvisit y t hyt hc)
    rw [Request.rewriteFormula_eq, hv]
    refine ⟨k + 1, Request.derivesIn_readFormula.mpr ⟨ss, hread, derivesIn_any_true.mpr
      ⟨_, List.mem_map_of_mem hs, Request.derivesIn_pointerFormula_true.mpr
        ⟨applies_of_unconditional (hcond _ _ hread s hs), y, hpoints, .ref hk⟩⟩⟩⟩

/-- Where nothing is missing, a verdict on the rewrite is one on the tree. -/
theorem contains_iff_of_derivesIn (hwf : WellFormed reader) (hcond : Unconditional reader)
    (hvisit : ∀ y t k v, visit y t → DerivesIn (userRequest m reader cc u).system k v
      ((userRequest m reader cc u).system y) →
      (t.Contains (userRequest m reader cc u).Holds u ↔ v = true))
    (h : Unfolds reader visit x rw t) {k : ℕ} {v : Bool}
    (hd : DerivesIn (userRequest m reader cc u).system k v
      ((userRequest m reader cc u).rewriteFormula x rw)) :
    t.Contains (userRequest m reader cc u).Holds u ↔ v = true := by
  induction rw using Rewrite.byView generalizing t v with
  | this rw hv =>
    have hview := h.of_view
    rw [hv] at hview
    obtain ⟨ss, hread, rfl⟩ := hview
    rw [Request.rewriteFormula_eq, hv] at hd
    obtain ⟨ss', hread', hd⟩ := Request.derivesIn_readFormula.mp hd
    cases hread.symm.trans hread'
    rw [Tree.contains_leaf]
    cases v with
    | true =>
      obtain ⟨f, hf, hd⟩ := derivesIn_any_true.mp hd
      obtain ⟨s, hs, rfl⟩ := List.mem_map.mp hf
      have hnames := names_of_derives (hwf _ _ hread s hs) (hcond _ _ hread s hs) hd
      exact iff_of_true ⟨s, hs, hnames.mono fun y _ ⟨j, _, hj⟩ => ⟨j, hj⟩⟩ rfl
    | false =>
      refine iff_of_false ?_ Bool.false_ne_true
      rintro ⟨s, hs, hnames⟩
      have htrue := derives_of_names (hwf _ _ hread s hs) (hcond _ _ hread s hs) hnames
      cases htrue.unique (derivesIn_any_false.mp hd _ (List.mem_map_of_mem hs)).derives
  | union rw cs hv ih =>
    have hview := h.of_view
    rw [hv] at hview
    obtain ⟨ts, hts, rfl⟩ := hview
    rw [Request.rewriteFormula_eq, hv] at hd
    rw [Tree.contains_union]
    cases v with
    | true =>
      obtain ⟨f, hf, hd⟩ := derivesIn_any_true.mp hd
      obtain ⟨c, hc, rfl⟩ := List.mem_map.mp hf
      obtain ⟨t, ht, hct⟩ := exists_of_forall₂_left hts hc
      exact iff_of_true ⟨t, ht, (ih c hc hct hd).mpr rfl⟩ rfl
    | false =>
      refine iff_of_false ?_ Bool.false_ne_true
      rintro ⟨t, ht, hcontains⟩
      obtain ⟨c, hc, hct⟩ := exists_of_forall₂_right hts ht
      exact Bool.false_ne_true ((ih c hc hct
        (derivesIn_any_false.mp hd _ (List.mem_map_of_mem hc))).mp hcontains)
  | intersection rw cs hv ih =>
    have hview := h.of_view
    rw [hv] at hview
    obtain ⟨ts, hts, rfl⟩ := hview
    have hne := ne_nil_of_forall₂ hts (Rewrite.view_intersection_ne_nil hv)
    rw [Request.rewriteFormula_eq, hv, Request.viewFormula, if_neg (by simp)] at hd
    rw [Tree.contains_intersection hne]
    cases v with
    | true =>
      refine iff_of_true (fun t ht => ?_) rfl
      obtain ⟨c, hc, hct⟩ := exists_of_forall₂_right hts ht
      exact (ih c hc hct (derivesIn_all_true.mp hd _ (List.mem_map_of_mem hc))).mpr rfl
    | false =>
      refine iff_of_false (fun hall => ?_) Bool.false_ne_true
      obtain ⟨f, hf, hd⟩ := derivesIn_all_false.mp hd
      obtain ⟨c, hc, rfl⟩ := List.mem_map.mp hf
      obtain ⟨t, ht, hct⟩ := exists_of_forall₂_left hts hc
      exact Bool.false_ne_true ((ih c hc hct hd).mp (hall t ht))
  | exclusion rw inc exc hv ihInc ihExc =>
    have hview := h.of_view
    rw [hv] at hview
    obtain ⟨t₁, t₂, h₁, h₂, rfl⟩ := hview
    rw [Request.rewriteFormula_eq, hv, Request.viewFormula, if_neg (by simp)] at hd
    rw [Tree.contains_exclude]
    cases hd with
    | andBoth hinc hexc =>
      have hnot := (ihExc h₂ (derivesIn_not.mp hexc)).not.mpr Bool.false_ne_true
      exact iff_of_true ⟨(ihInc h₁ hinc).mpr rfl, hnot⟩ rfl
    | andLeft hinc =>
      refine iff_of_false (fun h => ?_) Bool.false_ne_true
      exact Bool.false_ne_true ((ihInc h₁ hinc).mp h.1)
    | andRight hexc =>
      refine iff_of_false (fun h => ?_) Bool.false_ne_true
      exact h.2 ((ihExc h₂ (derivesIn_not.mp hexc)).mpr rfl)
  | computed rw rel hv =>
    have hview := h.of_view
    rw [hv] at hview
    rw [Request.rewriteFormula_eq, hv] at hd
    obtain ⟨j, -, hj⟩ := derivesIn_ref.mp hd
    exact hvisit _ t j v hview hj
  | tupleToUserset rw ts rel hv =>
    have hview := h.of_view
    rw [hv] at hview
    obtain ⟨ss, subs, hread, hsubs, rfl⟩ := hview
    rw [Request.rewriteFormula_eq, hv] at hd
    obtain ⟨ss', hread', hd⟩ := Request.derivesIn_readFormula.mp hd
    cases hread.symm.trans hread'
    rw [Tree.contains_union]
    cases v with
    | true =>
      obtain ⟨f, hf, hd⟩ := derivesIn_any_true.mp hd
      obtain ⟨s, hs, rfl⟩ := List.mem_map.mp hf
      obtain ⟨-, y, hpoints, hd⟩ := Request.derivesIn_pointerFormula_true.mp hd
      obtain ⟨j, -, hj⟩ := derivesIn_ref.mp hd
      obtain ⟨t, ht, hyt⟩ := exists_of_forall₂_left hsubs (List.mem_filterMap.mpr ⟨s, hs, hpoints⟩)
      exact iff_of_true ⟨t, ht, (hvisit y t j true hyt hj).mpr rfl⟩ rfl
    | false =>
      refine iff_of_false ?_ Bool.false_ne_true
      rintro ⟨t, ht, hcontains⟩
      obtain ⟨y, hy, hyt⟩ := exists_of_forall₂_right hsubs ht
      obtain ⟨s, hs, hpoints⟩ := List.mem_filterMap.mp hy
      have hfalse := Request.derivesIn_pointerFormula_false.mp
        (derivesIn_any_false.mp hd _ (List.mem_map_of_mem hs))
        (applies_of_unconditional (hcond _ _ hread s hs)) y hpoints
      obtain ⟨j, -, hj⟩ := derivesIn_ref.mp hfalse
      exact Bool.false_ne_true ((hvisit y t j false hyt hj).mp hcontains)

/-! ## Who is in a tree

The same argument serves for every way to read a tree, `C`, that has the user in a leaf
that names them, and follows unions and intersections. -/

structure Admits (H : SubjectSet → Prop) (u : GoString) (C : Tree → Prop) : Prop where
  leaf : ∀ x (ss : List Subject), (∃ s ∈ ss, s.Names H u) →
    C (ss.foldl Tree.addSubject { expanded := x })
  union : ∀ x ts, ∀ t ∈ ts, C t → C { expanded := x, union := ts }
  intersection : ∀ x ts, ts ≠ [] → (∀ t ∈ ts, C t) → C { expanded := x, intersection := ts }

theorem admits_contains (H : SubjectSet → Prop) (u : GoString) : Admits H u (·.Contains H u) where
  leaf _ _ h := Tree.contains_leaf.mpr h
  union _ _ t ht h := Tree.contains_union.mpr ⟨t, ht, h⟩
  intersection _ _ hne h := (Tree.contains_intersection hne).mpr h

variable {H : SubjectSet → Prop} {C : Tree → Prop} {N : Set SubjectSet}

theorem admits_unfolds (hC : Admits H u C) (hwf : WellFormed reader) (hcond : Unconditional reader)
    {k : ℕ} (hH : ∀ y ∈ N, ∀ j < k, (userRequest m reader cc u).NodeDerivesIn j true y → H y)
    (hvisit : ∀ y ∈ N, ∀ t, ∀ j < k, visit y t → DerivesIn (userRequest m reader cc u).system j true
      ((userRequest m reader cc u).system y) → C t)
    (hrefs : ∀ p ∈ ((userRequest m reader cc u).rewriteFormula x rw).refs, p.2 ∈ N)
    (hrw : rw.ExclusionFree) (h : Unfolds reader visit x rw t)
    (hd : DerivesIn (userRequest m reader cc u).system k true
      ((userRequest m reader cc u).rewriteFormula x rw)) : C t := by
  induction rw using Rewrite.byView generalizing t with
  | this rw hv =>
    have hview := h.of_view
    rw [hv] at hview
    obtain ⟨ss, hread, rfl⟩ := hview
    rw [Request.rewriteFormula_eq, hv] at hd
    obtain ⟨ss', hread', hd⟩ := Request.derivesIn_readFormula.mp hd
    cases hread.symm.trans hread'
    obtain ⟨f, hf, hd⟩ := derivesIn_any_true.mp hd
    obtain ⟨s, hs, rfl⟩ := List.mem_map.mp hf
    have hnames := names_of_derives (hwf _ _ hread s hs) (hcond _ _ hread s hs) hd
    refine hC.leaf x ss ⟨s, hs, hnames.mono fun y hset ⟨j, hj, hy⟩ => hH y ?_ j hj hy⟩
    rw [Request.rewriteFormula_eq, hv] at hrefs
    refine hrefs (false, y) (Request.mem_refs_readFormula.mpr ⟨ss, hread, s, hs, ?_⟩)
    rw [subjectFormula_leaf (hwf _ _ hread s hs) (by rw [hcond _ _ hread s hs]; rfl), hset]
    exact Set.mem_singleton _
  | union rw cs hv ih =>
    have hview := h.of_view
    rw [hv] at hview
    obtain ⟨ts, hts, rfl⟩ := hview
    rw [Request.rewriteFormula_eq, hv] at hd hrefs
    obtain ⟨f, hf, hd⟩ := derivesIn_any_true.mp hd
    obtain ⟨c, hc, rfl⟩ := List.mem_map.mp hf
    obtain ⟨t, ht, hct⟩ := exists_of_forall₂_left hts hc
    refine hC.union x ts t ht (ih c hc (fun p hp => hrefs p ?_) (hrw.of_union hv c hc) hct hd)
    exact Formula.mem_refs_any.mpr ⟨_, hf, hp⟩
  | intersection rw cs hv ih =>
    have hview := h.of_view
    rw [hv] at hview
    obtain ⟨ts, hts, rfl⟩ := hview
    have hne := ne_nil_of_forall₂ hts (Rewrite.view_intersection_ne_nil hv)
    rw [Request.rewriteFormula_eq, hv, Request.viewFormula, if_neg (by simp)] at hd hrefs
    refine hC.intersection x ts hne fun t ht => ?_
    obtain ⟨c, hc, hct⟩ := exists_of_forall₂_right hts ht
    have hf := List.mem_map_of_mem (f := (userRequest m reader cc u).rewriteFormula x) hc
    refine ih c hc (fun p hp => hrefs p ?_) (hrw.of_intersection hv c hc) hct
      (derivesIn_all_true.mp hd _ hf)
    exact Formula.mem_refs_all.mpr ⟨_, hf, hp⟩
  | exclusion rw inc exc hv ihInc ihExc => exact absurd hv hrw.not_exclusion
  | computed rw rel hv =>
    have hview := h.of_view
    rw [hv] at hview
    rw [Request.rewriteFormula_eq, hv] at hd hrefs
    obtain ⟨j, rfl, hj⟩ := derivesIn_ref.mp hd
    exact hvisit _ (hrefs (false, _) (Set.mem_singleton _)) t j (Nat.lt_succ_self j) hview hj
  | tupleToUserset rw ts rel hv =>
    have hview := h.of_view
    rw [hv] at hview
    obtain ⟨ss, subs, hread, hsubs, rfl⟩ := hview
    rw [Request.rewriteFormula_eq, hv] at hd hrefs
    obtain ⟨ss', hread', hd⟩ := Request.derivesIn_readFormula.mp hd
    cases hread.symm.trans hread'
    obtain ⟨f, hf, hd⟩ := derivesIn_any_true.mp hd
    obtain ⟨s, hs, rfl⟩ := List.mem_map.mp hf
    obtain ⟨happ, y, hpoints, hd⟩ := Request.derivesIn_pointerFormula_true.mp hd
    obtain ⟨j, rfl, hj⟩ := derivesIn_ref.mp hd
    obtain ⟨t, ht, hyt⟩ := exists_of_forall₂_left hsubs (List.mem_filterMap.mpr ⟨s, hs, hpoints⟩)
    refine hC.union x subs t ht (hvisit y (hrefs (false, y) ?_) t j (Nat.lt_succ_self j) hyt hj)
    exact Request.mem_refs_readFormula.mpr
      ⟨ss, hread, s, hs, Request.mem_refs_pointerFormula.mpr ⟨rfl, happ, hpoints⟩⟩

/-- Whoever a node grants is in its tree. Cycles do no harm: a shortest derivation of a node
does not pass through nodes in progress, whose derivations are longer. -/
theorem admits_expandsTo (hm : m.ExclusionFree) (hC : Admits H u C) (hwf : WellFormed reader)
    (hcond : Unconditional reader) (hkeys : Set.InjOn visitKey N)
    (hN : Closed (userRequest m reader cc u).system N) {left : ℕ} {visited : Finset GoString}
    {n : SubjectSet} (hn : n ∈ N) (h : ExpandsTo True m reader left visited n t) {k : ℕ}
    (hd : (userRequest m reader cc u).NodeDerivesIn k true n)
    (hfree : ∀ y ∈ N, visitKey y ∈ visited → ¬ (userRequest m reader cc u).NodeDerivesIn k true y)
    (hH : ∀ y ∈ N, ∀ j < k, (userRequest m reader cc u).NodeDerivesIn j true y → H y) : C t := by
  simp only [Request.nodeDerivesIn_iff] at hd hfree hH
  induction left generalizing visited n t k with
  | zero => cases h
  | succ left ih =>
    rcases h with ⟨-, hkey, -⟩ | ⟨-, h⟩
    · exact absurd hd (hfree n hn hkey)
    · classical
      have hex : ∃ j, DerivesIn (userRequest m reader cc u).system j true
        ((userRequest m reader cc u).system n) := ⟨k, hd⟩
      have hle : Nat.find hex ≤ k := Nat.find_min' hex hd
      refine admits_unfolds hC hwf hcond (k := Nat.find hex)
        (fun y hy j hj hd => hH y hy j (by omega) (Request.nodeDerivesIn_iff.mp hd)) ?_ (hN n hn)
        (hm n.ns n.relation) h (Nat.find_spec hex)
      intro y hy t j hj ht hdy
      refine ih hy ht hdy ?_ fun z hz i hi => hH z hz i (by omega)
      intro z hz hmem hdz
      rcases Finset.mem_insert.mp hmem with hkey | hmem
      · obtain rfl := hkeys hz hn hkey
        exact Nat.find_min hex hj hdz
      · exact hfree z hz hmem (hdz.mono (by omega))

/-- Without exclusions, whoever the tree of a node contains is granted the node. -/
theorem holds_of_contains (hm : m.ExclusionFree) (hwf : WellFormed reader)
    (hcond : Unconditional reader) {cycles : Prop} {left : ℕ} {visited : Finset GoString}
    {n : SubjectSet} (h : ExpandsTo cycles m reader left visited n t)
    (hc : t.Contains (userRequest m reader cc u).Holds u) :
    (userRequest m reader cc u).Holds n := by
  induction left generalizing visited n t with
  | zero => cases h
  | succ left ih =>
    rcases h with ⟨-, -, rfl⟩ | ⟨-, h⟩
    · exact absurd hc Tree.contains_bare
    · exact Request.holds_iff.mpr (derives_of_contains hwf hcond (fun y t ht hc => ih ht hc)
        (hm n.ns n.relation) h hc)

/-- Where nothing is cut off, the tree of a node decides as the node does. -/
theorem contains_iff_of_verdict (hwf : WellFormed reader) (hcond : Unconditional reader)
    {left : ℕ} {visited : Finset GoString} {n : SubjectSet}
    (h : ExpandsTo False m reader left visited n t) {k : ℕ} {v : Bool}
    (hd : (userRequest m reader cc u).NodeDerivesIn k v n) :
    t.Contains (userRequest m reader cc u).Holds u ↔ v = true := by
  induction left generalizing visited n t k v with
  | zero => cases h
  | succ left ih =>
    rcases h with ⟨hcycles, -⟩ | ⟨-, h⟩
    · exact hcycles.elim
    · refine contains_iff_of_derivesIn hwf hcond (fun y t j v ht hy => ?_) h
        (Request.nodeDerivesIn_iff.mp hd)
      exact ih ht (Request.nodeDerivesIn_iff.mpr hy)

end Trees

end WorkspaceAuthz.Authz
