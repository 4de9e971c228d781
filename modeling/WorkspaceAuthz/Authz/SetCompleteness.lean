import WorkspaceAuthz.Authz.Budgets
import WorkspaceAuthz.Authz.Denotation
import WorkspaceAuthz.Authz.SetSoundness

/-! # Common users are found

A userset check misses no user who is in the set and has access, as far as models
without exclusions and stores without conditions go. Member resolution follows a
shortest derivation, so that neither the cycles that it cuts off nor the public lose
the last witness. With the engine's keys this holds as long as they tell the nodes
apart that the two checks may ask for.
-/
namespace WorkspaceAuthz.Authz
open Go RecursiveFormula

section Programs

variable {κ μ α β : Type} {q : Meter} {u : GoString}

/-! ## Operations that return -/

/-- Without a read budget, `x` returns a value. -/
def Succeeds (x : EvalM GoString GoString α) : Prop :=
  ∀ st, st.maxReads ≤ 0 → ∃ a st', x st = .ok a st' ∧ st'.maxReads ≤ 0

theorem compositional_succeeds {reader : Reader} (hreader : reader.Total) :
    Compositional reader 0 fun {α} (x : EvalM GoString GoString α) => Succeeds x where
  pure a := fun st hst => ⟨a, st, rfl, hst⟩
  bind hx hf := by
    intro st hst
    obtain ⟨a, s, hrun, hs⟩ := hx st hst
    obtain ⟨b, s', hrun', hs'⟩ := hf a s hs
    exact ⟨b, s', bind_ok.mpr ⟨a, s, hrun, hrun'⟩, hs'⟩
  tooLarge hcap := absurd hcap (lt_irrefl 0)
  listSubjects n := by
    intro st hst
    obtain ⟨ss, hread⟩ := hreader n
    refine ⟨ss, st.fetched 1, ?_, hst⟩
    exact listSubjects_granted hread fun h => by omega
  recordDepth := fun st hst => ⟨(), _, rfl, hst⟩
  recordCycle := fun st hst => ⟨(), _, rfl, hst⟩

/-! ## Members that are found -/

def Members.Has (M : Members) (u : GoString) : Prop := u ∈ M.users ∨ M.everyone = true

theorem Members.has_union {M M' : Members} : (M.union M').Has u ↔ M.Has u ∨ M'.Has u := by
  simp only [Has, union, Finset.mem_union, Bool.or_eq_true]
  tauto

/-- Whenever nothing that `q` counts happens in `x`, it has the user among its members. -/
def Finds (q : Meter) (u : GoString) (x : EvalM κ μ Members) : Prop :=
  ∀ M, Quietly q x M → M.Has u

theorem finds_collectMembers {resolve : β → EvalM κ μ Members} (hrec : ∀ b, Records (resolve b))
    {bs : List β} {out : Members} (h : out.Has u ∨ ∃ b ∈ bs, Finds q u (resolve b)) :
    Finds q u (collectMembers resolve bs out) := by
  induction bs generalizing out with
  | nil =>
    intro M hM
    rw [hM.pure_eq]
    exact h.resolve_right (by simp)
  | cons b bs ih =>
    intro M hM
    obtain ⟨M', hM', hM⟩ := hM.split (hrec b) fun M' =>
      (compositional_records (fun _ => .ok []) 0).collectMembers (fun b _ => hrec b) _
    refine ih ?_ M hM
    rw [List.exists_mem_cons_iff] at h
    rw [Members.has_union]
    rcases h with h | h | h
    · exact .inl (.inl h)
    · exact .inl (.inr (h M' hM'))
    · exact .inr h

variable {resolve : SubjectSet → EvalM κ μ Members} (hrec : ∀ y, Records (resolve y))
include hrec

theorem records_membersOfTree (t : Tree) : Records (membersOfTree resolve t) :=
  (compositional_records (fun _ => .ok []) 0).membersOfTree hrec t

theorem finds_membersOfIntersection {ts : List Tree}
    (hts : ∀ t ∈ ts, Finds q u (membersOfTree resolve t)) {acc acc' : Option (Finset GoString)}
    (hacc : (Members.ofAcc acc).Has u)
    (h : Quietly q (membersOfIntersection resolve ts acc) acc') : (Members.ofAcc acc').Has u := by
  induction ts generalizing acc with
  | nil =>
    rw [membersOfIntersection] at h
    rw [h.pure_eq]
    exact hacc
  | cons t ts ih =>
    rw [List.forall_mem_cons] at hts
    rw [membersOfIntersection] at h
    obtain ⟨M, hM, h⟩ := h.split (records_membersOfTree hrec t) fun M =>
      (compositional_records (fun _ => .ok []) 0).membersOfIntersection
        (fun t _ => records_membersOfTree hrec t) _
    refine ih hts.2 ?_ h
    have hhas := hts.1 M hM
    cases he : M.everyone with
    | true => exact hacc
    | false =>
      have hu : u ∈ M.users := hhas.resolve_right (by simp [he])
      cases acc with
      | none => exact .inl hu
      | some users =>
        have hmem : u ∈ users := hacc.resolve_right (by simp [Members.ofAcc])
        exact .inl (Members.mem_intersectUsers.mpr ⟨hmem, hu⟩)

/-- Members are a way to read a tree that has the user wherever a leaf names them. -/
theorem admits_finds {H : SubjectSet → Prop} (hH : ∀ y, H y → Finds q u (resolve y)) :
    Admits H u fun t => Finds q u (membersOfTree resolve t) where
  leaf x ss := by
    rintro ⟨s, hs, hnames⟩
    simp only [Tree.foldl_addSubject, membersOfTree]
    apply finds_collectMembers hrec
    unfold Subject.Names at hnames
    cases hset : s.leafSet with
    | some y =>
      rw [hset] at hnames
      exact .inr ⟨y, by simpa using ⟨s, hs, hset⟩, hH y hnames⟩
    | none =>
      rw [hset] at hnames
      left
      rcases hnames with hw | huser
      · exact .inr (by simpa using ⟨s, hs, hw⟩)
      · exact .inl (by simpa using ⟨s, hs, huser⟩)
  union x ts t ht h := by
    rw [membersOfTree_union]
    exact finds_collectMembers (records_membersOfTree hrec) (.inr ⟨t, ht, h⟩)
  intersection x ts hne h := by
    intro M hM
    rw [membersOfTree_intersection hne] at hM
    have hacc : Records (membersOfIntersection resolve ts none) :=
      (compositional_records (fun _ => .ok []) 0).membersOfIntersection
        (fun t _ => records_membersOfTree hrec t) none
    obtain ⟨acc, hacc, hM⟩ := hM.split hacc fun acc =>
      (compositional_records (fun _ => .ok []) 0).pure _
    rw [hM.pure_eq]
    exact finds_membersOfIntersection hrec h (.inr rfl) hacc

end Programs

/-! ## The resolution of a userset -/

section Resolution

variable {κ μ : Type} {m : Model} {reader : Reader} {cc : Context} {u : GoString}
  {N : Set SubjectSet}

theorem finds_resolveMembers (hm : m.ExclusionFree) (hwf : WellFormed reader)
    (hcond : Unconditional reader) (hkeys : Set.InjOn visitKey N)
    (hN : Closed (userRequest m reader cc u).system N) (left : ℕ) {visited : Finset GoString}
    {n : SubjectSet} (hn : n ∈ N) {k : ℕ} (hd : (userRequest m reader cc u).NodeDerivesIn k true n)
    (hfree : ∀ y ∈ N, visitKey y ∈ visited →
      ¬ (userRequest m reader cc u).NodeDerivesIn k true y) :
    Finds .depth u (resolveMembers m reader left visited n : EvalM κ μ Members) := by
  induction left generalizing visited n k with
  | zero =>
    rintro M ⟨st, st', h, hquiet⟩
    cases h
    exact absurd hquiet (Nat.succ_ne_self _)
  | succ left ih =>
    intro M hM
    have hrec := compositional_records (κ := κ) (μ := μ) reader 0
    have hresolve (y : SubjectSet) :
        Records (resolveMembers m reader left (insert (visitKey n) visited) y : EvalM κ μ _) :=
      hrec.resolveMembers m left _ y
    unfold resolveMembers at hM
    rw [if_neg fun hkey => hfree n hn hkey hd] at hM
    obtain ⟨⟨t, c⟩, ht, hM⟩ := hM.split (hrec.expansive.expand m (left + 1) ∅ n 0) fun p =>
      hrec.membersOfTree hresolve p.1
    have hexpands : ExpandsTo True m reader (left + 1) ∅ n t :=
      expandsTo_of_grows (fun _ => Nat.succ_ne_self _) (fun h => absurd trivial h) ⟨0, c, ht⟩
    -- Follow a shortest derivation, which does not come back to the node itself.
    classical
    have hex : ∃ j, (userRequest m reader cc u).NodeDerivesIn j true n := ⟨k, hd⟩
    have hle : Nat.find hex ≤ k := Nat.find_min' hex hd
    refine admits_expandsTo hm (admits_finds hresolve fun y hy => ?_) hwf hcond hkeys hN hn hexpands
      (Nat.find_spec hex) (fun y _ hy => absurd hy (Finset.notMem_empty _))
      (fun y hy j hj hdy => (⟨hy, j, hj, hdy⟩ : y ∈ N ∧ ∃ j < Nat.find hex,
        (userRequest m reader cc u).NodeDerivesIn j true y)) M hM
    obtain ⟨hy, j, hj, hdy⟩ := hy
    refine ih hy hdy fun z hz hmem hdz => ?_
    rcases Finset.mem_insert.mp hmem with hkey | hmem
    · obtain rfl := hkeys hz hn hkey
      exact Nat.find_min hex hj hdz
    · refine hfree z hz hmem (Request.nodeDerivesIn_iff.mpr ?_)
      exact (Request.nodeDerivesIn_iff.mp hdz).mono (by omega)

end Resolution

/-! ## Userset checks -/

section CheckSet

variable {e : Engine} {m : Model} {projectID tenantID : GoString} {n set : SubjectSet}
  {cc : Context} {u : GoString} {order : MapOrder} {maxReads : ℤ}

theorem records_check (r : Request) (left : ℕ) (n : SubjectSet) :
    Records (r.check stringKeys left n false) := by
  intro st b st' h
  rw [Request.check_eq_search] at h
  have hext := search_extends _ _ _ _ _ _ _ _ _ h
  exact ⟨hext.depth, hext.cycle⟩

theorem records_reset : Records (modify fun st =>
    { st with visited := ∅, memo := fun _ => none } : EvalM GoString GoString PUnit) :=
  records_of_backstops_eq (by rintro st _ _ ⟨⟩; rfl)

theorem succeeds_check {r : Request} (hreader : r.reader.Total) (left : ℕ) (n : SubjectSet) :
    Succeeds (r.check stringKeys left n false) := by
  intro st hst
  rw [Request.check_eq_search]
  exact search_succeeds stringKeys (fun x => Request.rewriteFormula_total hreader x (r.rewrite x))
    .evalBudgetExceeded left n false st hst

theorem succeeds_reset : Succeeds (modify fun st =>
    { st with visited := ∅, memo := fun _ => none } : EvalM GoString GoString PUnit) :=
  fun _ hst => ⟨(), _, rfl, hst⟩

theorem check_of_checkMembers_false {users : List GoString} {B : ℤ} (hB : B ≤ 0)
    {st st' : SearchState GoString GoString}
    (h : e.checkMembers m projectID tenantID n cc users st = .ok false st') (hu : u ∈ users) :
    ∃ st₀, (e.request m projectID tenantID u cc).check stringKeys (e.maxDepth + 1) n false
      (newEvalState B) = .ok false st₀ := by
  induction users generalizing st with
  | nil => cases hu
  | cons v users ih =>
    obtain ⟨_, s, hs, h⟩ := bind_ok.mp h
    cases hs
    obtain ⟨ok, s', hok, h⟩ := bind_ok.mp h
    cases ok with
    | true => cases h
    | false =>
      rcases List.mem_cons.mp hu with rfl | hu
      · exact check_of_reset hok hB
      · exact ih h hu

theorem fanOutBudget_unbounded {base : ℤ} (h : base ≤ 0) (candidates : ℤ) :
    e.fanOutBudget base candidates = 0 := if_pos h

/-- A userset check that is not cut off at the depth bound says yes, if a member of the set
and of the target that its resolutions find is one whose check succeeds. -/
theorem checkSet_complete (hreads : e.effectiveMaxReads maxReads ≤ 0)
    (hset : Finds .depth u (resolveMembers m (e.reader projectID tenantID) (e.maxDepth + 1) ∅ set :
      EvalM GoString GoString Members))
    (htarget : Finds .depth u (resolveMembers m (e.reader projectID tenantID) (e.maxDepth + 1) ∅ n :
      EvalM GoString GoString Members))
    (hcheck : (e.checkWithModel m projectID tenantID n u cc maxReads).result = .ok true)
    {st st' : SearchState GoString GoString} {b : Bool}
    (h : e.checkSet m projectID tenantID n cc order set st = .ok b st')
    (hdepth : st'.backstops.depth = st.backstops.depth) : b = true := by
  have hrec := compositional_records (κ := GoString) (μ := GoString) (e.reader projectID tenantID) 0
  have hmembers (users : List GoString) := hrec.checkMembers records_reset
    (fun r _ => records_check r) m n cc users
  obtain ⟨ok, s₁, hwalk, h⟩ := bind_ok.mp h
  cases ok with
  | true => cases h; rfl
  | false =>
    obtain ⟨M, s₂, hM, h⟩ := bind_ok.mp h
    obtain ⟨ok, s₃, hok, h⟩ := bind_ok.mp h
    have h₁ := (records_check _ _ _ _ _ _ hwalk).1
    have h₂ := (hrec.resolveMembers m _ ∅ set _ _ _ hM).1
    have h₃ := (hmembers _ _ _ _ hok).1
    cases ok with
    | true => cases h; rfl
    | false =>
      have hquiet : Meter.depth.count s₃.backstops = Meter.depth.count st.backstops → M.Has u :=
        fun hs => hset M ⟨s₁, s₂, hM, by simp only [Meter.depth] at hs ⊢; omega⟩
      cases heveryone : M.everyone with
      | false =>
        simp only [heveryone] at h
        cases h
        have hu : u ∈ M.users := (hquiet hdepth).resolve_right (by simp [heveryone])
        obtain ⟨st₀, hfalse⟩ := check_of_checkMembers_false hreads hok ((order.mem_list _ u).mpr hu)
        obtain ⟨st₁, htrue, -⟩ := Outcome.of_result_ok hcheck
        cases htrue.symm.trans hfalse
      | true =>
        simp only [heveryone] at h
        obtain ⟨T, s₄, hT, h⟩ := bind_ok.mp h
        have h₄ := (hrec.resolveMembers m _ ∅ n _ _ _ hT).1
        cases h
        have hhas := htarget T ⟨s₃, st', hT, by simp only [Meter.depth]; omega⟩
        rcases hhas with hu | he
        · simp [Finset.card_pos.mpr ⟨u, hu⟩]
        · simp [he]

/-- Userset checks find every common user, as long as the depth guard stays silent, on all
inputs without exclusions and conditions for which the nodes that the user's checks ask for
lie in `N`, other than the set and the target themselves. -/
def FindsEveryCommonUser (N : Set SubjectSet) : Prop :=
  ∀ (e : Engine) (m : Model) (projectID tenantID : GoString) (n set : SubjectSet) (cc : Context)
    (order : MapOrder) (maxReads : ℤ) (u : GoString),
    m.ExclusionFree → (e.reader projectID tenantID).Total →
    WellFormed (e.reader projectID tenantID) → Unconditional (e.reader projectID tenantID) →
    e.effectiveMaxReads maxReads ≤ 0 →
    (∀ root ∈ [set, n], (e.request m projectID tenantID u cc).below root ⊆ N ∧
      ∀ y ∈ (e.request m projectID tenantID u cc).below root,
        visitKey y = visitKey root → y = root) →
    (e.checkSetWithModel m projectID tenantID n cc order set maxReads).backstops.depth = 0 →
    (e.checkWithModel m projectID tenantID set u cc maxReads).result = .ok true →
    (e.checkWithModel m projectID tenantID n u cc maxReads).result = .ok true →
    (e.checkSetWithModel m projectID tenantID n cc order set maxReads).result = .ok true

theorem injOn_around {r : Request} {root : SubjectSet} {N : Set SubjectSet}
    (hkeys : Set.InjOn visitKey N) (hbelow : r.below root ⊆ N)
    (hroot : ∀ y ∈ r.below root, visitKey y = visitKey root → y = root) :
    Set.InjOn visitKey (r.around root) := by
  intro x hx y hy hkey
  rcases Relation.reflTransGen_iff_eq_or_transGen.mp hx with rfl | hx
  · rcases Relation.reflTransGen_iff_eq_or_transGen.mp hy with rfl | hy
    · rfl
    · exact (hroot y hy hkey.symm).symm
  · rcases Relation.reflTransGen_iff_eq_or_transGen.mp hy with rfl | hy
    · exact hroot x hx hkey
    · exact hkeys (hbelow hx) (hbelow hy) hkey

theorem findsEveryCommonUser_of_injOn {N : Set SubjectSet} (hkeys : Set.InjOn visitKey N) :
    FindsEveryCommonUser N := by
  intro e m projectID tenantID n set cc order maxReads u hm htotal hwf hcond hreads hroots hdepth
    hset hn
  have hfinds (root : SubjectSet) (hroot : root ∈ [set, n])
      (hok : (e.checkWithModel m projectID tenantID root u cc maxReads).result = .ok true) :
      Finds .depth u (resolveMembers m (e.reader projectID tenantID) (e.maxDepth + 1) ∅ root :
        EvalM GoString GoString Members) := by
    obtain ⟨hbelow, hapart⟩ := hroots root hroot
    obtain ⟨st, hrun, -⟩ := Outcome.of_result_ok hok
    obtain ⟨k, hk⟩ := Request.holds_of_check (K := stringKeys) (hkeys.mono hbelow) (fun _ => rfl)
      hrun
    exact finds_resolveMembers hm hwf hcond (injOn_around hkeys hbelow hapart)
      (Request.closed_around root) _ (Request.self_mem_around root) hk
      fun y _ hy => absurd hy (Finset.notMem_empty _)
  have hbudget : (newEvalState (e.fanOutBudget (e.effectiveMaxReads maxReads)
      e.maxListObjectsOrDefault) : SearchState GoString GoString).maxReads ≤ 0 :=
    (fanOutBudget_unbounded hreads _).le
  obtain ⟨b, st, hrun, -⟩ := (compositional_succeeds htotal).checkSet succeeds_reset
    (fun r hr left n => succeeds_check (hr ▸ htotal) left n) m n cc order set _ hbudget
  have hof : e.checkSetWithModel m projectID tenantID n cc order set maxReads =
      ⟨.ok b, st.backstops⟩ := congrArg Outcome.of hrun
  rw [hof] at hdepth ⊢
  rw [checkSet_complete hreads (hfinds set (by simp) hset) (hfinds n (by simp) hn) hn hrun hdepth]

end CheckSet

/-! ## Nodes with one key -/

namespace Alias

variable {root x y : SubjectSet} {u : GoString}

theorem reader_total {w : SubjectSet} {c : Option Condition} : (reader root x y w c u).Total :=
  fun _ => ⟨_, rfl⟩

theorem unconditional_reader {w : SubjectSet} : Unconditional (reader root x y w none u) := by
  intro n ss hread s hs
  cases hread
  split_ifs at hs <;> simp_all

def tree (root x y : SubjectSet) (u : GoString) : Tree where
  expanded := root
  intersection := [{ expanded := root, union := [{ expanded := x, users := [u] }] },
    { expanded := root, union := [{ expanded := y }] }]

theorem expand_root (h : Apart root x y) (hkey : visitKey x = visitKey y) (hne : x ≠ y)
    {st : SearchState GoString GoString} (hmax : st.maxReads ≤ 0) :
    Expand.expand (model root { intersection := legs x y }) (reader root x y x none u) 0 33 ∅ root
      0 st = .ok (tree root x y u, 6) (st.fetched 4) := by
  have hp : reader root x y x none u ⟨root.ns, root.objectID, str "p"⟩ =
      .ok [{ set := some x }] := by
    rw [reader, if_pos rfl]
  have hq : reader root x y x none u ⟨root.ns, root.objectID, str "q"⟩ =
      .ok [{ set := some y }] := by
    rw [reader, if_neg (by simp; decide), if_pos rfl]
  have hx : reader root x y x none u x = .ok [{ userID := u }] := by
    rw [reader_of_ne h.left.1, if_pos rfl]
  have hy : reader root x y x none u y = .ok [] := by
    rw [reader_of_ne h.right.1, if_neg hne.symm]
  have hxkey : visitKey x ∉ insert (visitKey root) (∅ : Finset GoString) := by
    simpa using h.key.symm
  have hmax' : ((st.fetched 2) : SearchState GoString GoString).maxReads ≤ 0 :=
    hmax
  have hleft := expandRewrite_pointer (by decide) hp hmax (expand_stored
    (model_rewrite_of_ne { intersection := legs x y } h.left.2) hx 31 hxkey 2 hmax)
  have hright := expandRewrite_pointer (by decide) hq hmax' (expand_stored
    (model_rewrite_of_ne { intersection := legs x y } h.right.2) hy 31 (hkey ▸ hxkey) 5 hmax)
  rw [Expand.expand, if_neg (Finset.notMem_empty _), expandRewrite_eq_view, model_rewrite_root]
  refine expandM_bind_ok.mpr ⟨(), 1, st, rfl, ?_⟩
  refine expandM_bind_ok.mpr ⟨_, 6, _, expandM_bind_ok.mpr ⟨_, 4, _, hleft, ?_⟩, rfl⟩
  refine expandM_bind_ok.mpr ⟨_, 6, _, ?_, rfl⟩
  exact expandM_bind_ok.mpr ⟨_, 6, _, hright, expandM_bind_ok.mpr ⟨[], 6, _, rfl, rfl⟩⟩

/-- Members are computed from the tree, which tells `x` from `y`. -/
theorem membersOfTree_both {resolve : SubjectSet → EvalM GoString GoString Members}
    (st : SearchState GoString GoString) :
    membersOfTree resolve (tree root x y u) st = .ok {} st := by
  have hnobody : intersectUsers (∅ ∪ [u].toFinset) (∅ ∪ ([] : List GoString).toFinset) = ∅ :=
    Finset.eq_empty_of_forall_notMem fun v hv => by
      simpa using (Members.mem_intersectUsers.mp hv).2
  rw [tree, membersOfTree_intersection (List.cons_ne_nil _ _)]
  exact bind_ok.mpr ⟨some ∅, st, congrArg (fun users => EStateM.Result.ok (some users) st) hnobody,
    rfl⟩

theorem checkWithModel_both (h : Apart root x y) (hkey : visitKey x = visitKey y) (hu : u ≠ [])
    (cc : Context) :
    ((engine root x y x none u).checkWithModel (model root { intersection := legs x y }) [] [] root
      u cc 0).result = .ok true := by
  obtain ⟨st, hrun⟩ := check_both h hkey hu (evalCondition_none cc) (newEvalState 0) rfl
    (fun _ => rfl) le_rfl
  exact congrArg (fun z => (Outcome.of z).result) hrun

/-- Whoever is taken to be in `root` is not among its members. -/
theorem checkSet_root (h : Apart root x y) (hkey : visitKey x = visitKey y) (hne : x ≠ y)
    (u : GoString) (cc : Context) (order : MapOrder) :
    ((engine root x y x none u).checkSetWithModel (model root { intersection := legs x y }) [] []
      root cc order root 0).result = .ok false ∧
    ((engine root x y x none u).checkSetWithModel (model root { intersection := legs x y }) [] []
      root cc order root 0).backstops.depth = 0 := by
  obtain ⟨st₁, hwalk⟩ : ∃ st₁, (Engine.setRequest (engine root x y x none u)
      (model root { intersection := legs x y }) [] [] root cc).check stringKeys 33 root false
        (newEvalState 0) = .ok false st₁ :=
    check_of_eval system_structural rfl (fun _ => rfl) ⟨_, rfl⟩
  have hranked : Ranked stringKeys (Engine.setRequest (engine root x y x none u)
      (model root { intersection := legs x y }) [] [] root cc).system {root} fun _ => 0 := by
    rintro z rfl p hp
    rw [system_structural] at hp
    simp [Formula.refs] at hp
  have hdepth := (Request.check_quiet hranked rfl (by decide : 0 < 33) hwalk).2
  have hmax : st₁.maxReads ≤ 0 := by
    rw [Request.check_eq_search] at hwalk
    exact (search_extends _ _ _ _ _ _ _ _ _ hwalk).maxReads.le
  have hmembers : resolveMembers (model root { intersection := legs x y })
      (reader root x y x none u) 33 ∅ root st₁ = .ok {} (st₁.fetched 4) := by
    rw [resolveMembers, if_neg (Finset.notMem_empty _)]
    exact bind_ok.mpr ⟨_, _, expand_root h hkey hne hmax, membersOfTree_both _⟩
  have hlist : order.list ∅ = [] := List.eq_nil_iff_forall_not_mem.mpr fun v hv =>
    Finset.notMem_empty v ((order.mem_list ∅ v).mp hv)
  have hrun : Engine.checkSet (engine root x y x none u) (model root { intersection := legs x y })
      [] [] root cc order root (newEvalState 0) =
        .ok false (st₁.fetched 4) := by
    refine bind_ok.mpr ⟨false, st₁, hwalk, bind_ok.mpr ⟨_, _, hmembers, ?_⟩⟩
    exact bind_ok.mpr ⟨false, _, by rw [hlist]; rfl, rfl⟩
  exact ⟨congrArg (fun z => (Outcome.of z).result) hrun,
    (congrArg (fun z => (Outcome.of z).backstops.depth) hrun).trans hdepth⟩

end Alias

/-- Userset checks find every common user on all inputs whose nodes lie in `N` if and only
if the engine's keys tell the nodes in `N` apart. -/
theorem checkSet_complete_iff (N : Set SubjectSet) :
    FindsEveryCommonUser N ↔ Set.InjOn visitKey N := by
  refine ⟨fun h x hx y hy hkey => ?_, findsEveryCommonUser_of_injOn⟩
  by_contra hne
  have hapart := Alias.apart_fresh hkey
  have hu : str "u" ≠ [] := by decide
  have hN : ({x, y} : Set SubjectSet) ⊆ N :=
    Set.insert_subset hx (Set.singleton_subset_iff.mpr hy)
  obtain ⟨hfalse, hdepth⟩ := Alias.checkSet_root hapart hkey hne (str "u") ∅ .sorted
  have hcheck := Alias.checkWithModel_both hapart hkey hu ∅
  have htrue := h _ _ _ _ _ _ _ _ _ (str "u") Alias.both_exclusionFree Alias.reader_total
    (Alias.wellFormed_reader hu) Alias.unconditional_reader le_rfl ?_ hdepth hcheck hcheck
  · cases htrue.symm.trans hfalse
  · intro root hroot
    obtain rfl : root = Alias.fresh x y := by simpa using hroot
    refine ⟨(Alias.below_both hapart hu).trans hN, fun z hz hz' => ?_⟩
    rcases Alias.below_both hapart hu hz with rfl | rfl
    · exact absurd hz'.symm hapart.key
    · exact absurd (hz'.symm.trans hkey.symm) hapart.key

/-- `doc:1#view` needs membership in two usersets with one key, and the user has one: the
check of the user says yes, and the check of `doc:1#view` on itself says no. -/
theorem checkSetWithModel_misses_aliased_member :
    let doc : SubjectSet := ⟨str "doc", str "1", str "view"⟩
    let x : SubjectSet := ⟨str "a", str "b:c", str "m"⟩
    let y : SubjectSet := ⟨str "a:b", str "c", str "m"⟩
    let e := Alias.engine doc x y x none "u"
    let m := Alias.model doc { intersection := Alias.legs x y }
    m.ExclusionFree ∧ (e.reader "p" "t").Total ∧ WellFormed (e.reader "p" "t") ∧
      Unconditional (e.reader "p" "t") ∧ e.effectiveMaxReads 0 ≤ 0 ∧
      (e.checkWithModel m "p" "t" doc "u" ∅ 0).result = .ok true ∧
      e.checkSetWithModel m "p" "t" doc ∅ .sorted doc 0 = ⟨.ok false, {}⟩ :=
  ⟨Alias.both_exclusionFree, Alias.reader_total, Alias.wellFormed_reader (by decide),
    Alias.unconditional_reader, le_rfl, by decide +kernel, by decide +kernel⟩

end WorkspaceAuthz.Authz
