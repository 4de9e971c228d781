import WorkspaceAuthz.Authz.Budgets

/-! # The size of an expansion

The node cap is charged for every rewrite that is expanded and for every stored
subject of a leaf, and not for a visit that a guard cuts off, although this leaves a
leaf in the tree. On the other hand a computed relation is charged and adds no node,
and so is a public subject, which a leaf does not list. Whether the cap bounds the
response depends on which of these there are more of.
-/
namespace WorkspaceAuthz.Authz
open Go RecursiveFormula

mutual

/-- The nodes of a tree, and the users and usersets that its leaves list. -/
def Tree.size : Tree → ℕ
  | ⟨_, union, intersection, exclude, users, sets, _⟩ =>
    1 + sizeAll union + sizeAll intersection +
      (match exclude with
        | some (included, excluded) => size included + size excluded
        | none => 0) + users.length + sets.length

def Tree.sizeAll : List Tree → ℕ
  | [] => 0
  | t :: ts => size t + sizeAll ts

end

namespace Expand

/-! ## What an expansion meets -/

inductive Event where
  /-- A visit of a node in progress, or beyond the depth bound. -/
  | cut
  | computed
  /-- A union, an intersection or an exclusion. -/
  | branch
  /-- A read of stored tuples, for a leaf or for pointers. -/
  | listing
  /-- A stored user or userset of a leaf. -/
  | named
  | wildcard
deriving DecidableEq, Repr

section Events

variable (m : Model) (store : SubjectSet → List Subject)

def subjectEvents (ss : List Subject) : List Event :=
  ss.map fun s => if s.wildcard then .wildcard else .named

mutual

/-- What the expansion of a rewrite meets, in terms of the model and the store alone. -/
def rewriteEvents (visit : SubjectSet → List Event) (n : SubjectSet) (rw : Rewrite) :
    List Event :=
  if rw.isThis then .listing :: subjectEvents (store n)
  else match rw with
    | ⟨c :: cs, _, _, _, _, _⟩ => .branch :: allEvents visit n (c :: cs)
    | ⟨[], c :: cs, _, _, _, _⟩ => .branch :: allEvents visit n (c :: cs)
    | ⟨[], [], some (inc, exc), _, _, _⟩ =>
      .branch :: (rewriteEvents visit n inc ++ rewriteEvents visit n exc)
    | ⟨[], [], none, computed, tuplesetRelation, computedRelation⟩ =>
      if computed ≠ [] then .computed :: visit ⟨n.ns, n.objectID, computed⟩
      else .listing :: ((store ⟨n.ns, n.objectID, tuplesetRelation⟩).filterMap
        (Request.pointsTo computedRelation)).flatMap visit

def allEvents (visit : SubjectSet → List Event) (n : SubjectSet) : List Rewrite → List Event
  | [] => []
  | c :: cs => rewriteEvents visit n c ++ allEvents visit n cs

end

/-- What the expansion of a node meets. -/
def events : ℕ → Finset GoString → SubjectSet → List Event
  | 0, _, _ => [.cut]
  | left + 1, visited, n =>
    if visitKey n ∈ visited then [.cut]
    else rewriteEvents store (events left (insert (visitKey n) visited)) n
      (m.rewrite n.ns n.relation)

end Events

/-- What the node cap is charged for. -/
def Event.charge : Event → ℕ
  | .cut => 0
  | _ => 1

/-- What the response contains. -/
def Event.entry : Event → ℕ
  | .computed | .wildcard => 0
  | _ => 1

/-- What the read budget is charged for. -/
def Event.read : Event → ℕ
  | .listing => 1
  | _ => 0

def total (w : Event → ℕ) (es : List Event) : ℕ := (es.map w).sum

section Total

variable (w : Event → ℕ)

@[simp] theorem total_nil : total w [] = 0 := rfl

@[simp] theorem total_cons (e : Event) (es : List Event) :
    total w (e :: es) = w e + total w es :=
  List.sum_cons

@[simp] theorem total_append (es es' : List Event) :
    total w (es ++ es') = total w es + total w es' := by
  simp [total]

end Total

/-- The response holds what was charged and what was cut off, except for what is charged and
not listed. -/
theorem total_entry (es : List Event) :
    total Event.entry es + (es.count .computed + es.count .wildcard) =
      total Event.charge es + es.count .cut := by
  induction es with
  | nil => rfl
  | cons e es ih => cases e <;> simp [Event.entry, Event.charge] <;> omega

/-- There are at most as many cuts as computed relations and public subjects, which are charged
and not listed. -/
def Covers (es : List Event) : Prop :=
  es.count .cut ≤ es.count .computed + es.count .wildcard

theorem covers_iff {es : List Event} :
    Covers es ↔ total Event.entry es ≤ total Event.charge es := by
  have h := total_entry es
  unfold Covers
  omega

theorem total_read_le (es : List Event) : total Event.read es ≤ total Event.charge es := by
  induction es with
  | nil => exact le_rfl
  | cons e es ih => cases e <;> simp [Event.read, Event.charge] <;> omega

/-! ## The operators -/

section Views

variable {store : SubjectSet → List Subject} {visit : SubjectSet → List Event} {n : SubjectSet}

theorem allEvents_eq_flatMap (cs : List Rewrite) :
    allEvents store visit n cs = cs.flatMap (rewriteEvents store visit n) := by
  induction cs with
  | nil => rfl
  | cons c cs ih => rw [allEvents, ih, List.flatMap_cons]

def viewEvents (store : SubjectSet → List Subject) (visit : SubjectSet → List Event)
    (n : SubjectSet) : Rewrite.View → List Event
  | .this => .listing :: subjectEvents (store n)
  | .union cs | .intersection cs => .branch :: cs.flatMap (rewriteEvents store visit n)
  | .exclusion inc exc =>
    .branch :: (rewriteEvents store visit n inc ++ rewriteEvents store visit n exc)
  | .computed rel => .computed :: visit ⟨n.ns, n.objectID, rel⟩
  | .tupleToUserset ts rel =>
    .listing :: ((store ⟨n.ns, n.objectID, ts⟩).filterMap (Request.pointsTo rel)).flatMap visit

theorem rewriteEvents_eq (rw : Rewrite) :
    rewriteEvents store visit n rw = viewEvents store visit n rw.view := by
  unfold rewriteEvents Rewrite.view
  by_cases h : rw.isThis
  · rw [if_pos h, if_pos h]
    rfl
  · rw [if_neg h, if_neg h]
    obtain ⟨union, intersection, exclusion, computed, ts, rel⟩ := rw
    cases union with
    | cons c cs => simp only [viewEvents, allEvents_eq_flatMap]
    | nil => cases intersection with
      | cons c cs => simp only [viewEvents, allEvents_eq_flatMap]
      | nil => cases exclusion with
        | some sides => rfl
        | none => by_cases hc : computed = [] <;> simp [viewEvents, hc]

theorem charged_pos (rw : Rewrite) : 0 < total Event.charge (rewriteEvents store visit n rw) := by
  rw [rewriteEvents_eq]
  cases rw.view <;> exact Nat.lt_of_lt_of_le Nat.one_pos (Nat.le_add_right 1 _)

end Views

end Expand

/-! ## Trees and their parts -/

namespace Tree

theorem sizeAll_eq (ts : List Tree) : sizeAll ts = (ts.map size).sum := by
  induction ts with
  | nil => rfl
  | cons t ts ih => rw [sizeAll, ih, List.map_cons, List.sum_cons]

theorem size_union (n : SubjectSet) (ts : List Tree) :
    ({ expanded := n, union := ts } : Tree).size = 1 + (ts.map size).sum := by
  rw [← sizeAll_eq]
  rfl

theorem size_intersection (n : SubjectSet) (ts : List Tree) :
    ({ expanded := n, intersection := ts } : Tree).size = 1 + (ts.map size).sum := by
  rw [← sizeAll_eq, size, sizeAll]
  rfl

theorem size_exclude (n : SubjectSet) (included excluded : Tree) :
    ({ expanded := n, exclude := some (included, excluded) } : Tree).size =
      1 + (included.size + excluded.size) := by
  rw [size]
  rfl

open Expand in
theorem size_foldl_addSubject (n : SubjectSet) (ss : List Subject) :
    (ss.foldl addSubject { expanded := n }).size =
      1 + total Event.entry (subjectEvents ss) := by
  have hlists : (ss.filterMap Subject.leafUser).length + (ss.filterMap Subject.leafSet).length =
      total Event.entry (subjectEvents ss) := by
    induction ss with
    | nil => rfl
    | cons s ss ih =>
      rw [subjectEvents, List.map_cons, total_cons, ← subjectEvents, ← ih]
      cases hw : s.wildcard <;> cases hset : s.set <;>
        simp [Subject.leafUser, Subject.leafSet, Event.entry, hw, hset] <;> omega
  rw [foldl_addSubject, size, ← hlists]
  simp [sizeAll, Nat.add_assoc]

end Tree

/-! ## What an expansion spends -/

/-- A count is within a bound; a non-positive bound is none. -/
def WithinCap (max : ℤ) (k : ℕ) : Prop := 0 < max → k ≤ max

theorem WithinCap.anti {max : ℤ} {j k : ℕ} (h : WithinCap max k) (hjk : j ≤ k) : WithinCap max j :=
  fun hmax => (Int.ofNat_le.mpr hjk).trans (h hmax)

/-- The expansion `x` spends `nodes` of the node cap and `reads` of the read budget. It
succeeds if both suffice, and what it then returns satisfies `P`. -/
structure Spends {κ μ α : Type} (max : ℤ) (x : ExpandM κ μ α) (nodes reads : ℕ)
    (P : α → Prop) : Prop where
  succeeds : ∀ count st, WithinCap max (count + nodes) → WithinCap st.maxReads (st.reads + reads) →
    ∃ a st', x count st = .ok (a, count + nodes) st' ∧ st'.reads = st.reads + reads ∧
      st'.maxReads = st.maxReads
  returns : ∀ count st a count' st', x count st = .ok (a, count') st' →
    P a ∧ count' = count + nodes ∧ (WithinCap max count → WithinCap max count')

section Spends

variable {κ μ α β : Type} {max : ℤ}

theorem spends_pure {P : α → Prop} {a : α} (h : P a) :
    Spends max (pure a : ExpandM κ μ α) 0 0 P where
  succeeds _ st _ _ := ⟨a, st, rfl, rfl, rfl⟩
  returns := by
    rintro count st _ _ _ ⟨⟩
    exact ⟨h, rfl, id⟩

theorem Spends.imp {x : ExpandM κ μ α} {nodes nodes' reads reads' : ℕ} {P Q : α → Prop}
    (h : Spends max x nodes reads P) (hnodes : nodes = nodes') (hreads : reads = reads')
    (hPQ : ∀ a, P a → Q a) : Spends max x nodes' reads' Q where
  succeeds := hnodes ▸ hreads ▸ h.succeeds
  returns count st a count' st' hrun :=
    let ⟨hP, hcount⟩ := h.returns count st a count' st' hrun
    ⟨hPQ a hP, hnodes ▸ hcount⟩

theorem Spends.bind {x : ExpandM κ μ α} {f : α → ExpandM κ μ β} {nodes nodes' reads reads' : ℕ}
    {P : α → Prop} {Q : β → Prop} (hx : Spends max x nodes reads P)
    (hf : ∀ a, P a → Spends max (f a) nodes' reads' Q) :
    Spends max (x >>= f) (nodes + nodes') (reads + reads') Q where
  succeeds count st hcap hbudget := by
    obtain ⟨a, s, hrun, hreads, hmax⟩ := hx.succeeds count st (hcap.anti (by omega))
      (hbudget.anti (by omega))
    rw [← Nat.add_assoc] at hcap hbudget
    rw [← hreads, ← hmax] at hbudget
    obtain ⟨b, s', hrun', hreads', hmax'⟩ := (hf a (hx.returns _ _ _ _ _ hrun).1).succeeds
      (count + nodes) s hcap hbudget
    refine ⟨b, s', ?_, by omega, hmax'.trans hmax⟩
    rw [← Nat.add_assoc]
    exact expandM_bind_ok.mpr ⟨a, count + nodes, s, hrun, hrun'⟩
  returns count st b count' st' h := by
    obtain ⟨a, c, s, hrun, hrun'⟩ := expandM_bind_ok.mp h
    obtain ⟨hP, rfl, hcaps⟩ := hx.returns _ _ _ _ _ hrun
    obtain ⟨hQ, rfl, hcap'⟩ := (hf a hP).returns _ _ _ _ _ hrun'
    exact ⟨hQ, Nat.add_assoc .., fun h => hcap' (hcaps h)⟩

theorem spends_bump (k : ℕ) : Spends max (bump max k : ExpandM κ μ Unit) k 0 fun _ => True where
  succeeds count st hcap _ := by
    rw [bump_eq, if_neg (fun h => absurd (hcap h.1) (Int.not_le.mpr h.2))]
    exact ⟨(), st, rfl, rfl, rfl⟩
  returns count st _ count' st' h := by
    rw [bump_eq] at h
    split_ifs at h with hcap
    · cases h
    · cases h
      exact ⟨trivial, rfl, fun _ hmax => Int.not_lt.mp fun hlt => hcap ⟨hmax, hlt⟩⟩

variable {store : SubjectSet → List Subject}

/-- The reads of a store do not fail. -/
abbrev Reader.ofStore (store : SubjectSet → List Subject) : Reader := fun n => .ok (store n)

theorem spends_listSubjects (n : SubjectSet) :
    Spends max (liftM (listSubjects (Reader.ofStore store) n : EvalM κ μ _) : ExpandM κ μ _) 0 1
      (· = store n) where
  succeeds count st _ hbudget := by
    have hrun : listSubjects (Reader.ofStore store) n st = .ok (store n) (st.fetched 1) :=
      listSubjects_granted rfl fun h => absurd (hbudget h.1) (Int.not_le.mpr h.2)
    exact ⟨store n, _, bind_ok.mpr ⟨store n, _, hrun, rfl⟩, rfl, rfl⟩
  returns count st a count' st' h := by
    have hread : Reader.ofStore store n = .ok a := (listSubjects_inv (expandM_lift_ok h)).1
    obtain ⟨b, s, -, hb⟩ := bind_ok.mp h
    cases hb
    cases hread
    exact ⟨rfl, rfl, id⟩

theorem spends_cut {f : EvalM κ μ Unit} (hf : f = recordDepth ∨ f = recordCycle) (n : SubjectSet) :
    Spends max (do (f : EvalM κ μ Unit); return { expanded := n } : ExpandM κ μ Tree) 0 0
      (·.size = 1) where
  succeeds count st _ _ := by
    rcases hf with rfl | rfl
    · exact ⟨_, _, rfl, rfl, rfl⟩
    · exact ⟨_, _, rfl, rfl, rfl⟩
  returns := by
    rcases hf with rfl | rfl <;> rintro count st _ _ _ ⟨⟩ <;> exact ⟨rfl, rfl, id⟩

end Spends

section Expansion

open Expand

variable {κ μ : Type} {max : ℤ} {store : SubjectSet → List Subject}
  {visit : SubjectSet → ExpandM κ μ Tree} {seen : SubjectSet → List Event} {n : SubjectSet}

/-- The expansion spends what the events say, and returns a tree of their size. -/
def Accounts (max : ℤ) (x : ExpandM κ μ Tree) (es : List Event) : Prop :=
  Spends max x (total Event.charge es) (total Event.read es) (·.size = total Event.entry es)

def AccountsAll (max : ℤ) (x : ExpandM κ μ (List Tree)) (es : List Event) : Prop :=
  Spends max x (total Event.charge es) (total Event.read es)
    fun ts => (ts.map Tree.size).sum = total Event.entry es

theorem accountsAll_nil : AccountsAll max (pure [] : ExpandM κ μ (List Tree)) [] := spends_pure rfl

theorem accountsAll_cons {x : ExpandM κ μ Tree} {xs : ExpandM κ μ (List Tree)}
    {es es' : List Event} (hx : Accounts max x es) (hxs : AccountsAll max xs es') :
    AccountsAll max (do let t ← x; let ts ← xs; return t :: ts) (es ++ es') := by
  refine (hx.bind fun t ht => hxs.bind fun ts hts => spends_pure
    (P := fun ts : List Tree => (ts.map Tree.size).sum =
      total Event.entry (es ++ es')) ?_).imp ?_ ?_
      fun _ => id
  · rw [List.map_cons, List.sum_cons, total_append, ht, hts]
  · simp
  · simp

theorem accounts_expandAll {cs : List Rewrite} (h : ∀ c ∈ cs,
      Accounts max (expandRewrite (.ofStore store) max visit n c) (rewriteEvents store seen n c)) :
    AccountsAll max (expandAll (.ofStore store) max visit n cs)
      (cs.flatMap (rewriteEvents store seen n)) := by
  induction cs with
  | nil => exact accountsAll_nil
  | cons c cs ih =>
    rw [List.forall_mem_cons] at h
    rw [expandAll, List.flatMap_cons]
    exact accountsAll_cons h.1 (ih h.2)

theorem accounts_expandPointers (hvisit : ∀ y, Accounts max (visit y) (seen y)) (rel : GoString)
    (ss : List Subject) : AccountsAll max (expandPointers visit rel ss)
      ((ss.filterMap (Request.pointsTo rel)).flatMap seen) := by
  induction ss with
  | nil => exact accountsAll_nil
  | cons s ss ih =>
    rw [expandPointers]
    cases hset : s.set with
    | none =>
      rw [List.filterMap_cons_none (by simp [Request.pointsTo, hset])]
      exact ih
    | some set =>
      rw [List.filterMap_cons_some (by simp [Request.pointsTo, hset]; rfl), List.flatMap_cons]
      exact accountsAll_cons (hvisit _) ih

theorem accounts_branch {x : ExpandM κ μ (List Tree)} {es : List Event}
    (hx : AccountsAll max x es) {f : List Tree → Tree}
    (hf : ∀ ts, (f ts).size = 1 + (ts.map Tree.size).sum) :
    Accounts max (do bump max 1; let ts ← x; return f ts) (.branch :: es) := by
  refine ((spends_bump 1).bind fun _ _ => hx.bind fun ts hts => spends_pure
    (P := (Tree.size · = total Event.entry (.branch :: es))) ?_).imp ?_ ?_ fun _ => id
  · rw [hf, hts]
    rfl
  · simp [Event.charge]
  · simp [Event.read]

theorem accounts_listing {y : SubjectSet} {f : List Subject → ExpandM κ μ Tree} {es : List Event}
    (hf : Spends max (f (store y)) (total Event.charge es) (total Event.read es)
      (·.size = 1 + total Event.entry es)) :
    Accounts max (do
        bump max 1
        let ss ← (liftM (listSubjects (.ofStore store) y : EvalM κ μ _) : ExpandM κ μ _)
        f ss)
      (.listing :: es) := by
  have hlist := (spends_listSubjects y).bind fun ss (hss : ss = store y) => hss ▸ hf
  refine ((spends_bump 1).bind fun _ _ => hlist).imp ?_ ?_ fun t ht => ht
  · simp [Event.charge]
  · simp [Event.read]

theorem total_subjectEvents (ss : List Subject) :
    total Event.charge (subjectEvents ss) = ss.length ∧
      total Event.read (subjectEvents ss) = 0 := by
  induction ss with
  | nil => exact ⟨rfl, rfl⟩
  | cons s ss ih =>
    rw [subjectEvents, List.map_cons, ← subjectEvents, total_cons, total_cons, ih.1, ih.2]
    cases s.wildcard <;> simp [Event.charge, Event.read, Nat.add_comm]

theorem accounts_this (n : SubjectSet) :
    Accounts max (do bump max 1; expandThis (.ofStore store) max n : ExpandM κ μ Tree)
      (.listing :: subjectEvents (store n)) := by
  obtain ⟨hcharge, hread⟩ := total_subjectEvents (store n)
  have hleaf : Spends max (do
        bump max (store n).length
        return (store n).foldl Tree.addSubject { expanded := n } : ExpandM κ μ Tree)
      (total Event.charge (subjectEvents (store n))) (total Event.read (subjectEvents (store n)))
      (·.size = 1 + total Event.entry (subjectEvents (store n))) := by
    rw [hcharge, hread]
    refine (spends_bump _).bind fun _ _ => spends_pure ?_
    exact Tree.size_foldl_addSubject n (store n)
  exact accounts_listing hleaf

theorem accounts_pointers (hvisit : ∀ y, Accounts max (visit y) (seen y)) (n : SubjectSet)
    (ts rel : GoString) :
    Accounts max (do bump max 1; expandTupleToUserset (.ofStore store) visit n ts rel)
      (.listing :: ((store ⟨n.ns, n.objectID, ts⟩).filterMap
        (Request.pointsTo rel)).flatMap seen) := by
  have hpointers := accounts_expandPointers hvisit rel (store ⟨n.ns, n.objectID, ts⟩)
  refine accounts_listing (hpointers.bind fun subs hsubs => spends_pure ?_)
  rw [Tree.size_union, hsubs]

theorem accounts_rewrite (hvisit : ∀ y, Accounts max (visit y) (seen y)) (rw : Rewrite) :
    Accounts max (expandRewrite (.ofStore store) max visit n rw)
      (rewriteEvents store seen n rw) := by
  induction rw using Rewrite.byView with
  | this rw hv =>
    rw [expandRewrite_eq_view, rewriteEvents_eq, hv]
    exact accounts_this n
  | union rw cs hv ih =>
    rw [expandRewrite_eq_view, rewriteEvents_eq, hv]
    exact accounts_branch (accounts_expandAll ih) (Tree.size_union n)
  | intersection rw cs hv ih =>
    rw [expandRewrite_eq_view, rewriteEvents_eq, hv]
    exact accounts_branch (accounts_expandAll ih) (Tree.size_intersection n)
  | exclusion rw inc exc hv ihInc ihExc =>
    rw [expandRewrite_eq_view, rewriteEvents_eq, hv]
    refine ((spends_bump 1).bind fun _ _ => ihInc.bind fun included hinc =>
      ihExc.bind fun excluded hexc => spends_pure
      (P := (Tree.size · = total Event.entry _)) ?_).imp ?_ ?_ fun _ => id
    · rw [Tree.size_exclude, hinc, hexc, viewEvents, total_cons, total_append]
      rfl
    · simp [viewEvents, Event.charge]
    · simp [viewEvents, Event.read]
  | computed rw rel hv =>
    rw [expandRewrite_eq_view, rewriteEvents_eq, hv]
    refine ((spends_bump 1).bind fun _ _ => hvisit _).imp rfl rfl fun t ht => ?_
    rw [ht, viewEvents, total_cons, Event.entry, Nat.zero_add]
  | tupleToUserset rw ts rel hv =>
    rw [expandRewrite_eq_view, rewriteEvents_eq, hv]
    exact accounts_pointers hvisit n ts rel

theorem accounts_expand (m : Model) (left : ℕ) (visited : Finset GoString) (n : SubjectSet) :
    Accounts max (expand m (.ofStore store) max left visited n : ExpandM κ μ Tree)
      (events m store left visited n) := by
  induction left generalizing visited n with
  | zero => exact spends_cut (.inl rfl) n
  | succ left ih =>
    rw [expand, events]
    split_ifs
    · exact spends_cut (.inr rfl) n
    · exact accounts_rewrite (ih _) _

end Expansion

/-! ## The node cap -/

theorem Engine.expandWithModel_ok_iff {e : Engine} {m : Model} {projectID tenantID : GoString}
    {n : SubjectSet} {maxNodes maxReads : ℤ} {tree : Tree} :
    (e.expandWithModel m projectID tenantID n maxNodes maxReads).result = .ok tree ↔
      ∃ (count : ℕ) (st : SearchState GoString GoString),
        Expand.expand m (e.reader projectID tenantID) maxNodes (e.maxDepth + 1) ∅ n 0
          (newEvalState (expandBudget (e.effectiveMaxReads maxReads) maxNodes)) =
            .ok (tree, count) st := by
  rw [Engine.expandWithModel_eq]
  cases Expand.expand m (e.reader projectID tenantID) maxNodes (e.maxDepth + 1) ∅ n 0
      (newEvalState (expandBudget (e.effectiveMaxReads maxReads) maxNodes)) with
  | ok p st =>
    obtain ⟨t, count⟩ := p
    simp
  | error err st => simp

/-- A node cap that an expansion keeps gives it enough reads. -/
theorem withinCap_expandBudget {base maxNodes : ℤ} {k : ℕ} (h : (k : ℤ) ≤ maxNodes) :
    WithinCap (expandBudget base maxNodes) k := by
  unfold expandBudget fanOutHeadroom WithinCap
  split_ifs <;> omega

/-- Every response within every node cap is as small as the cap says if and only if the
expansion meets at most as many cuts as computed relations and public subjects together. -/
theorem expand_within_cap_iff (e : Engine) (m : Model)
    (store : GoString → GoString → SubjectSet → List Subject) (projectID tenantID : GoString)
    (n : SubjectSet) (maxReads : ℤ) :
    (∀ maxNodes > 0, ∀ tree,
      (({ e with reader := fun p t => .ofStore (store p t) } : Engine).expandWithModel m projectID
        tenantID n maxNodes maxReads).result = .ok tree → tree.size ≤ maxNodes) ↔
      Expand.Covers (Expand.events m (store projectID tenantID) (e.maxDepth + 1) ∅ n) := by
  set es := Expand.events m (store projectID tenantID) (e.maxDepth + 1) ∅ n
  have haccounts : ∀ max, Accounts max (Expand.expand m (.ofStore (store projectID tenantID)) max
      (e.maxDepth + 1) ∅ n : ExpandM GoString GoString Tree) es :=
    fun max => accounts_expand m (e.maxDepth + 1) ∅ n
  rw [Expand.covers_iff]
  constructor
  · intro h
    have hreads := Expand.total_read_le es
    have hpos : 0 < Expand.total Expand.Event.charge es := Expand.charged_pos _
    -- With this cap the expansion just succeeds.
    set cap := Expand.total Expand.Event.charge es
    have hbudget : WithinCap (expandBudget (e.effectiveMaxReads maxReads) cap)
        (0 + Expand.total Expand.Event.read es) :=
      withinCap_expandBudget (by omega)
    obtain ⟨tree, st, hrun, -⟩ := (haccounts cap).succeeds 0 (newEvalState _)
      (fun _ => by omega) hbudget
    obtain ⟨htree, -⟩ := (haccounts cap).returns _ _ _ _ _ hrun
    have hle := h cap (by omega) tree (Engine.expandWithModel_ok_iff.mpr ⟨_, st, hrun⟩)
    omega
  · intro hcuts maxNodes hmax tree htree
    obtain ⟨count, st, hrun⟩ := Engine.expandWithModel_ok_iff.mp htree
    obtain ⟨htree, rfl, hcaps⟩ := (haccounts _).returns _ _ _ _ _ hrun
    have hcap := hcaps (fun _ => by omega) hmax
    omega

namespace Moebius

/-- A resource that is stored twice as its own parent. -/
def engine : Engine where
  reader _ _ n := .ok (
    if n = ⟨str "resource", str "f", str "parent"⟩ then
      [{ set := some ⟨"resource", "f", "editor"⟩ }, { set := some ⟨"resource", "f", "viewer"⟩ }]
    else [])

end Moebius

/-- With the built-in model, the cap of nine nodes lets a response of eleven through. -/
theorem expand_exceeds_cap :
    ((Moebius.engine.expandWithModel defaultModel "proj" "t" ⟨"resource", "f", "viewer"⟩ 9
      0).result.map Tree.size) = .ok 11 := by
  decide +kernel

end WorkspaceAuthz.Authz
