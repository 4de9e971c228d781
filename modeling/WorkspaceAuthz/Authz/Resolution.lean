import WorkspaceAuthz.Authz.Members
import WorkspaceAuthz.Authz.Walks

/-! # What resolved members stand for

The resolution of a userset follows stored usersets, computed relations and
tuple-to-userset rewrites; where it comes back to a key in progress or gets too
deep it is cut off and counts what it has met as empty. Resolved members are
members indeed, as long as nothing below an odd number of Exclude sides is cut
off and no side of an exclusion in a positive place is public. This holds for any
reading `V` of usersets that follows the operators.
-/
namespace WorkspaceAuthz.Authz
open Go RecursiveFormula

/-! ## Paths of a resolution -/

/-- How a node is reached: as a stored userset, which is resolved on its own, or
by a rewrite, which is expanded in place. -/
inductive Hop where
  | stored
  | rewritten
deriving DecidableEq, Repr

/-- The nodes of a path that are being resolved. -/
def resolving : List (Hop × SubjectSet) → List SubjectSet
  | [] => []
  | (.stored, y) :: path => y :: resolving path
  | (.rewritten, _) :: path => resolving path

/-- The nodes of a path that are being expanded for the last resolved one. -/
def expanding : List (Hop × SubjectSet) → List SubjectSet
  | [] => []
  | (.stored, y) :: _ => [y]
  | (.rewritten, y) :: path => y :: expanding path

/-- The last node of a path is not evaluated. -/
def CutOff (maxDepth : ℕ) : List (Hop × SubjectSet) → Prop
  | [] => False
  | (.stored, y) :: path =>
    maxDepth < (resolving path).length ∨ visitKey y ∈ (resolving path).map visitKey
  | (.rewritten, y) :: path =>
    maxDepth + 1 < (resolving path).length + (expanding path).length ∨
      visitKey y ∈ (expanding path).map visitKey

instance (maxDepth : ℕ) : DecidablePred (CutOff maxDepth)
  | [] => inferInstanceAs (Decidable False)
  | (.stored, _) :: _ => inferInstanceAs (Decidable (_ ∨ _))
  | (.rewritten, _) :: _ => inferInstanceAs (Decidable (_ ∨ _))

section Relations

variable (m : Model) (reader : Reader)

/-- The nodes that the expansion of a rewrite leads to. -/
inductive Leads (x : SubjectSet) (rw : Rewrite) : Hop → SubjectSet → Prop
  | computed {rel} : rw.view = .computed rel → Leads x rw .rewritten ⟨x.ns, x.objectID, rel⟩
  | pointer {ts rel ss s set} : rw.view = .tupleToUserset ts rel →
      reader ⟨x.ns, x.objectID, ts⟩ = .ok ss → s ∈ ss → s.set = some set →
      Leads x rw .rewritten ⟨set.ns, set.objectID, rel⟩
  | member {ss s y} : rw.view = .this → reader x = .ok ss → s ∈ ss → s.wildcard = false →
      s.set = some y → Leads x rw .stored y

/-- `Resolves m reader maxDepth n path sides x rw`: the resolution of `n` expands `rw`
at the node `x`, reached on `path` and below `sides`. -/
inductive Resolves (maxDepth : ℕ) (n : SubjectSet) :
    List (Hop × SubjectSet) → List Side → SubjectSet → Rewrite → Prop
  | start : Resolves maxDepth n [(.stored, n)] [] n (m.rewrite n.ns n.relation)
  | union {path sides x rw cs c} : Resolves maxDepth n path sides x rw → rw.view = .union cs →
      c ∈ cs → Resolves maxDepth n path sides x c
  | intersection {path sides x rw cs c} : Resolves maxDepth n path sides x rw →
      rw.view = .intersection cs → c ∈ cs → Resolves maxDepth n path sides x c
  | includes {path sides x rw inc exc} : Resolves maxDepth n path sides x rw →
      rw.view = .exclusion inc exc → Resolves maxDepth n path (.includes :: sides) x inc
  | excludes {path sides x rw inc exc} : Resolves maxDepth n path sides x rw →
      rw.view = .exclusion inc exc → Resolves maxDepth n path (.excludes :: sides) x exc
  | hop {path sides x rw hop y} : Resolves maxDepth n path sides x rw → Leads reader x rw hop y →
      ¬ CutOff maxDepth ((hop, y) :: path) →
      Resolves maxDepth n ((hop, y) :: path) sides y (m.rewrite y.ns y.relation)

/-- The public is a member of what `rw` grants at `x`, exclusions left aside. -/
inductive Public : SubjectSet → Rewrite → Prop
  | wildcard {x rw ss s} : rw.view = .this → reader x = .ok ss → s ∈ ss → s.wildcard = true →
      Public x rw
  | union {x rw cs c} : rw.view = .union cs → c ∈ cs → Public x c → Public x rw
  | intersection {x rw cs} : rw.view = .intersection cs → (∀ c ∈ cs, Public x c) → Public x rw
  | exclusion {x rw inc exc} : rw.view = .exclusion inc exc → Public x inc → Public x rw
  | hop {x rw hop y} : Leads reader x rw hop y → Public y (m.rewrite y.ns y.relation) → Public x rw

variable (maxDepth : ℕ) (n : SubjectSet) (V : SubjectSet → Rewrite → Verdicts)

/-- Exclusions in positive places include the public only if they exclude nobody. -/
def IncludesSoundly : Prop :=
  ∀ path sides x rw inc exc, Resolves m reader maxDepth n path sides x rw →
    negative sides = false → rw.view = .exclusion inc exc → Public m reader x inc →
    ∀ u, V x exc false u

/-- Exclusions in positive places do not exclude the public. -/
def ExcludesSoundly : Prop :=
  ∀ path sides x rw inc exc, Resolves m reader maxDepth n path sides x rw →
    negative sides = false → rw.view = .exclusion inc exc → ¬ Public m reader x exc

/-- Nothing that withholds access is cut off. -/
def CutsSoundly : Prop :=
  ∀ path sides x rw hop y, Resolves m reader maxDepth n path sides x rw →
    negative sides = true → Leads reader x rw hop y → ¬ CutOff maxDepth ((hop, y) :: path)

def leafVerdicts (ss : List Subject) : Verdicts
  | true, u => u ∈ ss.filterMap Subject.leafUser ∨ ∃ s ∈ ss, s.wildcard = true
  | false, u => u ∉ ss.filterMap Subject.leafUser ∧ ∀ s ∈ ss, s.wildcard = false

/-- `V` follows the operators wherever the resolution of `n` gets to. -/
structure Interprets : Prop where
  this {path sides x rw ss v u} : Resolves m reader maxDepth n path sides x rw →
    rw.view = .this → reader x = .ok ss →
    Verdicts.join (leafVerdicts ss) (.joinAll (fun y => V y (m.rewrite y.ns y.relation))
      (ss.filterMap Subject.leafSet)) v u → V x rw v u
  union {x rw cs v u} : rw.view = .union cs → Verdicts.joinAll (V x) cs v u → V x rw v u
  intersection {x rw cs v u} : rw.view = .intersection cs → Verdicts.meetAll (V x) cs v u →
    V x rw v u
  exclusion {x rw inc exc v u} : rw.view = .exclusion inc exc →
    Verdicts.minus (V x inc) (V x exc) v u → V x rw v u
  computed {x rw rel v u} : rw.view = .computed rel →
    V ⟨x.ns, x.objectID, rel⟩ (m.rewrite x.ns rel) v u → V x rw v u
  pointers {path sides x rw ts rel ss v u} : Resolves m reader maxDepth n path sides x rw →
    rw.view = .tupleToUserset ts rel → reader ⟨x.ns, x.objectID, ts⟩ = .ok ss →
    Verdicts.joinAll (fun set : SubjectSet => V ⟨set.ns, set.objectID, rel⟩ (m.rewrite set.ns rel))
      (ss.filterMap (·.set)) v u → V x rw v u

/-- What the resolution of `n` needs in order to be sound for `V`. -/
structure SoundFor : Prop where
  interprets : Interprets m reader maxDepth n V
  includes : IncludesSoundly m reader maxDepth n V
  excludes : ExcludesSoundly m reader maxDepth n
  cuts : CutsSoundly m reader maxDepth n

end Relations

/-! ## Runs of an expansion -/

section Runs

variable {κ μ α β : Type} {c c' : ℕ} {st st' : SearchState κ μ}

theorem expandM_bind_ok {x : ExpandM κ μ α} {f : α → ExpandM κ μ β} {b : β} :
    (x >>= f) c st = .ok (b, c') st' ↔
      ∃ a c₁ s, x c st = .ok (a, c₁) s ∧ f a c₁ s = .ok (b, c') st' := by
  change (x c >>= fun p => f p.1 p.2) st = _ ↔ _
  rw [bind_ok]
  exact ⟨fun ⟨p, s, hx, hf⟩ => ⟨p.1, p.2, s, hx, hf⟩, fun ⟨a, c₁, s, hx, hf⟩ =>
    ⟨(a, c₁), s, hx, hf⟩⟩

theorem expandM_lift_ok {x : EvalM κ μ α} {a : α}
    (h : (liftM x : ExpandM κ μ α) c st = .ok (a, c') st') : x st = .ok a st' := by
  obtain ⟨b, s, hx, hb⟩ := bind_ok.mp h
  cases hb
  exact hx

theorem expandM_lift_run {x : EvalM κ μ α} {a : α} (h : x st = .ok a st') (c : ℕ) :
    (liftM x : ExpandM κ μ α) c st = .ok (a, c) st' := by
  have hrun : (x >>= fun a => pure (a, c) : EvalM κ μ (α × ℕ)) st = .ok (a, c) st' :=
    bind_ok.mpr ⟨a, st', h, rfl⟩
  exact hrun

/-- A tree that an expansion may return. -/
def Yields (x : ExpandM κ μ α) (a : α) : Prop := ∃ c st c' st', x c st = .ok (a, c') st'

theorem yields_bind {x : ExpandM κ μ α} {f : α → ExpandM κ μ β} {b : β} (h : Yields (x >>= f) b) :
    ∃ a, Yields x a ∧ Yields (f a) b := by
  obtain ⟨c, st, c', st', h⟩ := h
  obtain ⟨a, c₁, s, hx, hf⟩ := expandM_bind_ok.mp h
  exact ⟨a, ⟨c, st, c₁, s, hx⟩, c₁, s, c', st', hf⟩

theorem yields_pure {a b : α} (h : Yields (pure a : ExpandM κ μ α) b) : b = a := by
  obtain ⟨c, st, c', st', h⟩ := h
  cases h
  rfl

theorem yields_listSubjects {reader : Reader} {n : SubjectSet} {ss : List Subject}
    (h : Yields (liftM (listSubjects reader n : EvalM κ μ _) : ExpandM κ μ _) ss) :
    reader n = .ok ss := by
  obtain ⟨c, st, c', st', h⟩ := h
  exact (listSubjects_inv (expandM_lift_ok h)).1

variable {reader : Reader} {max : ℤ} {visit : SubjectSet → ExpandM κ μ Tree} {x : SubjectSet}

def expandView (reader : Reader) (max : ℤ) (visit : SubjectSet → ExpandM κ μ Tree)
    (n : SubjectSet) : Rewrite.View → ExpandM κ μ Tree
  | .this => Expand.expandThis reader max n
  | .union cs => do
    let subs ← Expand.expandAll reader max visit n cs
    return { expanded := n, union := subs }
  | .intersection cs => do
    let subs ← Expand.expandAll reader max visit n cs
    return { expanded := n, intersection := subs }
  | .exclusion inc exc => do
    let included ← Expand.expandRewrite reader max visit n inc
    let excluded ← Expand.expandRewrite reader max visit n exc
    return { expanded := n, exclude := some (included, excluded) }
  | .computed rel => visit ⟨n.ns, n.objectID, rel⟩
  | .tupleToUserset ts rel => Expand.expandTupleToUserset reader visit n ts rel

theorem expandRewrite_eq_view (rw : Rewrite) :
    Expand.expandRewrite reader max visit x rw =
      (do bump max 1; expandView reader max visit x rw.view) := by
  unfold Expand.expandRewrite Rewrite.view
  by_cases h : rw.isThis
  · rw [if_pos h, if_pos h]
    rfl
  · rw [if_neg h, if_neg h]
    obtain ⟨union, intersection, exclusion, computed, ts, rel⟩ := rw
    cases union with
    | cons c cs => rfl
    | nil => cases intersection with
      | cons c cs => rfl
      | nil => cases exclusion with
        | some sides => rfl
        | none =>
          by_cases hc : computed = []
          · have hts : ts ≠ [] := by
              rintro rfl
              exact h (by simp [Rewrite.isThis, hc])
            simp [expandView, hc, hts]
          · simp [expandView, hc]

theorem forall₂_imp_mem {R S : α → β → Prop} {as : List α} {bs : List β}
    (h : List.Forall₂ R as bs) (hRS : ∀ a ∈ as, ∀ b, R a b → S a b) : List.Forall₂ S as bs := by
  induction h with
  | nil => exact .nil
  | cons hab _ ih =>
    rw [List.forall_mem_cons] at hRS
    exact .cons (hRS.1 _ hab) (ih hRS.2)

theorem yields_expandAll {cs : List Rewrite} {ts : List Tree}
    (h : Yields (Expand.expandAll reader max visit x cs) ts) :
    List.Forall₂ (fun c t => Yields (Expand.expandRewrite reader max visit x c) t) cs ts := by
  induction cs generalizing ts with
  | nil =>
    rw [Expand.expandAll] at h
    rw [yields_pure h]
    exact .nil
  | cons c cs ih =>
    rw [Expand.expandAll] at h
    obtain ⟨t, ht, h⟩ := yields_bind h
    obtain ⟨ts', hts, h⟩ := yields_bind h
    rw [yields_pure h]
    exact .cons ht (ih hts)

theorem yields_expandPointers {rel : GoString} {ss : List Subject} {ts : List Tree}
    (h : Yields (Expand.expandPointers visit rel ss) ts) :
    List.Forall₂ (fun set t => Yields (visit ⟨set.ns, set.objectID, rel⟩) t)
      (ss.filterMap (·.set)) ts := by
  induction ss generalizing ts with
  | nil =>
    rw [Expand.expandPointers] at h
    rw [yields_pure h]
    exact .nil
  | cons s ss ih =>
    rw [Expand.expandPointers] at h
    cases hset : s.set with
    | none =>
      simp only [hset] at h
      rw [List.filterMap_cons_none hset]
      exact ih h
    | some set =>
      simp only [hset] at h
      rw [List.filterMap_cons_some hset]
      obtain ⟨t, ht, h⟩ := yields_bind h
      obtain ⟨ts', hts, h⟩ := yields_bind h
      rw [yields_pure h]
      exact .cons ht (ih hts)

end Runs

/-! ## The members of a tree -/

section Trees

variable {κ μ : Type} {resolve : SubjectSet → EvalM κ μ Members} {x : SubjectSet} {neg : Bool}

theorem membersOfTree_union (ts : List Tree) :
    membersOfTree resolve { expanded := x, union := ts } =
      collectMembers (membersOfTree resolve) ts {} := by
  cases ts with
  | nil => rfl
  | cons t ts => rw [membersOfTree, membersOfUnion_eq]

theorem membersOfTree_intersection {ts : List Tree} (hne : ts ≠ []) :
    membersOfTree resolve { expanded := x, intersection := ts } =
      (do let acc ← membersOfIntersection resolve ts none; pure (Members.ofAcc acc)) := by
  cases ts with
  | nil => exact absurd rfl hne
  | cons t ts =>
    rw [membersOfTree]
    refine congrArg (membersOfIntersection resolve (t :: ts) none >>= ·) (funext fun acc => ?_)
    cases acc <;> rfl

theorem answers_bare (V : Verdicts) (Q : Prop) :
    Answers (membersOfTree resolve { expanded := x }) false V Q := by
  rintro st M st' ⟨⟩
  exact ⟨Members.under_empty V, fun he => by cases he⟩

theorem answers_union {α : Type} {V : α → Verdicts} {Q : α → Prop} {as : List α} {ts : List Tree}
    (h : List.Forall₂ (fun a t => Answers (membersOfTree resolve t) neg (V a) (Q a)) as ts) :
    Answers (membersOfTree resolve { expanded := x, union := ts }) neg (.joinAll V as)
      (∃ a ∈ as, Q a) := by
  rw [membersOfTree_union]
  intro st M st' hrun
  obtain ⟨happ, hpub⟩ := collectMembers_answers h (Members.approximates_none neg) st M st' hrun
  refine ⟨happ.mono fun v u hv => ?_, fun he => (hpub he).resolve_left Bool.false_ne_true⟩
  cases v with
  | true => exact hv.resolve_left (fun h => by cases h)
  | false => exact hv.2

theorem answers_intersection {α : Type} {V : α → Verdicts} {Q : α → Prop} {as : List α}
    {ts : List Tree} (hne : as ≠ [])
    (h : List.Forall₂ (fun a t => Answers (membersOfTree resolve t) neg (V a) (Q a)) as ts) :
    Answers (membersOfTree resolve { expanded := x, intersection := ts }) neg (.meetAll V as)
      (∀ a ∈ as, Q a) := by
  have hts : ts ≠ [] := by
    rintro rfl
    exact hne (List.forall₂_nil_right_iff.mp h)
  intro st M st' hrun
  rw [membersOfTree_intersection hts] at hrun
  obtain ⟨acc, s, hacc, hrun⟩ := bind_ok.mp hrun
  cases hrun
  obtain ⟨happ, hpub⟩ := membersOfIntersection_answers h (Members.approximates_all neg) hacc
  refine ⟨happ.mono fun v u hv => ?_, fun he => (hpub he).2⟩
  cases v with
  | true => exact hv.2
  | false => exact hv.resolve_left (fun h => by cases h)

theorem membersOfTree_exclude_ok {inc exc : Tree} {st st' : SearchState κ μ} {M : Members}
    (h : membersOfTree resolve { expanded := x, exclude := some (inc, exc) } st = .ok M st') :
    ∃ M₁ M₂ s₁, membersOfTree resolve inc st = .ok M₁ s₁ ∧
      membersOfTree resolve exc s₁ = .ok M₂ st' ∧ M = M₁.minus M₂ := by
  rw [membersOfTree] at h
  obtain ⟨M₁, s₁, h₁, h⟩ := bind_ok.mp h
  obtain ⟨M₂, s₂, h₂, h⟩ := bind_ok.mp h
  cases h
  exact ⟨M₁, M₂, s₁, h₁, h₂, rfl⟩

end Trees

/-! ## Resolved members are members -/

section Sound

variable {κ μ : Type} {m : Model} {reader : Reader} {maxDepth : ℕ} {n x : SubjectSet}
  {V : SubjectSet → Rewrite → Verdicts} {rw : Rewrite} {path : List (Hop × SubjectSet)}
  {sides : List Side} {resolve : SubjectSet → EvalM κ μ Members}

theorem leaf_approximates (ss : List Subject) (neg : Bool) :
    Members.Approximates
      { users := (ss.filterMap Subject.leafUser).toFinset, everyone := ss.any (·.wildcard) } neg
      (leafVerdicts ss) := by
  cases neg with
  | false =>
    refine ⟨fun u hu => .inl (List.mem_toFinset.mp hu), fun he u => .inr ?_⟩
    exact List.any_eq_true.mp he
  | true =>
    intro he u hu
    refine ⟨fun hmem => hu (List.mem_toFinset.mpr hmem), fun s hs => ?_⟩
    simpa using List.any_eq_false.mp he s hs

/-- The resolution of `x` as a whole answers rightly. -/
abbrev AnswersFor (m : Model) (reader : Reader) (V : SubjectSet → Rewrite → Verdicts)
    (z : EvalM κ μ Members) (neg : Bool) (x : SubjectSet) (rw : Rewrite) : Prop :=
  Answers z neg (V x rw) (Public m reader x rw)

theorem answers_leaf (h : Interprets m reader maxDepth n V)
    (hr : Resolves m reader maxDepth n path sides x rw) (hv : rw.view = .this)
    {ss : List Subject} (hread : reader x = .ok ss)
    (hresolve : ∀ y, Leads reader x rw .stored y →
      AnswersFor m reader V (resolve y) (negative sides) y (m.rewrite y.ns y.relation)) :
    AnswersFor m reader V (membersOfTree resolve (ss.foldl Tree.addSubject { expanded := x }))
      (negative sides) x rw := by
  have hleads : ∀ y ∈ ss.filterMap Subject.leafSet, Leads reader x rw .stored y := by
    intro y hy
    obtain ⟨s, hs, hset⟩ := List.mem_filterMap.mp hy
    unfold Subject.leafSet at hset
    split_ifs at hset with hw
    exact .member hv hread hs (Bool.eq_false_iff.mpr hw) hset
  have hsets : List.Forall₂ (fun y z => Answers (resolve z) (negative sides)
      (V y (m.rewrite y.ns y.relation))
      (Leads reader x rw .stored y ∧ Public m reader y (m.rewrite y.ns y.relation)))
      (ss.filterMap Subject.leafSet) (ss.filterMap Subject.leafSet) := by
    rw [List.forall₂_same]
    intro y hy st M st' hrun
    obtain ⟨hM, hpub⟩ := hresolve y (hleads y hy) st M st' hrun
    exact ⟨hM, fun he => ⟨hleads y hy, hpub he⟩⟩
  rw [Tree.foldl_addSubject]
  intro st M st' hrun
  obtain ⟨hM, hpub⟩ := collectMembers_answers hsets
    (leaf_approximates ss (negative sides)) st M st' hrun
  refine ⟨hM.mono fun v u => h.this hr hv hread, fun he => ?_⟩
  rcases hpub he with he | ⟨y, -, hlead, hpub⟩
  · obtain ⟨s, hs, hw⟩ := List.any_eq_true.mp he
    exact .wildcard hv hread hs hw
  · exact .hop hlead hpub

theorem expandRewrite_answers (h : SoundFor m reader maxDepth n V)
    {visit : SubjectSet → ExpandM κ μ Tree}
    (hvisit : ∀ sides rw y t, Resolves m reader maxDepth n path sides x rw →
      Leads reader x rw .rewritten y → Yields (visit y) t →
      AnswersFor m reader V (membersOfTree resolve t) (negative sides) y
        (m.rewrite y.ns y.relation))
    (hresolve : ∀ sides rw y, Resolves m reader maxDepth n path sides x rw →
      Leads reader x rw .stored y →
      AnswersFor m reader V (resolve y) (negative sides) y (m.rewrite y.ns y.relation))
    {t : Tree} (hr : Resolves m reader maxDepth n path sides x rw)
    (ht : Yields (Expand.expandRewrite reader 0 visit x rw) t) :
    AnswersFor m reader V (membersOfTree resolve t) (negative sides) x rw := by
  induction rw using Rewrite.byView generalizing sides t with
  | this rw hv =>
    rw [expandRewrite_eq_view, hv] at ht
    obtain ⟨_, -, ht⟩ := yields_bind ht
    obtain ⟨ss, hss, ht⟩ := yields_bind ht
    obtain ⟨_, -, ht⟩ := yields_bind ht
    have hread := yields_listSubjects hss
    rw [yields_pure ht]
    exact answers_leaf h.interprets hr hv hread fun y hlead => hresolve sides rw y hr hlead
  | union rw cs hv ih =>
    rw [expandRewrite_eq_view, hv] at ht
    obtain ⟨_, -, ht⟩ := yields_bind ht
    obtain ⟨ts, hts, ht⟩ := yields_bind ht
    rw [yields_pure ht]
    have hcs := forall₂_imp_mem (yields_expandAll hts) fun c hc t ht => ih c hc (.union hr hv hc) ht
    intro st M st' hrun
    obtain ⟨hM, hpub⟩ := answers_union hcs st M st' hrun
    refine ⟨hM.mono fun v u => h.interprets.union hv, fun he => ?_⟩
    obtain ⟨c, hc, hpub⟩ := hpub he
    exact .union hv hc hpub
  | intersection rw cs hv ih =>
    rw [expandRewrite_eq_view, hv] at ht
    obtain ⟨_, -, ht⟩ := yields_bind ht
    obtain ⟨ts, hts, ht⟩ := yields_bind ht
    rw [yields_pure ht]
    have hcs := forall₂_imp_mem (yields_expandAll hts) fun c hc t ht =>
      ih c hc (.intersection hr hv hc) ht
    intro st M st' hrun
    obtain ⟨hM, hpub⟩ := answers_intersection
      (Rewrite.view_intersection_ne_nil hv) hcs st M st' hrun
    exact ⟨hM.mono fun v u => h.interprets.intersection hv, fun he => .intersection hv (hpub he)⟩
  | exclusion rw inc exc hv ihInc ihExc =>
    rw [expandRewrite_eq_view, hv] at ht
    obtain ⟨_, -, ht⟩ := yields_bind ht
    obtain ⟨inc', hinc, ht⟩ := yields_bind ht
    obtain ⟨exc', hexc, ht⟩ := yields_bind ht
    rw [yields_pure ht]
    intro st M st' hrun
    obtain ⟨M₁, M₂, s₁, hrun₁, hrun₂, rfl⟩ := membersOfTree_exclude_ok hrun
    obtain ⟨hM₁, hpub₁⟩ := ihInc (.includes hr hv) hinc st M₁ s₁ hrun₁
    obtain ⟨hM₂, hpub₂⟩ := ihExc (.excludes hr hv) hexc s₁ M₂ st' hrun₂
    refine ⟨Members.Approximates.mono ?_ fun v u => h.interprets.exclusion hv,
      fun he => .exclusion hv (hpub₁ he)⟩
    cases hneg : negative sides with
    | false =>
      simp only [negative, hneg] at hM₁ hM₂
      have hexcluded : M₂.everyone = false := by
        by_contra he
        exact h.excludes _ _ _ _ _ _ hr hneg hv (hpub₂ (Bool.not_eq_false _ ▸ he))
      exact Members.Under.minus hM₁ hM₂ hexcluded fun he =>
        h.includes _ _ _ _ _ _ hr hneg hv (hpub₁ he)
    | true =>
      simp only [negative, hneg] at hM₁ hM₂
      exact Members.Over.minus hM₁ hM₂
  | computed rw rel hv =>
    rw [expandRewrite_eq_view, hv] at ht
    obtain ⟨_, -, ht⟩ := yields_bind ht
    have hlead : Leads reader x rw .rewritten ⟨x.ns, x.objectID, rel⟩ := .computed hv
    intro st M st' hrun
    obtain ⟨hM, hpub⟩ := hvisit sides rw _ t hr hlead ht st M st' hrun
    exact ⟨hM.mono fun v u => h.interprets.computed hv, fun he => .hop hlead (hpub he)⟩
  | tupleToUserset rw ts rel hv =>
    rw [expandRewrite_eq_view, hv] at ht
    obtain ⟨_, -, ht⟩ := yields_bind ht
    obtain ⟨ss, hss, ht⟩ := yields_bind ht
    obtain ⟨subs, hsubs, ht⟩ := yields_bind ht
    have hread := yields_listSubjects hss
    rw [yields_pure ht]
    have hsets : List.Forall₂ (fun set t => Answers (membersOfTree resolve t) (negative sides)
        (V ⟨set.ns, set.objectID, rel⟩ (m.rewrite set.ns rel))
        (Public m reader x rw)) (ss.filterMap (·.set)) subs := by
      refine forall₂_imp_mem (yields_expandPointers hsubs) fun set hset t ht => ?_
      obtain ⟨s, hs, hset⟩ := List.mem_filterMap.mp hset
      have hlead : Leads reader x rw .rewritten ⟨set.ns, set.objectID, rel⟩ :=
        .pointer hv hread hs hset
      intro st M st' hrun
      obtain ⟨hM, hpub⟩ := hvisit sides rw _ t hr hlead ht st M st' hrun
      exact ⟨hM, fun he => .hop hlead (hpub he)⟩
    intro st M st' hrun
    obtain ⟨hM, hpub⟩ := answers_union hsets st M st' hrun
    refine ⟨hM.mono fun v u => h.interprets.pointers hr hv hread, fun he => ?_⟩
    obtain ⟨set, -, hpub⟩ := hpub he
    exact hpub

theorem yields_recordDepth {t : Tree}
    (h : Yields (do (recordDepth : EvalM κ μ Unit); return { expanded := x } :
      ExpandM κ μ Tree) t) :
    t = { expanded := x } := by
  obtain ⟨_, -, h⟩ := yields_bind h
  exact yields_pure h

theorem yields_recordCycle {t : Tree}
    (h : Yields (do (recordCycle : EvalM κ μ Unit); return { expanded := x } :
      ExpandM κ μ Tree) t) :
    t = { expanded := x } := by
  obtain ⟨_, -, h⟩ := yields_bind h
  exact yields_pure h

/-- Where a resolution is cut off, an answer of nobody is right only in positive places. -/
theorem bare_answers (hneg : negative sides = false) :
    AnswersFor m reader V (membersOfTree resolve { expanded := x }) (negative sides) x rw := by
  rw [hneg]
  exact answers_bare _ _

/-- The expansion of everything that is not stored as a userset answers rightly, if
`resolve` does for the usersets stored below. The depth left is that of the nodes in
progress, resolved (`L`) and expanded ones together. -/
theorem expand_answers (h : SoundFor m reader maxDepth n V) {L : List SubjectSet}
    (hresolve : ∀ path sides x rw y, Resolves m reader maxDepth n path sides x rw →
      resolving path = L → Leads reader x rw .stored y →
      AnswersFor m reader V (resolve y) (negative sides) y (m.rewrite y.ns y.relation))
    (left : ℕ) {t : Tree} (hr : Resolves m reader maxDepth n path sides x rw)
    (hpath : resolving path = L) (hleft : left + L.length + (expanding path).length = maxDepth + 2)
    (ht : Yields (Expand.expandRewrite reader 0 (Expand.expand m reader 0 left
      ((expanding path).map visitKey).toFinset) x rw : ExpandM κ μ Tree) t) :
    AnswersFor m reader V (membersOfTree resolve t) (negative sides) x rw := by
  induction left generalizing path sides x rw t with
  | zero =>
    refine expandRewrite_answers h (fun sides rw y t hr hlead ht => ?_)
      (fun sides rw y hr hlead => hresolve path sides x rw y hr hpath hlead) hr ht
    have hcut : CutOff maxDepth ((.rewritten, y) :: path) := .inl (by rw [hpath]; omega)
    rw [yields_recordDepth ht]
    refine bare_answers (Bool.eq_false_iff.mpr fun hneg => ?_)
    exact h.cuts _ _ _ _ _ _ hr hneg hlead hcut
  | succ left ih =>
    refine expandRewrite_answers h (fun sides rw y t hr hlead ht => ?_)
      (fun sides rw y hr hlead => hresolve path sides x rw y hr hpath hlead) hr ht
    unfold Expand.expand at ht
    by_cases hkey : visitKey y ∈ ((expanding path).map visitKey).toFinset
    · rw [if_pos hkey] at ht
      have hcut : CutOff maxDepth ((.rewritten, y) :: path) := .inr (List.mem_toFinset.mp hkey)
      rw [yields_recordCycle ht]
      refine bare_answers (Bool.eq_false_iff.mpr fun hneg => ?_)
      exact h.cuts _ _ _ _ _ _ hr hneg hlead hcut
    · rw [if_neg hkey] at ht
      have hcut : ¬ CutOff maxDepth ((.rewritten, y) :: path) := by
        rintro (hdeep | hmem)
        · rw [hpath] at hdeep
          omega
        · exact hkey (List.mem_toFinset.mpr hmem)
      have hvisited : insert (visitKey y) ((expanding path).map visitKey).toFinset =
          ((expanding ((.rewritten, y) :: path)).map visitKey).toFinset := by
        simp [expanding]
      rw [hvisited] at ht
      refine ih (.hop hr hlead hcut) hpath ?_ ht
      simp only [expanding, List.length_cons]
      omega

/-- A userset that is reached on `path` is resolved rightly. -/
theorem resolveMembers_answers (h : SoundFor m reader maxDepth n V)
    (path : List (Hop × SubjectSet)) (sides : List Side) (left : ℕ) {y : SubjectSet}
    (hleft : left + (resolving path).length = maxDepth + 1)
    (hreached : ¬ CutOff maxDepth ((.stored, y) :: path) →
      Resolves m reader maxDepth n ((.stored, y) :: path) sides y (m.rewrite y.ns y.relation))
    (hcut : CutOff maxDepth ((.stored, y) :: path) → negative sides = false) :
    AnswersFor m reader V
      (resolveMembers m reader left ((resolving path).map visitKey).toFinset y : EvalM κ μ Members)
      (negative sides) y (m.rewrite y.ns y.relation) := by
  induction left generalizing path sides y with
  | zero =>
    rw [hcut (.inl (by omega))]
    intro st M st' hrun
    obtain ⟨_, s, -, hrun⟩ := bind_ok.mp hrun
    cases hrun
    exact ⟨Members.under_empty _, fun he => by cases he⟩
  | succ left ih =>
    unfold resolveMembers
    by_cases hkey : visitKey y ∈ ((resolving path).map visitKey).toFinset
    · rw [if_pos hkey, hcut (.inr (List.mem_toFinset.mp hkey))]
      intro st M st' hrun
      obtain ⟨_, s, -, hrun⟩ := bind_ok.mp hrun
      cases hrun
      exact ⟨Members.under_empty _, fun he => by cases he⟩
    · rw [if_neg hkey]
      intro st M st' hrun
      obtain ⟨⟨tree, count⟩, s, htree, hrun⟩ := bind_ok.mp hrun
      have hr := hreached (by
        rintro (hdeep | hmem)
        · omega
        · exact hkey (List.mem_toFinset.mpr hmem))
      have hvisited : insert (visitKey y) ((resolving path).map visitKey).toFinset =
          ((resolving ((.stored, y) :: path)).map visitKey).toFinset := by
        simp [resolving]
      have hyields : Yields (Expand.expandRewrite reader 0 (Expand.expand m reader 0 left
          ((expanding ((.stored, y) :: path)).map visitKey).toFinset) y
          (m.rewrite y.ns y.relation) : ExpandM κ μ Tree) tree :=
        ⟨0, st, count, s, by simpa [expanding, Expand.expand] using htree⟩
      refine expand_answers h ?_ left hr rfl ?_ hyields s M st' hrun
      · intro path' sides' x' rw' z hr' hpath hlead
        rw [hvisited, ← hpath]
        refine ih path' sides' ?_ (fun hcut => .hop hr' hlead hcut) fun hcut => ?_
        · rw [hpath]
          simp only [resolving, List.length_cons]
          omega
        · by_contra hneg
          exact h.cuts _ _ _ _ _ _ hr' (by simpa using hneg) hlead hcut
      · simp only [resolving, expanding, List.length_cons, List.length_nil]
        omega

theorem SoundFor.resolveMembers (h : SoundFor m reader maxDepth n V) {st st' : SearchState κ μ}
    {M : Members} (hrun : resolveMembers m reader (maxDepth + 1) ∅ n st = .ok M st') :
    M.Under (V n (m.rewrite n.ns n.relation)) ∧
      (M.everyone = true → Public m reader n (m.rewrite n.ns n.relation)) := by
  have hcut : ¬ CutOff maxDepth [(.stored, n)] := by
    rintro (hdeep | hmem)
    · exact absurd hdeep (Nat.not_lt_zero _)
    · exact absurd hmem List.not_mem_nil
  exact resolveMembers_answers h [] [] (maxDepth + 1) rfl (fun _ => .start)
    (fun hcut' => absurd hcut' hcut) st M st' hrun

end Sound

end WorkspaceAuthz.Authz
