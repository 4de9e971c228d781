import WorkspaceAuthz.Authz.ListObjects
import WorkspaceAuthz.Authz.Resolution

/-! # What holds of every step

The operations of the engine are put together from few steps: reads of stored
subjects, the guards' records, the node cap and checks of one node. A property that
these have and that sequences inherit is one of whole operations.
-/
namespace WorkspaceAuthz.Authz
open Go RecursiveFormula

variable {κ μ α β : Type}

theorem bump_eq (max : ℤ) (k count : ℕ) : (bump max k : ExpandM κ μ Unit) count =
    if 0 < max ∧ max < (count + k : ℕ) then throw .expandTooLarge else pure ((), count + k) := by
  have heq : (bump max k : ExpandM κ μ Unit) count =
      (if 0 < max ∧ max < (count + k : ℕ) then throw .expandTooLarge else pure () :
        ExpandM κ μ Unit) (count + k) := rfl
  rw [heq]
  split_ifs
  · rfl
  · rfl

/-! ## Expansion -/

/-- A property of the steps of an expansion under the node cap `max`, which sequences inherit.
Every read comes after the charge for a node. -/
structure Expansive (reader : Reader) (max : ℤ) (P : ∀ {α : Type}, ExpandM κ μ α → Prop) :
    Prop where
  pure {α : Type} (a : α) : P (pure a : ExpandM κ μ α)
  bind {α β : Type} {x : ExpandM κ μ α} {f : α → ExpandM κ μ β} :
    P x → (∀ a, P (f a)) → P (x >>= f)
  bump (k : ℕ) : P (bump max k : ExpandM κ μ Unit)
  listSubjects (n : SubjectSet) :
    P (do Authz.bump max 1; (listSubjects reader n : EvalM κ μ _) : ExpandM κ μ _)
  recordDepth : P (liftM (recordDepth : EvalM κ μ Unit) : ExpandM κ μ Unit)
  recordCycle : P (liftM (recordCycle : EvalM κ μ Unit) : ExpandM κ μ Unit)

namespace Expansive

variable {reader : Reader} {max : ℤ} {P : ∀ {α : Type}, ExpandM κ μ α → Prop}
  (h : Expansive reader max P) {visit : SubjectSet → ExpandM κ μ Tree}
include h

theorem expandPointers (hvisit : ∀ n, P (visit n)) (rel : GoString) (ss : List Subject) :
    P (Expand.expandPointers visit rel ss) := by
  induction ss with
  | nil => exact h.pure _
  | cons s ss ih =>
    rw [Expand.expandPointers]
    cases s.set with
    | none => exact ih
    | some set => exact h.bind (hvisit _) fun sub => h.bind ih fun subs => h.pure _

theorem expandAll {n : SubjectSet} {cs : List Rewrite}
    (hcs : ∀ r ∈ cs, P (Expand.expandRewrite reader max visit n r)) :
    P (Expand.expandAll reader max visit n cs) := by
  induction cs with
  | nil =>
    rw [Expand.expandAll]
    exact h.pure _
  | cons r cs ih =>
    rw [List.forall_mem_cons] at hcs
    rw [Expand.expandAll]
    exact h.bind hcs.1 fun sub => h.bind (ih hcs.2) fun subs => h.pure _

theorem expandRewrite (hvisit : ∀ n, P (visit n)) (n : SubjectSet) (rw : Rewrite) :
    P (Expand.expandRewrite reader max visit n rw) := by
  induction rw using Rewrite.byView with
  | this rw hv =>
    rw [expandRewrite_eq_view, hv, expandView, Expand.expandThis, ← bind_assoc]
    refine h.bind (h.listSubjects n) fun ss => ?_
    exact h.bind (h.bump _) fun _ => h.pure _
  | union rw cs hv ih =>
    rw [expandRewrite_eq_view, hv]
    refine h.bind (h.bump 1) fun _ => ?_
    exact h.bind (h.expandAll ih) fun subs => h.pure _
  | intersection rw cs hv ih =>
    rw [expandRewrite_eq_view, hv]
    refine h.bind (h.bump 1) fun _ => ?_
    exact h.bind (h.expandAll ih) fun subs => h.pure _
  | exclusion rw inc exc hv ihInc ihExc =>
    rw [expandRewrite_eq_view, hv]
    refine h.bind (h.bump 1) fun _ => ?_
    exact h.bind ihInc fun included => h.bind ihExc fun excluded => h.pure _
  | computed rw rel hv =>
    rw [expandRewrite_eq_view, hv]
    exact h.bind (h.bump 1) fun _ => hvisit _
  | tupleToUserset rw ts rel hv =>
    rw [expandRewrite_eq_view, hv, expandView, Expand.expandTupleToUserset, ← bind_assoc]
    refine h.bind (h.listSubjects _) fun ss => ?_
    exact h.bind (h.expandPointers hvisit rel ss) fun subs => h.pure _

theorem expand (m : Model) (left : ℕ) (visited : Finset GoString) (n : SubjectSet) :
    P (Expand.expand m reader max left visited n) := by
  induction left generalizing visited n with
  | zero => exact h.bind h.recordDepth fun _ => h.pure _
  | succ left ih =>
    unfold Expand.expand
    split_ifs
    · exact h.bind h.recordCycle fun _ => h.pure _
    · exact h.expandRewrite (ih _) n _

end Expansive

theorem Engine.expandWithModel_eq (e : Engine) (m : Model) (projectID tenantID : GoString)
    (n : SubjectSet) (maxNodes maxReads : ℤ) :
    e.expandWithModel m projectID tenantID n maxNodes maxReads =
      match Expand.expand m (e.reader projectID tenantID) maxNodes (e.maxDepth + 1) ∅ n 0
        (newEvalState (expandBudget (e.effectiveMaxReads maxReads) maxNodes) :
          SearchState GoString GoString) with
      | .ok (tree, _) st => ⟨.ok tree, st.backstops⟩
      | .error err st => ⟨.error err, st.backstops⟩ := by
  change Outcome.of (EStateM.map Prod.fst _ _) = _
  unfold EStateM.map
  cases Expand.expand m (e.reader projectID tenantID) maxNodes (e.maxDepth + 1) ∅ n 0
      (newEvalState (expandBudget (e.effectiveMaxReads maxReads) maxNodes) :
        SearchState GoString GoString) with
  | ok p st => rfl
  | error err st => rfl

/-- A property of the steps that expand and resolve usersets under the node cap `max`,
which sequences inherit. -/
structure Compositional (reader : Reader) (max : ℤ) (P : ∀ {α : Type}, EvalM κ μ α → Prop) :
    Prop where
  pure {α : Type} (a : α) : P (pure a : EvalM κ μ α)
  bind {α β : Type} {x : EvalM κ μ α} {f : α → EvalM κ μ β} : P x → (∀ a, P (f a)) → P (x >>= f)
  tooLarge {α : Type} : 0 < max → P (throw .expandTooLarge : EvalM κ μ α)
  listSubjects (n : SubjectSet) : P (listSubjects reader n : EvalM κ μ _)
  recordDepth : P (recordDepth : EvalM κ μ Unit)
  recordCycle : P (recordCycle : EvalM κ μ Unit)

namespace Compositional

variable {reader : Reader} {P : ∀ {α : Type}, EvalM κ μ α → Prop}

section Expansion

variable {max : ℤ} (h : Compositional reader max P) {visit : SubjectSet → ExpandM κ μ Tree}
include h

theorem lift {x : EvalM κ μ α} (hx : P x) (c : ℕ) : P ((liftM x : ExpandM κ μ α) c) :=
  h.bind hx fun a => h.pure (a, c)

theorem expandBind {x : ExpandM κ μ α} {f : α → ExpandM κ μ β} (hx : ∀ c, P (x c))
    (hf : ∀ a c, P (f a c)) (c : ℕ) : P ((x >>= f) c) :=
  h.bind (hx c) fun p => hf p.1 p.2

theorem bump (k c : ℕ) : P ((bump max k : ExpandM κ μ Unit) c) := by
  rw [bump_eq]
  split_ifs with hcap
  · exact h.tooLarge hcap.1
  · exact h.pure _

theorem expansive : Expansive reader max fun {α} (x : ExpandM κ μ α) => ∀ c, P (x c) where
  pure a c := h.pure (a, c)
  bind hx hf := h.expandBind hx hf
  bump := h.bump
  listSubjects n := h.expandBind (h.bump 1) fun _ => h.lift (h.listSubjects n)
  recordDepth := h.lift h.recordDepth
  recordCycle := h.lift h.recordCycle

end Expansion

/-! ## Resolution of members -/

section Members

variable (h : Compositional reader 0 P) {resolve : SubjectSet → EvalM κ μ Members}
include h

theorem collectMembers {resolve : α → EvalM κ μ Members} {as : List α}
    (has : ∀ a ∈ as, P (resolve a)) (out : Members) : P (Authz.collectMembers resolve as out) := by
  induction as generalizing out with
  | nil => exact h.pure out
  | cons a as ih =>
    rw [List.forall_mem_cons] at has
    exact h.bind has.1 fun members => ih has.2 _

theorem membersOfIntersection {ts : List Tree} (hts : ∀ t ∈ ts, P (membersOfTree resolve t))
    (acc : Option (Finset GoString)) : P (Authz.membersOfIntersection resolve ts acc) := by
  induction ts generalizing acc with
  | nil =>
    rw [Authz.membersOfIntersection]
    exact h.pure acc
  | cons t ts ih =>
    rw [List.forall_mem_cons] at hts
    rw [Authz.membersOfIntersection]
    exact h.bind hts.1 fun members => ih hts.2 _

theorem membersOfTree (hresolve : ∀ set, P (resolve set)) (t : Tree) :
    P (Authz.membersOfTree resolve t) := by
  match t with
  | ⟨_, c :: cs, _, _, _, _, _⟩ =>
    rw [Authz.membersOfTree, membersOfUnion_eq]
    exact h.collectMembers (fun t _ => membersOfTree hresolve t) _
  | ⟨_, [], c :: cs, _, _, _, _⟩ =>
    rw [Authz.membersOfTree]
    refine h.bind (h.membersOfIntersection (fun t _ => membersOfTree hresolve t) none) ?_
    intro acc
    cases acc with
    | none => exact h.pure _
    | some users => exact h.pure _
  | ⟨_, [], [], some (inc, exc), _, _, _⟩ =>
    rw [Authz.membersOfTree]
    refine h.bind (membersOfTree hresolve inc) fun included => ?_
    exact h.bind (membersOfTree hresolve exc) fun excluded => h.pure _
  | ⟨_, [], [], none, users, sets, wildcard⟩ =>
    rw [Authz.membersOfTree]
    exact h.collectMembers (fun set _ => hresolve set) _
termination_by sizeOf t
decreasing_by
  all_goals simp only [Tree.mk.sizeOf_spec, Option.some.sizeOf_spec, Prod.mk.sizeOf_spec]
  · have := List.sizeOf_lt_of_mem ‹t ∈ c :: cs›
    omega
  · have := List.sizeOf_lt_of_mem ‹t ∈ c :: cs›
    omega
  · omega
  · omega

theorem resolveMembers (m : Model) (left : ℕ) (visited : Finset GoString)
    (set : SubjectSet) : P (Authz.resolveMembers m reader left visited set) := by
  induction left generalizing visited set with
  | zero => exact h.bind h.recordDepth fun _ => h.pure _
  | succ left ih =>
    unfold Authz.resolveMembers
    split_ifs
    · exact h.bind h.recordCycle fun _ => h.pure _
    · exact h.bind (h.expansive.expand m (left + 1) ∅ set 0) fun p =>
        h.membersOfTree (fun set => ih _ set) p.1

end Members

end Compositional

/-! ## Operations with several checks -/

section Checks

variable {P : ∀ {α : Type}, EvalM GoString GoString α → Prop} {e : Engine}
  {projectID tenantID : GoString} (h : Compositional (e.reader projectID tenantID) 0 P)
  (hreset : P (modify fun st => { st with visited := ∅, memo := fun _ => none } :
    EvalM GoString GoString PUnit))
  (hcheck : ∀ r : Request, r.reader = e.reader projectID tenantID → ∀ (left : ℕ) (n : SubjectSet),
    P (r.check stringKeys left n false))
  (m : Model) (n : SubjectSet) (cc : Context)

include h hreset hcheck

theorem Compositional.checkMembers (users : List GoString) :
    P (e.checkMembers m projectID tenantID n cc users) := by
  induction users with
  | nil => exact h.pure false
  | cons u users ih =>
    refine h.bind hreset fun _ => h.bind (hcheck _ rfl _ n) fun ok => ?_
    cases ok with
    | true => exact h.pure true
    | false => exact ih

theorem Compositional.checkSet (order : MapOrder) (set : SubjectSet) :
    P (e.checkSet m projectID tenantID n cc order set) := by
  refine h.bind (hcheck _ rfl _ n) fun ok => ?_
  cases ok with
  | true => exact h.pure true
  | false =>
    refine h.bind (h.resolveMembers m _ ∅ set) fun members => ?_
    refine h.bind (h.checkMembers hreset hcheck m n cc _) fun ok => ?_
    cases ok with
    | true => exact h.pure true
    | false =>
      cases members.everyone with
      | true => exact h.bind (h.resolveMembers m _ ∅ n) fun target => h.pure _
      | false => exact h.pure false

theorem Compositional.checkObjects (ns relation userID : GoString) (ids : List GoString) :
    P (e.checkObjects m projectID tenantID ns relation userID ids) := by
  induction ids with
  | nil => exact h.pure []
  | cons id ids ih =>
    refine h.bind hreset fun _ => h.bind (hcheck _ rfl _ _) fun ok => ?_
    exact h.bind ih fun out => h.pure _

end Checks

end WorkspaceAuthz.Authz
