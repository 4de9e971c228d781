import WorkspaceAuthz.Authz.CheckSet

/-! # Sets of users with a public flag

Resolved members stand for a set of users from below, where they grant access,
and from above, where they withhold it. Union and intersection preserve both. A
difference turns an upper bound of what it excludes into a lower bound; for this
the excluded members must not be flagged as public, and a public set with
exclusions is no longer public.
-/
namespace WorkspaceAuthz.Authz
open Go RecursiveFormula

/-- Which users a userset is derived to hold (`true`) or to fail (`false`) for. -/
abbrev Verdicts := Bool → GoString → Prop

namespace Verdicts

def join (V W : Verdicts) : Verdicts
  | true, u => V true u ∨ W true u
  | false, u => V false u ∧ W false u

def meet (V W : Verdicts) : Verdicts
  | true, u => V true u ∧ W true u
  | false, u => V false u ∨ W false u

def minus (V W : Verdicts) : Verdicts
  | true, u => V true u ∧ W false u
  | false, u => V false u ∨ W true u

def joinAll {α : Type} (V : α → Verdicts) (as : List α) : Verdicts
  | true, u => ∃ a ∈ as, V a true u
  | false, u => ∀ a ∈ as, V a false u

def meetAll {α : Type} (V : α → Verdicts) (as : List α) : Verdicts
  | true, u => ∀ a ∈ as, V a true u
  | false, u => ∃ a ∈ as, V a false u

def none : Verdicts := fun v _ => v = false

def all : Verdicts := fun v _ => v = true

end Verdicts

namespace Members

variable {M M' : Members} {V W : Verdicts}

/-- Every member holds; of everyone if the members are flagged as public. -/
def Under (M : Members) (V : Verdicts) : Prop :=
  (∀ u ∈ M.users, V true u) ∧ (M.everyone = true → ∀ u, V true u)

/-- Whoever is no member fails, unless the members are flagged as public. -/
def Over (M : Members) (V : Verdicts) : Prop :=
  M.everyone = false → ∀ u, u ∉ M.users → V false u

/-- A lower bound in positive places, an upper bound in negative ones. -/
def Approximates (M : Members) : Bool → Verdicts → Prop
  | false, V => M.Under V
  | true, V => M.Over V

theorem Approximates.mono {neg : Bool} (h : M.Approximates neg V) (hVW : ∀ v u, V v u → W v u) :
    M.Approximates neg W := by
  cases neg with
  | false => exact ⟨fun u hu => hVW true u (h.1 u hu), fun he u => hVW true u (h.2 he u)⟩
  | true => exact fun he u hu => hVW false u (h he u hu)

theorem approximates_none (neg : Bool) : Members.Approximates {} neg .none := by
  cases neg with
  | false => exact ⟨fun u hu => absurd hu (Finset.notMem_empty u), fun he => by cases he⟩
  | true => exact fun _ _ _ => rfl

/-- A truncated userset counts as empty, which is no upper bound. -/
theorem under_empty (V : Verdicts) : Members.Approximates {} false V :=
  ⟨fun u hu => absurd hu (Finset.notMem_empty u), fun he => by cases he⟩

theorem Approximates.union {neg : Bool} (h : M.Approximates neg V) (h' : M'.Approximates neg W) :
    (M.union M').Approximates neg (V.join W) := by
  cases neg with
  | false =>
    refine ⟨fun u hu => ?_, fun he u => ?_⟩
    · exact (Finset.mem_union.mp hu).imp (h.1 u) (h'.1 u)
    · exact ((Bool.or_eq_true _ _).mp he).imp (fun he => h.2 he u) (fun he => h'.2 he u)
  | true =>
    intro he u hu
    obtain ⟨he, he'⟩ := Bool.or_eq_false_iff.mp he
    simp only [Members.union, Finset.mem_union, not_or] at hu
    exact ⟨h he u hu.1, h' he' u hu.2⟩

theorem union_everyone (he : (M.union M').everyone = true) :
    M.everyone = true ∨ M'.everyone = true := (Bool.or_eq_true _ _).mp he

/-! ## Intersections -/

/-- What the accumulator of an intersection stands for. -/
def ofAcc : Option (Finset GoString) → Members
  | Option.none => { everyone := true }
  | some users => { users := users }

def accumulate (acc : Option (Finset GoString)) (M : Members) : Option (Finset GoString) :=
  if M.everyone then acc
  else match acc with
    | Option.none => some M.users
    | some users => some (intersectUsers users M.users)

theorem mem_intersectUsers {a b : Finset GoString} {u : GoString} :
    u ∈ intersectUsers a b ↔ u ∈ a ∧ u ∈ b := by
  unfold intersectUsers
  split_ifs <;> simp [and_comm]

theorem approximates_all (neg : Bool) : (ofAcc Option.none).Approximates neg .all := by
  cases neg with
  | false => exact ⟨fun _ _ => rfl, fun _ _ => rfl⟩
  | true => exact fun he => by cases he

theorem Approximates.accumulate {neg : Bool} {acc : Option (Finset GoString)}
    (h : (ofAcc acc).Approximates neg V) (h' : M.Approximates neg W) :
    (ofAcc (accumulate acc M)).Approximates neg (V.meet W) := by
  unfold Members.accumulate
  cases hM : M.everyone with
  | true =>
    -- A public child does not restrict the accumulated users.
    rw [if_pos rfl]
    cases neg with
    | false => exact ⟨fun u hu => ⟨h.1 u hu, h'.2 hM u⟩, fun he u => ⟨h.2 he u, h'.2 hM u⟩⟩
    | true => exact fun he u hu => .inl (h he u hu)
  | false =>
    rw [if_neg Bool.false_ne_true]
    cases acc with
    | none =>
      cases neg with
      | false => exact ⟨fun u hu => ⟨h.2 rfl u, h'.1 u hu⟩, fun he => by cases he⟩
      | true => exact fun _ u hu => .inr (h' hM u hu)
    | some users =>
      cases neg with
      | false =>
        refine ⟨fun u hu => ?_, fun he => by cases he⟩
        obtain ⟨hu, hu'⟩ := mem_intersectUsers.mp hu
        exact ⟨h.1 u hu, h'.1 u hu'⟩
      | true =>
        intro _ u hu
        have hu : ¬ (u ∈ users ∧ u ∈ M.users) := fun hmem => hu (mem_intersectUsers.mpr hmem)
        rcases not_and_or.mp hu with hu | hu
        · exact .inl (h rfl u hu)
        · exact .inr (h' hM u hu)

theorem accumulate_everyone {acc : Option (Finset GoString)}
    (he : (ofAcc (accumulate acc M)).everyone = true) :
    (ofAcc acc).everyone = true ∧ M.everyone = true := by
  unfold accumulate at he
  cases hM : M.everyone <;> cases acc <;> simp_all [ofAcc]

/-! ## Differences -/

/-- The difference as it is computed: the flag of what is excluded is ignored. -/
def minus (M M' : Members) : Members := { users := M.users \ M'.users, everyone := M.everyone }

theorem Under.minus (h : M.Under V) (h' : M'.Over W) (hexcluded : M'.everyone = false)
    (hincluded : M.everyone = true → ∀ u, W false u) : (M.minus M').Under (V.minus W) := by
  refine ⟨fun u hu => ?_, fun he u => ⟨h.2 he u, hincluded he u⟩⟩
  obtain ⟨hu, hu'⟩ := Finset.mem_sdiff.mp hu
  exact ⟨h.1 u hu, h' hexcluded u hu'⟩

theorem Over.minus (h : M.Over V) (h' : M'.Under W) : (M.minus M').Over (V.minus W) := by
  intro he u hu
  have hu : ¬ (u ∈ M.users ∧ u ∉ M'.users) := fun hmem => hu (Finset.mem_sdiff.mpr hmem)
  by_cases hmem : u ∈ M'.users
  · exact .inr (h'.1 u hmem)
  · exact .inl (h he u fun hM => hu ⟨hM, hmem⟩)

end Members

/-! ## Loops -/

section Loops

variable {κ μ α β : Type} {V : α → Verdicts} {Q : α → Prop} {W : Verdicts} {neg : Bool}

/-- Whatever a resolution answers approximates `V`, and is public only if `Q`. -/
def Answers (x : EvalM κ μ Members) (neg : Bool) (V : Verdicts) (Q : Prop) : Prop :=
  ∀ st M st', x st = .ok M st' → M.Approximates neg V ∧ (M.everyone = true → Q)

theorem collectMembers_answers {resolve : β → EvalM κ μ Members} {as : List α} {bs : List β}
    (h : List.Forall₂ (fun a b => Answers (resolve b) neg (V a) (Q a)) as bs) {out : Members}
    (hout : out.Approximates neg W) :
    Answers (collectMembers resolve bs out) neg (W.join (.joinAll V as))
      (out.everyone = true ∨ ∃ a ∈ as, Q a) := by
  induction h generalizing out W with
  | nil =>
    rintro st M st' ⟨⟩
    refine ⟨hout.mono fun v u hv => ?_, .inl⟩
    cases v with
    | true => exact .inl hv
    | false => exact ⟨hv, fun a ha => absurd ha List.not_mem_nil⟩
  | @cons a b as bs hab _ ih =>
    intro st M st' hrun
    obtain ⟨M₁, s, hrun₁, hrun⟩ := bind_ok.mp hrun
    obtain ⟨happ, hpub⟩ := hab st M₁ s hrun₁
    obtain ⟨hM, hMpub⟩ := ih (hout.union happ) s M st' hrun
    refine ⟨hM.mono fun v u hv => ?_, fun he => ?_⟩
    · cases v with
      | true =>
        rcases hv with (hv | hv) | ⟨c, hc, hv⟩
        · exact .inl hv
        · exact .inr ⟨a, List.mem_cons_self, hv⟩
        · exact .inr ⟨c, List.mem_cons_of_mem a hc, hv⟩
      | false => exact ⟨hv.1.1, List.forall_mem_cons.mpr ⟨hv.1.2, hv.2⟩⟩
    · rcases hMpub he with he | ⟨c, hc, hq⟩
      · exact (Members.union_everyone he).imp_right fun he => ⟨a, List.mem_cons_self, hpub he⟩
      · exact .inr ⟨c, List.mem_cons_of_mem a hc, hq⟩

theorem membersOfUnion_eq (resolve : SubjectSet → EvalM κ μ Members) (ts : List Tree)
    (out : Members) :
    membersOfUnion resolve ts out = collectMembers (membersOfTree resolve) ts out := by
  induction ts generalizing out with
  | nil => rfl
  | cons t ts ih => simp only [membersOfUnion, collectMembers, ih]

theorem membersOfIntersection_answers {resolve : SubjectSet → EvalM κ μ Members} {as : List α}
    {ts : List Tree}
    (h : List.Forall₂ (fun a t => Answers (membersOfTree resolve t) neg (V a) (Q a)) as ts)
    {acc acc' : Option (Finset GoString)} (hacc : (Members.ofAcc acc).Approximates neg W)
    {st st' : SearchState κ μ} (hrun : membersOfIntersection resolve ts acc st = .ok acc' st') :
    (Members.ofAcc acc').Approximates neg (W.meet (.meetAll V as)) ∧
      ((Members.ofAcc acc').everyone = true →
        (Members.ofAcc acc).everyone = true ∧ ∀ a ∈ as, Q a) := by
  induction h generalizing acc W st with
  | nil =>
    cases hrun
    refine ⟨hacc.mono fun v u hv => ?_, fun he => ⟨he, fun a ha => absurd ha List.not_mem_nil⟩⟩
    cases v with
    | true => exact ⟨hv, fun a ha => absurd ha List.not_mem_nil⟩
    | false => exact .inl hv
  | @cons a t as ts hat _ ih =>
    obtain ⟨M, s, hrun₁, hrun⟩ := bind_ok.mp hrun
    obtain ⟨happ, hpub⟩ := hat st M s hrun₁
    obtain ⟨hM, hMpub⟩ := ih (hacc.accumulate happ) hrun
    refine ⟨hM.mono fun v u hv => ?_, fun he => ?_⟩
    · cases v with
      | true => exact ⟨hv.1.1, List.forall_mem_cons.mpr ⟨hv.1.2, hv.2⟩⟩
      | false =>
        rcases hv with (hv | hv) | ⟨c, hc, hv⟩
        · exact .inl hv
        · exact .inr ⟨a, List.mem_cons_self, hv⟩
        · exact .inr ⟨c, List.mem_cons_of_mem a hc, hv⟩
    · obtain ⟨hacc', hall⟩ := hMpub he
      obtain ⟨hacc', hMe⟩ := Members.accumulate_everyone hacc'
      exact ⟨hacc', List.forall_mem_cons.mpr ⟨hpub hMe, hall⟩⟩

end Loops

end WorkspaceAuthz.Authz
