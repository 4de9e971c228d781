import WorkspaceAuthz.Authz.SetChecks

/-! # A structural match is an inclusion

The walk for a userset does not look at members. Where it finds the set below its
target, it has followed only operators that pass every user of the set on to the
target, so each user whom the set holds is held by the target as well.
-/
namespace WorkspaceAuthz.Authz
open Go RecursiveFormula

section Inclusion

variable {m : Model} {reader : Reader} {cc : Context} {set : SubjectSet} {u : GoString}

abbrev usersetRequest (m : Model) (reader : Reader) (cc : Context) (set : SubjectSet) : Request :=
  ⟨m, reader, { set := some set }, cc⟩

/-- What grants a userset grants every user, or it is the userset itself. -/
theorem grants_userset {s : Subject} (h : (usersetRequest m reader cc set).grants s) :
    (userRequest m reader cc u).grants s ∨ (userRequest m reader cc u).follows s = some set := by
  cases hw : s.wildcard with
  | true => exact .inl (by simp [Request.grants, hw])
  | false =>
    cases hset : s.set with
    | none => simp [Request.grants, hw, hset] at h
    | some y =>
      obtain rfl : set = y := by simpa [Request.grants, hw, hset] using h
      exact .inr (by simp [Request.follows, Request.grants, hw, hset])

theorem follows_userset {s : Subject} {x : SubjectSet}
    (h : (usersetRequest m reader cc set).follows s = some x) :
    (userRequest m reader cc u).follows s = some x := by
  have hset := Request.set_of_follows h
  have hw : s.wildcard = false := by
    by_contra hw
    simp [Request.follows, Request.grants, hw] at h
  simp [Request.follows, Request.grants, hw, hset]

/-- A user of the set takes every path on which the set was found. The steps from the
set to the user are added at the end of it. -/
theorem derivesIn_of_userset {l : ℕ} (hset : (userRequest m reader cc u).NodeDerivesIn l true set)
    {k : ℕ} {v : Bool} {n : SubjectSet} {rw : Rewrite}
    (h : (usersetRequest m reader cc set).DerivesIn k v n rw) (hv : v = true) :
    (userRequest m reader cc u).DerivesIn (k + l + 1) true n rw := by
  induction h with
  | @thisGrant k n rw ss s hview hread hs happ hgrants =>
    rcases grants_userset (u := u) hgrants with hgrants | hfollows
    · exact .thisGrant hview hread hs happ hgrants
    · have hmono := (Request.derivesIn_iff.mp hset).mono (Nat.le_add_left l k)
      exact .thisMember hview hread hs happ hfollows (Request.derivesIn_iff.mpr hmono)
  | @thisMember k n rw ss s x hview hread hs happ hfollows _ ih =>
    rw [Nat.succ_add_eq_add_succ k l]
    exact .thisMember hview hread hs happ (follows_userset hfollows) (ih hv)
  | unionSome hview hc _ ih => exact .unionSome hview hc (ih hv)
  | @computed k v n rw rel hview _ ih =>
    rw [Nat.succ_add_eq_add_succ k l]
    exact .computed hview (ih hv)
  | @pointerSome k n rw ts rel ss s x hview hread hs happ hx _ ih =>
    rw [Nat.succ_add_eq_add_succ k l]
    exact .pointerSome hview hread hs happ hx (ih hv)
  | intersectionAll hq => cases hq
  | exclusionBoth hq => cases hq
  | thisLeaf | thisNone | unionNone | intersectionSome | intersectionSet | exclusionInclude
  | exclusionExclude | exclusionSet | pointerLeaf | pointerNone => cases hv

/-- Where the set is below the target, so are its users. -/
theorem holds_of_userset {n : SubjectSet} (h : (usersetRequest m reader cc set).Holds n)
    (hset : (userRequest m reader cc u).Holds set) : (userRequest m reader cc u).Holds n := by
  obtain ⟨k, hk⟩ := h
  obtain ⟨l, hl⟩ := hset
  exact ⟨k + l + 1, derivesIn_of_userset hl hk rfl⟩

end Inclusion

/-- If the walk for a userset returns true, the target holds for every user for whom the
set does: for every model and store, whatever guards cut the walk short. -/
theorem structural_match_inclusion (e : Engine) (m : Model) (projectID tenantID : GoString)
    (n set : SubjectSet) (cc : Context) (maxReads : ℤ) (st : SearchState GoString GoString)
    (h : (e.setRequest m projectID tenantID set cc).check stringKeys (e.maxDepth + 1) n false
      (newEvalState maxReads) = .ok true st)
    (u : GoString) (hu : (e.request m projectID tenantID u cc).Holds set) :
    (e.request m projectID tenantID u cc).Holds n :=
  holds_of_userset (holds_of_structural rfl (fun _ => rfl) h) hu

namespace Office

/-- Who may edit may view, except for those on leave. -/
def model : Model := .ofList [
  ("doc", .ofList [("viewer", { union := [.this, { computed := "editor" }] })]),
  ("group", .ofList [("member", { exclusion := some (.this, { computed := "onLeave" }) })])]

def engine : Engine where
  reader _ _ n := .ok (
    if n = ⟨str "doc", str "plan", str "editor"⟩ then [{ set := some ⟨"group", "eng", "member"⟩ }]
    else if n = ⟨str "group", str "eng", str "member"⟩ then [{ userID := "ann" }]
    else [])

end Office

open Office in
/-- The engineers may edit the plan, Ann is one of them, and so Ann may view it. -/
theorem engineer_views_plan : (engine.request model "proj" "t" "ann" ∅).Holds
    ⟨"doc", "plan", "viewer"⟩ :=
  structural_match_inclusion engine model "proj" "t" _ ⟨"group", "eng", "member"⟩ ∅ 0 _ rfl "ann"
    ⟨1, .exclusionBoth rfl rfl (.thisGrant rfl rfl (.head _) rfl rfl)
      (.computed rfl (.thisLeaf rfl (show _ = Except.ok [] from rfl) (by simp)))⟩

end WorkspaceAuthz.Authz
