import WorkspaceAuthz.Service.Types

/-! # Keys of the store

Tuples are stored under a key that is put together from their fields, every field
preceded by its length. A key determines its fields, whatever bytes they contain.
-/
namespace WorkspaceAuthz.Service
open Go Authz

/-- The shard of a project and a tenant; neither contains control characters. -/
def scope (projectID tenantID : GoString) : GoString := projectID ++ 0 :: tenantID

/-- A field, preceded by its length. -/
def part (s : GoString) : GoString := itoa s.length ++ ascii ':' :: s

def subjectKey (s : Subject) : GoString :=
  if s.wildcard then str "w"
  else match s.set with
    | some set => str "s" ++ part set.ns ++ part set.objectID ++ part set.relation
    | none => str "u" ++ part s.userID

/-- The key of a member's enrollment row within a group. -/
def enrollmentKey (m : GroupMember) : GoString :=
  (memberKey m).1 ++ ascii ':' :: (memberKey m).2

def tupleKey (t : Tuple) : GoString :=
  part t.ns ++ part t.objectID ++ part t.relation ++ part (subjectKey t.subject)

/-- What comes before the first occurrence of a byte is determined. -/
theorem append_cons_inj {b : UInt8} {l₁ l₂ r₁ r₂ : GoString} (h₁ : b ∉ l₁) (h₂ : b ∉ l₂)
    (h : l₁ ++ b :: r₁ = l₂ ++ b :: r₂) : l₁ = l₂ ∧ r₁ = r₂ := by
  induction l₁ generalizing l₂ with
  | nil =>
    cases l₂ with
    | nil => exact ⟨rfl, (List.cons.inj h).2⟩
    | cons c l₂ => exact absurd (List.cons.inj h).1 fun hb => h₂ (hb ▸ List.mem_cons_self)
  | cons c l₁ ih =>
    cases l₂ with
    | nil => exact absurd (List.cons.inj h).1 fun hb => h₁ (hb ▸ List.mem_cons_self)
    | cons d l₂ =>
      obtain ⟨rfl, htail⟩ := List.cons.inj h
      obtain ⟨rfl, hr⟩ := ih (fun hb => h₁ (List.mem_cons_of_mem c hb))
        (fun hb => h₂ (List.mem_cons_of_mem c hb)) htail
      exact ⟨rfl, hr⟩

/-- A field can be read off what it begins. -/
theorem part_append_inj {s s' r r' : GoString} (h : part s ++ r = part s' ++ r') :
    s = s' ∧ r = r' := by
  have hcolon : ∀ n, ascii ':' ∉ itoa n := notMem_itoa (.inr (by decide)) (by decide)
  simp only [part, List.append_assoc, List.cons_append] at h
  obtain ⟨hlen, h⟩ := append_cons_inj (hcolon _) (hcolon _) h
  exact List.append_inj h (itoa_injective hlen)

theorem part_injective : Function.Injective part := by
  intro s s' h
  have happend : part s ++ [] = part s' ++ [] := by rw [h]
  exact (part_append_inj happend).1

theorem tupleKey_inj {t t' : Tuple} (h : tupleKey t = tupleKey t') :
    t.ns = t'.ns ∧ t.objectID = t'.objectID ∧ t.relation = t'.relation ∧
      subjectKey t.subject = subjectKey t'.subject := by
  simp only [tupleKey, List.append_assoc] at h
  obtain ⟨hns, h⟩ := part_append_inj h
  obtain ⟨hobj, h⟩ := part_append_inj h
  obtain ⟨hrel, h⟩ := part_append_inj h
  exact ⟨hns, hobj, hrel, part_injective h⟩

theorem tupleKey_eq_tupleKey_iff {t t' : Tuple} :
    tupleKey t = tupleKey t' ↔ t.ns = t'.ns ∧ t.objectID = t'.objectID ∧
      t.relation = t'.relation ∧ subjectKey t.subject = subjectKey t'.subject := by
  constructor
  · exact tupleKey_inj
  · rintro ⟨hns, hobject, hrelation, hsubject⟩
    rw [tupleKey, tupleKey, hns, hobject, hrelation, hsubject]

theorem setKey_eq_iff {set set' : SubjectSet} :
    part set.ns ++ (part set.objectID ++ part set.relation) =
      part set'.ns ++ (part set'.objectID ++ part set'.relation) ↔ set = set' := by
  constructor
  · intro h
    obtain ⟨hns, h⟩ := part_append_inj h
    obtain ⟨hobject, h⟩ := part_append_inj h
    have hrelation : set.relation = set'.relation := part_injective h
    cases set
    cases set'
    simp_all
  · rintro rfl
    rfl

/-- The first letter tells the kind of a subject, and the parts after it tell its fields; a
wildcard hides the other fields, and a set hides the user. -/
theorem subjectKey_eq_iff {s s' : Subject} :
    subjectKey s = subjectKey s' ↔ s.wildcard = s'.wildcard ∧ (s.wildcard = false →
      s.set = s'.set ∧ (s.set = none → s.userID = s'.userID)) := by
  have hne : ∀ {c d : UInt8} {l l' : GoString}, c ≠ d → c :: l ≠ d :: l' :=
    fun hcd h => hcd (List.cons.inj h).1
  unfold subjectKey
  cases s.wildcard <;> cases s'.wildcard
  case true.true => simp
  case true.false =>
    cases s'.set
    all_goals exact iff_of_false (hne (by decide)) (by simp)
  case false.true =>
    cases s.set
    all_goals exact iff_of_false (hne (by decide)) (by simp)
  case false.false =>
    cases s.set <;> cases s'.set
    case none.none => simp [part_injective.eq_iff]
    case some.some => simp [setKey_eq_iff]
    all_goals exact iff_of_false (hne (by decide)) (by simp)

theorem subjectKey_eq_iff_of_valid {s s' : Subject} (hs : s.Valid) (hs' : s'.Valid) :
    subjectKey s = subjectKey s' ↔
      s.wildcard = s'.wildcard ∧ s.set = s'.set ∧ s.userID = s'.userID := by
  rw [subjectKey_eq_iff]
  obtain ⟨huser, hset, hwild⟩ | ⟨huser, hset, hwild⟩ | ⟨huser, hset, hwild⟩ := hs <;>
    obtain ⟨huser', hset', hwild'⟩ | ⟨huser', hset', hwild'⟩ | ⟨huser', hset', hwild'⟩ := hs' <;>
    simp_all

/-- The key of a tuple is its identity, whatever bytes its fields contain. -/
theorem tupleKey_eq_iff_fields (a b : Tuple) (ha : a.subject.Valid) (hb : b.subject.Valid) :
    tupleKey a = tupleKey b ↔
      a.ns = b.ns ∧ a.objectID = b.objectID ∧ a.relation = b.relation ∧
        a.subject.wildcard = b.subject.wildcard ∧ a.subject.set = b.subject.set ∧
          a.subject.userID = b.subject.userID := by
  rw [tupleKey_eq_tupleKey_iff, subjectKey_eq_iff_of_valid ha hb]

/-- Digits, colons and letters of kinds that move between the fields change the key. -/
theorem tupleKey_ne_of_moved_length :
    tupleKey (userTuple (str "doc") (str "a1:") (str "b") (str "u1:x")) ≠
      tupleKey (userTuple (str "doc") (str "a") (str "1:b") (str "u1:x")) := by
  rw [Ne, tupleKey_eq_iff_fields _ _ (by decide) (by decide)]
  decide

theorem subjectKey_user_inj {u u' : GoString}
    (h : subjectKey { userID := u } = subjectKey { userID := u' }) : u = u' :=
  part_injective (List.append_cancel_left h)

theorem userTuple_key_inj {ns ns' obj obj' rel rel' u u' : GoString}
    (h : tupleKey (userTuple ns obj rel u) = tupleKey (userTuple ns' obj' rel' u')) :
    ns = ns' ∧ obj = obj' ∧ rel = rel' ∧ u = u' := by
  obtain ⟨hns, hobj, hrel, hu⟩ := tupleKey_inj h
  exact ⟨hns, hobj, hrel, subjectKey_user_inj hu⟩

theorem roleTuple_key_inj {w w' u u' : GoString} {r r' : Role}
    (h : tupleKey (roleTuple w u r) = tupleKey (roleTuple w' u' r')) :
    w = w' ∧ u = u' ∧ r = r' := by
  obtain ⟨-, hw, hr, hu⟩ := userTuple_key_inj h
  exact ⟨hw, hu, Role.name_injective hr⟩

theorem exists_roleTuple_key_eq_iff {w w' u u' : GoString} {roles : List Role} {r : Role} :
    (∃ t ∈ roles.map (roleTuple w' u'), tupleKey t = tupleKey (roleTuple w u r)) ↔
      w' = w ∧ u' = u ∧ r ∈ roles := by
  constructor
  · rintro ⟨t, ht, hkey⟩
    obtain ⟨r', hr', rfl⟩ := List.mem_map.mp ht
    obtain ⟨hw, hu, rfl⟩ := roleTuple_key_inj hkey
    exact ⟨hw, hu, hr'⟩
  · rintro ⟨rfl, rfl, hr⟩
    exact ⟨_, List.mem_map_of_mem hr, rfl⟩

end WorkspaceAuthz.Service
