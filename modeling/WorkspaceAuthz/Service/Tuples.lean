import WorkspaceAuthz.Authz.Conditions
import WorkspaceAuthz.Service.Types

/-! # Tuples that clients may write

The checks of the write path on a relation tuple. They keep control characters
out of every field, and nothing else: the separators of the engine's keys are
ordinary characters here.
-/
namespace WorkspaceAuthz.Service
open Go Authz

def seatNamespace : GoString := str "seat"

def hasControlChar (s : GoString) : Bool := s.any (· < 0x20)

theorem zero_notMem_of_hasControlChar {s : GoString} (h : hasControlChar s = false) : 0 ∉ s := by
  intro hmem
  have hcontrol : hasControlChar s = true := List.any_eq_true.mpr ⟨0, hmem, by decide⟩
  simp [h] at hcontrol

/-- How many of the three kinds a subject sets. -/
def subjectKinds (s : Subject) : ℕ :=
  (if s.userID ≠ [] then 1 else 0) + (if s.set.isSome then 1 else 0) + (if s.wildcard then 1 else 0)

def validateTuple (t : Tuple) : Except ServiceError Unit := do
  if t.ns = [] ∨ t.objectID = [] ∨ t.relation = [] then
    throw ⟨.invalidArgument, "tuple namespace, object_id, relation are required", []⟩
  if t.ns = seatNamespace then
    throw ⟨.invalidArgument, "the %q namespace is reserved; use AssignSeat/RevokeSeat",
      [seatNamespace]⟩
  if [t.ns, t.objectID, t.relation, t.subject.userID].any hasControlChar then
    throw ⟨.invalidArgument, "tuple fields must not contain control characters", []⟩
  if t.subject.set.any fun set => [set.ns, set.objectID, set.relation].any hasControlChar then
    throw ⟨.invalidArgument, "tuple subject-set fields must not contain control characters", []⟩
  if subjectKinds t.subject ≠ 1 then
    throw ⟨.invalidArgument,
      "tuple subject must be exactly one of user_id, subject set, or wildcard", []⟩
  if t.subject.set.any fun set => set.ns = [] ∨ set.objectID = [] then
    throw ⟨.invalidArgument, "subject set requires namespace and object_id", []⟩
  if t.subject.condition.any fun c => c.name ≠ [] ∧ ¬ knownCondition c.name then
    throw ⟨.invalidArgument, "unknown condition %q", (t.subject.condition.map (·.name)).toList⟩

end WorkspaceAuthz.Service
