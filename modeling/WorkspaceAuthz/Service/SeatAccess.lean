import WorkspaceAuthz.Service.Requests

/-! # Seats and seat tuples

In the memory driver a seat is assigned if and only if its tuple is stored, and
there are no other tuples in the namespace of seats. Every call keeps it so that a
request of any kind may make.
-/
namespace WorkspaceAuthz.Service
open Go Authz Interleaving

theorem seatTuple_key_inj {sku sku' user user' : GoString}
    (h : tupleKey (seatTuple sku user) = tupleKey (seatTuple sku' user')) :
    sku = sku' ∧ user = user' :=
  ⟨(userTuple_key_inj h).2.1, (userTuple_key_inj h).2.2.2⟩

namespace Store

/-- Every seat has its tuple, and every tuple in the namespace of seats is one of a seat. -/
structure SeatsBacked (s : Store) : Prop where
  backed : ∀ sk sku user, (s.seatAssigns.get₃ sk sku user).isSome →
    (s.tuples.get₂ sk (tupleKey (seatTuple sku user))).isSome
  only : ∀ sk k t, s.tuples.get₂ sk k = some t → t.ns = seatNamespace →
    ∃ sku user, t = seatTuple sku user ∧ (s.seatAssigns.get₃ sk sku user).isSome

variable {s s' : Store}

theorem seatsBacked_empty : Store.empty.SeatsBacked where
  backed _ _ _ h := by simp [Store.empty] at h
  only _ _ _ h := by simp [Store.empty] at h

theorem SeatsBacked.frame (h : s.SeatsBacked) (hseats : s'.seatAssigns = s.seatAssigns)
    (hsame : SameIn seatNamespace s s') : s'.SeatsBacked where
  backed sk sku user hseat := by
    rw [hsame sk (seatTuple sku user) rfl]
    exact h.backed sk sku user (hseats ▸ hseat)
  only sk k t ht hns := by
    obtain rfl := s'.tuples_keyed sk k t ht
    rw [hsame sk t hns] at ht
    exact hseats ▸ h.only sk _ t ht hns

theorem SeatsBacked.congr (h : s.SeatsBacked) (hseats : s'.seatAssigns = s.seatAssigns)
    (htuples : s'.tuples = s.tuples) : s'.SeatsBacked :=
  h.frame hseats fun _ _ _ => by rw [htuples]

theorem SeatsBacked.writeTuples (h : s.SeatsBacked) {projectID tenantID : GoString}
    {inserts deletes : List Tuple} (hns : ∀ t ∈ inserts ++ deletes, t.ns ≠ seatNamespace) :
    (s.writeTuples projectID tenantID inserts deletes).SeatsBacked :=
  h.frame rfl (s.sameIn_writeTuples projectID tenantID hns)

theorem SeatsBacked.keepTuples (h : s.SeatsBacked) {projectID tenantID : GoString}
    {keep : Tuple → Bool} (hkeep : ∀ t : Tuple, t.ns = seatNamespace → keep t) :
    (s.keepTuples projectID tenantID keep).SeatsBacked :=
  h.frame rfl (s.sameIn_keepTuples projectID tenantID hkeep)

/-- The tuple of a seat is written that may have lacked it. -/
theorem seatsBacked_writeTuples_seatTuple {projectID tenantID sku user : GoString}
    (hseat : (s.seat projectID tenantID sku user).isSome)
    (hbacked : ∀ sk sku' user', (s.seatAssigns.get₃ sk sku' user').isSome →
      (sk = scope projectID tenantID ∧ sku' = sku ∧ user' = user) ∨
        (s.tuples.get₂ sk (tupleKey (seatTuple sku' user'))).isSome)
    (honly : ∀ sk k t, s.tuples.get₂ sk k = some t → t.ns = seatNamespace →
      ∃ sku user, t = seatTuple sku user ∧ (s.seatAssigns.get₃ sk sku user).isSome) :
    (s.writeTuples projectID tenantID [seatTuple sku user] []).SeatsBacked where
  backed sk sku' user' hseat' := by
    rw [get_tuples_writeTuples]
    rcases hbacked sk sku' user' hseat' with ⟨rfl, rfl, rfl⟩ | hstored
    · simp
    · split_ifs
      · simp_all
      · simp [Option.isSome_or, hstored]
      · exact hstored
  only sk k t ht hns := by
    by_cases hsk : sk = scope projectID tenantID
    · rcases mem_or_get_of_writeTuples ht with hmem | hold
      · exact ⟨sku, user, List.mem_singleton.mp hmem, hsk ▸ hseat⟩
      · exact honly sk k t hold hns
    · rw [get_tuples_writeTuples, if_neg hsk] at ht
      exact honly sk k t ht hns

theorem SeatsBacked.assignSeatAndTuple (h : s.SeatsBacked) (a : SeatAssignment) :
    (s.assignSeatAndTuple a (seatTuple a.sku a.userID)).2.SeatsBacked := by
  obtain ⟨hseat, heq⟩ | ⟨-, heq⟩ | ⟨-, -, heq⟩ :=
    s.assignSeatAndTuple_cases a (seatTuple a.sku a.userID)
  · rw [heq]
    exact seatsBacked_writeTuples_seatTuple hseat (fun sk sku user hs =>
      .inr (h.backed sk sku user hs))
      h.only
  · rw [heq]
    exact h
  · rw [heq]
    have hget : ∀ sk sku user, (s.assignSeat a).seatAssigns.get₃ sk sku user =
        if sk = scope a.projectID a.tenantID ∧ sku = a.sku ∧ user = a.userID then some a
        else s.seatAssigns.get₃ sk sku user := fun _ _ _ => GoMap.get₃_put₃ _ _ _ _ _ _ _ _
    refine seatsBacked_writeTuples_seatTuple ?_ (fun sk sku user hs => ?_) fun sk k t ht hns => ?_
    · rw [seat, hget, if_pos ⟨rfl, rfl, rfl⟩]
      rfl
    · rw [hget] at hs
      split_ifs at hs with hthis
      · exact .inl hthis
      · exact .inr (h.backed sk sku user hs)
    · obtain ⟨sku, user, rfl, hs⟩ := h.only sk k t ht hns
      refine ⟨sku, user, rfl, ?_⟩
      rw [hget]
      split_ifs
      · rfl
      · exact hs

theorem SeatsBacked.revokeSeatAndTuple (h : s.SeatsBacked)
    (projectID tenantID sku user : GoString) :
    (s.revokeSeatAndTuple projectID tenantID sku user (seatTuple sku user)).SeatsBacked := by
  have hget : ∀ sk sku' user', (s.revokeSeat projectID tenantID sku user).seatAssigns.get₃ sk sku'
      user' = if sk = scope projectID tenantID ∧ sku' = sku ∧ user' = user then none
        else s.seatAssigns.get₃ sk sku' user' := fun _ _ _ => GoMap.get₃_erase₃ _ _ _ _ _ _ _
  have htuples : ∀ sk k, (s.revokeSeatAndTuple projectID tenantID sku user
      (seatTuple sku user)).tuples.get₂ sk k = if sk = scope projectID tenantID ∧
        k = tupleKey (seatTuple sku user) then none else s.tuples.get₂ sk k := by
    intro sk k
    rw [Store.revokeSeatAndTuple, get_tuples_writeTuples]
    simp only [List.reverse_nil, List.find?_nil, Option.none_or, List.map_cons, List.map_nil,
      List.mem_singleton]
    split_ifs <;> first | rfl | simp_all
  refine ⟨fun sk sku' user' hseat => ?_, fun sk k t ht hns => ?_⟩
  · change ((s.revokeSeat projectID tenantID sku user).seatAssigns.get₃ sk sku' user').isSome
      at hseat
    rw [hget] at hseat
    split_ifs at hseat with hthis
    · cases hseat
    · rw [htuples, if_neg fun hkey => hthis ⟨hkey.1, seatTuple_key_inj hkey.2⟩]
      exact h.backed sk sku' user' hseat
  · rw [htuples] at ht
    split_ifs at ht with hthis
    obtain ⟨sku', user', rfl, hseat⟩ := h.only sk k t ht hns
    refine ⟨sku', user', rfl, ?_⟩
    change ((s.revokeSeat projectID tenantID sku user).seatAssigns.get₃ sk sku' user').isSome
    rw [hget, if_neg]
    · exact hseat
    · rintro ⟨rfl, rfl, rfl⟩
      exact hthis ⟨rfl, (s.tuples_keyed _ _ _ ht).symm⟩

theorem isConcrete_seatTuple {userID sku user : GoString} :
    isConcrete userID (seatTuple sku user) = decide (user = userID) := by
  simp [isConcrete, userTuple]

theorem SeatsBacked.deleteAllSubjectTuplesInProject (h : s.SeatsBacked)
    (projectID userID : GoString) :
    (s.deleteAllSubjectTuplesInProject projectID userID).2.SeatsBacked := by
  refine ⟨fun sk sku user hseat => ?_, fun sk k t ht hns => ?_⟩
  · change ((withoutSeats projectID userID s.seatAssigns).get₃ sk sku user).isSome at hseat
    change ((withoutSubject projectID userID s.tuples).get₂ sk _).isSome
    rw [get_withoutSeats] at hseat
    split_ifs at hseat with hgone
    · cases hseat
    · have hbacked := h.backed sk sku user hseat
      rw [get_withoutSubject]
      split_ifs with hproject
      · obtain ⟨t, ht⟩ := Option.isSome_iff_exists.mp hbacked
        have hkey := s.tuples_keyed _ _ _ ht
        obtain ⟨sku', user', rfl, -⟩ := h.only sk _ t ht (tupleKey_inj hkey).1
        obtain ⟨rfl, rfl⟩ := seatTuple_key_inj hkey
        have hne : user' ≠ userID := fun heq => hgone ⟨hproject, heq⟩
        rw [ht, Option.filter_some, if_pos]
        · rfl
        · simp [isConcrete_seatTuple, hne]
      · exact hbacked
  · change (withoutSubject projectID userID s.tuples).get₂ sk k = some t at ht
    rw [get_withoutSubject] at ht
    have hold : s.tuples.get₂ sk k = some t ∧
      (inProject projectID sk → isConcrete userID t = false) := by
      split_ifs at ht with hproject
      · obtain ⟨hold, hconcrete⟩ := Option.filter_eq_some_iff.mp ht
        exact ⟨hold, fun _ => by simpa using hconcrete⟩
      · exact ⟨ht, fun h => absurd h hproject⟩
    obtain ⟨sku, user, rfl, hseat⟩ := h.only sk k t hold.1 hns
    refine ⟨sku, user, rfl, ?_⟩
    change ((withoutSeats projectID userID s.seatAssigns).get₃ sk sku user).isSome
    rw [get_withoutSeats, if_neg]
    · exact hseat
    · rintro ⟨hproject, rfl⟩
      simpa [isConcrete_seatTuple] using hold.2 hproject

/-- Any call that a request may make. -/
theorem SeatsBacked.exec (h : s.SeatsBacked) (env : Env) {c : Call} (hproper : c.Proper false) :
    (exec env c s).2.SeatsBacked := by
  have hworkspace : str "seat" ≠ str "workspace" := by decide
  have hgroup : str "seat" ≠ str "group" := by decide
  cases c with
  | writeTuples => exact h.writeTuples fun t ht => (hproper t ht).1
  | putMembershipAndTuples m =>
    have hput : (s.putMembership m).SeatsBacked := h.congr rfl rfl
    exact hput.writeTuples hproper.2
  | setEnrollmentAndTuples e =>
    have hset : (s.setEnrollment e).SeatsBacked := h.congr rfl rfl
    exact hset.writeTuples fun t ht => (hproper t ht).1
  | deleteMembershipAndTuples projectID tenantID ws user deletes =>
    rw [Service.exec]
    cases hrow : s.row projectID tenantID ws user with
    | none =>
      rw [deleteMembershipAndTuples_of_none hrow]
      exact h
    | some m =>
      obtain ⟨s', htuples, hseats, heq⟩ := deleteMembershipAndTuples_of_some hrow
      rw [heq]
      exact (h.congr hseats htuples).writeTuples hproper.2
  | assignSeatAndTuple a tuple =>
    obtain rfl : tuple = seatTuple a.sku a.userID := hproper
    exact h.assignSeatAndTuple a
  | revokeSeatAndTuple projectID tenantID sku user tuple =>
    obtain rfl : tuple = seatTuple sku user := hproper
    exact h.revokeSeatAndTuple projectID tenantID sku user
  | deleteAllSubjectTuplesInProject projectID user =>
    exact h.deleteAllSubjectTuplesInProject projectID user
  | deleteWorkspace projectID tenantID id =>
    rw [Service.exec, Store.deleteWorkspace]
    split_ifs
    · exact h
    · exact SeatsBacked.congr
        (h.keepTuples fun t ht => by simp [ht, seatNamespace, hworkspace]) rfl rfl
  | deleteGroup projectID tenantID id =>
    rw [Service.exec, Store.deleteGroup]
    split_ifs
    · exact h
    · exact SeatsBacked.congr (h.keepTuples fun t ht => by simp [ht, seatNamespace, hgroup]) rfl rfl
  | _ =>
    refine h.congr (exec_of_leavesTuples ?_ env s).2.1 (exec_of_leavesTuples ?_ env s).1 <;> trivial

theorem SeatsBacked.seat_iff_holds (h : s.SeatsBacked) {projectID tenantID sku user : GoString} :
    (s.seat projectID tenantID sku user).isSome ↔
      s.Holds projectID tenantID (seatTuple sku user) := by
  refine ⟨h.backed _ _ _, fun hholds => ?_⟩
  obtain ⟨t, ht⟩ := Option.isSome_iff_exists.mp hholds
  have hkey := s.tuples_keyed _ _ _ ht
  obtain ⟨sku', user', rfl, hseat⟩ := h.only _ _ t ht (tupleKey_inj hkey).1
  obtain ⟨rfl, rfl⟩ := seatTuple_key_inj hkey
  exact hseat

theorem used_assignSeat {a : SeatAssignment}
    (h : s.seat a.projectID a.tenantID a.sku a.userID = none) :
    ((s.assignSeat a).getSeatUsage a.projectID a.tenantID a.sku).used =
      (s.getSeatUsage a.projectID a.tenantID a.sku).used + 1 := by
  have hinner : (((s.assignSeat a).seatAssigns.inner (scope a.projectID a.tenantID)).inner a.sku) =
      ((s.seatAssigns.inner (scope a.projectID a.tenantID)).inner a.sku).insert a.userID a := by
    simp only [assignSeat, GoMap.put₃, GoMap.put₂, GoMap.inner_insert, if_pos]
  exact (congrArg GoMap.size hinner).trans (GoMap.size_insert_of_none h)

theorem used_assignSeat_le_limit {a : SeatAssignment} {inserts deletes : List Tuple}
    (h : s.seat a.projectID a.tenantID a.sku a.userID = none)
    (hlimit : ∀ limit, s.seatLimits.get₂ (scope a.projectID a.tenantID) a.sku = some limit →
      (((s.seatAssigns.inner (scope a.projectID a.tenantID)).inner a.sku).size : ℤ) < limit) :
    let u := ((s.assignSeat a).writeTuples a.projectID a.tenantID inserts deletes).getSeatUsage
      a.projectID a.tenantID a.sku
    u.limited → u.used ≤ u.limit := by
  intro u hlimited
  have hused : u.used = _ := used_assignSeat h
  cases hget : s.seatLimits.get₂ (scope a.projectID a.tenantID) a.sku with
  | none =>
    have hunlimited : u.limited = (none : Option ℤ).isSome := congrArg Option.isSome hget
    rw [hunlimited] at hlimited
    cases hlimited
  | some limit =>
    have hu : u.limit = limit := by
      change (s.seatLimits.get₂ _ _).getD 0 = limit
      rw [hget]
      rfl
    rw [hu, hused]
    have hlt := hlimit limit hget
    change ((((s.seatAssigns.inner (scope a.projectID a.tenantID)).inner a.sku).size + 1 :
      ℕ) : ℤ) ≤ limit
    omega

end Store

/-! ## Sequences of requests -/

section Sequences

variable {hashToken : GoString → GoString} {s : Store}

theorem seatsBacked_of_sequence (h : Sequence exec (serving hashToken) .empty s) :
    s.SeatsBacked := by
  refine h.preserves (fun x s hx hs => ?_) Store.seatsBacked_empty
  obtain ⟨p, request, rfl⟩ := hx
  have hregular : Regular false false false (request.serve hashToken p) :=
    request.regular nofun nofun
  have hkeeps := hregular [] nofun
  refine hkeeps.preserves (fun env s trace c hinv hissues => ?_) hs
  exact ⟨trivial, hinv.exec env hissues.1⟩

/-- An assignment fails and changes nothing, or it is what the repository makes of it. -/
theorem ensures_assignSeat {p : Principal} {sku user : GoString} :
    (assignSeat p sku user).run.Ensures exec (fun r s' => (∃ e, r = .error e ∧ s' = s) ∨
      ∃ now, (r, s') = s.assignSeatAndTuple ⟨p.projectID, p.tenantID, sku, user, now⟩
        (seatTuple sku user)) s := by
  refine ensures_ite (fun _ => .inl ⟨_, rfl, rfl⟩) fun _ => ?_
  refine ensures_attempt_then (fun env e _ => .inl ⟨e, rfl, rfl⟩) fun env _ _ => ?_
  refine ensures_attempt_then (fun env e _ => .inl ⟨e, rfl, rfl⟩) fun env now _ => ?_
  exact fun env => .inr ⟨now, rfl⟩

/-- After any requests, seats are assigned exactly to those whose tuple is stored, and limits,
failures and repetitions of an assignment are as they should be. -/
theorem seats_and_tuples_agree (hashToken : GoString → GoString) (s : Store)
    (h : Sequence exec (serving hashToken) .empty s) (projectID tenantID sku user : GoString) :
    ((s.seat projectID tenantID sku user).isSome ↔
      s.Holds projectID tenantID (seatTuple sku user)) ∧
    (∀ t, s.Stored projectID tenantID t → t.ns = seatNamespace →
      ∃ sku user, t = seatTuple sku user) ∧
    ∀ actor r s', Runs exec (assignSeat ⟨actor, projectID, tenantID⟩ sku user).run s r s' →
      (s.seat projectID tenantID sku user = none → (s'.seat projectID tenantID sku user).isSome →
        (s'.getSeatUsage projectID tenantID sku).limited →
        (s'.getSeatUsage projectID tenantID sku).used ≤
          (s'.getSeatUsage projectID tenantID sku).limit) ∧
      (∀ e, r = .error e → e.kind = .resourceExhausted →
        s'.seatAssigns = s.seatAssigns ∧ s'.tuples = s.tuples ∧ s'.seqs = s.seqs) ∧
      ((s.seat projectID tenantID sku user).isSome →
        (s'.getSeatUsage projectID tenantID sku).used =
          (s.getSeatUsage projectID tenantID sku).used ∧
        ∀ user', s'.Holds projectID tenantID (seatTuple sku user') ↔
          s.Holds projectID tenantID (seatTuple sku user')) := by
  have hs := seatsBacked_of_sequence h
  refine ⟨hs.seat_iff_holds, fun t ht hns => ?_, fun actor r s' hrun => ?_⟩
  · obtain ⟨sku, user, heq, -⟩ := hs.only _ _ t ht hns
    exact ⟨sku, user, heq⟩
  · rcases hrun.of_ensures ensures_assignSeat with ⟨e, rfl, rfl⟩ | ⟨now, hrepo⟩
    · exact ⟨fun hnone hsome => by simp [hnone] at hsome, fun _ _ _ => ⟨rfl, rfl, rfl⟩, fun _ =>
        ⟨rfl, fun _ => Iff.rfl⟩⟩
    · have hs' := hs.assignSeatAndTuple ⟨projectID, tenantID, sku, user, now⟩
      obtain ⟨hseat, heq⟩ | ⟨hnone, heq⟩ | ⟨hnone, hlimit, heq⟩ := s.assignSeatAndTuple_cases
        ⟨projectID, tenantID, sku, user, now⟩ (seatTuple sku user)
      · obtain ⟨rfl, rfl⟩ := Prod.mk.inj (hrepo.trans heq)
        rw [heq] at hs'
        refine ⟨fun hnone => ?_, nofun, fun _ => ⟨rfl, fun user' => ?_⟩⟩
        · simp [hnone] at hseat
        · rw [← hs.seat_iff_holds, ← hs'.seat_iff_holds]
          rfl
      · obtain ⟨rfl, rfl⟩ := Prod.mk.inj (hrepo.trans heq)
        exact ⟨fun hnone hsome => by simp [hnone] at hsome, fun _ _ _ => ⟨rfl, rfl, rfl⟩, fun _ =>
          ⟨rfl, fun _ => Iff.rfl⟩⟩
      · obtain ⟨rfl, rfl⟩ := Prod.mk.inj (hrepo.trans heq)
        refine ⟨fun _ _ hlimited => ?_, nofun, fun hseat => ?_⟩
        · exact Store.used_assignSeat_le_limit hnone hlimit hlimited
        · simp [hnone] at hseat

end Sequences

namespace Seating

def serve (request : Request) (s : Store) : Store :=
  ((request.serve (fun token => token) ⟨"alice", "p", "t"⟩).run.outcome exec {} s).2

/-- Bob has one of two seats. -/
def seated : Store := serve (.assignSeat "pro" "bob") (serve (.setSeatLimit "pro" (some 2)) .empty)

theorem sequence_seated : Sequence exec (serving fun token => token) .empty seated :=
  sequence_serve (sequence_serve .refl _ (.setSeatLimit "pro" (some 2)) {}) _
    (.assignSeat "pro" "bob") {}

def final : Store :=
  ((assignSeat ⟨"alice", "p", "t"⟩ "pro" "carol").run.outcome exec {} seated).2

end Seating

open Seating in
theorem seated_users_agree :
    seated.Holds "p" "t" (seatTuple "pro" "bob") ∧
      (final.getSeatUsage "p" "t" "pro").used ≤ (final.getSeatUsage "p" "t" "pro").limit :=
  ⟨(seats_and_tuples_agree _ seated sequence_seated "p" "t" "pro" "bob").1.mp (by decide +kernel),
    ((seats_and_tuples_agree _ seated sequence_seated "p" "t" "pro" "carol").2.2 "alice" _ final
      (runs_outcome ({} : Env) _ seated)).1 (by decide +kernel) (by decide +kernel)
      (by decide +kernel)⟩

end WorkspaceAuthz.Service
