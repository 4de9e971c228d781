import WorkspaceAuthz.Service.StorageKeys
import WorkspaceAuthz.Service.Tuples
import WorkspaceAuthz.TokenBuckets

/-! # The rate limiter

Each key has a bucket of tokens that is refilled when it is used. Buckets that have
been idle are dropped now and then, at a call for any key. The handlers keep the
buckets of tenants and of project-wide calls apart by the keys that they build.
-/
namespace WorkspaceAuthz.Connect
open Go Service TokenBuckets

abbrev TokenBucket := Bucket Time ℚ

structure RateLimiter where
  capacity : ℚ
  /-- Tokens per second. -/
  refill : ℚ
  buckets : GoMap TokenBucket := ∅
  lastPrune : Time := .zero

/-- No limiter is one that allows everything. -/
def newRateLimiter (perMinute : ℤ) : Option RateLimiter :=
  if perMinute ≤ 0 then none else some { capacity := perMinute, refill := perMinute / 60 }

namespace RateLimiter

/-- Drop the buckets that have been idle for two minutes, at most once in a minute. -/
def pruneLocked (r : RateLimiter) (now : Time) : RateLimiter :=
  if now.sub r.lastPrune < Duration.minute then r
  else
    { r with
      lastPrune := now
      buckets := r.buckets.filter fun _ b => ¬ now.sub b.last > 2 * Duration.minute }

/-- A call for a key at the time that the clock shows. -/
def allow (r : RateLimiter) (key : GoString) (now : Time) : RateLimiter × Bool :=
  let r := r.pruneLocked now
  let b := (r.buckets.get key).getD ⟨r.capacity, now⟩
  let elapsed := Duration.seconds (now.sub b.last)
  let b := if 0 < elapsed then ⟨min r.capacity (b.tokens + elapsed * r.refill), now⟩ else b
  if b.tokens < 1 then ({ r with buckets := r.buckets.insert key b }, false)
  else ({ r with buckets := r.buckets.insert key ⟨b.tokens - 1, b.last⟩ }, true)

end RateLimiter

/-! ## The handlers -/

inductive Code where
  | invalidArgument
  | notFound
  | alreadyExists
  | permissionDenied
  | resourceExhausted
  | failedPrecondition
  | internal
deriving DecidableEq, Repr

structure ConnectError where
  code : Code
  message : String
deriving DecidableEq, Repr

structure Handler where
  defaultProjectID : GoString
  defaultTenantID : GoString
  tenantLimiter : Option RateLimiter

def tenantKey (project tenant : GoString) : GoString := project ++ 0 :: tenant

def rpcKey (project rpc : GoString) : GoString := project ++ 0 :: 0 :: rpc

def validateScopeIDs (ids : List GoString) : Except ConnectError Unit :=
  if ids.any hasControlChar then
    throw ⟨.invalidArgument, "project_id/tenant_id must not contain control characters"⟩
  else pure ()

namespace Handler

variable (h : Handler)

def projectOr (projectID : GoString) : GoString :=
  if projectID = [] then h.defaultProjectID else projectID

/-- A caller may be pinned to a project. -/
def callerProject (pinned projectID : GoString) : GoString :=
  if pinned ≠ [] then pinned else h.projectOr projectID

def tenantOr (tenantID : GoString) : GoString :=
  if tenantID = [] then h.defaultTenantID else tenantID

/-- The call of the limiter, which is missing if it is disabled. -/
def limit (key : GoString) (now : Time) (message : String) : Handler × Except ConnectError Unit :=
  match h.tenantLimiter with
  | none => (h, pure ())
  | some r =>
    let (r, ok) := r.allow key now
    ({ h with tenantLimiter := some r },
      if ok then pure () else throw ⟨.resourceExhausted, message⟩)

def requireTenantRate (pinned projectID tenantID : GoString) (now : Time) :
    Handler × Except ConnectError Unit :=
  match validateScopeIDs [projectID, tenantID] with
  | .error err => (h, .error err)
  | .ok () => h.limit (tenantKey (h.callerProject pinned projectID) (h.tenantOr tenantID)) now
    "tenant rate limit exceeded"

def requireRPCRate (pinned projectID rpc : GoString) (now : Time) :
    Handler × Except ConnectError Unit :=
  match validateScopeIDs [projectID] with
  | .error err => (h, .error err)
  | .ok () => h.limit (rpcKey (h.callerProject pinned projectID) rpc) now "rate limit exceeded"

end Handler

/-! ## The clock -/

theorem sub_pos_iff (t u : Time) : 0 < t.sub u ↔ u < t := by
  simp only [Time.sub, lt_max_iff, lt_min_iff]
  simp

theorem sub_mono {t t' : Time} (u : Time) (h : t ≤ t') : t.sub u ≤ t'.sub u :=
  max_le_max_left _ (min_le_min_left _ (sub_le_sub_right h u))

theorem sub_le {t u : Time} (h : u ≤ t) : t.sub u ≤ t - u :=
  max_le ((by norm_num : (-2 ^ 63 : ℤ) ≤ 0).trans (sub_nonneg.mpr h)) (min_le_right _ _)

theorem seconds_pos_iff (d : Duration) : 0 < Duration.seconds d ↔ 0 < d := by
  unfold Duration.seconds
  rw [div_pos_iff_of_pos_right (by norm_num), Int.cast_pos]

theorem seconds_mono : Monotone Duration.seconds := by
  intro d d' h
  unfold Duration.seconds
  gcongr

/-- Differences of times, as the limiter measures them. -/
def goClock : Clock Time ℚ where
  elapsed s t := Duration.seconds (t.sub s)
  date t := Duration.seconds t
  pos_iff s t := (seconds_pos_iff _).trans (sub_pos_iff t s)
  mono s _ _ h := seconds_mono (sub_mono s h)
  le_date s t h := by
    have hle := seconds_mono (sub_le h)
    refine hle.trans_eq ?_
    unfold Duration.seconds
    push_cast
    ring

/-! ## The limiter and its buckets -/

namespace RateLimiter

variable {r : RateLimiter} {key : GoString} {now : Time}

@[simp] theorem pruneLocked_capacity (r : RateLimiter) (now : Time) :
    (r.pruneLocked now).capacity = r.capacity := by
  unfold pruneLocked
  split_ifs <;> rfl

@[simp] theorem pruneLocked_refill (r : RateLimiter) (now : Time) :
    (r.pruneLocked now).refill = r.refill := by
  unfold pruneLocked
  split_ifs <;> rfl

theorem get_pruneLocked (r : RateLimiter) (now : Time) (key : GoString) :
    (r.pruneLocked now).buckets.get key = r.buckets.get key ∨
      (r.pruneLocked now).buckets.get key = none ∧
        ∀ b ∈ r.buckets.get key, 2 * Duration.minute < now.sub b.last := by
  unfold pruneLocked
  split_ifs
  · exact .inl rfl
  · simp only [GoMap.get_filter]
    cases r.buckets.get key with
    | none => exact .inl rfl
    | some b =>
      by_cases hidle : 2 * Duration.minute < now.sub b.last
      · simp [hidle]
      · simp [not_lt.mp hidle]

theorem allow_eq (r : RateLimiter) (key : GoString) (now : Time) :
    let used := use goClock r.capacity r.refill ((r.pruneLocked now).buckets.get key) now
    r.allow key now = ({ r.pruneLocked now with
      buckets := (r.pruneLocked now).buckets.insert key used.1 }, used.2) := by
  have hrefill (b : TokenBucket) : (if 0 < Duration.seconds (now.sub b.last) then
      ⟨min r.capacity (b.tokens + Duration.seconds (now.sub b.last) * r.refill), now⟩ else b) =
        b.refill goClock r.capacity r.refill now := rfl
  intro used
  simp only [allow, pruneLocked_capacity, pruneLocked_refill, hrefill]
  simp only [used, use, Bucket.spend]
  split_ifs
  · simp
  · simp

/-- The limiter of a rate per minute, whatever its buckets. -/
def HasRate (perMinute : ℤ) (r : RateLimiter) : Prop :=
  r.capacity = perMinute ∧ r.refill = perMinute / 60

theorem stale_of_idle {perMinute : ℤ} (hrate : 0 ≤ perMinute) {b : TokenBucket}
    (h : 2 * Duration.minute < now.sub b.last) :
    b.Stale goClock (perMinute : ℚ) (perMinute / 60) now := by
  have hpos : 0 < now.sub b.last := lt_trans (by decide) h
  refine ⟨(sub_pos_iff _ _).mp hpos, ?_⟩
  have hseconds : (120 : ℚ) ≤ goClock.elapsed b.last now := by
    have hle := seconds_mono h.le
    refine le_trans ?_ hle
    norm_num [Duration.seconds, Duration.minute]
  have hrate' : (0 : ℚ) ≤ perMinute / 60 := by positivity
  calc (perMinute : ℚ) ≤ 120 * (perMinute / 60) := by
        have : (0 : ℚ) ≤ perMinute := by exact_mod_cast hrate
        linarith
    _ ≤ goClock.elapsed b.last now * (perMinute / 60) := by gcongr

theorem drops_allow {perMinute : ℤ} (hrate : 0 ≤ perMinute) :
    Drops goClock (perMinute : ℚ) (perMinute / 60) (HasRate perMinute)
      (fun r key => r.buckets.get key) allow := by
  rintro r ⟨hcapacity, hrefill⟩ key now
  rw [allow_eq, hcapacity, hrefill]
  refine ⟨⟨?_, ?_⟩, fun k => (r.pruneLocked now).buckets.get k, fun k => ?_, rfl, ?_⟩
  · exact (pruneLocked_capacity r now).trans hcapacity
  · exact (pruneLocked_refill r now).trans hrefill
  · exact (get_pruneLocked r now k).imp_right fun h =>
      ⟨h.1, fun b hb => stale_of_idle hrate (h.2 b hb)⟩
  · funext k
    simp only [GoMap.get_insert, Function.update_apply]

end RateLimiter

/-! ## Keys -/

theorem tenantKey_inj {project project' tenant tenant' : GoString}
    (hproject : hasControlChar project = false) (hproject' : hasControlChar project' = false)
    (h : tenantKey project tenant = tenantKey project' tenant') :
    project = project' ∧ tenant = tenant' :=
  append_cons_inj (zero_notMem_of_hasControlChar hproject)
    (zero_notMem_of_hasControlChar hproject') h

/-! ## Exactness -/

/-- The answers of a bucket that only serves calls at the given times and is never dropped. -/
def isolated (perMinute : ℤ) (times : List Time) : List (Time × Bool) :=
  trace goClock (perMinute : ℚ) (perMinute / 60) none times

/-- How many calls for a key were allowed within `seconds` from `start` on. -/
def allowedCalls (key : GoString) (start : Time) (seconds : ℚ)
    (answers : List ((GoString × Time) × Bool)) : ℕ :=
  answers.countP fun a =>
    a.1.1 = key ∧ a.2 ∧ start ≤ a.1.2 ∧ Duration.seconds (a.1.2 - start) ≤ seconds

theorem seconds_sub_le_iff (start t : Time) (seconds : ℚ) :
    Duration.seconds (t - start) ≤ seconds ↔ t ≤ start + ⌊seconds * 1000000000⌋ := by
  unfold Duration.seconds
  rw [div_le_iff₀ (by norm_num), ← Int.le_floor, sub_le_iff_le_add']

theorem allowedCalls_eq (key : GoString) (start : Time) (seconds : ℚ)
    (answers : List ((GoString × Time) × Bool)) :
    allowedCalls key start seconds answers =
      allowedWithin start (start + ⌊seconds * 1000000000⌋) (answersOf key answers) := by
  induction answers with
  | nil => rfl
  | cons a answers ih =>
    rw [allowedCalls, List.countP_cons, ← allowedCalls, ih, answersOf_cons]
    by_cases hkey : a.1.1 = key
    · rw [if_pos hkey, allowedWithin, allowedWithin, List.countP_cons]
      simp [hkey, seconds_sub_le_iff, and_assoc]
    · simp [hkey]

theorem date_sub_le (start : Time) (seconds : ℚ) :
    goClock.date (start + ⌊seconds * 1000000000⌋) - goClock.date start ≤ seconds := by
  have hspan : goClock.date (start + ⌊seconds * 1000000000⌋) - goClock.date start =
      ⌊seconds * 1000000000⌋ / 1000000000 := by
    simp only [goClock, Duration.seconds]
    push_cast
    ring
  rw [hspan, div_le_iff₀ (by norm_num)]
  exact Int.floor_le _

/-- For a clock that does not go back, every key is served as by a bucket of its own that is never
dropped, and is allowed its rate and one burst in every window; the handlers' keys for different
tenants and calls are different. -/
theorem rateLimiter_exact (perMinute : ℤ) (r : RateLimiter)
    (hr : newRateLimiter perMinute = some r) (calls : List (GoString × Time))
    (hclock : (calls.map Prod.snd).Pairwise (· ≤ ·)) :
    (∀ key, answersOf key (runs RateLimiter.allow r calls) =
      isolated perMinute (timesOf key calls)) ∧
    (∀ key start (seconds : ℚ), 0 ≤ seconds →
      (allowedCalls key start seconds (runs RateLimiter.allow r calls) : ℚ) ≤
        perMinute + seconds * perMinute / 60) ∧
    (∀ project project' tenant tenant' rpc rpc' : GoString,
      hasControlChar project = false → hasControlChar project' = false →
      hasControlChar tenant = false → hasControlChar tenant' = false → 0 ∉ rpc → 0 ∉ rpc' →
      (tenantKey project tenant = tenantKey project' tenant' →
        project = project' ∧ tenant = tenant') ∧
      (rpcKey project rpc = rpcKey project' rpc' → project = project' ∧ rpc = rpc') ∧
      tenantKey project tenant ≠ rpcKey project' rpc) := by
  obtain ⟨hpos, rfl⟩ : 0 < perMinute ∧ r = { capacity := perMinute, refill := perMinute / 60 } := by
    unfold newRateLimiter at hr
    split_ifs at hr with hle
    exact ⟨not_le.mp hle, (Option.some.inj hr).symm⟩
  have hcapacity : (0 : ℚ) ≤ perMinute := by exact_mod_cast hpos.le
  have hrate : (0 : ℚ) ≤ perMinute / 60 := by positivity
  have hexact (key : GoString) : answersOf key (runs RateLimiter.allow
      { capacity := perMinute, refill := perMinute / 60 } calls) =
        isolated perMinute (timesOf key calls) := by
    refine answersOf_runs hcapacity hrate (RateLimiter.drops_allow hpos.le) key calls hclock _
      ⟨rfl, rfl⟩ none fun c _ => ⟨?_, .inl (GoMap.get_empty key)⟩
    rintro b ⟨⟩
  refine ⟨hexact, ?_, ?_⟩
  · intro key start seconds hseconds
    have hfloor : (0 : ℤ) ≤ ⌊seconds * 1000000000⌋ := Int.floor_nonneg.mpr (by positivity)
    rw [allowedCalls_eq, hexact, isolated]
    refine (allowedWithin_le hcapacity hrate (by rintro b ⟨⟩) (timesOf_sorted hclock)
      (le_add_of_nonneg_right hfloor)).trans ?_
    rw [mul_div_assoc]
    gcongr
    exact date_sub_le start seconds
  · intro project project' tenant tenant' rpc rpc' hproject hproject' htenant _ _ _
    refine ⟨tenantKey_inj hproject hproject', fun h => ?_, fun h => ?_⟩
    · obtain ⟨heq, hrpc⟩ := tenantKey_inj hproject hproject' h
      exact ⟨heq, (List.cons.inj hrpc).2⟩
    · obtain ⟨-, rfl⟩ := tenantKey_inj hproject hproject' h
      exact zero_notMem_of_hasControlChar htenant List.mem_cons_self

/-- Five calls in twenty seconds at three in a minute. -/
theorem rateLimiter_exact_burst :
    (allowedCalls "1.2.3.4" 0 20
      (runs RateLimiter.allow { capacity := (3 : ℤ), refill := (3 : ℤ) / 60 }
      [("1.2.3.4", 0), ("1.2.3.4", 0), ("1.2.3.4", 0), ("1.2.3.4", 0), ("9.9.9.9", 5),
        ("1.2.3.4", 20000000000)]) : ℚ) ≤ (3 : ℤ) + 20 * (3 : ℤ) / 60 :=
  (rateLimiter_exact 3 _ rfl _ (by decide)).2.1 "1.2.3.4" 0 20 (by norm_num)

end WorkspaceAuthz.Connect
