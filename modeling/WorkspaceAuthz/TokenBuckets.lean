import Mathlib.Algebra.Order.Field.Basic
import Mathlib.Tactic

/-! # Token buckets

A bucket holds tokens up to its capacity and is refilled at a steady rate, each time
that it is used. Buckets may be kept for several keys and dropped when they have been
idle for so long that they are full again: nobody can tell the difference. In any
window a bucket gives away what it can hold and what flows in, and no more.
-/
namespace WorkspaceAuthz.TokenBuckets

variable {T R κ σ : Type} [Field R] [LinearOrder R]

/-! ## Uses of several keys -/

section Uses

variable [DecidableEq κ]

/-- The uses and answers of a limiter with state in `σ`, one after the other. -/
def runs (step : σ → κ → T → σ × Bool) : σ → List (κ × T) → List ((κ × T) × Bool)
  | _, [] => []
  | s, c :: calls => (c, (step s c.1 c.2).2) :: runs step (step s c.1 c.2).1 calls

def timesOf (k : κ) (calls : List (κ × T)) : List T :=
  calls.filterMap fun c => if c.1 = k then some c.2 else none

def answersOf (k : κ) (answers : List ((κ × T) × Bool)) : List (T × Bool) :=
  answers.filterMap fun a => if a.1.1 = k then some (a.1.2, a.2) else none

theorem timesOf_cons (k : κ) (c : κ × T) (calls : List (κ × T)) :
    timesOf k (c :: calls) = if c.1 = k then c.2 :: timesOf k calls else timesOf k calls := by
  unfold timesOf
  by_cases h : c.1 = k <;> simp [h]

theorem answersOf_cons (k : κ) (a : (κ × T) × Bool) (answers : List ((κ × T) × Bool)) :
    answersOf k (a :: answers) =
      if a.1.1 = k then (a.1.2, a.2) :: answersOf k answers else answersOf k answers := by
  unfold answersOf
  by_cases h : a.1.1 = k <;> simp [h]

end Uses

/-! ## Definitions -/

/-- How the time between two instants is measured. What is measured may fall short, but it is
positive if any time has passed, and does not decrease with the later instant. -/
structure Clock (T R : Type) [LinearOrder T] [Field R] [LinearOrder R] where
  elapsed : T → T → R
  date : T → R
  pos_iff : ∀ s t, 0 < elapsed s t ↔ s < t
  mono : ∀ s, Monotone (elapsed s)
  le_date : ∀ s t, s ≤ t → elapsed s t ≤ date t - date s

structure Bucket (T R : Type) where
  tokens : R
  last : T

namespace Bucket

def spend (b : Bucket T R) : Bucket T R × Bool :=
  if b.tokens < 1 then (b, false) else (⟨b.tokens - 1, b.last⟩, true)

end Bucket

theorem spend_tokens (b : Bucket T R) :
    b.spend.1.tokens + (if b.spend.2 then 1 else 0) = b.tokens := by
  unfold Bucket.spend
  split_ifs <;> simp_all

theorem spend_last (b : Bucket T R) : b.spend.1.last = b.last := by
  unfold Bucket.spend
  split_ifs <;> rfl

variable [LinearOrder T] (clock : Clock T R) (capacity rate : R)

namespace Bucket

def refill (b : Bucket T R) (now : T) : Bucket T R :=
  if 0 < clock.elapsed b.last now then
    ⟨min capacity (b.tokens + clock.elapsed b.last now * rate), now⟩
  else b

/-- The bucket holds what a bucket can hold, and was last used by `now`. -/
structure Sound (now : T) (b : Bucket T R) : Prop where
  nonneg : 0 ≤ b.tokens
  le_capacity : b.tokens ≤ capacity
  last_le : b.last ≤ now

/-- Idle for long enough to be full again. -/
def Stale (now : T) (b : Bucket T R) : Prop :=
  b.last < now ∧ capacity ≤ clock.elapsed b.last now * rate

end Bucket

/-- One use of a bucket; a new bucket is full. -/
def use (b : Option (Bucket T R)) (now : T) : Bucket T R × Bool :=
  ((b.getD ⟨capacity, now⟩).refill clock capacity rate now).spend

def trace : Option (Bucket T R) → List T → List (T × Bool)
  | _, [] => []
  | b, t :: ts =>
    (t, (use clock capacity rate b t).2) :: trace (some (use clock capacity rate b t).1) ts

variable {clock capacity rate}

/-! ## One bucket -/

section Bucket

variable {b : Bucket T R} {now now' : T}

theorem refill_of_le (h : now ≤ b.last) : b.refill clock capacity rate now = b :=
  if_neg fun hpos => absurd ((clock.pos_iff _ _).mp hpos) (not_lt.mpr h)

theorem refill_of_lt (h : b.last < now) : b.refill clock capacity rate now =
    ⟨min capacity (b.tokens + clock.elapsed b.last now * rate), now⟩ :=
  if_pos ((clock.pos_iff _ _).mpr h)

theorem Bucket.Sound.mono (h : b.Sound capacity now) (hle : now ≤ now') :
    b.Sound capacity now' :=
  ⟨h.nonneg, h.le_capacity, h.last_le.trans hle⟩

theorem sound_full (hcapacity : 0 ≤ capacity) (now : T) :
    (⟨capacity, now⟩ : Bucket T R).Sound capacity now :=
  ⟨hcapacity, le_rfl, le_rfl⟩

theorem refill_last (h : b.last ≤ now) : (b.refill clock capacity rate now).last = now := by
  rcases h.eq_or_lt with heq | hlt
  · rw [refill_of_le heq.ge]
    exact heq
  · rw [refill_of_lt hlt]

/-- What a bucket has when it is used does not depend on when it was refilled. -/
theorem use_refilled (o : Option (Bucket T R)) (h : ∀ b ∈ o, b.last ≤ now) :
    use clock capacity rate (some ((o.getD ⟨capacity, now⟩).refill clock capacity rate now)) now =
      use clock capacity rate o now := by
  have hlast : (o.getD ⟨capacity, now⟩).last ≤ now := by
    cases o with
    | none => exact le_rfl
    | some b => exact h b rfl
  rw [use, Option.getD_some, refill_of_le (refill_last hlast).ge, use]

variable [IsStrictOrderedRing R]

theorem Bucket.Sound.refill (hcapacity : 0 ≤ capacity) (hrate : 0 ≤ rate)
    (h : b.Sound capacity now) : (b.refill clock capacity rate now).Sound capacity now := by
  rcases h.last_le.eq_or_lt with heq | hlt
  · rw [refill_of_le heq.ge]
    exact h
  · rw [refill_of_lt hlt]
    have hflow : 0 ≤ clock.elapsed b.last now * rate :=
      mul_nonneg ((clock.pos_iff _ _).mpr hlt).le hrate
    exact ⟨le_min hcapacity (add_nonneg h.nonneg hflow), min_le_left _ _, le_rfl⟩

theorem Bucket.Sound.spend (h : b.Sound capacity now) : b.spend.1.Sound capacity now := by
  unfold Bucket.spend
  split_ifs with hlt
  · exact h
  · have hle := h.le_capacity
    exact ⟨by linarith, by simp only; linarith, h.last_le⟩

theorem sound_use (hcapacity : 0 ≤ capacity) (hrate : 0 ≤ rate) {o : Option (Bucket T R)}
    (h : ∀ b ∈ o, b.Sound capacity now) : (use clock capacity rate o now).1.Sound capacity now := by
  cases o with
  | none => exact ((sound_full hcapacity now).refill hcapacity hrate).spend
  | some b => exact ((h b rfl).refill hcapacity hrate).spend

/-- A bucket that has been idle for long is as good as new. -/
theorem use_of_stale (hsound : b.Sound capacity now') (hstale : b.Stale clock capacity rate now) :
    use clock capacity rate (some b) now = use clock capacity rate none now := by
  have hnew : (⟨capacity, now⟩ : Bucket T R).refill clock capacity rate now = ⟨capacity, now⟩ :=
    refill_of_le le_rfl
  have hfull : min capacity (b.tokens + clock.elapsed b.last now * rate) = capacity := by
    refine min_eq_left ?_
    have := hsound.nonneg
    have := hstale.2
    linarith
  rw [use, use, Option.getD_some, Option.getD_none, hnew, refill_of_lt hstale.1, hfull]

theorem Bucket.Stale.mono (hrate : 0 ≤ rate) (h : b.Stale clock capacity rate now)
    (hle : now ≤ now') : b.Stale clock capacity rate now' :=
  ⟨h.1.trans_le hle, h.2.trans (mul_le_mul_of_nonneg_right (clock.mono _ hle) hrate)⟩

end Bucket

/-! ## Windows -/

def allowedWithin (s t : T) (answers : List (T × Bool)) : ℕ :=
  answers.countP fun a => a.2 && decide (s ≤ a.1) && decide (a.1 ≤ t)

section Windows

variable {b : Bucket T R} {now s e : T} {times : List T}

theorem allowedWithin_eq_zero {o : Option (Bucket T R)} (h : ∀ t ∈ times, e < t) :
    allowedWithin s e (trace clock capacity rate o times) = 0 := by
  induction times generalizing o with
  | nil => rfl
  | cons t ts ih =>
    rw [List.forall_mem_cons] at h
    have hhead : decide (t ≤ e) = false := decide_eq_false (not_le.mpr h.1)
    rw [allowedWithin, trace, List.countP_cons, ← allowedWithin, ih h.2]
    simp [hhead]

variable [IsStrictOrderedRing R]

theorem Clock.date_mono (clock : Clock T R) : Monotone clock.date := by
  intro s t hst
  rcases hst.eq_or_lt with rfl | hlt
  · exact le_rfl
  · have hpos := (clock.pos_iff s t).mpr hlt
    have hle := clock.le_date s t hst
    linarith

theorem refill_tokens_le (hrate : 0 ≤ rate) (h : b.last ≤ now) :
    (b.refill clock capacity rate now).tokens ≤
      b.tokens + (clock.date now - clock.date b.last) * rate := by
  rcases h.eq_or_lt with heq | hlt
  · rw [refill_of_le heq.ge, heq]
    simp
  · rw [refill_of_lt hlt]
    exact (min_le_right _ _).trans
      (add_le_add_right (mul_le_mul_of_nonneg_right (clock.le_date _ _ h) hrate) _)

theorem allowedWithin_cons (a : T × Bool) (answers : List (T × Bool)) :
    allowedWithin s e (a :: answers) ≤ allowedWithin s e answers + if a.2 then 1 else 0 := by
  rw [allowedWithin, List.countP_cons, ← allowedWithin]
  refine Nat.add_le_add_left ?_ _
  cases a.2 <;> simp
  split_ifs <;> simp

/-- From any bucket on, uses are paid for by the tokens in it and by what flows in. -/
theorem allowedWithin_some_le (hcapacity : 0 ≤ capacity) (hrate : 0 ≤ rate)
    (hb : b.Sound capacity e) (hlast : ∀ t ∈ times, b.last ≤ t) (hsorted : times.Pairwise (· ≤ ·)) :
    (allowedWithin s e (trace clock capacity rate (some b) times) : R) ≤
      b.tokens + (clock.date e - clock.date b.last) * rate := by
  have hflow : 0 ≤ (clock.date e - clock.date b.last) * rate :=
    mul_nonneg (sub_nonneg.mpr (clock.date_mono hb.last_le)) hrate
  induction times generalizing b with
  | nil => simpa [allowedWithin, trace] using add_nonneg hb.nonneg hflow
  | cons t ts ih =>
    rw [List.forall_mem_cons] at hlast
    obtain ⟨hfirst, hrest⟩ := List.pairwise_cons.mp hsorted
    by_cases hte : t ≤ e
    · set b' := b.refill clock capacity rate t with hb'
      have hsound : b'.Sound capacity t :=
        Bucket.Sound.refill hcapacity hrate ⟨hb.nonneg, hb.le_capacity, hlast.1⟩
      have hnow : b'.spend.1.last = t := (spend_last b').trans (refill_last hlast.1)
      have hih := ih (b := b'.spend.1) (hsound.spend.mono hte) (by rwa [hnow]) hrest (by
        rw [hnow]
        exact mul_nonneg (sub_nonneg.mpr (clock.date_mono hte)) hrate)
      rw [hnow] at hih
      have hin : b'.tokens ≤ b.tokens + (clock.date t - clock.date b.last) * rate :=
        refill_tokens_le hrate hlast.1
      have hcount : (allowedWithin s e (trace clock capacity rate (some b) (t :: ts)) : R) ≤
          allowedWithin s e (trace clock capacity rate (some b'.spend.1) ts) +
            if b'.spend.2 then 1 else 0 := by
        exact_mod_cast allowedWithin_cons (t, b'.spend.2) _
      calc (allowedWithin s e (trace clock capacity rate (some b) (t :: ts)) : R)
          ≤ b'.spend.1.tokens + (clock.date e - clock.date t) * rate +
            (if b'.spend.2 then 1 else 0) := hcount.trans (add_le_add_left hih _)
        _ = b'.tokens + (clock.date e - clock.date t) * rate := by
          rw [← spend_tokens b']
          ring
        _ ≤ b.tokens + (clock.date t - clock.date b.last) * rate +
            (clock.date e - clock.date t) * rate := add_le_add_left hin _
        _ = b.tokens + (clock.date e - clock.date b.last) * rate := by ring
    · have hlate : ∀ t' ∈ t :: ts, e < t' :=
        List.forall_mem_cons.mpr ⟨not_le.mp hte, fun t' ht' =>
          (not_le.mp hte).trans_le (hfirst t' ht')⟩
      rw [allowedWithin_eq_zero hlate]
      simpa using add_nonneg hb.nonneg hflow

/-- In every window a bucket gives away what it can hold and what flows in, and no more. -/
theorem allowedWithin_le (hcapacity : 0 ≤ capacity) (hrate : 0 ≤ rate)
    {o : Option (Bucket T R)} (ho : ∀ b ∈ o, ∀ t ∈ times, b.Sound capacity t)
    (hsorted : times.Pairwise (· ≤ ·)) (hse : s ≤ e) :
    (allowedWithin s e (trace clock capacity rate o times) : R) ≤
      capacity + (clock.date e - clock.date s) * rate := by
  have hflow : 0 ≤ (clock.date e - clock.date s) * rate :=
    mul_nonneg (sub_nonneg.mpr (clock.date_mono hse)) hrate
  induction times generalizing o with
  | nil => simpa [allowedWithin, trace] using add_nonneg hcapacity hflow
  | cons t ts ih =>
    obtain ⟨hfirst, hrest⟩ := List.pairwise_cons.mp hsorted
    have hot : ∀ b ∈ o, b.Sound capacity t := fun b hb => ho b hb t List.mem_cons_self
    by_cases hst : s ≤ t
    · by_cases hte : t ≤ e
      · set b := (o.getD ⟨capacity, t⟩).refill clock capacity rate t with hb
        have hsound : b.Sound capacity t := by
          refine Bucket.Sound.refill hcapacity hrate ?_
          cases o with
          | none => exact sound_full hcapacity t
          | some b₀ => exact hot b₀ rfl
        have hlast : b.last = t := by
          refine refill_last ?_
          cases o with
          | none => exact le_rfl
          | some b₀ => exact (hot b₀ rfl).last_le
        have hsame : trace clock capacity rate o (t :: ts) =
            trace clock capacity rate (some b) (t :: ts) := by
          rw [trace, trace, hb, use_refilled o fun b hb => (hot b hb).last_le]
        have hcount : (allowedWithin s e (trace clock capacity rate (some b) (t :: ts)) : R) ≤
            b.tokens + (clock.date e - clock.date b.last) * rate :=
          allowedWithin_some_le hcapacity hrate (hsound.mono hte) (by simpa [hlast] using hfirst)
            hsorted
        rw [hlast, ← hsame] at hcount
        have hdate : (clock.date e - clock.date t) * rate ≤ (clock.date e - clock.date s) * rate :=
          mul_le_mul_of_nonneg_right (sub_le_sub_left (clock.date_mono hst) _) hrate
        exact hcount.trans (add_le_add hsound.le_capacity hdate)
      · have hlate : ∀ t' ∈ t :: ts, e < t' :=
          List.forall_mem_cons.mpr
            ⟨not_le.mp hte, fun t' ht' => (not_le.mp hte).trans_le (hfirst t' ht')⟩
        rw [allowedWithin_eq_zero hlate]
        simpa using add_nonneg hcapacity hflow
    · have hskip : allowedWithin s e (trace clock capacity rate o (t :: ts)) =
          allowedWithin s e (trace clock capacity rate
            (some (use clock capacity rate o t).1) ts) := by
        rw [trace, allowedWithin, List.countP_cons_of_neg (by simp [hst]), ← allowedWithin]
      rw [hskip]
      refine ih ?_ hrest
      rintro b ⟨⟩ t' ht'
      exact (sound_use hcapacity hrate hot).mono (hfirst t' ht')

end Windows

/-! ## Buckets for several keys -/

section Keys

variable [DecidableEq κ]

theorem timesOf_sorted {k : κ} {calls : List (κ × T)}
    (h : (calls.map Prod.snd).Pairwise (· ≤ ·)) : (timesOf k calls).Pairwise (· ≤ ·) := by
  rw [List.pairwise_map] at h
  rw [timesOf, List.pairwise_filterMap]
  refine h.imp fun hle t ht t' ht' => ?_
  split_ifs at ht ht'
  cases ht
  cases ht'
  exact hle

/-- Every use may first drop any buckets that are stale by then, and uses the bucket of its key. -/
def Drops (clock : Clock T R) (capacity rate : R) (inv : σ → Prop)
    (view : σ → κ → Option (Bucket T R)) (step : σ → κ → T → σ × Bool) : Prop :=
  ∀ s, inv s → ∀ k now, inv (step s k now).1 ∧ ∃ kept : κ → Option (Bucket T R),
    (∀ k', kept k' = view s k' ∨
      kept k' = none ∧ ∀ b ∈ view s k', b.Stale clock capacity rate now) ∧
    (step s k now).2 = (use clock capacity rate (kept k) now).2 ∧
    view (step s k now).1 = Function.update kept k (some (use clock capacity rate (kept k) now).1)

/-- The bucket of a limiter is the one that was never dropped, or was dropped when stale. -/
structure Matches (clock : Clock T R) (capacity rate : R) (now : T)
    (o solo : Option (Bucket T R)) : Prop where
  sound : ∀ b ∈ solo, b.Sound capacity now
  same : o = solo ∨ o = none ∧ ∀ b ∈ solo, b.Stale clock capacity rate now

variable {o solo : Option (Bucket T R)} {now now' : T}

theorem Matches.drop {kept : Option (Bucket T R)} (h : Matches clock capacity rate now o solo)
    (hkept : kept = o ∨ kept = none ∧ ∀ b ∈ o, b.Stale clock capacity rate now) :
    Matches clock capacity rate now kept solo where
  sound := h.sound
  same := by
    rcases hkept with rfl | ⟨rfl, hstale⟩
    · exact h.same
    · rcases h.same with rfl | ⟨-, hstale'⟩
      · exact .inr ⟨rfl, hstale⟩
      · exact .inr ⟨rfl, hstale'⟩

variable [IsStrictOrderedRing R]

theorem Matches.mono (hrate : 0 ≤ rate) (h : Matches clock capacity rate now o solo)
    (hle : now ≤ now') : Matches clock capacity rate now' o solo where
  sound b hb := (h.sound b hb).mono hle
  same := h.same.imp_right fun hnone => ⟨hnone.1, fun b hb => (hnone.2 b hb).mono hrate hle⟩

theorem Matches.use_eq (h : Matches clock capacity rate now o solo) :
    use clock capacity rate o now = use clock capacity rate solo now := by
  rcases h.same with rfl | ⟨rfl, hstale⟩
  · rfl
  · cases solo with
    | none => rfl
    | some b => exact (use_of_stale (h.sound b rfl) (hstale b rfl)).symm

/-- Each key is served as by a bucket of its own that is never dropped. -/
theorem answersOf_runs (hcapacity : 0 ≤ capacity) (hrate : 0 ≤ rate)
    {inv : σ → Prop} {view : σ → κ → Option (Bucket T R)} {step : σ → κ → T → σ × Bool}
    (hstep : Drops clock capacity rate inv view step) (k : κ) (calls : List (κ × T))
    (hsorted : (calls.map Prod.snd).Pairwise (· ≤ ·)) (s : σ) (hs : inv s)
    (solo : Option (Bucket T R))
    (h : ∀ c ∈ calls, Matches clock capacity rate c.2 (view s k) solo) :
    answersOf k (runs step s calls) = trace clock capacity rate solo (timesOf k calls) := by
  induction calls generalizing s solo with
  | nil => rfl
  | cons c calls ih =>
    rw [List.map_cons, List.pairwise_cons] at hsorted
    obtain ⟨hfirst, hrest⟩ := hsorted
    have hlater : ∀ c' ∈ calls, c.2 ≤ c'.2 := fun c' hc' =>
      hfirst c'.2 (List.mem_map_of_mem hc')
    obtain ⟨hs', kept, hkept, hanswer, hview⟩ := hstep s hs c.1 c.2
    have hmatch : Matches clock capacity rate c.2 (kept k) solo :=
      (h c List.mem_cons_self).drop (hkept k)
    rw [runs, answersOf_cons, timesOf_cons]
    by_cases hk : c.1 = k
    · rw [if_pos hk, if_pos hk, trace]
      rw [hk] at hs' hanswer hview ⊢
      rw [hmatch.use_eq] at hanswer hview
      rw [hanswer]
      congr 1
      refine ih hrest _ hs' _ fun c' hc' => ?_
      rw [hview, Function.update_self]
      refine ⟨?_, .inl rfl⟩
      rintro b ⟨⟩
      exact (sound_use hcapacity hrate hmatch.sound).mono (hlater c' hc')
    · rw [if_neg hk, if_neg hk]
      refine ih hrest _ hs' _ fun c' hc' => ?_
      rw [hview, Function.update_of_ne (Ne.symm hk)]
      exact hmatch.mono hrate (hlater c' hc')

end Keys

end WorkspaceAuthz.TokenBuckets
