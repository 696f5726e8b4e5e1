import McpGateway.RateLimit.Expiry

/-!
# A limit that changes

The script refills a bucket at the rate it is called with, for all the time since
the last call. Time that passed under the previous limit is then credited under
the new one.
-/

namespace McpGateway.RateLimit

open Js

def Expiry.finds (x : Expiry) (c : TimedCall) (slot : Option Slot) : ℚ :=
  found c.argv (clock c.argv.nowMs c.time) (x.live c.time slot)

section
variable {x : Expiry} {scope : LimitScope} {config : BucketConfig} {slot : Option Slot} {s : Slot}

theorem finds_eq (x : Expiry) (scope : LimitScope) (config : BucketConfig) (a : Attempt)
    (slot : Option Slot) :
    x.finds (a.call scope config) slot = available config a.time.ms (x.live a.time slot) := by
  have hclock : clock (a.call scope config).argv.nowMs (a.call scope config).time = a.time.ms :=
    clock_server config a.cost a.time
  unfold Expiry.finds
  rw [hclock]
  rfl

theorem act_ts {a : Attempt} (h : (x.act (a.call scope config) slot).1 = some s) :
    s.bucket.ts = a.time.ms := by
  rw [act_eq, charge_slot] at h
  cases h
  rfl

end

/-- Credit for the time before a change, and for the time since: all of it at the new
rate stays within what the old limit and then the new one give, exactly when the first
part does, or the bucket is full anyway. -/
theorem credit_le_iff {capacity capacity' rate rate' tokens before since : ℚ} (hbefore : 0 ≤ before) :
    min capacity' (tokens + rate' * (before + since)) ≤
        min capacity' (min capacity (tokens + rate * before) + rate' * since) ↔
      (before = 0 ∨ rate' ≤ rate) ∧ tokens + rate' * before ≤ capacity ∨
        capacity' ≤ min capacity (tokens + rate * before) + rate' * since := by
  have hworth : rate' * before ≤ rate * before ↔ before = 0 ∨ rate' ≤ rate := by
    obtain rfl | hpos := hbefore.eq_or_lt
    · simp
    · rw [mul_le_mul_iff_left₀ hpos]
      exact ⟨.inr, fun h => h.resolve_left hpos.ne'⟩
  have hfirst : tokens + rate' * before ≤ min capacity (tokens + rate * before) ↔
      (before = 0 ∨ rate' ≤ rate) ∧ tokens + rate' * before ≤ capacity := by
    rw [le_min_iff, add_le_add_iff_left, hworth]
    exact and_comm
  have hwhole : tokens + rate' * (before + since) = tokens + rate' * before + rate' * since := by ring
  rw [← hfirst, hwhole, le_min_iff, and_iff_right (min_le_left _ _), min_le_iff,
    add_le_add_iff_right, or_comm]

/-- The tokens of a call after a change of the limit are within what the time before the
change earned under the old limit and the time since under the new one, exactly when
the new limit gives no more for the time before the change, or the bucket is full by
the call anyway. -/
theorem not_retroactive_iff (x : Expiry) (scope : LimitScope) (old new : BucketConfig)
    (last next : Attempt) (slot : Option Slot) (s : Slot) (change : ℚ)
    (hlast : (x.act (last.call scope old) slot).1 = some s) (hbefore : last.time.ms ≤ change)
    (hafter : change ≤ next.time.ms) (hlive : x.gone s.expiresAt next.time.ms = false) :
    x.finds (next.call scope new) (some s) ≤
        min (new.capacity : ℚ)
          (min (old.capacity : ℚ) (s.bucket.tokens + old.rate * (change - s.bucket.ts)) +
            new.rate * (next.time.ms - change)) ↔
      (change = s.bucket.ts ∨ new.rate ≤ old.rate) ∧
          s.bucket.tokens + new.rate * (change - s.bucket.ts) ≤ old.capacity ∨
        (new.capacity : ℚ) ≤
          min (old.capacity : ℚ) (s.bucket.tokens + old.rate * (change - s.bucket.ts)) +
            new.rate * (next.time.ms - change) := by
  have hts := act_ts hlast
  have helapsed : next.time.ms - s.bucket.ts =
      (change - s.bucket.ts) + (next.time.ms - change) := by ring
  have hpast : 0 ≤ change - s.bucket.ts := by linarith
  have hpositive : 0 ≤ next.time.ms - s.bucket.ts := by linarith
  rw [finds_eq, live_some, hlive, if_neg Bool.false_ne_true, available_some,
    max_eq_right hpositive, helapsed, credit_le_iff hpast, sub_eq_zero]

/-- A limit that is lowered in rate, with all of the old capacity still free. -/
theorem not_retroactive_lowered :
    Expiry.redis.finds (Attempt.call ⟨.tenant, js "acme", none, none⟩ ⟨20, 5, 1000, none⟩
        ⟨⟨3, 0⟩, 1⟩) (some ⟨⟨2, 1000⟩, 61000⟩) ≤
      min ((20 : Nat) : ℚ) (min ((20 : Nat) : ℚ) (2 + BucketConfig.rate ⟨20, 10, 1000, none⟩ *
        (2000 - 1000)) + BucketConfig.rate ⟨20, 5, 1000, none⟩ * (ServerTime.ms ⟨3, 0⟩ - 2000)) :=
  (not_retroactive_iff .redis ⟨.tenant, js "acme", none, none⟩ ⟨20, 10, 1000, none⟩
    ⟨20, 5, 1000, none⟩ ⟨⟨1, 0⟩, 18⟩ ⟨⟨3, 0⟩, 1⟩ none ⟨⟨2, 1000⟩, 61000⟩ 2000 (by decide +kernel)
    (by decide +kernel) (by decide +kernel) (by decide +kernel)).mpr (.inl (by decide +kernel))

/-- A bucket without a refill, used up and idle for ten seconds: the moment its limit is
raised to ten tokens a second it is full. -/
theorem raised_limit_refunds :
    ¬ ∀ (x : Expiry) (scope : LimitScope) (old new : BucketConfig) (last next : Attempt)
      (slot : Option Slot) (s : Slot) (change : ℚ),
      (x.act (last.call scope old) slot).1 = some s → last.time.ms ≤ change →
      change ≤ next.time.ms → x.gone s.expiresAt next.time.ms = false →
      x.finds (next.call scope new) (some s) ≤
        min (new.capacity : ℚ)
          (min (old.capacity : ℚ) (s.bucket.tokens + old.rate * (change - s.bucket.ts)) +
            new.rate * (next.time.ms - change)) := by
  intro hclaim
  have hbound := hclaim .redis ⟨.tenant, js "acme", none, none⟩ ⟨5, 0, 0, none⟩ ⟨50, 10, 1000, none⟩
    ⟨⟨1, 0⟩, 5⟩ ⟨⟨11, 0⟩, 1⟩ none ⟨⟨0, 1000⟩, 61000⟩ 11000 (by decide +kernel) (by decide +kernel)
    (by decide +kernel) (by decide +kernel)
  revert hbound
  decide +kernel

end McpGateway.RateLimit
