import McpGateway.RateLimit.Limiter

/-!
# The tokens at an instant

What a call finds in a bucket, as a function of the time, and what a run of the
script leaves there.
-/

namespace McpGateway.RateLimit

open Js Keyed

def available (config : BucketConfig) (t : ℚ) (bucket : Option Bucket) : ℚ :=
  found (consumeArgs config 0 none) t bucket

section
variable {config : BucketConfig} {t now : ℚ} {b : Bucket}

theorem available_some (config : BucketConfig) (t : ℚ) (b : Bucket) :
    available config t (some b) =
      min (config.capacity : ℚ) (b.tokens + config.rate * max 0 (t - b.ts)) := by
  by_cases hrefill : 1 ≤ config.refillTokens
  · by_cases hinterval : 1 ≤ config.refillIntervalMs
    · exact refilled_eq (Nat.cast_pos.mpr hinterval) (Nat.cast_pos.mpr hrefill) t b
    · obtain hzero : config.refillIntervalMs = 0 := by omega
      simp [available, found, refilled, consumeArgs, BucketConfig.rate, hzero, min_def]
      grind
  · obtain hzero : config.refillTokens = 0 := by omega
    simp [available, found, refilled, consumeArgs, BucketConfig.rate, hzero, min_def]
    grind

@[simp] theorem available_none (config : BucketConfig) (t : ℚ) :
    available config t none = config.capacity := by
  have hfull := available_some config t ⟨config.capacity, t⟩
  simp only [sub_self, max_self, mul_zero, add_zero, min_self] at hfull
  exact hfull

theorem available_le (config : BucketConfig) (t : ℚ) (bucket : Option Bucket) :
    available config t bucket ≤ config.capacity := by
  cases bucket with
  | none => simp
  | some b => simp [available_some]

theorem available_mono (h : now ≤ t) (bucket : Option Bucket) :
    available config now bucket ≤ available config t bucket := by
  cases bucket with
  | none => simp
  | some b =>
    rw [available_some, available_some]
    have hmax : max 0 (now - b.ts) ≤ max 0 (t - b.ts) := by
      gcongr
    have hcredit := mul_le_mul_of_nonneg_left hmax (rate_nonneg config)
    gcongr

end

-- ---------------------------------------------------------------------------
-- A run of the script
-- ---------------------------------------------------------------------------

def TimedCall.reading (c : TimedCall) : ℚ := clock (c.now.getD 0) c.time

theorem ttl_nonneg (config : BucketConfig) : 0 ≤ ttlMs config :=
  le_trans (by norm_num) (le_max_left (60000 : ℚ) _)

/-- A run that admits stores what it found less the cost, one that refuses stores
what it found. -/
theorem act_slot (c : TimedCall) (slot : Option Slot) :
    (c.act slot).1 = some ⟨⟨if (c.act slot).2.allowed then
        available c.config c.reading (live c.time slot) - c.cost
      else available c.config c.reading (live c.time slot), c.reading⟩,
      c.time.ms + ttlMs c.config⟩ := by
  have hfound : found c.argv (clock c.argv.nowMs c.time) (live c.time slot) =
      available c.config c.reading (live c.time slot) := rfl
  simp only [TimedCall.act, runScript, tokenBucket, hfound, spend]
  split <;> simp [ConsumeCall.verdict, toVerdict, ConsumeCall.argv, consumeArgs, TimedCall.reading]

theorem live_act_of_le (c : TimedCall) (slot : Option Slot) {time : ServerTime}
    (h : time.ms ≤ c.time.ms + ttlMs c.config) :
    live time (c.act slot).1 =
      some ⟨if (c.act slot).2.allowed then available c.config c.reading (live c.time slot) - c.cost
        else available c.config c.reading (live c.time slot), c.reading⟩ := by
  rw [act_slot]
  simp [live, h]

theorem live_act (c : TimedCall) (slot : Option Slot) :
    live c.time (c.act slot).1 =
      some ⟨if (c.act slot).2.allowed then available c.config c.reading (live c.time slot) - c.cost
        else available c.config c.reading (live c.time slot), c.reading⟩ :=
  live_act_of_le c slot (le_add_of_nonneg_right (ttl_nonneg c.config))

theorem allowed_iff (c : TimedCall) (slot : Option Slot) :
    (c.act slot).2.allowed = true ↔ c.cost ≤ available c.config c.reading (live c.time slot) := by
  have hfound : found c.argv (clock c.argv.nowMs c.time) (live c.time slot) =
      available c.config c.reading (live c.time slot) := rfl
  have hcost : c.argv.cost = c.cost := rfl
  simp only [TimedCall.act, runScript, tokenBucket, hfound, spend, hcost]
  split <;> simp_all [ConsumeCall.verdict, toVerdict]

end McpGateway.RateLimit
