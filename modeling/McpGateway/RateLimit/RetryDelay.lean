import McpGateway.RateLimit.Retries
import McpGateway.Shared.Errors

/-!
# The delay a refused call is told

The script computes from what is missing when a refused call can be admitted. A
call that comes back then is admitted, and one that comes back earlier is not.
-/

namespace McpGateway.RateLimit

open Js Shared

/-- The same call again at another time, with nothing in between, on a clock at which
keys are gone from the time they expire. -/
def admittedAgain (scope : LimitScope) (config : BucketConfig) (a : Attempt) (slot : Option Slot)
    (time : ServerTime) : Bool :=
  let after := (Expiry.atOnce.act (a.call scope config) slot).1
  (Expiry.atOnce.act (Attempt.call scope config ⟨time, a.cost⟩) after).2.allowed

section
variable {scope : LimitScope} {config : BucketConfig} {a : Attempt} {slot : Option Slot}
  {tokens : ℚ} {time : ServerTime}

theorem ms_eq_intCast (time : ServerTime) : ∃ n : ℤ, time.ms = n :=
  ⟨(time.seconds : ℤ) * 1000 + ⌊(time.microseconds : ℚ) / 1000⌋, by
    unfold ServerTime.ms
    push_cast
    rfl⟩

def BucketConfig.makesUp (config : BucketConfig) (deficit : ℚ) : ℚ :=
  deficit / config.refillTokens * config.refillIntervalMs

theorem rate_mul_makesUp (h : config.Refills) (deficit : ℚ) :
    config.rate * config.makesUp deficit = deficit := by
  have hr : (config.refillTokens : ℚ) ≠ 0 := Nat.cast_ne_zero.mpr (Nat.one_le_iff_ne_zero.mp h.1)
  have hi : (config.refillIntervalMs : ℚ) ≠ 0 :=
    Nat.cast_ne_zero.mpr (Nat.one_le_iff_ne_zero.mp h.2)
  unfold BucketConfig.rate BucketConfig.makesUp
  field_simp

theorem rate_pos (h : config.Refills) : 0 < config.rate :=
  div_pos (Nat.cast_pos.mpr h.1) (Nat.cast_pos.mpr h.2)

theorem charge_retryAfterMs (h : (a.charge scope config tokens).2.allowed = false) :
    (a.charge scope config tokens).2.retryAfterMs =
      if 1 ≤ config.refillTokens ∧ 1 ≤ config.refillIntervalMs then
        (⌈config.makesUp (a.cost - tokens)⌉ : ℚ)
      else ttlMs config := by
  have hshort : ¬ a.cost ≤ tokens := by
    rw [← charge_allowed scope config, h]
    exact Bool.false_ne_true
  have hrefills : ((config.refillTokens : ℚ) > 0 ∧ (config.refillIntervalMs : ℚ) > 0) ↔
      1 ≤ config.refillTokens ∧ 1 ≤ config.refillIntervalMs := by
    rw [gt_iff_lt, gt_iff_lt, Nat.cast_pos, Nat.cast_pos]
    rfl
  dsimp only [Attempt.charge, spend, consumeArgs]
  rw [if_neg hshort]
  simp only [hrefills]
  rfl

/-- No deficit within the capacity takes longer to make up for than a key lives. -/
theorem makesUp_le_ttl (h : config.Refills) {deficit : ℚ} (hdeficit : deficit ≤ config.capacity) :
    (⌈config.makesUp deficit⌉ : ℚ) ≤ ttlMs config := by
  have hr : (1 : ℚ) ≤ config.refillTokens := Nat.one_le_cast.mpr h.1
  have hmono : config.makesUp deficit ≤ config.makesUp config.capacity := by
    unfold BucketConfig.makesUp
    gcongr
  have hfull : 0 ≤ config.makesUp config.capacity :=
    mul_nonneg (div_nonneg (Nat.cast_nonneg _) (Nat.cast_nonneg _)) (Nat.cast_nonneg _)
  have hceil : (⌈config.makesUp deficit⌉ : ℚ) ≤ ⌈config.makesUp config.capacity⌉ :=
    Int.cast_le.mpr (Int.ceil_mono hmono)
  have hnonneg : (0 : ℚ) ≤ ⌈config.makesUp config.capacity⌉ :=
    Int.cast_nonneg (Int.ceil_nonneg hfull)
  unfold ttlMs
  rw [max_eq_right hr]
  have htwice := le_max_right (60000 : ℚ) (⌈config.makesUp config.capacity⌉ * 2)
  unfold BucketConfig.makesUp at *
  linarith

-- ---------------------------------------------------------------------------
-- The call again
-- ---------------------------------------------------------------------------

/-- A call after a refusal is admitted when its key is gone or the refill covers what was
missing. -/
theorem admittedAgain_iff (hrefused : (Expiry.atOnce.act (a.call scope config) slot).2.allowed = false)
    (hcost : a.cost ≤ config.capacity) (htime : a.time.ms ≤ time.ms) :
    admittedAgain scope config a slot time = true ↔
      a.time.ms + ttlMs config ≤ time.ms ∨
        a.cost - available config a.time.ms (Expiry.atOnce.live a.time slot) ≤
          config.rate * (time.ms - a.time.ms) := by
  unfold admittedAgain
  dsimp only
  rw [act_refused hrefused, act_eq, charge_allowed, live_some]
  dsimp only
  by_cases hgone : a.time.ms + ttlMs config ≤ time.ms
  · have hdropped : Expiry.atOnce.gone (a.time.ms + ttlMs config) time.ms = true :=
      decide_eq_true hgone
    rw [if_pos hdropped, available_none]
    exact ⟨fun _ => .inl hgone, fun _ => hcost⟩
  · have hkept : ¬ Expiry.atOnce.gone (a.time.ms + ttlMs config) time.ms = true := fun h =>
      hgone (of_decide_eq_true h)
    rw [if_neg hkept, available_some, max_eq_right (sub_nonneg.mpr htime), le_min_iff]
    constructor
    · rintro ⟨-, henough⟩
      exact .inr (by linarith)
    · rintro (hdue | henough)
      · exact absurd hdue hgone
      · exact ⟨hcost, by linarith⟩

/-- What a refused call found, what it is told, and that the delay is none of the past. -/
theorem refused_found (hrefused : (Expiry.atOnce.act (a.call scope config) slot).2.allowed = false) :
    available config a.time.ms (Expiry.atOnce.live a.time slot) < a.cost ∧
      (Expiry.atOnce.act (a.call scope config) slot).2.retryAfterMs =
        (if 1 ≤ config.refillTokens ∧ 1 ≤ config.refillIntervalMs then
          (⌈config.makesUp
            (a.cost - available config a.time.ms (Expiry.atOnce.live a.time slot))⌉ : ℚ)
        else ttlMs config) ∧
      0 ≤ (Expiry.atOnce.act (a.call scope config) slot).2.retryAfterMs := by
  rw [act_eq] at hrefused ⊢
  have hshort : available config a.time.ms (Expiry.atOnce.live a.time slot) < a.cost := by
    rw [← not_le, ← charge_allowed scope config, hrefused]
    exact Bool.false_ne_true
  have hretry := charge_retryAfterMs hrefused
  refine ⟨hshort, hretry, ?_⟩
  rw [hretry]
  split
  · have hmakesUp : 0 ≤ config.makesUp
        (a.cost - available config a.time.ms (Expiry.atOnce.live a.time slot)) :=
      mul_nonneg (div_nonneg (sub_nonneg.mpr hshort.le) (Nat.cast_nonneg _)) (Nat.cast_nonneg _)
    exact Int.cast_nonneg (Int.ceil_nonneg hmakesUp)
  · exact ttl_nonneg config

end

/-- The delay a refused call is told is exact: the same call is admitted from then on,
and, when the bucket refills, at no reading of the clock before. The seconds a client
sees cover it. -/
theorem retry_delay_exact (scope : LimitScope) (config : BucketConfig) (slot : Option Slot)
    (a : Attempt) (details : List (JsString × Json))
    (hstate : ∀ b ∈ Expiry.atOnce.live a.time slot, 0 ≤ b.tokens) (hcost : a.cost ≤ config.capacity)
    (hrefused : (Expiry.atOnce.act (a.call scope config) slot).2.allowed = false) :
    (∀ time : ServerTime,
        a.time.ms + (Expiry.atOnce.act (a.call scope config) slot).2.retryAfterMs ≤ time.ms →
        admittedAgain scope config a slot time = true) ∧
      (1 ≤ config.refillTokens → 1 ≤ config.refillIntervalMs → ∀ time : ServerTime,
        a.time.ms ≤ time.ms →
        time.ms < a.time.ms + (Expiry.atOnce.act (a.call scope config) slot).2.retryAfterMs →
        admittedAgain scope config a slot time = false) ∧
      ∃ seconds, (rateLimitedError
          (Expiry.atOnce.act (a.call scope config) slot).2.retryAfterMs details).retryAfterSeconds =
            some seconds ∧
        (Expiry.atOnce.act (a.call scope config) slot).2.retryAfterMs ≤ seconds * 1000 := by
  obtain ⟨hshort, hretry, hnonneg⟩ := refused_found hrefused
  have hfound : 0 ≤ available config a.time.ms (Expiry.atOnce.live a.time slot) :=
    available_nonneg config _ _ hstate
  refine ⟨fun time htime => ?_, fun hrefill hinterval time htime hearly => ?_, ?_⟩
  · rw [admittedAgain_iff hrefused hcost (by linarith)]
    rw [hretry] at htime
    split at htime
    · next hrefills =>
      right
      have hceil := Int.le_ceil (config.makesUp
        (a.cost - available config a.time.ms (Expiry.atOnce.live a.time slot)))
      calc a.cost - available config a.time.ms (Expiry.atOnce.live a.time slot)
          = config.rate * config.makesUp _ := (rate_mul_makesUp hrefills _).symm
        _ ≤ config.rate * (time.ms - a.time.ms) :=
          mul_le_mul_of_nonneg_left (by linarith) (rate_nonneg config)
    · exact .inl htime
  · have hrefills : config.Refills := ⟨hrefill, hinterval⟩
    rw [hretry, if_pos ⟨hrefill, hinterval⟩] at hearly
    rw [← Bool.not_eq_true, admittedAgain_iff hrefused hcost htime, not_or]
    constructor
    · have hlives := makesUp_le_ttl hrefills (by linarith :
        a.cost - available config a.time.ms (Expiry.atOnce.live a.time slot) ≤ config.capacity)
      exact not_le.mpr (by linarith)
    · -- both readings are whole, so the wait is short of the time the deficit takes
      obtain ⟨n, hn⟩ := ms_eq_intCast a.time
      obtain ⟨n', hn'⟩ := ms_eq_intCast time
      have hwait : n' - n < ⌈config.makesUp
          (a.cost - available config a.time.ms (Expiry.atOnce.live a.time slot))⌉ := by
        have hcast : (n' : ℚ) - n < (⌈config.makesUp
            (a.cost - available config a.time.ms (Expiry.atOnce.live a.time slot))⌉ : ℚ) := by
          rw [← hn, ← hn']
          linarith
        exact_mod_cast hcast
      have hless := Int.lt_ceil.mp hwait
      rw [Int.cast_sub, ← hn, ← hn'] at hless
      refine not_le.mpr ?_
      calc config.rate * (time.ms - a.time.ms) < config.rate * config.makesUp _ :=
            mul_lt_mul_of_pos_left hless (rate_pos hrefills)
        _ = a.cost - available config a.time.ms (Expiry.atOnce.live a.time slot) :=
          rate_mul_makesUp hrefills _
  · refine ⟨_, rfl, ?_⟩
    have hceil := Int.le_ceil ((Expiry.atOnce.act (a.call scope config) slot).2.retryAfterMs / 1000)
    have hmax : ((⌈(Expiry.atOnce.act (a.call scope config) slot).2.retryAfterMs / 1000⌉ : ℤ) : ℚ) ≤
        (max 1 ⌈(Expiry.atOnce.act (a.call scope config) slot).2.retryAfterMs / 1000⌉ : ℤ) :=
      Int.cast_le.mpr (le_max_right _ _)
    linarith

/-- An empty bucket of ten a second has four again after 400 milliseconds. -/
theorem retry_delay_exact_empty :
    admittedAgain ⟨.tenant, js "acme", none, none⟩ ⟨10, 10, 1000, none⟩ ⟨⟨1, 0⟩, 4⟩
      (some ⟨⟨0, 1000⟩, 61000⟩) ⟨1, 400000⟩ = true :=
  (retry_delay_exact ⟨.tenant, js "acme", none, none⟩ ⟨10, 10, 1000, none⟩
    (some ⟨⟨0, 1000⟩, 61000⟩) ⟨⟨1, 0⟩, 4⟩ [] (by decide +kernel) (by decide +kernel)
    (by decide +kernel)).1 ⟨1, 400000⟩ (by decide +kernel)

end McpGateway.RateLimit
