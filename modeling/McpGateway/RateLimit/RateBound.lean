import McpGateway.Lib.Transition
import McpGateway.RateLimit.TokenBucket

/-!
# The rate a bucket admits

Calls of `consume` on one bucket, at the readings of a Redis clock that does not
go backwards. The key may be dropped from the time it expires, and the bucket is
full again then, but it would have filled up by that time anyway. So the bucket
is a reservoir, and no window of time admits more than the capacity and the
refill of the window.
-/

namespace McpGateway.RateLimit

open Reservoir Transition

/-- The key of a bucket, with the time it expires at. -/
structure Slot where
  bucket : Bucket
  expiresAt : ℚ
  deriving DecidableEq, Repr

/-- A call of `consume` as Redis runs it. -/
structure Call where
  time : ServerTime
  cost : ℚ
  /-- Redis has dropped the key before this call. -/
  expired : Bool
  deriving DecidableEq, Repr

/-- What Redis keeps, and what each call was admitted for. -/
structure Limiter where
  slot : Option Slot
  draws : List (Draw ℚ)
  deriving DecidableEq, Repr

def Limiter.start : Limiter := ⟨none, []⟩

/-- Redis drops a key when its time has come, not before. -/
def Limiter.mayExpire (s : Limiter) (time : ServerTime) : Bool :=
  s.slot.any fun slot => decide (slot.expiresAt ≤ time.ms)

def Limiter.consume (config : BucketConfig) (s : Limiter) (c : Call) : Option Limiter :=
  if c.expired && !s.mayExpire c.time then none else
    let state := if c.expired then none else s.slot.map Slot.bucket
    let argv := consumeArgs config c.cost none
    let (bucket, reply) := tokenBucket argv c.time state
    some ⟨some ⟨bucket, c.time.ms + argv.ttlMs⟩, s.draws ++ [⟨c.time.ms, reply.admits c.cost⟩]⟩

/-- The cost admitted from time `t₁` to time `t₂`. -/
def Limiter.admitted (s : Limiter) (t₁ t₂ : ℚ) : ℚ := drawn t₁ t₂ s.draws

section
variable {config : BucketConfig} {s s' : Limiter} {c : Call}

def BucketConfig.rate (config : BucketConfig) : ℚ :=
  (config.refillTokens : ℚ) / (config.refillIntervalMs : ℚ)

theorem rate_nonneg (config : BucketConfig) : 0 ≤ config.rate :=
  div_nonneg (Nat.cast_nonneg _) (Nat.cast_nonneg _)

theorem rate_mul (config : BucketConfig) (t : ℚ) :
    config.rate * t = (config.refillTokens : ℚ) * t / (config.refillIntervalMs : ℚ) :=
  div_mul_eq_mul_div _ _ _

theorem capacity_le_ttl (hrefill : 1 ≤ config.refillTokens)
    (hinterval : 1 ≤ config.refillIntervalMs) :
    (config.capacity : ℚ) ≤ config.rate * ttlMs config := by
  have hr : (1 : ℚ) ≤ config.refillTokens := Nat.one_le_cast.mpr hrefill
  have hi : (1 : ℚ) ≤ config.refillIntervalMs := Nat.one_le_cast.mpr hinterval
  have hrpos : (0 : ℚ) < config.refillTokens := by linarith
  have hipos : (0 : ℚ) < config.refillIntervalMs := by linarith
  have hcap : (0 : ℚ) ≤ config.capacity := Nat.cast_nonneg _
  -- the time the bucket takes to fill up from nothing
  let full : ℚ := (config.capacity : ℚ) / config.refillTokens * config.refillIntervalMs
  have hfull : config.rate * full = config.capacity := by
    show (config.refillTokens : ℚ) / config.refillIntervalMs *
      ((config.capacity : ℚ) / config.refillTokens * config.refillIntervalMs) = config.capacity
    field_simp
  have hnonneg : 0 ≤ full := mul_nonneg (div_nonneg hcap hrpos.le) hipos.le
  have hceil : full ≤ (⌈full⌉ : ℚ) := Int.le_ceil full
  have httl : full ≤ ttlMs config := by
    unfold ttlMs
    rw [max_eq_right hr]
    have htwice : (⌈full⌉ : ℚ) * 2 ≤ max 60000 ((⌈full⌉ : ℚ) * 2) := le_max_right _ _
    linarith
  calc (config.capacity : ℚ) = config.rate * full := hfull.symm
    _ ≤ config.rate * ttlMs config := mul_le_mul_of_nonneg_left httl (rate_nonneg config)

/-- A bucket nobody has used, or one whose stored tokens are the level of a
reservoir. -/
def Limiter.Metered (config : BucketConfig) (s : Limiter) : Prop :=
  match s.slot with
  | none => s.draws = []
  | some slot =>
    Reservoir.Metered (config.capacity : ℚ) config.rate slot.bucket.tokens slot.bucket.ts s.draws ∧
      slot.expiresAt = slot.bucket.ts + ttlMs config

def Limiter.Past (s : Limiter) (c : Call) : Prop := ∀ slot ∈ s.slot, slot.bucket.ts ≤ c.time.ms

theorem clock_server (config : BucketConfig) (cost : ℚ) (time : ServerTime) :
    clock (consumeArgs config cost none).nowMs time = time.ms := if_neg (lt_irrefl 0)

theorem consume_spec (h : s.consume config c = some s') :
    (c.expired = true → s.mayExpire c.time = true) ∧
      ∃ tokens b r, tokens = found (consumeArgs config c.cost none) c.time.ms
          (if c.expired then none else s.slot.map Slot.bucket) ∧
        spend (consumeArgs config c.cost none) c.time.ms tokens = (b, r) ∧
        s' = ⟨some ⟨b, c.time.ms + ttlMs config⟩, s.draws ++ [⟨c.time.ms, r.admits c.cost⟩]⟩ := by
  unfold Limiter.consume at h
  split at h
  · cases h
  · next hnot =>
    refine ⟨fun he => by simpa [he] using hnot, _, _, _, rfl, rfl, ?_⟩
    dsimp only [tokenBucket] at h
    rw [clock_server] at h
    exact (Option.some.inj h).symm

/-- What the script finds to give out is within the capacity, and is no more than
what was left and has flowed in since. -/
theorem refilled_bounds (hrefill : 1 ≤ config.refillTokens) (hinterval : 1 ≤ config.refillIntervalMs)
    (b : Bucket) (hb : 0 ≤ b.tokens) (hts : b.ts ≤ c.time.ms) :
    0 ≤ refilled (consumeArgs config c.cost none) c.time.ms b ∧
      refilled (consumeArgs config c.cost none) c.time.ms b ≤ config.capacity ∧
      refilled (consumeArgs config c.cost none) c.time.ms b ≤
        b.tokens + config.rate * (c.time.ms - b.ts) := by
  have hi : (0 : ℚ) < (consumeArgs config c.cost none).refillIntervalMs := Nat.cast_pos.mpr hinterval
  have hr : (0 : ℚ) < (consumeArgs config c.cost none).refillTokens := Nat.cast_pos.mpr hrefill
  have hinflow := mul_nonneg (rate_nonneg config) (sub_nonneg.mpr hts)
  rw [refilled_eq hi hr, max_eq_right (sub_nonneg.mpr hts)]
  refine ⟨le_min (Nat.cast_nonneg _) ?_, min_le_left _ _, min_le_right _ _⟩
  exact add_nonneg hb hinflow

theorem refilled_full (hrefill : 1 ≤ config.refillTokens) (hinterval : 1 ≤ config.refillIntervalMs) :
    refilled (consumeArgs config c.cost none) c.time.ms ⟨config.capacity, c.time.ms⟩ =
      config.capacity := by
  have hi : (0 : ℚ) < (consumeArgs config c.cost none).refillIntervalMs := Nat.cast_pos.mpr hinterval
  have hr : (0 : ℚ) < (consumeArgs config c.cost none).refillTokens := Nat.cast_pos.mpr hrefill
  rw [refilled_eq hi hr, sub_self, max_self, mul_zero, add_zero]
  exact min_self _

/-- A call that finds no more than the reservoir holds by then draws from it. -/
theorem spend_metered {ds : List (Draw ℚ)} {tokens : ℚ} {b : Bucket} {r : Reply}
    (hm : Reservoir.Metered (config.capacity : ℚ) config.rate level time ds)
    (htime : time ≤ c.time.ms) (hcost : 0 < c.cost)
    (hspend : spend (consumeArgs config c.cost none) c.time.ms tokens = (b, r))
    (hsome : 0 ≤ tokens) (hwithin : tokens ≤ config.capacity)
    (hinflow : tokens ≤ level + config.rate * (c.time.ms - time)) :
    Reservoir.Metered (config.capacity : ℚ) config.rate b.tokens c.time.ms
      (ds ++ [⟨c.time.ms, r.admits c.cost⟩]) := by
  have hsplit := spend_split (consumeArgs config c.cost none) c.time.ms tokens
  have hadmits := spend_admits (consumeArgs config c.cost none) c.time.ms tokens
  have hleft := spend_left (consumeArgs config c.cost none) c.time.ms hsome
  rw [hspend] at hsplit hadmits hleft
  have hamount : 0 ≤ r.admits c.cost := by
    obtain hall | hnone := hadmits
    · exact hall.symm ▸ hcost.le
    · exact hnone.symm ▸ le_refl 0
  exact hm.draw (rate_nonneg config) htime hleft hamount (hsplit.trans_le hwithin)
    (hsplit.trans_le hinflow)

theorem consume_metered (hrefill : 1 ≤ config.refillTokens)
    (hinterval : 1 ≤ config.refillIntervalMs) (hs : s.Metered config) (hpast : s.Past c)
    (hcost : 0 < c.cost) (h : s.consume config c = some s') : s'.Metered config := by
  obtain ⟨hexpired, tokens, b, r, hfound, hspend, rfl⟩ := consume_spec h
  have hts : b.ts = c.time.ms := by
    rw [← spend_ts (consumeArgs config c.cost none) c.time.ms tokens, hspend]
  have hfull := refilled_full (c := c) hrefill hinterval
  have hcap : (0 : ℚ) ≤ config.capacity := Nat.cast_nonneg _
  have hdraw : ∀ level time, Reservoir.Metered (config.capacity : ℚ) config.rate level time s.draws →
      time ≤ c.time.ms → 0 ≤ tokens → tokens ≤ config.capacity →
      tokens ≤ level + config.rate * (c.time.ms - time) →
      Limiter.Metered config
        ⟨some ⟨b, c.time.ms + ttlMs config⟩, s.draws ++ [⟨c.time.ms, r.admits c.cost⟩]⟩ := by
    intro level time hm htime hsome hwithin hinflow
    have hnext := spend_metered hm htime hcost hspend hsome hwithin hinflow
    rw [← hts] at hnext ⊢
    exact ⟨hnext, rfl⟩
  unfold Limiter.Metered at hs
  cases hslot : s.slot with
  | none =>
    rw [hslot] at hs hfound
    have hnew : (if c.expired then none else Option.map Slot.bucket none) = none := by
      split <;> rfl
    rw [hnew, found, Option.getD_none] at hfound
    obtain rfl := hfound.trans hfull
    have hempty : Reservoir.Metered (config.capacity : ℚ) config.rate config.capacity c.time.ms
        s.draws := by
      rw [hs]
      exact Metered.full hcap (rate_nonneg config)
    refine hdraw _ _ hempty (le_refl _) hcap (le_refl _) ?_
    rw [sub_self, mul_zero, add_zero]
  | some slot =>
    rw [hslot] at hs hfound
    obtain ⟨hm, hexpires⟩ := hs
    have hstored : slot.bucket.ts ≤ c.time.ms := hpast slot hslot
    cases he : c.expired with
    | true =>
      -- a bucket that was dropped had the time to fill up
      have hdue : slot.expiresAt ≤ c.time.ms := by simpa [Limiter.mayExpire, hslot] using hexpired he
      have httl : ttlMs config ≤ c.time.ms - slot.bucket.ts := by linarith
      have hfills := (capacity_le_ttl hrefill hinterval).trans
        (mul_le_mul_of_nonneg_left httl (rate_nonneg config))
      rw [he, if_pos rfl, found, Option.getD_none] at hfound
      obtain rfl := hfound.trans hfull
      exact hdraw _ _ hm hstored hcap (le_refl _) (by linarith [hm.nonneg])
    | false =>
      rw [he, if_neg Bool.false_ne_true, Option.map_some, found, Option.getD_some] at hfound
      obtain ⟨hsome, hwithin, hinflow⟩ :=
        refilled_bounds (c := c) hrefill hinterval slot.bucket hm.nonneg hstored
      rw [← hfound] at hsome hwithin hinflow
      exact hdraw _ _ hm hstored hsome hwithin hinflow

theorem consume_ts (h : s.consume config c = some s') :
    ∀ slot ∈ s'.slot, slot.bucket.ts = c.time.ms := by
  obtain ⟨-, tokens, b, r, -, hspend, rfl⟩ := consume_spec h
  intro slot hslot
  cases hslot
  rw [← spend_ts (consumeArgs config c.cost none) c.time.ms tokens, hspend]

theorem run_metered (hrefill : 1 ≤ config.refillTokens) (hinterval : 1 ≤ config.refillIntervalMs)
    (calls : List Call) (hcost : ∀ c ∈ calls, 0 < c.cost)
    (hclock : (calls.map fun c => c.time.ms).Pairwise (· ≤ ·)) (hs : s.Metered config)
    (hpast : ∀ c ∈ calls, s.Past c) (h : run (Limiter.consume config) s calls = some s') :
    s'.Metered config := by
  induction calls generalizing s with
  | nil =>
    cases h
    exact hs
  | cons c calls ih =>
    obtain ⟨m, hm, hrest⟩ := run_cons_some.mp h
    rw [List.map_cons, List.pairwise_cons] at hclock
    have hnext := consume_metered hrefill hinterval hs (hpast c List.mem_cons_self)
      (hcost c List.mem_cons_self) hm
    refine ih (fun d hd => hcost d (List.mem_cons_of_mem _ hd)) hclock.2 hnext ?_ hrest
    intro d hd slot hslot
    rw [consume_ts hm slot hslot]
    exact hclock.1 _ (List.mem_map_of_mem hd)

end

/-- No window of time admits more than the capacity and the refill of the
window, and the stored tokens stay within the capacity. -/
theorem rate_bound (config : BucketConfig) (hrefill : 1 ≤ config.refillTokens)
    (hinterval : 1 ≤ config.refillIntervalMs) (calls : List Call)
    (hcost : ∀ c ∈ calls, 0 < c.cost)
    (hclock : (calls.map fun c => c.time.ms).Pairwise (· ≤ ·)) (s : Limiter)
    (h : run (Limiter.consume config) Limiter.start calls = some s) :
    (∀ t₁ t₂ : ℚ, t₁ ≤ t₂ → s.admitted t₁ t₂ ≤
        config.capacity + config.refillTokens * (t₂ - t₁) / config.refillIntervalMs) ∧
      ∀ slot ∈ s.slot, 0 ≤ slot.bucket.tokens ∧ slot.bucket.tokens ≤ config.capacity := by
  have hstart : Limiter.start.Metered config := rfl
  have hfirst : ∀ c ∈ calls, Limiter.start.Past c := by
    intro c _ slot hslot
    cases hslot
  have hs := run_metered hrefill hinterval calls hcost hclock hstart hfirst h
  unfold Limiter.Metered at hs
  unfold Limiter.admitted
  cases hslot : s.slot with
  | none =>
    rw [hslot] at hs
    refine ⟨fun t₁ t₂ ht => ?_, fun _ hslot => by cases hslot⟩
    have hempty : drawn t₁ t₂ s.draws = 0 := by
      rw [hs]
      exact drawn_nil t₁ t₂
    rw [hempty, ← rate_mul]
    exact add_nonneg (Nat.cast_nonneg _) (mul_nonneg (rate_nonneg config) (sub_nonneg.mpr ht))
  | some slot =>
    rw [hslot] at hs
    refine ⟨fun t₁ t₂ ht => ?_, ?_⟩
    · rw [← rate_mul]
      exact hs.1.window t₁ t₂ ht
    · intro slot' h
      cases h
      exact ⟨hs.1.nonneg, hs.1.within⟩

/-- Three calls of a bucket of ten: it refills between the first two, and has
been dropped before the third. -/
theorem rate_bound_three_calls :
    (∀ t₁ t₂ : ℚ, t₁ ≤ t₂ →
        drawn t₁ t₂ [⟨1000, 4⟩, ⟨1500, 10⟩, ⟨90000, (7 : ℚ)⟩] ≤
          (10 : Nat) + (10 : Nat) * (t₂ - t₁) / (1000 : Nat)) ∧
      ∀ slot ∈ some (⟨⟨3, 90000⟩, 150000⟩ : Slot),
        0 ≤ slot.bucket.tokens ∧ slot.bucket.tokens ≤ (10 : Nat) :=
  rate_bound ⟨10, 10, 1000, none⟩ (by decide) (by decide)
    [⟨⟨1, 0⟩, 4, false⟩, ⟨⟨1, 500000⟩, 10, false⟩, ⟨⟨90, 0⟩, 7, true⟩] (by decide +kernel)
    (by decide +kernel)
    ⟨some ⟨⟨3, 90000⟩, 150000⟩, [⟨1000, 4⟩, ⟨1500, 10⟩, ⟨90000, 7⟩]⟩ (by decide +kernel)

end McpGateway.RateLimit
