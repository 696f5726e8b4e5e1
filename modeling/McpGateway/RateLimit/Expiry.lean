import McpGateway.RateLimit.Available

/-!
# Keys that expire

A key is gone some time after it expires: at once, when the clock has moved on,
or never. What a call finds is then what a bucket kept for ever would hold,
because a bucket that refills is full by the time its key expires.
-/

namespace McpGateway.RateLimit

open Js

/-- When a key is gone. -/
structure Expiry where
  /-- A key that expires at a time is gone at a reading of the clock. -/
  gone : ℚ → ℚ → Bool
  due : ∀ {expiresAt now}, gone expiresAt now = true → expiresAt ≤ now
  /-- Later on, a key that expires no later is gone as well. -/
  mono : ∀ {expiresAt expiresAt' now now'}, expiresAt' ≤ expiresAt → now ≤ now' →
    gone expiresAt now = true → gone expiresAt' now' = true

/-- A key is gone from the time it expires. -/
def Expiry.atOnce : Expiry where
  gone := fun expiresAt now => decide (expiresAt ≤ now)
  due := of_decide_eq_true
  mono := fun h hnow hgone =>
    decide_eq_true ((h.trans (of_decide_eq_true hgone)).trans hnow)

/-- Redis keeps a key through the millisecond it expires in. -/
def Expiry.redis : Expiry where
  gone := fun expiresAt now => decide (expiresAt < now)
  due := fun h => (of_decide_eq_true h).le
  mono := fun h hnow hgone =>
    decide_eq_true ((h.trans_lt (of_decide_eq_true hgone)).trans_le hnow)

def Expiry.never : Expiry where
  gone := fun _ _ => false
  due := nofun
  mono := nofun

/-- A call of `consume` on one bucket. -/
structure Attempt where
  time : ServerTime
  cost : ℚ
  deriving DecidableEq, Repr

namespace Expiry

def live (x : Expiry) (time : ServerTime) (slot : Option Slot) : Option Bucket :=
  (slot.filter fun s => !x.gone s.expiresAt time.ms).map Slot.bucket

def act (x : Expiry) (c : TimedCall) (slot : Option Slot) : Option Slot × LimitVerdict :=
  let (bucket, raw) := tokenBucket c.argv c.time (x.live c.time slot)
  (some ⟨bucket, c.time.ms + c.argv.ttlMs⟩, c.verdict raw)

end Expiry

/-- `consume(scope, config, cost)`, on the Redis clock. -/
def Attempt.call (scope : LimitScope) (config : BucketConfig) (a : Attempt) : TimedCall where
  scope := scope
  config := config
  cost := a.cost
  now := none
  time := a.time

def Expiry.verdicts (x : Expiry) (scope : LimitScope) (config : BucketConfig) :
    Option Slot → List Attempt → List LimitVerdict
  | _, [] => []
  | slot, a :: as =>
    let (slot, verdict) := x.act (a.call scope config) slot
    verdict :: x.verdicts scope config slot as

-- ---------------------------------------------------------------------------
-- The limiter's own calls
-- ---------------------------------------------------------------------------

theorem verdicts_cons (x : Expiry) (scope : LimitScope) (config : BucketConfig)
    (slot : Option Slot) (a : Attempt) (as : List Attempt) :
    x.verdicts scope config slot (a :: as) = (x.act (a.call scope config) slot).2 ::
      x.verdicts scope config (x.act (a.call scope config) slot).1 as := rfl

theorem live_redis (time : ServerTime) (slot : Option Slot) :
    Expiry.redis.live time slot = RateLimit.live time slot := by
  have hkeeps : ∀ s : Slot, (!Expiry.redis.gone s.expiresAt time.ms) =
      decide (time.ms ≤ s.expiresAt) := by
    intro s
    simp [Expiry.redis, ← not_lt]
  unfold Expiry.live RateLimit.live
  simp only [hkeeps]

theorem act_redis (c : TimedCall) (slot : Option Slot) : Expiry.redis.act c slot = c.act slot := by
  unfold Expiry.act TimedCall.act runScript
  rw [live_redis]

theorem verdicts_redis (scope : LimitScope) (config : BucketConfig) (keys : Keyspace)
    (as : List Attempt) :
    (verdicts keys (as.map (Attempt.call scope config))).map Prod.snd =
      Expiry.redis.verdicts scope config (keys (bucketKey scope)) as := by
  induction as generalizing keys with
  | nil => rfl
  | cons a as ih =>
    have hkey : (a.call scope config).bucketKey = bucketKey scope := rfl
    have hnext : Keyed.next TimedCall.bucketKey TimedCall.act keys (a.call scope config)
        (bucketKey scope) = ((a.call scope config).act (keys (bucketKey scope))).1 :=
      Keyed.next_self keys (a.call scope config)
    have hrest := ih (Keyed.next TimedCall.bucketKey TimedCall.act keys (a.call scope config))
    rw [hnext] at hrest
    rw [List.map_cons, verdicts, Keyed.answers, List.map_cons]
    unfold verdicts at hrest
    rw [hrest, verdicts_cons, act_redis, hkey]

-- ---------------------------------------------------------------------------
-- What a call does with the tokens it finds
-- ---------------------------------------------------------------------------

def Attempt.charge (scope : LimitScope) (config : BucketConfig) (a : Attempt) (tokens : ℚ) :
    Option Slot × LimitVerdict :=
  let (bucket, raw) := spend (consumeArgs config a.cost none) a.time.ms tokens
  (some ⟨bucket, a.time.ms + ttlMs config⟩, (a.call scope config).verdict raw)

section
variable {x y : Expiry} {scope : LimitScope} {config : BucketConfig} {a : Attempt} {tokens : ℚ}
  {slot slot' : Option Slot} {s : Slot} {time : ServerTime}

theorem act_eq (x : Expiry) (scope : LimitScope) (config : BucketConfig) (a : Attempt)
    (slot : Option Slot) : x.act (a.call scope config) slot =
      a.charge scope config (available config a.time.ms (x.live a.time slot)) := by
  have hclock : clock (a.call scope config).argv.nowMs a.time = a.time.ms :=
    clock_server config a.cost a.time
  unfold Expiry.act tokenBucket
  dsimp only
  have htime : (a.call scope config).time = a.time := rfl
  rw [htime, hclock]
  rfl

/-- Once charged, the bucket holds what the call found less what it was admitted for. -/
theorem charge_slot (scope : LimitScope) (config : BucketConfig) (a : Attempt) (tokens : ℚ) :
    (a.charge scope config tokens).1 =
      some ⟨⟨if a.cost ≤ tokens then tokens - a.cost else tokens, a.time.ms⟩,
        a.time.ms + ttlMs config⟩ := by
  dsimp only [Attempt.charge, spend, consumeArgs]
  split <;> rfl

theorem charge_allowed (scope : LimitScope) (config : BucketConfig) (a : Attempt) (tokens : ℚ) :
    (a.charge scope config tokens).2.allowed = true ↔ a.cost ≤ tokens := by
  dsimp only [Attempt.charge, spend, consumeArgs]
  split
  · next h => exact ⟨fun _ => h, fun _ => rfl⟩
  · next h => exact ⟨nofun, fun henough => absurd henough h⟩

theorem charge_refused (h : (a.charge scope config tokens).2.allowed = false) :
    (a.charge scope config tokens).1 = some ⟨⟨tokens, a.time.ms⟩, a.time.ms + ttlMs config⟩ := by
  have hshort : ¬ a.cost ≤ tokens := by
    rw [← charge_allowed scope config, h]
    exact Bool.false_ne_true
  rw [charge_slot, if_neg hshort]

theorem live_some (x : Expiry) (time : ServerTime) (s : Slot) :
    x.live time (some s) = if x.gone s.expiresAt time.ms then none else some s.bucket := by
  unfold Expiry.live
  cases hgone : x.gone s.expiresAt time.ms <;> simp [hgone]

@[simp] theorem live_none (x : Expiry) (time : ServerTime) : x.live time none = none := rfl

@[simp] theorem live_never (time : ServerTime) (slot : Option Slot) :
    Expiry.never.live time slot = slot.map Slot.bucket := by
  unfold Expiry.live
  cases slot <;> rfl

theorem available_nonneg (config : BucketConfig) (t : ℚ) (bucket : Option Bucket)
    (h : ∀ b ∈ bucket, 0 ≤ b.tokens) : 0 ≤ available config t bucket := by
  cases bucket with
  | none => simp
  | some b =>
    rw [available_some]
    have hcredit := mul_nonneg (rate_nonneg config) (le_max_left 0 (t - b.ts))
    exact le_min (Nat.cast_nonneg _) (add_nonneg (h b rfl) hcredit)

/-- What calls of `consume` leave: no negative tokens, written no later than the time,
and an expiry that counts from there. -/
def Written (config : BucketConfig) (t : ℚ) (slot : Option Slot) : Prop :=
  ∀ s ∈ slot, 0 ≤ s.bucket.tokens ∧ s.bucket.ts ≤ t ∧ s.expiresAt = s.bucket.ts + ttlMs config

theorem Written.later {t t' : ℚ} (h : Written config t slot) (ht : t ≤ t') :
    Written config t' slot := fun s hs => ⟨(h s hs).1, (h s hs).2.1.trans ht, (h s hs).2.2⟩

theorem written_none (config : BucketConfig) (t : ℚ) : Written config t none := nofun

theorem Written.live {t : ℚ} (h : Written config t slot) (x : Expiry) (time : ServerTime) :
    ∀ b ∈ x.live time slot, 0 ≤ b.tokens := by
  intro b hb
  obtain ⟨s, hs, rfl⟩ := Option.map_eq_some_iff.mp hb
  exact (h s (Option.eq_some_of_filter_eq_some hs)).1

theorem written_charge (h : 0 ≤ tokens) : Written config a.time.ms (a.charge scope config tokens).1 := by
  intro s hs
  rw [charge_slot] at hs
  cases hs
  refine ⟨?_, le_refl _, rfl⟩
  dsimp only
  split
  · next henough => exact sub_nonneg.mpr henough
  · exact h

/-- A bucket that refills is found the same whether its key was dropped or not. -/
theorem available_live (hrefill : 1 ≤ config.refillTokens) (hinterval : 1 ≤ config.refillIntervalMs)
    (h : Written config time.ms slot) (x : Expiry) :
    available config time.ms (x.live time slot) =
      available config time.ms (slot.map Slot.bucket) := by
  cases slot with
  | none => rfl
  | some s =>
    rw [live_some, Option.map_some]
    split
    · next hgone =>
      obtain ⟨htokens, hts, hexpires⟩ := h s rfl
      have hlong : ttlMs config ≤ time.ms - s.bucket.ts := by
        have hdue := x.due hgone
        linarith
      have hfull := (capacity_le_ttl hrefill hinterval).trans
        (mul_le_mul_of_nonneg_left hlong (rate_nonneg config))
      rw [available_none, available_some, max_eq_right (sub_nonneg.mpr hts)]
      exact (min_eq_left (by linarith)).symm
    · rfl

end

/-- A bucket that refills gives the same verdicts whether its key is dropped once it
has expired or kept for ever. -/
theorem idle_expiry_invisible (x : Expiry) (scope : LimitScope) (config : BucketConfig)
    (hrefill : 1 ≤ config.refillTokens) (hinterval : 1 ≤ config.refillIntervalMs)
    (run : List Attempt) (hclock : (run.map fun a => a.time.ms).Pairwise (· ≤ ·)) :
    x.verdicts scope config none run = Expiry.never.verdicts scope config none run := by
  have hfrom : ∀ slot : Option Slot, (∀ a ∈ run, Written config a.time.ms slot) →
      x.verdicts scope config slot run = Expiry.never.verdicts scope config slot run := by
    induction run with
    | nil => exact fun _ _ => rfl
    | cons a as ih =>
      intro slot hslot
      rw [List.map_cons, List.pairwise_cons] at hclock
      have hwritten := hslot a List.mem_cons_self
      have hsame : x.act (a.call scope config) slot = Expiry.never.act (a.call scope config) slot := by
        rw [act_eq, act_eq, available_live hrefill hinterval hwritten, live_never]
      have hnext : ∀ b ∈ as, Written config b.time.ms (x.act (a.call scope config) slot).1 := by
        intro b hb
        rw [act_eq]
        have hfound := available_nonneg config a.time.ms _ (hwritten.live x a.time)
        exact (written_charge hfound).later (hclock.1 _ (List.mem_map_of_mem hb))
      rw [verdicts_cons, verdicts_cons, ← hsame, ih hclock.2 _ hnext]
  exact hfrom none fun a _ => written_none config a.time.ms

/-- The key is dropped between the two calls. -/
theorem idle_expiry_invisible_two_calls :
    Expiry.atOnce.verdicts ⟨.tenant, js "acme", none, none⟩ ⟨10, 10, 1000, none⟩ none
        [⟨⟨1, 0⟩, 4⟩, ⟨⟨90, 0⟩, 7⟩] =
      Expiry.never.verdicts ⟨.tenant, js "acme", none, none⟩ ⟨10, 10, 1000, none⟩ none
        [⟨⟨1, 0⟩, 4⟩, ⟨⟨90, 0⟩, 7⟩] :=
  idle_expiry_invisible .atOnce _ _ (by decide) (by decide) _ (by decide +kernel)

end McpGateway.RateLimit
