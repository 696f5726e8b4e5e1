import McpGateway.Js.String
import McpGateway.Lib.Reservoir
import Mathlib.Algebra.Order.Floor.Ring
import Mathlib.Data.Rat.Floor

/-!
# The token bucket

The script Redis runs for a call of the limiter, and the limiter's own
arithmetic around it. Numbers are exact: what Lua and Redis round is not
modelled.
-/

namespace McpGateway.RateLimit

open Js

structure BucketConfig where
  /-- Largest burst admitted at once. -/
  capacity : Nat
  /-- Tokens returned every `refillIntervalMs`. -/
  refillTokens : Nat
  refillIntervalMs : Nat
  tier : Option JsString := none
  deriving DecidableEq, Repr

/-- The answer of `TIME`. -/
structure ServerTime where
  seconds : Nat
  microseconds : Nat
  deriving DecidableEq, Repr

def ServerTime.ms (t : ServerTime) : ℚ := (t.seconds : ℚ) * 1000 + ⌊(t.microseconds : ℚ) / 1000⌋

-- ---------------------------------------------------------------------------
-- token-bucket.lua
-- ---------------------------------------------------------------------------

structure Argv where
  capacity : ℚ
  refillTokens : ℚ
  refillIntervalMs : ℚ
  cost : ℚ
  ttlMs : ℚ
  /-- `0` for the Redis server clock. -/
  nowMs : ℚ
  deriving DecidableEq, Repr

structure Bucket where
  tokens : ℚ
  ts : ℚ
  deriving DecidableEq, Repr

structure Reply where
  allowed : Nat
  remaining : Int
  retryAfterMs : ℚ
  limit : ℚ
  deriving DecidableEq, Repr

/-- The caller's clock when it gives one, else the server's. -/
def clock (nowOverride : ℚ) (time : ServerTime) : ℚ :=
  if nowOverride > 0 then nowOverride else time.ms

/-- The tokens of a bucket last written `now - ts` ago. -/
def refilled (argv : Argv) (now : ℚ) (state : Bucket) : ℚ :=
  -- a backwards jump counts as no time at all
  let elapsedMs := if now - state.ts < 0 then 0 else now - state.ts
  let tokens := if argv.refillIntervalMs > 0 ∧ argv.refillTokens > 0 then
    state.tokens + (elapsedMs / argv.refillIntervalMs) * argv.refillTokens else state.tokens
  if tokens > argv.capacity then argv.capacity else tokens

/-- The tokens a call finds. A bucket seen for the first time starts full. -/
def found (argv : Argv) (now : ℚ) (state : Option Bucket) : ℚ :=
  refilled argv now (state.getD ⟨argv.capacity, now⟩)

/-- The second half of the script: decide, and write the bucket back. -/
def spend (argv : Argv) (now tokens : ℚ) : Bucket × Reply :=
  if tokens ≥ argv.cost then
    let tokens := tokens - argv.cost
    (⟨tokens, now⟩, ⟨1, ⌊tokens⌋, 0, argv.capacity⟩)
  else
    let deficit := argv.cost - tokens
    let retryAfterMs : ℚ := if argv.refillTokens > 0 ∧ argv.refillIntervalMs > 0 then
      ⌈(deficit / argv.refillTokens) * argv.refillIntervalMs⌉ else argv.ttlMs
    (⟨tokens, now⟩, ⟨0, ⌊tokens⌋, retryAfterMs, argv.capacity⟩)

def tokenBucket (argv : Argv) (time : ServerTime) (state : Option Bucket) : Bucket × Reply :=
  let now := clock argv.nowMs time
  spend argv now (found argv now state)

-- ---------------------------------------------------------------------------
-- TokenBucketLimiter.consume
-- ---------------------------------------------------------------------------

/-- Idle buckets expire after twice the time it takes to refill, with a floor. -/
def ttlMs (config : BucketConfig) : ℚ :=
  max 60000 (⌈((config.capacity : ℚ) / max 1 (config.refillTokens : ℚ)) *
    (config.refillIntervalMs : ℚ)⌉ * 2)

/-- `now` is the test seam: without it the script reads the Redis clock. -/
def consumeArgs (config : BucketConfig) (cost : ℚ) (now : Option ℚ) : Argv where
  capacity := config.capacity
  refillTokens := config.refillTokens
  refillIntervalMs := config.refillIntervalMs
  cost := cost
  ttlMs := ttlMs config
  nowMs := now.getD 0

-- ---------------------------------------------------------------------------
-- What one execution does
-- ---------------------------------------------------------------------------

def Reply.admits (r : Reply) (cost : ℚ) : ℚ := if r.allowed = 1 then cost else 0

section
variable {argv : Argv} {now tokens : ℚ}

theorem refilled_eq (hinterval : 0 < argv.refillIntervalMs) (hrefill : 0 < argv.refillTokens)
    (now : ℚ) (b : Bucket) : refilled argv now b =
      min argv.capacity (b.tokens + argv.refillTokens / argv.refillIntervalMs *
        max 0 (now - b.ts)) := by
  have helapsed : (if now - b.ts < 0 then 0 else now - b.ts) = max 0 (now - b.ts) := by
    split
    · next h => exact (max_eq_left h.le).symm
    · next h => exact (max_eq_right (not_lt.mp h)).symm
  have hrefills : argv.refillIntervalMs > 0 ∧ argv.refillTokens > 0 := ⟨hinterval, hrefill⟩
  dsimp only [refilled]
  rw [helapsed, if_pos hrefills]
  have hcredit : max 0 (now - b.ts) / argv.refillIntervalMs * argv.refillTokens =
      argv.refillTokens / argv.refillIntervalMs * max 0 (now - b.ts) := by ring
  rw [hcredit]
  split
  · next h => exact (min_eq_left (le_of_lt h)).symm
  · next h => exact (min_eq_right (not_lt.mp h)).symm

@[simp] theorem spend_ts (argv : Argv) (now tokens : ℚ) : (spend argv now tokens).1.ts = now := by
  unfold spend
  split <;> rfl

theorem spend_split (argv : Argv) (now tokens : ℚ) :
    (spend argv now tokens).1.tokens + (spend argv now tokens).2.admits argv.cost = tokens := by
  unfold spend
  split
  · exact sub_add_cancel tokens argv.cost
  · exact add_zero tokens

theorem spend_left (argv : Argv) (now : ℚ) (h : 0 ≤ tokens) : 0 ≤ (spend argv now tokens).1.tokens := by
  unfold spend
  split
  · next henough => exact sub_nonneg.mpr henough
  · exact h

theorem spend_admits (argv : Argv) (now tokens : ℚ) :
    (spend argv now tokens).2.admits argv.cost = argv.cost ∨
      (spend argv now tokens).2.admits argv.cost = 0 := by
  unfold spend
  split
  · exact .inl rfl
  · exact .inr rfl

end

end McpGateway.RateLimit
