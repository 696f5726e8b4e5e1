import McpGateway.RateLimit.RateBound

/-!
# A clock that goes backwards

The script counts a backwards jump as no time, but stores the earlier reading
all the same. The way forward again is then credited a second time, so a clock
that swings admits more than the refill of the time it covers. What it admits
beyond the capacity is exactly what the forward moves of the readings are worth.
-/

namespace McpGateway.RateLimit

open Reservoir

/-- One execution of the script, with the clock it reads. -/
structure Execution where
  nowMs : ℚ
  time : ServerTime
  cost : ℚ
  deriving DecidableEq, Repr

def Execution.reading (x : Execution) : ℚ := clock x.nowMs x.time

def Execution.argv (config : BucketConfig) (x : Execution) : Argv :=
  consumeArgs config x.cost (some x.nowMs)

def admittedBy (config : BucketConfig) : Option Bucket → List Execution → ℚ
  | _, [] => 0
  | state, x :: xs =>
    let (bucket, reply) := tokenBucket (x.argv config) x.time state
    reply.admits x.cost + admittedBy config (some bucket) xs

def latest (n₀ : ℚ) (ns : List ℚ) : ℚ := ns.foldl max n₀

/-- What the forward moves of the readings are worth, none of them more than a
full bucket. -/
def credited (config : BucketConfig) : List ℚ → ℚ
  | a :: b :: ns =>
    min (config.capacity : ℚ) (config.rate * max 0 (b - a)) + credited config (b :: ns)
  | _ => 0

section
variable {config : BucketConfig}

theorem found_stored (hrefill : 1 ≤ config.refillTokens) (hinterval : 1 ≤ config.refillIntervalMs)
    (x : Execution) (b : Bucket) : found (x.argv config) x.reading (some b) =
      min (config.capacity : ℚ) (b.tokens + config.rate * max 0 (x.reading - b.ts)) := by
  have hi : (0 : ℚ) < (x.argv config).refillIntervalMs := Nat.cast_pos.mpr hinterval
  have hr : (0 : ℚ) < (x.argv config).refillTokens := Nat.cast_pos.mpr hrefill
  exact refilled_eq hi hr x.reading b

theorem found_first (hrefill : 1 ≤ config.refillTokens) (hinterval : 1 ≤ config.refillIntervalMs)
    (x : Execution) : found (x.argv config) x.reading none = (config.capacity : ℚ) := by
  have hfull := found_stored hrefill hinterval x ⟨config.capacity, x.reading⟩
  rw [sub_self, max_self, mul_zero, add_zero, min_self] at hfull
  exact hfull

theorem admittedBy_cons (config : BucketConfig) (state : Option Bucket) (x : Execution)
    (xs : List Execution) : admittedBy config state (x :: xs) =
      (spend (x.argv config) x.reading (found (x.argv config) x.reading state)).2.admits x.cost +
        admittedBy config
          (some (spend (x.argv config) x.reading (found (x.argv config) x.reading state)).1) xs := rfl

theorem found_nonneg (hrefill : 1 ≤ config.refillTokens) (hinterval : 1 ≤ config.refillIntervalMs)
    (x : Execution) (b : Bucket) (hb : 0 ≤ b.tokens) :
    0 ≤ found (x.argv config) x.reading (some b) := by
  rw [found_stored hrefill hinterval]
  have hinflow := mul_nonneg (rate_nonneg config) (le_max_left 0 (x.reading - b.ts))
  exact le_min (Nat.cast_nonneg _) (add_nonneg hb hinflow)

/-- Later executions admit what is left and what the moves between their readings
are worth, at most. -/
theorem admittedBy_stored (hrefill : 1 ≤ config.refillTokens)
    (hinterval : 1 ≤ config.refillIntervalMs) (xs : List Execution) (b : Bucket)
    (hb : 0 ≤ b.tokens) : admittedBy config (some b) xs ≤
      b.tokens + credited config (b.ts :: xs.map Execution.reading) := by
  induction xs generalizing b with
  | nil =>
    show 0 ≤ b.tokens + 0
    linarith
  | cons x xs ih =>
    have hleft := spend_left (x.argv config) x.reading
      (found_nonneg hrefill hinterval x b hb)
    have hrest := ih _ hleft
    have hsplit := spend_split (x.argv config) x.reading (found (x.argv config) x.reading (some b))
    have hfill := fill_le (config.capacity : ℚ) (config.rate * max 0 (x.reading - b.ts)) hb
    rw [← found_stored hrefill hinterval] at hfill
    rw [spend_ts] at hrest
    rw [admittedBy_cons, List.map_cons, credited]
    change _ + (spend (x.argv config) x.reading _).2.admits x.cost = _ at hsplit
    linarith

theorem admittedBy_le (hrefill : 1 ≤ config.refillTokens) (hinterval : 1 ≤ config.refillIntervalMs)
    (x : Execution) (xs : List Execution) : admittedBy config none (x :: xs) ≤
      config.capacity + credited config ((x :: xs).map Execution.reading) := by
  have hsome : 0 ≤ found (x.argv config) x.reading none := by
    rw [found_first hrefill hinterval]
    exact Nat.cast_nonneg _
  have hrest := admittedBy_stored hrefill hinterval xs _
    (spend_left (x.argv config) x.reading hsome)
  have hsplit := spend_split (x.argv config) x.reading (found (x.argv config) x.reading none)
  rw [spend_ts] at hrest
  rw [admittedBy_cons, List.map_cons]
  change _ + (spend (x.argv config) x.reading _).2.admits x.cost = _ at hsplit
  have hfirst := found_first hrefill hinterval x
  linarith

/-- Readings that never go backwards are worth no more than the refill they cover. -/
theorem credited_forward (n₀ : ℚ) (ns : List ℚ) (h : (n₀ :: ns).Pairwise (· ≤ ·)) :
    credited config (n₀ :: ns) ≤ config.rate * (latest n₀ ns - n₀) := by
  induction ns generalizing n₀ with
  | nil =>
    show 0 ≤ config.rate * (n₀ - n₀)
    rw [sub_self, mul_zero]
  | cons n ns ih =>
    obtain ⟨hfirst, hrest⟩ := List.pairwise_cons.mp h
    have hn : n₀ ≤ n := hfirst n List.mem_cons_self
    have hlatest : latest n₀ (n :: ns) = latest n ns := by
      unfold latest
      rw [List.foldl_cons, max_eq_right hn]
    have hmove := min_le_right (config.capacity : ℚ) (config.rate * max 0 (n - n₀))
    rw [max_eq_right (sub_nonneg.mpr hn)] at hmove
    have hlater := ih n hrest
    rw [credited, hlatest, max_eq_right (sub_nonneg.mpr hn)]
    have hsplit : config.rate * (latest n ns - n₀) =
        config.rate * (n - n₀) + config.rate * (latest n ns - n) := by ring
    linarith

-- ---------------------------------------------------------------------------
-- Calls that take all there is
-- ---------------------------------------------------------------------------

def draining (config : BucketConfig) (n : ℚ) (state : Option Bucket) : Execution where
  nowMs := n
  time := ⟨0, 0⟩
  cost := found (consumeArgs config 0 (some n)) n state

theorem draining_reading (h : 0 < n) (state : Option Bucket) :
    (draining config n state).reading = n := if_pos h

theorem draining_spend (n : ℚ) (state : Option Bucket) :
    spend ((draining config n state).argv config) n (found ((draining config n state).argv config) n
        state) = (⟨0, n⟩, ⟨1, 0, 0, config.capacity⟩) := by
  have hcost : found ((draining config n state).argv config) n state =
      ((draining config n state).argv config).cost := rfl
  rw [hcost]
  unfold spend
  rw [if_pos (le_refl _), sub_self]
  rfl

theorem admittedBy_draining (h : 0 < n) (state : Option Bucket) (xs : List Execution) :
    admittedBy config state (draining config n state :: xs) =
      (draining config n state).cost + admittedBy config (some ⟨0, n⟩) xs := by
  rw [admittedBy_cons, draining_reading h, draining_spend]
  rfl

/-- From an empty bucket, executions at any readings can take all that the moves
are worth. -/
theorem draining_run (hrefill : 1 ≤ config.refillTokens) (hinterval : 1 ≤ config.refillIntervalMs)
    (ns : List ℚ) (hpos : ∀ n ∈ ns, 0 < n) (ts : ℚ) :
    ∃ xs : List Execution, xs.map Execution.reading = ns ∧
      admittedBy config (some ⟨0, ts⟩) xs = credited config (ts :: ns) := by
  induction ns generalizing ts with
  | nil => exact ⟨[], rfl, rfl⟩
  | cons n ns ih =>
    obtain ⟨xs, hreadings, htotal⟩ := ih (fun m hm => hpos m (List.mem_cons_of_mem _ hm)) n
    have hn : 0 < n := hpos n List.mem_cons_self
    refine ⟨draining config n (some ⟨0, ts⟩) :: xs, ?_, ?_⟩
    · rw [List.map_cons, draining_reading hn, hreadings]
    · have hcost : (draining config n (some ⟨0, ts⟩)).cost =
          min (config.capacity : ℚ) (config.rate * max 0 (n - ts)) := by
        have hstored := found_stored hrefill hinterval (draining config n (some ⟨0, ts⟩)) ⟨0, ts⟩
        rw [draining_reading hn, zero_add] at hstored
        exact hstored
      rw [admittedBy_draining hn, htotal, hcost, credited]

end

/-- Whatever the executions cost, they admit no more than the capacity and the
refill up to the latest reading, exactly when the forward moves of the readings
are worth no more than that refill. -/
theorem swinging_clock_iff (config : BucketConfig) (hrefill : 1 ≤ config.refillTokens)
    (hinterval : 1 ≤ config.refillIntervalMs) (n₀ : ℚ) (ns : List ℚ)
    (hpos : ∀ n ∈ n₀ :: ns, 0 < n) :
    (∀ xs : List Execution, xs.map Execution.reading = n₀ :: ns →
        admittedBy config none xs ≤ config.capacity +
          config.refillTokens * (latest n₀ ns - n₀) / config.refillIntervalMs) ↔
      credited config (n₀ :: ns) ≤
        config.refillTokens * (latest n₀ ns - n₀) / config.refillIntervalMs := by
  constructor
  · intro hall
    have hn : 0 < n₀ := hpos n₀ List.mem_cons_self
    obtain ⟨xs, hreadings, htotal⟩ := draining_run hrefill hinterval ns
      (fun n h => hpos n (List.mem_cons_of_mem _ h)) n₀
    have hbound := hall (draining config n₀ none :: xs) (by
      rw [List.map_cons, draining_reading hn, hreadings])
    have hcost : (draining config n₀ none).cost = config.capacity := by
      have hfirst := found_first hrefill hinterval (draining config n₀ none)
      rw [draining_reading hn] at hfirst
      exact hfirst
    rw [admittedBy_draining hn, htotal, hcost] at hbound
    linarith
  · intro hworth xs hreadings
    cases xs with
    | nil => cases hreadings
    | cons x xs =>
      have hbound := admittedBy_le hrefill hinterval x xs
      rw [hreadings] at hbound
      linarith

/-- Readings that go forward only. -/
theorem swinging_clock_forward :
    admittedBy ⟨10, 10, 1000, none⟩ none [⟨1000, ⟨0, 0⟩, 10⟩, ⟨1500, ⟨0, 0⟩, 4⟩, ⟨4000, ⟨0, 0⟩, 8⟩] ≤
      (10 : Nat) + (10 : Nat) * (latest 1000 [1500, 4000] - 1000) / (1000 : Nat) :=
  (swinging_clock_iff ⟨10, 10, 1000, none⟩ (by decide) (by decide) 1000 [1500, 4000]
    (by decide +kernel)).mpr (by decide +kernel) _ (by decide +kernel)

/-- The clock jumps back to 1 and forward again: a bucket of ten admits twenty,
while no time has passed beyond the first reading. -/
theorem swinging_clock_mints :
    ¬ ∀ (config : BucketConfig) (x : Execution) (xs : List Execution),
      1 ≤ config.refillTokens → 1 ≤ config.refillIntervalMs →
      (∀ y ∈ x :: xs, 0 < y.reading) →
      admittedBy config none (x :: xs) ≤ config.capacity + config.refillTokens *
        (latest x.reading (xs.map Execution.reading) - x.reading) / config.refillIntervalMs := by
  intro hclaim
  have hbound := hclaim ⟨10, 10, 1000, none⟩ ⟨10000, ⟨0, 0⟩, 10⟩
    [⟨1, ⟨0, 0⟩, 1⟩, ⟨10000, ⟨0, 0⟩, 10⟩] (by decide) (by decide) (by decide +kernel)
  revert hbound
  decide +kernel

end McpGateway.RateLimit
