import McpGateway.RateLimit.Expiry

/-!
# Calls that are refused

A refused call takes no tokens, but writes the bucket back and renews its key. A
bucket that refills shows nothing of it to the calls that follow. Without a
refill the key's expiry is the only way back, and a refused call puts it off.
-/

namespace McpGateway.RateLimit

open Js

/-- Tokens come back with time. -/
def BucketConfig.Refills (config : BucketConfig) : Prop :=
  1 ≤ config.refillTokens ∧ 1 ≤ config.refillIntervalMs

/-- A call of a run that is compared with the run of the calls that stay. -/
structure Marked where
  attempt : Attempt
  stays : Bool
  deriving DecidableEq, Repr

def remaining (run : List Marked) : List Attempt := (run.filter Marked.stays).map Marked.attempt

def Expiry.answered (x : Expiry) (scope : LimitScope) (config : BucketConfig) (slot : Option Slot)
    (run : List Marked) : List (Marked × LimitVerdict) :=
  run.zip (x.verdicts scope config slot (run.map Marked.attempt))

/-- Every call that goes was refused. -/
def OnlyRefused (answers : List (Marked × LimitVerdict)) : Prop :=
  ∀ e ∈ answers, e.1.stays = false → e.2.allowed = false

def kept (answers : List (Marked × LimitVerdict)) : List LimitVerdict :=
  (answers.filter fun e => e.1.stays).map Prod.snd

/-- When a call that stays comes, the key is gone after the call before it just when it
is gone after the call before it that stays. `last` and `stayed` are the times of these
calls, if there are any. -/
def LapseAlike (x : Expiry) (config : BucketConfig) : Option ℚ → Option ℚ → List Marked → Prop
  | _, _, [] => True
  | last, stayed, m :: run =>
    if m.stays then
      (∀ l ∈ last, ∀ k ∈ stayed, x.gone (l + ttlMs config) m.attempt.time.ms =
        x.gone (k + ttlMs config) m.attempt.time.ms) ∧
      LapseAlike x config (some m.attempt.time.ms) (some m.attempt.time.ms) run
    else LapseAlike x config (some m.attempt.time.ms) stayed run

section
variable {x : Expiry} {scope : LimitScope} {config : BucketConfig} {slot slot' : Option Slot}

theorem answered_cons (x : Expiry) (scope : LimitScope) (config : BucketConfig)
    (slot : Option Slot) (m : Marked) (run : List Marked) :
    x.answered scope config slot (m :: run) =
      (m, (x.act (m.attempt.call scope config) slot).2) ::
        x.answered scope config (x.act (m.attempt.call scope config) slot).1 run := rfl

-- ---------------------------------------------------------------------------
-- A relation that the calls keep
-- ---------------------------------------------------------------------------

/-- Related slots are answered alike, and stay related when a refused call reaches the
first of them only. -/
structure Simulates (x : Expiry) (scope : LimitScope) (config : BucketConfig)
    (R : List Marked → Option Slot → Option Slot → Prop) : Prop where
  stays : ∀ {m : Marked} {run : List Marked} {slot slot' : Option Slot},
    R (m :: run) slot slot' → m.stays = true →
    x.act (m.attempt.call scope config) slot = x.act (m.attempt.call scope config) slot' ∧
      R run (x.act (m.attempt.call scope config) slot).1
        (x.act (m.attempt.call scope config) slot').1
  goes : ∀ {m : Marked} {run : List Marked} {slot slot' : Option Slot},
    R (m :: run) slot slot' → m.stays = false →
    (x.act (m.attempt.call scope config) slot).2.allowed = false →
    R run (x.act (m.attempt.call scope config) slot).1 slot'

theorem Simulates.verdicts {R : List Marked → Option Slot → Option Slot → Prop}
    (h : Simulates x scope config R) {run : List Marked} (hR : R run slot slot')
    (hrefused : OnlyRefused (x.answered scope config slot run)) :
    x.verdicts scope config slot' (remaining run) = kept (x.answered scope config slot run) := by
  induction run generalizing slot slot' with
  | nil => rfl
  | cons m run ih =>
    rw [answered_cons] at hrefused
    obtain ⟨hfirst, hrest⟩ := List.forall_mem_cons.mp hrefused
    cases hstays : m.stays with
    | true =>
      obtain ⟨hsame, hnext⟩ := h.stays hR hstays
      have hkept : remaining (m :: run) = m.attempt :: remaining run := by
        simp [remaining, hstays]
      rw [hkept, answered_cons, verdicts_cons, ih hnext hrest, ← hsame]
      simp [kept, hstays]
    | false =>
      have hkept : remaining (m :: run) = remaining run := by
        simp [remaining, hstays]
      rw [hkept, answered_cons, ih (h.goes hR hstays (hfirst hstays)) hrest]
      simp [kept, hstays]

/-- Calls at readings that do not go back. -/
def Forward (run : List Marked) : Prop :=
  (run.map fun m => m.attempt.time.ms).Pairwise (· ≤ ·)

theorem Forward.tail {m : Marked} {run : List Marked} (h : Forward (m :: run)) : Forward run :=
  (List.pairwise_cons.mp h).2

theorem Forward.le {m m' : Marked} {run : List Marked} (h : Forward (m :: run)) (hm : m' ∈ run) :
    m.attempt.time.ms ≤ m'.attempt.time.ms :=
  (List.pairwise_cons.mp h).1 _ (List.mem_map_of_mem (f := fun m : Marked => m.attempt.time.ms) hm)

theorem available_split {t t' : ℚ} (ht : t ≤ t') (bucket : Option Bucket)
    (h : ∀ b ∈ bucket, b.ts ≤ t) :
    available config t' (some ⟨available config t bucket, t⟩) = available config t' bucket := by
  cases bucket with
  | none =>
    have hcredit := mul_nonneg (rate_nonneg config) (le_max_left 0 (t' - t))
    rw [available_some, available_none, available_none]
    exact min_eq_left (by linarith)
  | some b =>
    have hts := h b rfl
    rw [available_some, available_some, available_some, max_eq_right (sub_nonneg.mpr ht),
      max_eq_right (sub_nonneg.mpr hts), max_eq_right (sub_nonneg.mpr (hts.trans ht))]
    have hwhole : config.rate * (t' - b.ts) = config.rate * (t - b.ts) + config.rate * (t' - t) := by
      ring
    have hcredit := mul_nonneg (rate_nonneg config) (sub_nonneg.mpr ht)
    rw [hwhole, min_def, min_def, min_def]
    split_ifs <;> linarith

theorem act_congr {a : Attempt} (h : available config a.time.ms (x.live a.time slot) =
      available config a.time.ms (x.live a.time slot')) :
    x.act (a.call scope config) slot = x.act (a.call scope config) slot' := by
  rw [act_eq, act_eq, h]

theorem act_refused {a : Attempt} (h : (x.act (a.call scope config) slot).2.allowed = false) :
    (x.act (a.call scope config) slot).1 =
      some ⟨⟨available config a.time.ms (x.live a.time slot), a.time.ms⟩,
        a.time.ms + ttlMs config⟩ := by
  rw [act_eq] at h ⊢
  exact charge_refused h

-- ---------------------------------------------------------------------------
-- A bucket that refills
-- ---------------------------------------------------------------------------

structure FoundAlike (config : BucketConfig) (run : List Marked) (slot slot' : Option Slot) :
    Prop where
  forward : Forward run
  written : ∀ m ∈ run, Written config m.attempt.time.ms slot ∧
    Written config m.attempt.time.ms slot'
  alike : ∀ m ∈ run, available config m.attempt.time.ms (slot.map Slot.bucket) =
    available config m.attempt.time.ms (slot'.map Slot.bucket)

theorem written_act {a : Attempt} (h : Written config a.time.ms slot) :
    Written config a.time.ms (x.act (a.call scope config) slot).1 := by
  rw [act_eq]
  exact written_charge (available_nonneg config a.time.ms _ (h.live x a.time))

theorem foundAlike_simulates (x : Expiry) (scope : LimitScope) (h : config.Refills) :
    Simulates x scope config (FoundAlike config) where
  stays := by
    intro m run slot slot' hR _
    obtain ⟨hslot, hslot'⟩ := hR.written m List.mem_cons_self
    have hsame : x.act (m.attempt.call scope config) slot =
        x.act (m.attempt.call scope config) slot' := by
      apply act_congr
      rw [available_live h.1 h.2 hslot, available_live h.1 h.2 hslot']
      exact hR.alike m List.mem_cons_self
    refine ⟨hsame, hR.forward.tail, fun m' hm' => ?_, fun m' _ => by rw [hsame]⟩
    have hlater := hR.forward.le hm'
    exact ⟨(written_act hslot).later hlater, (written_act hslot').later hlater⟩
  goes := by
    intro m run slot slot' hR _ hrefused
    have hslot := (hR.written m List.mem_cons_self).1
    refine ⟨hR.forward.tail, fun m' hm' => ?_, fun m' hm' => ?_⟩
    · exact ⟨(written_act hslot).later (hR.forward.le hm'),
        (hR.written m' (List.mem_cons_of_mem _ hm')).2⟩
    · have hts : ∀ b ∈ slot.map Slot.bucket, b.ts ≤ m.attempt.time.ms := by
        intro b hb
        obtain ⟨s, hs, rfl⟩ := Option.map_eq_some_iff.mp hb
        exact (hslot s hs).2.1
      rw [act_refused hrefused, available_live h.1 h.2 hslot, Option.map_some,
        available_split (hR.forward.le hm') _ hts]
      exact hR.alike m' (List.mem_cons_of_mem _ hm')

-- ---------------------------------------------------------------------------
-- A bucket of nothing
-- ---------------------------------------------------------------------------

def Somewhere (config : BucketConfig) (run : List Marked) (slot slot' : Option Slot) : Prop :=
  Forward run ∧ ∀ m ∈ run, Written config m.attempt.time.ms slot ∧
    Written config m.attempt.time.ms slot'

theorem empty_simulates (x : Expiry) (scope : LimitScope) (h : config.capacity = 0) :
    Simulates x scope config (Somewhere config) where
  stays := by
    rintro m run slot slot' ⟨hforward, hwritten⟩ _
    obtain ⟨hslot, hslot'⟩ := hwritten m List.mem_cons_self
    have hnothing : ∀ s, Written config m.attempt.time.ms s →
        available config m.attempt.time.ms (x.live m.attempt.time s) = 0 := by
      intro s hs
      have hle := available_le config m.attempt.time.ms (x.live m.attempt.time s)
      rw [h, Nat.cast_zero] at hle
      exact le_antisymm hle (available_nonneg config _ _ (hs.live x m.attempt.time))
    refine ⟨act_congr ((hnothing _ hslot).trans (hnothing _ hslot').symm), hforward.tail, ?_⟩
    intro m' hm'
    have hlater := hforward.le hm'
    exact ⟨(written_act hslot).later hlater, (written_act hslot').later hlater⟩
  goes := by
    rintro m run slot slot' ⟨hforward, hwritten⟩ _ _
    refine ⟨hforward.tail, fun m' hm' => ?_⟩
    exact ⟨(written_act (hwritten m List.mem_cons_self).1).later (hforward.le hm'),
      (hwritten m' (List.mem_cons_of_mem _ hm')).2⟩

-- ---------------------------------------------------------------------------
-- A bucket that does not refill
-- ---------------------------------------------------------------------------

def level (config : BucketConfig) (slot : Option Slot) : ℚ :=
  available config 0 (slot.map Slot.bucket)

theorem available_stuck (h : ¬ config.Refills) (t t' : ℚ) (bucket : Option Bucket) :
    available config t bucket = available config t' bucket := by
  have hrate : config.rate = 0 := by
    unfold BucketConfig.Refills at h
    unfold BucketConfig.rate
    by_cases hrefill : 1 ≤ config.refillTokens
    · have hzero : config.refillIntervalMs = 0 := by omega
      rw [hzero, Nat.cast_zero, div_zero]
    · have hzero : config.refillTokens = 0 := by omega
      rw [hzero, Nat.cast_zero, zero_div]
  cases bucket with
  | none => rw [available_none, available_none]
  | some b => rw [available_some, available_some, hrate, zero_mul, zero_mul]

def goneAt (x : Expiry) (slot : Option Slot) (now : ℚ) : Bool :=
  slot.any fun s => x.gone s.expiresAt now

theorem available_live_stuck (h : ¬ config.Refills) (time : ServerTime) (slot : Option Slot) :
    available config time.ms (x.live time slot) =
      if goneAt x slot time.ms then (config.capacity : ℚ) else level config slot := by
  cases slot with
  | none =>
    unfold level
    simp
  | some s =>
    rw [live_some]
    unfold goneAt
    rw [Option.any_some]
    split
    · exact available_none config _
    · exact available_stuck h _ 0 _

def WrittenAt (config : BucketConfig) (time : Option ℚ) (slot : Option Slot) : Prop :=
  slot.map Slot.expiresAt = time.map (· + ttlMs config)

theorem goneAt_eq {time : Option ℚ} (h : WrittenAt config time slot) (x : Expiry) (now : ℚ) :
    goneAt x slot now = time.any fun t => x.gone (t + ttlMs config) now := by
  cases slot with
  | none =>
    cases time with
    | none => rfl
    | some t => cases h
  | some s =>
    cases time with
    | none => cases h
    | some t =>
      have hexpires : s.expiresAt = t + ttlMs config := Option.some.inj h
      show x.gone s.expiresAt now = x.gone (t + ttlMs config) now
      rw [hexpires]

theorem writtenAt_act {a : Attempt} :
    WrittenAt config (some a.time.ms) (x.act (a.call scope config) slot).1 := by
  rw [act_eq, charge_slot]
  rfl

/-- The first slot, written last, holds as much as the second one, or the key of the
second one was gone by then. -/
structure StuckAlike (x : Expiry) (config : BucketConfig) (last stayed : Option ℚ)
    (run : List Marked) (slot slot' : Option Slot) : Prop where
  forward : Forward run
  lapse : LapseAlike x config last stayed run
  writtenLast : WrittenAt config last slot
  writtenStayed : WrittenAt config stayed slot'
  past : ∀ l ∈ last, ∀ m ∈ run, l ≤ m.attempt.time.ms
  order : ∀ k ∈ stayed, ∃ l ∈ last, k ≤ l
  levels : level config slot = level config slot' ∨
    ∃ l ∈ last, ∃ k ∈ stayed, x.gone (k + ttlMs config) l = true

/-- Before the first call that stays, only refused calls have seen the bucket, which is full. -/
theorem StuckAlike.full {last : Option ℚ} {run : List Marked}
    (hR : StuckAlike x config last none run slot slot') :
    level config slot = config.capacity ∧ level config slot' = config.capacity := by
  have hslot' : slot' = none := Option.map_eq_none_iff.mp hR.writtenStayed
  have hfull : level config slot' = config.capacity := by
    rw [hslot']
    exact available_none config 0
  obtain hsame | ⟨_, _, _, hk, _⟩ := hR.levels
  · exact ⟨hsame.trans hfull, hfull⟩
  · cases hk

theorem StuckAlike.found {last stayed : Option ℚ} {m : Marked} {run : List Marked}
    (hR : StuckAlike x config last stayed (m :: run) slot slot') (h : ¬ config.Refills)
    (hstays : m.stays = true) :
    available config m.attempt.time.ms (x.live m.attempt.time slot) =
      available config m.attempt.time.ms (x.live m.attempt.time slot') := by
  have hlapse := hR.lapse
  unfold LapseAlike at hlapse
  rw [if_pos hstays] at hlapse
  rw [available_live_stuck h, available_live_stuck h, goneAt_eq hR.writtenLast, goneAt_eq hR.writtenStayed]
  cases stayed with
  | none => rw [hR.full.1, hR.full.2, ite_self, ite_self]
  | some k =>
    obtain ⟨l, hl, hkl⟩ := hR.order k rfl
    obtain rfl : last = some l := hl
    rw [Option.any_some, Option.any_some, hlapse.1 l rfl k rfl]
    split
    · rfl
    · next hkeeps =>
      obtain hsame | ⟨_, ⟨⟩, _, ⟨⟩, hgone⟩ := hR.levels
      · exact hsame
      · exact absurd (x.mono (le_refl _) (hR.past l rfl m List.mem_cons_self) hgone) hkeeps

theorem stuckAlike_simulates (x : Expiry) (scope : LimitScope) (h : ¬ config.Refills) :
    Simulates x scope config fun run slot slot' =>
      ∃ last stayed, StuckAlike x config last stayed run slot slot' where
  stays := by
    rintro m run slot slot' ⟨last, stayed, hR⟩ hstays
    have hsame : x.act (m.attempt.call scope config) slot =
        x.act (m.attempt.call scope config) slot' := act_congr (hR.found h hstays)
    refine ⟨hsame, some m.attempt.time.ms, some m.attempt.time.ms, ?_⟩
    have hlapse := hR.lapse
    unfold LapseAlike at hlapse
    rw [if_pos hstays] at hlapse
    exact
      { forward := hR.forward.tail
        lapse := hlapse.2
        writtenLast := writtenAt_act
        writtenStayed := writtenAt_act
        past := by
          rintro _ ⟨⟩ m' hm'
          exact hR.forward.le hm'
        order := fun k hk => ⟨k, hk, le_refl k⟩
        levels := .inl (by rw [hsame]) }
  goes := by
    rintro m run slot slot' ⟨last, stayed, hR⟩ hgoes hrefused
    refine ⟨some m.attempt.time.ms, stayed, ?_⟩
    have hlapse := hR.lapse
    unfold LapseAlike at hlapse
    rw [if_neg (ne_true_of_eq_false hgoes)] at hlapse
    have hfirst : ∀ l ∈ last, l ≤ m.attempt.time.ms := fun l hl =>
      hR.past l hl m List.mem_cons_self
    have hnew : level config (x.act (m.attempt.call scope config) slot).1 =
        if goneAt x slot m.attempt.time.ms then (config.capacity : ℚ) else level config slot := by
      rw [act_refused hrefused, ← available_live_stuck h]
      unfold level
      rw [Option.map_some, available_stuck h 0 m.attempt.time.ms, available_some, sub_self,
        max_self, mul_zero, add_zero]
      exact min_eq_right (available_le config _ _)
    exact
      { forward := hR.forward.tail
        lapse := hlapse
        writtenLast := writtenAt_act
        writtenStayed := hR.writtenStayed
        past := by
          rintro _ ⟨⟩ m' hm'
          exact hR.forward.le hm'
        order := by
          intro k hk
          obtain ⟨l, hl, hkl⟩ := hR.order k hk
          exact ⟨_, rfl, hkl.trans (hfirst l hl)⟩
        levels := by
          rw [hnew, goneAt_eq hR.writtenLast]
          cases stayed with
          | none =>
            rw [hR.full.1, hR.full.2, ite_self]
            exact .inl rfl
          | some k =>
            obtain ⟨l, hl, hkl⟩ := hR.order k rfl
            obtain rfl : last = some l := hl
            rw [Option.any_some]
            split
            · next hgone =>
              have hearlier : k + ttlMs config ≤ l + ttlMs config := by linarith
              exact .inr ⟨_, rfl, k, rfl, x.mono hearlier (le_refl _) hgone⟩
            · obtain hsame | ⟨_, ⟨⟩, _, ⟨⟩, hgone⟩ := hR.levels
              · exact .inl hsame
              · exact .inr ⟨_, rfl, k, rfl, x.mono (le_refl _) (hfirst l rfl) hgone⟩ }

end

/-- Without the calls that were refused, the others are answered the same: on a bucket
that refills or that never holds anything, and elsewhere in every run that has a
bucket's key lapse at the same calls with and without them. -/
theorem refusals_invisible (x : Expiry) (scope : LimitScope) (config : BucketConfig)
    (run : List Marked) (hclock : Forward run)
    (hrefused : OnlyRefused (x.answered scope config none run))
    (h : config.Refills ∨ config.capacity = 0 ∨ LapseAlike x config none none run) :
    x.verdicts scope config none (remaining run) = kept (x.answered scope config none run) := by
  by_cases hrefills : config.Refills
  · exact (foundAlike_simulates x scope hrefills).verdicts
      ⟨hclock, fun m _ => ⟨written_none _ _, written_none _ _⟩, fun _ _ => rfl⟩ hrefused
  · obtain hcapacity | hlapse := h.resolve_left hrefills
    · exact (empty_simulates x scope hcapacity).verdicts
        ⟨hclock, fun m _ => ⟨written_none _ _, written_none _ _⟩⟩ hrefused
    · have hstart : StuckAlike x config none none run none none :=
        { forward := hclock
          lapse := hlapse
          writtenLast := rfl
          writtenStayed := rfl
          past := nofun
          order := nofun
          levels := .inl rfl }
      exact (stuckAlike_simulates x scope hrefills).verdicts ⟨none, none, hstart⟩ hrefused

def retried : List Marked :=
  [⟨⟨⟨1, 0⟩, 1⟩, true⟩, ⟨⟨⟨31, 0⟩, 1⟩, false⟩, ⟨⟨⟨62, 0⟩, 1⟩, true⟩]

theorem refusals_invisible_retried :
    Expiry.redis.verdicts ⟨.tenant, js "acme", none, none⟩ ⟨1, 1, 60000, none⟩ none
        (remaining retried) =
      kept (Expiry.redis.answered ⟨.tenant, js "acme", none, none⟩ ⟨1, 1, 60000, none⟩ none
        retried) :=
  refusals_invisible .redis _ _ _ (by unfold Forward; decide +kernel)
    (by unfold OnlyRefused; decide +kernel) (.inl ⟨by decide, by decide⟩)

/-- Without a refill the bucket is full again a minute after the first call, but not if a
refused call has renewed its key. -/
theorem refusals_put_off_the_reset :
    ¬ ∀ (x : Expiry) (scope : LimitScope) (config : BucketConfig) (run : List Marked),
      Forward run → (∀ m ∈ run, 0 < m.attempt.cost) →
      OnlyRefused (x.answered scope config none run) →
      (x.verdicts scope config none (remaining run)).map
          (fun v => (v.allowed, v.retryAfterMs)) =
        (kept (x.answered scope config none run)).map fun v => (v.allowed, v.retryAfterMs) := by
  intro hclaim
  have hsame := hclaim .redis ⟨.tenant, js "acme", none, none⟩ ⟨1, 0, 0, none⟩ retried
    (by unfold Forward; decide +kernel) (by decide +kernel) (by unfold OnlyRefused; decide +kernel)
  revert hsame
  decide +kernel

end McpGateway.RateLimit
