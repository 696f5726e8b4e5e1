import McpGateway.Auth.KeyRotation
import Mathlib.Data.List.Chain

/-!
# The requests for the key set

What the cache sends to the provider. One request is out at a time, and the
cooldown keeps them apart while the cache holds a key. An empty cache asks again
as soon as it is asked, whatever the last attempt came to.
-/

namespace McpGateway.Auth

open Js Shared Transition

structure KeySetRequest where
  sentAt : ℤ
  /-- It was asked for by `refresh(true)`. -/
  forced : Bool
  /-- The cache held a key. -/
  holding : Bool
  deriving DecidableEq, Repr

namespace JwksCache

variable {Key : Type}

/-- What `refresh` sends. -/
def sends (options : JwksCacheOptions) (s : JwksCache Key) (force : Bool) (now : ℤ) :
    List KeySetRequest :=
  if !force && s.coolingDown options now then []
  else if s.inFlight then []
  else [⟨now, force, decide (s.keys.size > 0)⟩]

def requests (options : JwksCacheOptions) (s : JwksCache Key) : Event → List KeySetRequest
  | .getKey none _ => []
  | .getKey (some kid) now =>
    match s.fresh options kid now with
    | some _ => []
    | none => s.sends options false now
  | .refresh force now => s.sends options force now
  | .fetched _ _ => []

end JwksCache

/-- The cache with the requests it has sent, and how many of them have returned. -/
structure Traffic (Key : Type) where
  cache : JwksCache Key
  sent : List KeySetRequest
  returned : Nat

namespace Traffic

variable {Key : Type}

def created : Traffic Key := ⟨.created, [], 0⟩

/-- A request returns while one is out, whatever the cache believes. -/
def step (importJwk : Json → Json → Option (ImportedKey Key)) (options : JwksCacheOptions)
    (t : Traffic Key) : Event → Option (Traffic Key)
  | .fetched answer now =>
    if t.returned < t.sent.length then
      some ⟨t.cache.fetched importJwk options answer now, t.sent, t.returned + 1⟩
    else none
  | .getKey kid now =>
    some ⟨t.cache.getKey options kid now, t.sent ++ t.cache.requests options (.getKey kid now),
      t.returned⟩
  | .refresh force now =>
    some ⟨(t.cache.refresh options force now).1,
      t.sent ++ t.cache.requests options (.refresh force now), t.returned⟩

end Traffic

/-- Two requests one after the other, when the second is neither forced nor sent by an
empty cache. -/
def Apart (options : JwksCacheOptions) (r r' : KeySetRequest) : Prop :=
  r'.forced = false → r'.holding = true → options.cooldownMs ≤ r'.sentAt - r.sentAt

section
variable {Key : Type} {importJwk : Json → Json → Option (ImportedKey Key)}
  {options : JwksCacheOptions} {s : JwksCache Key} {t t' : Traffic Key}

/-- The last request was the last attempt; it is out while the cache waits for it, and
nothing is out otherwise. -/
structure Traffic.Ok (options : JwksCacheOptions) (t : Traffic Key) : Prop where
  last : ∀ r ∈ t.sent.getLast?, r.sentAt = t.cache.lastAttemptAt
  out : t.sent.length = t.returned + t.cache.inFlight.toNat
  apart : t.sent.IsChain (Apart options)

theorem refresh_sends (options : JwksCacheOptions) (s : JwksCache Key) (force : Bool) (now : ℤ) :
    (s.sends options force now = [] ∧ (s.refresh options force now).1 = s) ∨
      (∃ r, s.sends options force now = [r] ∧ r.sentAt = now ∧
        (r.forced = false → r.holding = true →
          options.cooldownMs ≤ now - s.lastAttemptAt) ∧ s.inFlight = false ∧
        (s.refresh options force now).1 = { s with lastAttemptAt := now, inFlight := true }) := by
  unfold JwksCache.sends JwksCache.refresh
  split
  · exact .inl ⟨rfl, rfl⟩
  · next hcool =>
    split
    · exact .inl ⟨rfl, rfl⟩
    · next hidle =>
      refine .inr ⟨_, rfl, rfl, ?_, Bool.eq_false_of_not_eq_true hidle, rfl⟩
      intro hforced hholding
      dsimp only at hforced hholding
      rw [hforced, Bool.not_false, Bool.true_and] at hcool
      unfold JwksCache.coolingDown at hcool
      rw [hholding, Bool.and_true, decide_eq_true_iff] at hcool
      exact not_lt.mp hcool

theorem Traffic.Ok.refreshed (ht : t.Ok options) (force : Bool) (now : ℤ) (lookups : List (Lookup Key)) :
    Traffic.Ok options ⟨{ (t.cache.refresh options force now).1 with lookups },
      t.sent ++ t.cache.sends options force now, t.returned⟩ := by
  obtain ⟨hnone, hsame⟩ | ⟨r, hr, hnow, hapart, hidle, hnext⟩ :=
    refresh_sends options t.cache force now
  · rw [hnone, hsame, List.append_nil]
    exact ⟨ht.last, ht.out, ht.apart⟩
  · rw [hr, hnext]
    have hout := ht.out
    rw [hidle] at hout
    refine ⟨?_, ?_, ?_⟩
    · intro r' hr'
      rw [List.getLast?_concat] at hr'
      cases hr'
      exact hnow
    · rw [List.length_append, hout]
      rfl
    · refine List.isChain_append.mpr ⟨ht.apart, List.isChain_singleton r, ?_⟩
      intro r₁ hr₁ r₂ hr₂
      cases hr₂
      intro hforced hholding
      rw [hnow, ht.last r₁ hr₁]
      exact hapart hforced hholding

theorem Traffic.Ok.fetched (ht : t.Ok options) (hout : t.returned < t.sent.length) (answer : Answer)
    (now : ℤ) : Traffic.Ok options
      ⟨t.cache.fetched importJwk options answer now, t.sent, t.returned + 1⟩ := by
  have hflight : t.cache.inFlight = true := by
    have hcount := ht.out
    cases hidle : t.cache.inFlight with
    | true => rfl
    | false =>
      rw [hidle, Bool.toNat_false, Nat.add_zero] at hcount
      exact absurd hout (Nat.not_lt.mpr (le_of_eq hcount))
  have hcount := ht.out
  rw [hflight, Bool.toNat_true] at hcount
  unfold JwksCache.fetched
  split
  · exact ⟨ht.last, hcount, ht.apart⟩
  · exact ⟨ht.last, hcount, ht.apart⟩

theorem traffic_step (ht : t.Ok options) {e : Event} (h : t.step importJwk options e = some t') :
    t'.Ok options := by
  cases e with
  | getKey kid now =>
    cases h
    unfold JwksCache.getKey JwksCache.requests
    cases kid with
    | none =>
      dsimp only
      rw [List.append_nil]
      exact ⟨ht.last, ht.out, ht.apart⟩
    | some kid =>
      dsimp only
      cases t.cache.fresh options kid now with
      | some key =>
        dsimp only
        rw [List.append_nil]
        exact ⟨ht.last, ht.out, ht.apart⟩
      | none => exact ht.refreshed false now _
  | refresh force now =>
    cases h
    exact ht.refreshed force now _
  | fetched answer now =>
    dsimp only [Traffic.step] at h
    split at h
    · next hout =>
      cases h
      exact ht.fetched hout answer now
    · cases h

end

/-- In every run of the cache: of two requests one after the other, the second is sent no
sooner than the cooldown allows unless it was forced or the cache held no key; and no
two are out at once. -/
theorem requests_apart {Key : Type} (importJwk : Json → Json → Option (ImportedKey Key))
    (options : JwksCacheOptions) (events : List Event) (t : Traffic Key)
    (h : run (Traffic.step importJwk options) .created events = some t) :
    t.sent.IsChain (Apart options) ∧ t.sent.length ≤ t.returned + 1 := by
  have hstart : (Traffic.created : Traffic Key).Ok options := ⟨nofun, rfl, .nil⟩
  have ht : t.Ok options :=
    run_invariant (Traffic.Ok options) (fun _ _ _ ht h => traffic_step ht h) hstart h
  refine ⟨ht.apart, ?_⟩
  rw [ht.out]
  exact Nat.add_le_add_left (Bool.toNat_le _) _

/-- A lookup of an unknown key, ten seconds after the last request. -/
theorem requests_apart_unknown_key :
    ∃ t, run (Traffic.step importModulus ⟨js "jwks", 300000, 10000⟩) .created
        [.getKey (some (js "a")) 1000000, .fetched (answering [rsaKey "a" "11"]) 1000100,
          .getKey (some (js "b")) 1010000] = some t ∧
      t.sent = [⟨1000000, false, false⟩, ⟨1010000, false, true⟩] ∧
      t.sent.IsChain (Apart ⟨js "jwks", 300000, 10000⟩) ∧ t.sent.length ≤ t.returned + 1 :=
  ⟨_, rfl, rfl, requests_apart importModulus ⟨js "jwks", 300000, 10000⟩
    [.getKey (some (js "a")) 1000000, .fetched (answering [rsaKey "a" "11"]) 1000100,
      .getKey (some (js "b")) 1010000] _ rfl⟩

def Event.now : Event → ℤ
  | .getKey _ now | .refresh _ now | .fetched _ now => now

def outage : List Event :=
  [.getKey (some (js "a")) 1000000, .fetched .failed 1000001, .getKey (some (js "b")) 1000002]

/-- An empty cache asks again two milliseconds after its last request. -/
theorem outage_storm :
    ¬ ∀ (importJwk : Json → Json → Option (ImportedKey JsString)) (options : JwksCacheOptions)
      (events : List Event) (t : Traffic JsString),
      (events.map Event.now).Pairwise (· ≤ ·) → (∀ now, Event.refresh true now ∉ events) →
      run (Traffic.step importJwk options) .created events = some t →
      t.sent.IsChain (fun r r' => options.cooldownMs ≤ r'.sentAt - r.sentAt) ∧
        t.sent.length ≤ t.returned + 1 := by
  intro hclaim
  have hbound := (hclaim importModulus ⟨js "jwks", 300000, 10000⟩ outage _ (by decide)
    (by simp [outage]) rfl).1
  have hgap : (10000 : ℤ) ≤ 1000002 - 1000000 := hbound.rel
  exact absurd hgap (by decide)

end McpGateway.Auth
