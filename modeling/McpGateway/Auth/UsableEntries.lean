import McpGateway.Auth.KeyRotation

/-!
# The entries of a key set

The loop over a key set skips entries without a `kid` and symmetric keys, but an
entry that cannot be imported ends it, and the answer with it. The keys of the
other entries are then kept out.
-/

namespace McpGateway.Auth

open Js Shared Transition

variable {Key : Type}

/-- The cache has, under every `kid`, the asymmetric key of the last entry with it, and
nothing else. -/
def HoldsPublished (importJwk : Json → Json → Option (ImportedKey Key)) (keys : JsMap JsString Key)
    (jwks : List Json) : Prop :=
  ∀ kid, keys.get kid = publishedIn importJwk kid jwks

theorem readKeySet_of_none (importJwk : Json → Json → Option (ImportedKey Key)) {answer : Answer}
    (h : keySetOf answer = none) (uri : JsString) :
    ∃ e, readKeySet importJwk uri answer = .error e := by
  unfold readKeySet
  cases answer with
  | failed => exact ⟨_, rfl⟩
  | response status body =>
    dsimp only
    split
    · exact ⟨_, rfl⟩
    · next hok =>
      rw [not_not] at hok
      unfold keySetOf at h
      split
      · exact ⟨_, rfl⟩
      · exact ⟨_, rfl⟩
      · next props =>
        split
        · next jwks hkeys =>
          dsimp only at h
          rw [if_pos hok, hkeys] at h
          cases h
        · exact ⟨_, rfl⟩
      · exact ⟨_, rfl⟩

/-- After an answer with a key set the cache holds the usable entries, exactly when none of
the others throws or the cache held them before; any other answer leaves the keys and
their time alone. -/
theorem usable_entries_iff (importJwk : Json → Json → Option (ImportedKey Key))
    (options : JwksCacheOptions) (s : JwksCache Key) (answer : Answer) (now : ℤ) :
    match keySetOf answer with
    | some jwks =>
      HoldsPublished importJwk (s.fetched importJwk options answer now).keys jwks ↔
        (∀ jwk ∈ jwks, keyOf importJwk jwk ≠ none) ∨ HoldsPublished importJwk s.keys jwks
    | none =>
      (s.fetched importJwk options answer now).keys = s.keys ∧
        (s.fetched importJwk options answer now).fetchedAt = s.fetchedAt := by
  cases h : keySetOf answer with
  | none =>
    obtain ⟨e, he⟩ := readKeySet_of_none importJwk h options.jwksUri
    unfold JwksCache.fetched
    rw [he]
    exact ⟨rfl, rfl⟩
  | some jwks =>
    dsimp only
    unfold JwksCache.fetched
    obtain ⟨next, hnext, hread⟩ | ⟨hnone, hread⟩ :=
      readKeySet_of_keySet importJwk h options.jwksUri
    · rw [hread]
      dsimp only
      have himports := (importKeys_isSome jwks _).mp (by rw [hnext]; rfl)
      refine ⟨fun _ => .inl himports, fun _ kid => ?_⟩
      rw [importKeys_get jwks _ next hnext kid]
      exact Option.or_none
    · rw [hread]
      dsimp only
      have hthrows : ¬ ∀ jwk ∈ jwks, keyOf importJwk jwk ≠ none := by
        rw [← importKeys_isSome jwks .empty, hnone]
        exact Bool.false_ne_true
      exact ⟨.inr, fun hor => hor.resolve_left hthrows⟩

def mixedKeySet : Answer :=
  answering [rsaKey "a" "11", .object [(js "kty", .string (js "AKP")), (js "kid", .string (js "b"))]]

/-- The RSA key is not cached. -/
theorem unusable_entry_hides :
    ¬ ∀ (importJwk : Json → Json → Option (ImportedKey JsString)) (options : JwksCacheOptions)
      (events : List Event) (s s' : JwksCache JsString) (answer : Answer) (now : ℤ)
      (jwks : List Json),
      run (JwksCache.step importJwk options) .created events = some s →
      s.step importJwk options (.fetched answer now) = some s' → keySetOf answer = some jwks →
      HoldsPublished importJwk s'.keys jwks := by
  intro hclaim
  have hheld := hclaim importModulus ⟨js "jwks", 300000, 10000⟩ [.getKey (some (js "a")) 1000000]
    firstFetch _ mixedKeySet 1000100 _ rfl rfl rfl (js "a")
  have hmissing : (none : Option JsString) = some (js "11") := hheld
  cases hmissing

end McpGateway.Auth
