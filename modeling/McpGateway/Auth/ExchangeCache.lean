import McpGateway.Auth.TokenExchange
import McpGateway.Js.JsonParse
import McpGateway.Lib.Outcome

/-!
# Cache keys and entries

The cache key tells the subject and the audience: a target's audience is not the
end of another one's, and the digest has a fixed length. An entry is read back
with the strings it was written with, or not at all.
-/

namespace McpGateway.Auth

open Js Shared Outcome

-- ---------------------------------------------------------------------------
-- Keys
-- ---------------------------------------------------------------------------

theorem scopeDigest_length (scopes : List JsString) : (scopeDigest scopes).length = 16 := by
  unfold scopeDigest
  rw [List.length_take, sha256Hex_length]
  rfl

theorem target_of_end {t t' : McpTarget} {u v : JsString}
    (h : u ++ t.audience = v ++ t'.audience) : t = t' := by
  have hend : t.audience.reverse.take 2 = t'.audience.reverse.take 2 := by
    have hreverse := congrArg (fun s => s.reverse.take 2) h
    simp only [List.reverse_append] at hreverse
    rwa [List.take_append_of_le_length (by cases t <;> decide),
      List.take_append_of_le_length (by cases t' <;> decide)] at hreverse
  revert hend
  cases t <;> cases t' <;> decide

/-- Where the scopes have one digest, a key tells the subject and the target. -/
theorem cacheKey_inj {options : TokenExchangeOptions} {subject subject' : JsString}
    {t t' : McpTarget} {scopes scopes' : List JsString}
    (h : options.cacheKey subject t.audience scopes = options.cacheKey subject' t'.audience scopes') :
    subject = subject' ∧ t = t' ∧ scopeDigest scopes = scopeDigest scopes' := by
  unfold TokenExchangeOptions.cacheKey at h
  obtain ⟨hkey, hdigest⟩ := List.append_inj' h
    ((scopeDigest_length scopes).trans (scopeDigest_length scopes').symm)
  have haudience := List.append_cancel_right hkey
  obtain rfl := target_of_end haudience
  have hsubject := List.append_cancel_right (List.append_cancel_right haudience)
  exact ⟨List.append_cancel_left hsubject, rfl, hdigest⟩

-- ---------------------------------------------------------------------------
-- Entries
-- ---------------------------------------------------------------------------

theorem mapM_stringOf (ss : List JsString) : (ss.map Json.string).mapM stringOf = some ss := by
  induction ss with
  | nil => rfl
  | cons s ss ih => simp [List.mapM_cons, stringOf, ih]

section
variable {numberText : ℚ → JsString}

theorem stringify_entry (entry : CacheEntry) :
    Json.stringify numberText entry.toJson = leftBrace :: (Json.quote (js "t") ++ colon ::
      (Json.quote entry.t ++ comma :: (Json.quote (js "a") ++ colon ::
      (Json.quote entry.a ++ comma :: (Json.quote (js "s") ++ colon ::
      (leftBracket :: Json.joinComma (entry.s.map Json.quote) ++ rightBracket ::
      comma :: (Json.quote (js "e") ++ colon ::
      (Json.encodeNumber numberText entry.e ++ [rightBrace])))))))) := by
  have hstrings : Json.stringify.stringifyAll numberText (entry.s.map .string) =
      entry.s.map Json.quote := by
    rw [Json.stringifyAll_eq, List.map_map]
    rfl
  unfold CacheEntry.toJson
  simp only [Json.stringify, Json.stringify.stringifyProps, hstrings, Json.joinComma,
    List.cons_append, List.append_assoc, List.nil_append]

/-- The text of an entry is not JSON, or it is an object with the entry's strings. -/
theorem parse_entry (hnum : NumberText numberText) (entry : CacheEntry) :
    Json.parse (Json.stringify numberText entry.toJson) = none ∨
      ∃ v, Json.parse (Json.stringify numberText entry.toJson) = some (.object
        [(js "t", .string entry.t), (js "a", .string entry.a),
          (js "s", .array (entry.s.map .string)), (js "e", v)]) := by
  rw [stringify_entry, Json.parse_object]
  generalize hlen : (List.length (Json.quote (js "t") ++ colon :: _)).succ = fuel
  have hfuel : entry.s.length + 6 ≤ fuel := by
    have hscopes := Json.length_joinComma_quotes entry.s
    rw [← hlen]
    simp only [List.length_append, List.length_cons, Nat.succ_eq_add_one]
    omega
  obtain ⟨n, rfl⟩ := Nat.exists_eq_add_of_le' hfuel
  have hs : entry.s.length < n + entry.s.length + 2 := by omega
  have hread := Json.members_number hnum (n + entry.s.length + 1) (js "e") entry.e
    [(js "t", .string entry.t), (js "a", .string entry.a), (js "s", .array (entry.s.map .string))]
  rw [show n + (entry.s.length + 6) = n + entry.s.length + 2 + 3 + 1 by omega,
    Json.members_more [] (Json.parseFuel_quote _ entry.t _),
    Json.members_more _ (Json.parseFuel_quote _ entry.a _),
    Json.members_more _ (Json.parseFuel_quotes entry.s _ hs)]
  obtain hnone | ⟨v, hsome⟩ := hread
  · exact .inl (Eq.trans (congrArg (Option.bind · _) hnone) rfl)
  · exact .inr ⟨v, Eq.trans (congrArg (Option.bind · _) hsome) rfl⟩

theorem ofJson_entry (entry : CacheEntry) (v : Json) :
    CacheEntry.ofJson (.object [(js "t", .string entry.t), (js "a", .string entry.a),
      (js "s", .array (entry.s.map .string)), (js "e", v)]) =
      (numberOf v).map fun e => { entry with e } := by
  change (((entry.s.map Json.string).mapM stringOf).bind fun s =>
    (numberOf v).bind fun e => some (CacheEntry.mk entry.t entry.a s e)) = _
  rw [mapM_stringOf]
  cases numberOf v <;> rfl

theorem readCache_entry (hnum : NumberText numberText) {options : TokenExchangeOptions}
    {audience : JsString} {entry : CacheEntry} {now : ℤ} {token : MirroredToken}
    (h : readCache options audience (some (Json.stringify numberText entry.toJson)) now =
      .hit token) :
    token.accessToken = entry.t ∧ token.subject = entry.a ∧ token.scopes = entry.s ∧
      token.audience = audience := by
  have hparse := parse_entry hnum entry
  obtain ⟨c, t, htext⟩ : ∃ c t, Json.stringify numberText entry.toJson = c :: t :=
    ⟨_, _, stringify_entry entry⟩
  rw [htext] at h hparse
  unfold readCache at h
  obtain hnone | ⟨v, hsome⟩ := hparse
  · simp only [hnone] at h
    cases h
  · simp only [hsome, ofJson_entry] at h
    cases hv : numberOf v with
    | none =>
      rw [hv] at h
      cases h
    | some e =>
      rw [hv] at h
      dsimp only [Option.map_some] at h
      split at h
      · cases h
      · cases h
        exact ⟨rfl, rfl, rfl, rfl⟩

end

end McpGateway.Auth
