import McpGateway.Auth.JwksCache

/-!
# A rotated key and the callers waiting for it

`refresh` checks the cooldown before it looks for a fetch in flight. A lookup of
a key the fetch in flight is about to bring is then turned away, unless the cache
is empty or the last attempt is old; and one key of the set that cannot be
imported keeps all of them out.
-/

namespace McpGateway.Auth

open Js Shared Transition

variable {Key : Type}

section
variable (importJwk : Json → Json → Option (ImportedKey Key))

/-- The asymmetric key that a list of keys has for a `kid`: the last one. -/
def publishedIn (kid : JsString) : List Json → Option Key
  | [] => none
  | jwk :: jwks => (publishedIn kid jwks).or (match keyOf importJwk jwk with
    | some (some (kid', key)) => if kid' = kid then some key else none
    | _ => none)

def keySetOf : Answer → Option (List Json)
  | .response status (some (.object props)) =>
    if 200 ≤ status ∧ status ≤ 299 then
      match props.lookup (js "keys") with
      | some (.array jwks) => some jwks
      | _ => none
    else none
  | _ => none

/-- The key that an answer publishes for a `kid`. -/
def published (answer : Answer) (kid : JsString) : Option Key :=
  (keySetOf answer).bind (publishedIn importJwk kid)

/-- Every key of the answer that has a `kid` can be imported. -/
def AllImport (answer : Answer) : Prop :=
  ∀ jwks ∈ keySetOf answer, ∀ jwk ∈ jwks, keyOf importJwk jwk ≠ none

end

/-- The lookup waits for a fetch: it finds no fresh key, and the cooldown lets it. -/
def JwksCache.Waits (options : JwksCacheOptions) (s : JwksCache Key) (kid : JsString) (now : ℤ) :
    Prop :=
  s.fresh options kid now = none ∧ s.coolingDown options now = false

section
variable {importJwk : Json → Json → Option (ImportedKey Key)} {options : JwksCacheOptions}
  {s s' : JwksCache Key}

-- ---------------------------------------------------------------------------
-- What a fetch brings
-- ---------------------------------------------------------------------------

theorem importKeys_get (jwks : List Json) (acc next : JsMap JsString Key)
    (h : importKeys importJwk acc jwks = some next) (kid : JsString) :
    next.get kid = (publishedIn importJwk kid jwks).or (acc.get kid) := by
  induction jwks generalizing acc with
  | nil =>
    cases h
    rfl
  | cons jwk jwks ih =>
    unfold importKeys at h
    unfold publishedIn
    split at h
    · cases h
    · next hskip => rw [ih acc h, hskip, Option.or_none]
    · next kid' key hkey =>
      rw [ih _ h, hkey, JsMap.get_set, Option.or_assoc]
      dsimp only
      by_cases heq : kid = kid'
      · rw [if_pos heq, if_pos heq.symm, Option.some_or]
      · rw [if_neg heq, if_neg (Ne.symm heq), Option.none_or]

theorem importKeys_isSome (jwks : List Json) (acc : JsMap JsString Key) :
    (importKeys importJwk acc jwks).isSome = true ↔
      ∀ jwk ∈ jwks, keyOf importJwk jwk ≠ none := by
  induction jwks generalizing acc with
  | nil => simp [importKeys]
  | cons jwk jwks ih =>
    unfold importKeys
    rw [List.forall_mem_cons]
    split
    · next hthrows => simp [hthrows]
    · next hskip => simp [hskip, ih]
    · next hkey => simp [hkey, ih]

/-- An answer with a key set gives its keys when all of them can be imported, and
throws otherwise. -/
theorem readKeySet_of_keySet (importJwk : Json → Json → Option (ImportedKey Key)) {answer : Answer} {jwks : List Json}
    (h : keySetOf answer = some jwks) (uri : JsString) :
    (∃ next, importKeys importJwk .empty jwks = some next ∧
        readKeySet importJwk uri answer = .ok next) ∨
      importKeys importJwk .empty jwks = none ∧
        readKeySet importJwk uri answer = .error (.other none) := by
  unfold keySetOf at h
  split at h
  · split at h
    · next hstatus =>
      split at h
      · next hkeys =>
        cases h
        unfold readKeySet
        dsimp only
        rw [if_neg (not_not.mpr hstatus), hkeys]
        dsimp only
        cases importKeys importJwk .empty jwks with
        | none => exact .inr ⟨rfl, rfl⟩
        | some next => exact .inl ⟨next, rfl, rfl⟩
      · cases h
    · cases h
  · cases h

-- ---------------------------------------------------------------------------
-- A lookup in the meantime and afterwards
-- ---------------------------------------------------------------------------

theorem refresh_same (options : JwksCacheOptions) (s : JwksCache Key) (force : Bool) (now : ℤ) :
    (s.refresh options force now).1.keys = s.keys ∧
      (s.refresh options force now).1.lookups = s.lookups ∧
      (s.inFlight = true → (s.refresh options force now).1.inFlight = true) := by
  unfold JwksCache.refresh
  split
  · exact ⟨rfl, rfl, id⟩
  · split
    · exact ⟨rfl, rfl, id⟩
    · exact ⟨rfl, rfl, fun _ => rfl⟩

/-- An event that is not the end of a fetch. -/
def Event.IsCall : Event → Prop
  | .fetched _ _ => False
  | _ => True

theorem getKey_same (options : JwksCacheOptions) (s : JwksCache Key) (kid : Option JsString)
    (now : ℤ) :
    (s.getKey options kid now).keys = s.keys ∧
      (s.inFlight = true → (s.getKey options kid now).inFlight = true) ∧
      ∃ l, (s.getKey options kid now).lookups = s.lookups ++ [l] := by
  unfold JwksCache.getKey
  split
  · exact ⟨rfl, id, _, rfl⟩
  · split
    · exact ⟨rfl, id, _, rfl⟩
    · obtain ⟨hkeys, hlookups, hflight⟩ := refresh_same options s false now
      exact ⟨hkeys, hflight, _, congrArg (· ++ _) hlookups⟩

/-- Until the fetch returns, the keys and what the earlier lookups wait for stay. -/
theorem calls_keep (hs : s.inFlight = true) {as : List Event} (has : ∀ a ∈ as, a.IsCall)
    (h : run (JwksCache.step importJwk options) s as = some s') :
    s'.keys = s.keys ∧ s'.inFlight = true ∧ s.lookups <+: s'.lookups := by
  induction as generalizing s with
  | nil =>
    cases h
    exact ⟨rfl, hs, List.prefix_refl _⟩
  | cons a as ih =>
    obtain ⟨m, hm, hrest⟩ := run_cons_some.mp h
    have hlater := fun hflight => ih hflight (fun b hb => has b (List.mem_cons_of_mem _ hb)) hrest
    have hcall := has a List.mem_cons_self
    cases a with
    | getKey kid now =>
      cases hm
      obtain ⟨hkeys, hflight, l, hlookups⟩ := getKey_same options s kid now
      obtain ⟨hk, hf, hl⟩ := hlater (hflight hs)
      rw [hlookups] at hl
      exact ⟨hk.trans hkeys, hf, (List.prefix_append _ _).trans hl⟩
    | refresh force now =>
      cases hm
      obtain ⟨hkeys, hlookups, hflight⟩ := refresh_same options s force now
      obtain ⟨hk, hf, hl⟩ := hlater (hflight hs)
      rw [hlookups] at hl
      exact ⟨hk.trans hkeys, hf, hl⟩
    | fetched answer now => cases hcall

theorem settled_keep {c : Nat} {result : Except GatewayError Key}
    (hs : s.lookups[c]? = some (.settled result)) {as : List Event}
    (h : run (JwksCache.step importJwk options) s as = some s') :
    s'.lookups[c]? = some (.settled result) := by
  refine run_invariant (fun s => s.lookups[c]? = some (.settled result)) ?_ hs h
  intro s a s' hs h
  cases a with
  | getKey kid now =>
    cases h
    obtain ⟨-, -, l, hlookups⟩ := getKey_same options s kid now
    rw [hlookups]
    exact (List.getElem?_append_left (List.getElem?_eq_some_iff.mp hs).1).trans hs
  | refresh force now =>
    cases h
    rw [(refresh_same options s force now).2.1]
    exact hs
  | fetched answer now =>
    dsimp only [JwksCache.step] at h
    split at h
    · cases h
      unfold JwksCache.fetched
      split
      all_goals
        dsimp only
        rw [List.getElem?_map, hs]
        rfl
    · cases h

theorem keyFor_ok {keys : JsMap JsString Key} {kid : JsString} {key : Key} :
    JwksCache.keyFor keys kid = .ok key ↔ keys.get kid = some key := by
  unfold JwksCache.keyFor
  split
  · next k hk =>
    rw [hk, Option.some.injEq]
    exact ⟨fun h => Except.ok.inj h, fun h => congrArg Except.ok h⟩
  · next hk =>
    rw [hk]
    constructor <;> rintro ⟨⟩

theorem fresh_held {kid : JsString} {now : ℤ} {key : Key} (h : s.fresh options kid now = some key) :
    s.keys.get kid = some key := by
  unfold JwksCache.fresh at h
  split at h
  · cases h
  · exact h

theorem getKey_cases (options : JwksCacheOptions) (hflight : s.inFlight = true) (kid : JsString) (now : ℤ) :
    (∃ key, s.fresh options kid now = some key ∧
        s.getKey options (some kid) now = s.addLookup (.settled (.ok key))) ∨
      (s.fresh options kid now = none ∧ s.coolingDown options now = true ∧
        s.getKey options (some kid) now = s.addLookup (.settled (JwksCache.keyFor s.keys kid))) ∨
      (s.Waits options kid now ∧ s.getKey options (some kid) now = s.addLookup (.waiting kid)) := by
  unfold JwksCache.getKey
  dsimp only
  cases hfresh : s.fresh options kid now with
  | some key => exact .inl ⟨key, rfl, rfl⟩
  | none =>
    cases hcool : s.coolingDown options now with
    | true =>
      have hrefresh : s.refresh options false now = (s, false) := by
        unfold JwksCache.refresh
        rw [hcool]
        rfl
      refine .inr (.inl ⟨rfl, rfl, ?_⟩)
      rw [hrefresh]
      rfl
    | false =>
      have hrefresh : s.refresh options false now = (s, true) := by
        unfold JwksCache.refresh
        rw [hcool, hflight]
        rfl
      refine .inr (.inr ⟨⟨hfresh, hcool⟩, ?_⟩)
      rw [hrefresh]
      rfl

theorem fetched_waiting (options : JwksCacheOptions) (now : ℤ) {c : Nat} {kid : JsString}
    {answer : Answer} {key : Key}
    (hwaits : s.lookups[c]? = some (.waiting kid))
    (hpublished : published importJwk answer kid = some key) :
    ∃ result, (s.fetched importJwk options answer now).lookups[c]? = some (.settled result) ∧
      (result = .ok key ↔ s.keys.get kid = some key ∨ AllImport importJwk answer) := by
  obtain ⟨jwks, hjwks, hkey⟩ := Option.bind_eq_some_iff.mp hpublished
  have himports : AllImport importJwk answer ↔
      (importKeys importJwk .empty jwks).isSome = true := by
    rw [importKeys_isSome]
    unfold AllImport
    rw [hjwks]
    exact ⟨fun h => h jwks rfl, fun h _ heq => Option.some.inj heq ▸ h⟩
  rw [himports]
  unfold JwksCache.fetched
  obtain ⟨next, hnext, hread⟩ | ⟨hnone, hread⟩ :=
    readKeySet_of_keySet importJwk hjwks options.jwksUri
  · rw [hread, hnext]
    dsimp only
    rw [List.getElem?_map, hwaits]
    refine ⟨_, rfl, ?_⟩
    have hget := importKeys_get jwks _ next hnext kid
    rw [hkey, Option.some_or] at hget
    exact ⟨fun _ => .inr rfl, fun _ => keyFor_ok.mpr hget⟩
  · rw [hread, hnone]
    dsimp only
    rw [List.getElem?_map, hwaits]
    refine ⟨_, rfl, ?_⟩
    by_cases hsize : s.keys.size > 0
    · rw [if_pos hsize]
      dsimp only
      rw [keyFor_ok]
      exact ⟨.inl, fun h => h.resolve_right nofun⟩
    · rw [if_neg hsize]
      refine ⟨nofun, fun h => ?_⟩
      obtain hheld | himport := h
      · exact absurd (JsMap.size_pos_of_get hheld) hsize
      · cases himport

end

/-- A lookup made while a fetch is in flight that will publish a key for its `kid`
resolves to that key exactly when the cache holds that very key already, or the
lookup waits for the fetch and every key of the answer can be imported. -/
theorem shared_refresh_iff (importJwk : Json → Json → Option (ImportedKey Key))
    (options : JwksCacheOptions) (s s₁ s₂ s₃ s₄ : JwksCache Key) (kid : JsString) (now done : ℤ)
    (meantime later : List Event) (answer : Answer) (key : Key) (hflight : s.inFlight = true)
    (hcall : s.step importJwk options (.getKey (some kid) now) = some s₁)
    (hcalls : ∀ a ∈ meantime, a.IsCall)
    (hmeantime : run (JwksCache.step importJwk options) s₁ meantime = some s₂)
    (hfetched : s₂.step importJwk options (.fetched answer done) = some s₃)
    (hpublished : published importJwk answer kid = some key)
    (hlater : run (JwksCache.step importJwk options) s₃ later = some s₄) :
    s₄.lookups[s.lookups.length]? = some (.settled (.ok key)) ↔
      s.keys.get kid = some key ∨
        s.Waits options kid now ∧ AllImport importJwk answer := by
  cases hcall
  have hnew : ∀ l, (s.addLookup l).lookups[s.lookups.length]? = some l := fun l =>
    List.getElem?_concat_length
  -- a lookup settled at once has what the cache held
  have hatonce : ∀ result, s.getKey options (some kid) now = s.addLookup (.settled result) →
      s₄.lookups[s.lookups.length]? = some (.settled result) := by
    intro result hadd
    have hs₁ : (s.getKey options (some kid) now).lookups[s.lookups.length]? =
        some (.settled result) := by
      rw [hadd]
      exact hnew _
    have hreturn : run (JwksCache.step importJwk options) s₂ [.fetched answer done] = some s₃ :=
      run_cons_some.mpr ⟨s₃, hfetched, rfl⟩
    exact settled_keep (settled_keep (settled_keep hs₁ hmeantime) hreturn) hlater
  have hsame : ∀ result : Except GatewayError Key,
      (some (Lookup.settled result) = some (.settled (.ok key)) ↔ result = .ok key) := by
    intro result
    rw [Option.some.injEq, Lookup.settled.injEq]
  obtain ⟨k, hfresh, hadd⟩ | ⟨hfresh, hcool, hadd⟩ | ⟨hwaits, hadd⟩ :=
    getKey_cases options hflight kid now
  · rw [hatonce _ hadd, hsame, ← keyFor_ok, keyFor_ok.mpr (fresh_held hfresh)]
    refine ⟨.inl, fun h => h.resolve_right fun hw => ?_⟩
    rw [hw.1.1] at hfresh
    cases hfresh
  · rw [hatonce _ hadd, hsame, keyFor_ok]
    refine ⟨.inl, fun h => h.resolve_right fun hw => ?_⟩
    rw [hw.1.2] at hcool
    cases hcool
  · have hflight₁ : (s.getKey options (some kid) now).inFlight = true := by
      rw [hadd]
      exact hflight
    obtain ⟨hkeys, hflight₂, hprefix⟩ := calls_keep hflight₁ hcalls hmeantime
    have hwaiting : s₂.lookups[s.lookups.length]? = some (.waiting kid) := by
      obtain ⟨rest, hrest⟩ := hprefix
      have hs₁ : (s.getKey options (some kid) now).lookups[s.lookups.length]? =
          some (.waiting kid) := by
        rw [hadd]
        exact hnew _
      rw [← hrest]
      exact (List.getElem?_append_left (List.getElem?_eq_some_iff.mp hs₁).1).trans hs₁
    dsimp only [JwksCache.step] at hfetched
    rw [if_pos hflight₂] at hfetched
    cases hfetched
    obtain ⟨result, hresult, hiff⟩ := fetched_waiting options done hwaiting hpublished
    have hsame₁ : s₂.keys = s.keys := by
      rw [hkeys, hadd]
      rfl
    rw [settled_keep hresult hlater, hsame, hiff, hsame₁]
    exact ⟨fun h => h.imp_right fun himports => ⟨hwaits, himports⟩,
      fun h => h.imp_right fun hw => hw.2⟩

-- ---------------------------------------------------------------------------
-- A rotation
-- ---------------------------------------------------------------------------

def importModulus : Json → Json → Option (ImportedKey JsString)
  | .object props, _ =>
    match props.lookup (js "n") with
    | some (.string n) => some (.keyLike n)
    | _ => none
  | _, _ => none

def rsaKey (kid n : String) : Json :=
  .object [(js "kty", .string (js "RSA")), (js "kid", .string (js kid)), (js "n", .string (js n))]

def answering (jwks : List Json) : Answer :=
  .response 200 (some (.object [(js "keys", .array jwks)]))

def refetching : List Event :=
  [.getKey (some (js "a")) 1000000, .fetched (answering [rsaKey "a" "11"]) 1000000,
    .getKey (some (js "a")) 1300000]

def firstFetch : JwksCache JsString :=
  JwksCache.created.getKey ⟨js "jwks", 300000, 10000⟩ (some (js "a")) 1000000

theorem shared_refresh_first :
    ((firstFetch.getKey ⟨js "jwks", 300000, 10000⟩ (some (js "b")) 1000001).fetched importModulus
        ⟨js "jwks", 300000, 10000⟩ (answering [rsaKey "a" "11", rsaKey "b" "22"]) 1000100).lookups[1]? =
      some (.settled (.ok (js "22"))) :=
  (shared_refresh_iff importModulus ⟨js "jwks", 300000, 10000⟩ firstFetch _ _ _ _ (js "b") 1000001
    1000100 [] [] (answering [rsaKey "a" "11", rsaKey "b" "22"]) (js "22") rfl rfl
    (fun _ h => nomatch h) rfl rfl rfl rfl).mpr
    (.inr ⟨⟨rfl, rfl⟩, by
      intro jwks hjwks jwk hjwk
      cases hjwks
      fin_cases hjwk <;> exact nofun⟩)

/-- A lookup of the new key, a moment after the refetch began, is rejected. -/
theorem shared_refresh_missed :
    ¬ ∀ (options : JwksCacheOptions) (before : List Event) (s s₁ s₂ : JwksCache JsString)
      (kid : JsString) (now done : ℤ) (answer : Answer) (key : JsString),
      run (JwksCache.step importModulus options) .created before = some s →
      s.inFlight = true → s.step importModulus options (.getKey (some kid) now) = some s₁ →
      s₁.step importModulus options (.fetched answer done) = some s₂ →
      published importModulus answer kid = some key →
      s₂.lookups[s.lookups.length]? = some (.settled (.ok key)) := by
  intro hclaim
  have hsettled := hclaim ⟨js "jwks", 300000, 10000⟩ refetching _ _ _ (js "b") 1300001 1300100
    (answering [rsaKey "a" "11", rsaKey "b" "22"]) (js "22") rfl rfl rfl rfl rfl
  revert hsettled
  exact nofun

end McpGateway.Auth
