import McpGateway.Idp.Endpoints
import McpGateway.Js.Base64
import McpGateway.Js.UriComponent

/-!
# Client authentication

The client that asks for a token names itself in a header, and the provider
reads the header back. The two stand in different packages: what one escapes,
joins and encodes, the other must take apart in the same places.
-/

namespace McpGateway.Auth

open Js Shared Idp

structure OAuthClient where
  clientId : JsString
  clientSecret : Option JsString

structure TokenPost where
  headers : List (JsString × JsString)
  body : JsMap JsString JsString

/-- What the credentials are before base64; `none` is a `URIError`. -/
def credentialsText (clientId clientSecret : JsString) : Option JsString := do
  let clientId ← encodeURIComponent clientId
  let clientSecret ← encodeURIComponent clientSecret
  return clientId ++ colon :: clientSecret

def tokenHeaders : List (JsString × JsString) :=
  [(js "content-type", js "application/x-www-form-urlencoded"),
    (js "accept", js "application/json")]

/-- The request of `OAuthClient.token`. -/
def OAuthClient.tokenRequest (client : OAuthClient) (params : JsMap JsString JsString) :
    Option TokenPost :=
  match present client.clientSecret with
  | some clientSecret => do
    let text ← credentialsText client.clientId clientSecret
    let basic := base64 (utf8 text)
    return ⟨tokenHeaders ++ [(js "authorization", js "Basic " ++ basic)], params⟩
  | none => return ⟨tokenHeaders, params.set (js "client_id") client.clientId⟩

/-- The platform's decoders undo its encoders. -/
structure UndoesEncodings (decode : Decoders) : Prop where
  base64Text : ∀ s, isWellFormed s = true → decode.base64Text (base64 (utf8 s)) = s
  decodeURIComponent : ∀ s t, encodeURIComponent s = some t → decode.decodeURIComponent t = .ok s

-- ---------------------------------------------------------------------------
-- The separator
-- ---------------------------------------------------------------------------

/-- The first colon is the one between the two, when none stands in the first. -/
theorem splitCredentials_colon {name : JsString} (secret : JsString) (hname : name ≠ [])
    (hcolon : ∀ c ∈ name, isComponentUnit c = true) :
    splitCredentials (name ++ colon :: secret) = some (name, secret) := by
  have hne : ∀ c ∈ name, (c != colon) = true := by
    intro c hc
    have hunit := hcolon c hc
    simp only [isComponentUnit, Bool.and_eq_true] at hunit
    exact hunit.2
  obtain ⟨c, rest, rfl⟩ := List.exists_cons_of_ne_nil hname
  unfold splitCredentials
  rw [List.takeWhile_append_of_pos hne, List.dropWhile_append_of_pos hne]
  simp

theorem encodeURIComponent_ne_nil {s t : JsString} (hs : s ≠ []) (h : encodeURIComponent s = some t) :
    t ≠ [] := by
  rintro rfl
  have hdecoded := decodeURIComponent_encode h
  exact hs (Option.some.inj hdecoded).symm

theorem exists_encode {s : JsString} (h : isWellFormed s = true) :
    ∃ t, encodeURIComponent s = some t := by
  obtain ⟨ns, hns⟩ := Option.isSome_iff_exists.mp h
  exact ⟨_, congrArg (Option.map _) hns⟩

theorem isWellFormed_credentials {name secret clientId clientSecret : JsString}
    (hname : encodeURIComponent clientId = some name)
    (hsecret : encodeURIComponent clientSecret = some secret) :
    isWellFormed (name ++ colon :: secret) = true := by
  have hascii : ∀ c, isComponentUnit c = true → c.toNat < 0x80 := by
    intro c hc
    simp only [isComponentUnit, Bool.and_eq_true, decide_eq_true_eq] at hc
    exact hc.1
  refine isWellFormed_ascii fun c hc => ?_
  rcases List.mem_append.mp hc with hc | hc
  · exact hascii c (isComponentUnit_encode hname c hc)
  · rcases List.mem_cons.mp hc with rfl | hc
    · decide
    · exact hascii c (isComponentUnit_encode hsecret c hc)

-- ---------------------------------------------------------------------------
-- Both ends
-- ---------------------------------------------------------------------------

theorem resolveClientCredentials_basic {decode : Decoders} (hdecode : UndoesEncodings decode)
    {clientId clientSecret name secret : JsString} (hid : clientId ≠ [])
    (hname : encodeURIComponent clientId = some name)
    (hsecret : encodeURIComponent clientSecret = some secret) (body : TokenBody) :
    resolveClientCredentials decode
        (some (js "Basic " ++ base64 (utf8 (name ++ colon :: secret)))) body =
      .ok ⟨some clientId, some clientSecret⟩ := by
  have hprefix : (js "Basic ").isPrefixOf
      (js "Basic " ++ base64 (utf8 (name ++ colon :: secret))) = true :=
    List.isPrefixOf_iff_prefix.mpr (List.prefix_append ..)
  have hdrop : (js "Basic " ++ base64 (utf8 (name ++ colon :: secret))).drop 6 =
      base64 (utf8 (name ++ colon :: secret)) := List.drop_left' rfl
  have htext := hdecode.base64Text _ (isWellFormed_credentials hname hsecret)
  have hsplit := splitCredentials_colon secret (encodeURIComponent_ne_nil hid hname)
    (isComponentUnit_encode hname)
  unfold resolveClientCredentials
  simp only [Option.filter_some, hprefix, if_true, hdrop, htext, hsplit,
    hdecode.decodeURIComponent _ _ hname, hdecode.decodeURIComponent _ _ hsecret]
  rfl

theorem tokenRequest_secret {clientId clientSecret name secret : JsString}
    (hpresent : clientSecret ≠ []) (hname : encodeURIComponent clientId = some name)
    (hsecret : encodeURIComponent clientSecret = some secret) (params : JsMap JsString JsString) :
    OAuthClient.tokenRequest ⟨clientId, some clientSecret⟩ params =
      some ⟨tokenHeaders ++ [(js "authorization",
        js "Basic " ++ base64 (utf8 (name ++ colon :: secret)))], params⟩ := by
  have hsent : present (some clientSecret) = some clientSecret := by
    simp [present, hpresent]
  have htext : credentialsText clientId clientSecret = some (name ++ colon :: secret) := by
    simp [credentialsText, hname, hsecret]
  simp only [OAuthClient.tokenRequest, hsent, htext]
  rfl

/-- The provider resolves the header of a client's token request to the client's own id and
secret, whatever form comes with it. -/
theorem clientAuthentication_round_trip (decode : Decoders) (hdecode : UndoesEncodings decode)
    (clientId clientSecret : JsString) (hid : clientId ≠ []) (hsecret : clientSecret ≠ [])
    (hidText : isWellFormed clientId = true) (hsecretText : isWellFormed clientSecret = true)
    (params : JsMap JsString JsString) (body : TokenBody) :
    ∃ post header, OAuthClient.tokenRequest ⟨clientId, some clientSecret⟩ params = some post ∧
      post.headers.lookup (js "authorization") = some header ∧
      resolveClientCredentials decode (some header) body =
        .ok ⟨some clientId, some clientSecret⟩ := by
  obtain ⟨name, hname⟩ := exists_encode hidText
  obtain ⟨secret, hsecretName⟩ := exists_encode hsecretText
  refine ⟨_, _, tokenRequest_secret hsecret hname hsecretName params, ?_,
    resolveClientCredentials_basic hdecode hid hname hsecretName body⟩
  have hheaders : tokenHeaders.lookup (js "authorization") = none := by decide
  rw [List.lookup_append, hheaders, Option.none_or]
  exact List.lookup_cons_self

-- ---------------------------------------------------------------------------
-- Decoders that do
-- ---------------------------------------------------------------------------

def strictDecoders : Decoders where
  base64Text text := ((base64Bytes text).bind utf8Text).getD []
  decodeURIComponent text := match Js.decodeURIComponent text with
    | some s => return s
    | none => throw (.other (some (js "URI malformed")))

theorem undoesEncodings_strict : UndoesEncodings strictDecoders where
  base64Text s hs := by
    simp only [strictDecoders, base64Bytes_base64, Option.bind_some, utf8Text_utf8 hs,
      Option.getD_some]
  decodeURIComponent s t h := by
    simp only [strictDecoders, decodeURIComponent_encode h]
    rfl

/-- An id with a colon and a space, and a secret with a percent sign and a letter beyond ASCII. -/
theorem clientAuthentication_reserved_units :
    ∃ post header, OAuthClient.tokenRequest ⟨js "a: b", some (js "50%+" ++ [0xE9])⟩ .empty = some post ∧
      post.headers.lookup (js "authorization") = some header ∧
      resolveClientCredentials strictDecoders (some header) {} =
        .ok ⟨some (js "a: b"), some (js "50%+" ++ [0xE9])⟩ :=
  clientAuthentication_round_trip strictDecoders undoesEncodings_strict _ _ (by decide) (by decide)
    (by decide) (by decide) .empty {}

end McpGateway.Auth
