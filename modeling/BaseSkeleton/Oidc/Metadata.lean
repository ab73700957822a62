import BaseSkeleton.Oidc.Jwk
import BaseSkeleton.Text

/-!
# Discovery

How the verifier comes into being: the metadata documents are fetched within a size bound
(`fetchJson`), the issuer and the URLs are checked, and `discover` builds the verifier and its
first key set. Everything `reqwest`, `url`, `serde_json` and `jsonwebtoken` decide is in
`Environment`.

`discover_ok` is the inversion of `discover`: what a verifier has in common with the configuration
and the metadata it was built from.
-/

namespace BaseSkeleton.Oidc

/-! ## Fetching a document

The announced length is checked before the body is read, and the body again while it is read. -/

/-- Discovery and JWKS documents are each limited to 1 MiB. -/
def maxMetadataResponseBytes : Nat := 1048576

/-- An HTTP response, as the code reads it. -/
structure Response where
  /-- `status().is_success()` -/
  isSuccess : Bool
  contentLength : Option Nat
  /-- the results of `chunk()`; `none` is a failed read -/
  chunks : List (Option (List UInt8))

/-- The loop of `fetch_json` over the chunks of the body. -/
def readChunks : List (Option (List UInt8)) → List UInt8 → Except AnyhowError (List UInt8)
  | [], bytes => .ok bytes
  | none :: _, _ => .error ["could not read OIDC metadata response"]
  | some chunk :: rest, bytes =>
    if chunk.length ≤ maxMetadataResponseBytes - bytes.length then readChunks rest (bytes ++ chunk)
    else .error ["OIDC metadata response exceeds the 1 MiB limit"]

/-- `fetch_json`, given what sending the request returned. -/
def fetchJson {T : Type} (fromSlice : List UInt8 → Option T) (sent : Option Response) :
    Except AnyhowError T := do
  let response ← .ofOption ["OIDC metadata request failed"] sent
  .ensure (response.isSuccess) ["OIDC metadata request returned an unsuccessful status"]
  .ensure (response.contentLength.all (· ≤ maxMetadataResponseBytes))
    ["OIDC metadata response exceeds the 1 MiB limit"]
  let bytes ← readChunks response.chunks []
  .ofOption ["OIDC metadata response contains invalid JSON"] (fromSlice bytes)

/-! ## The verifier -/

structure DiscoveryMetadata where
  issuer : String
  jwksUri : String

/-- `reqwest::Url`, as far as the code reads it. -/
structure Url where
  scheme : String
  query : Option String
  fragment : Option String

/-- The HTTP client; redirects are never followed. -/
structure Client where
  httpsOnly : Bool
  timeout : Duration

/-- The immutable part of the verifier. -/
structure OidcAccessTokenVerifier where
  client : Client
  issuer : String
  audience : String
  allowedAlgorithms : AlgorithmSet
  jwksUri : String
  refreshInterval : Duration
  jwksMaxAge : Duration
  clockSkewSeconds : UInt64
  maxTokenLifetimeSeconds : UInt64

structure CachedKeys (K : Type) where
  index : KeyIndex K
  fetchedAt : Instant

/-- `CachedKeys::key`. -/
def CachedKeys.key {K : Type} (keys : CachedKeys K) (kid : String) (algorithm : Algorithm) :
    Option K :=
  keys.index.find algorithm kid

/-- What other crates and the network answer. -/
structure Environment (K : Type) where
  /-- `ClientBuilder::build`, or the text of its error -/
  buildClient : Client → Except String Unit
  /-- what sending a GET during discovery returns -/
  send : Client → String → Option Response
  /-- `Url::parse`, or the text of its error -/
  parseUrl : String → Except String Url
  metadataFromSlice : List UInt8 → Option DiscoveryMetadata
  jwksFromSlice : List UInt8 → Option JwkSet
  /-- `DecodingKey::from_jwk` -/
  fromJwk : Jwk → Option K

variable {K : Type}

def metadataClient (env : Environment K) (config : OidcConfig) : Except AnyhowError Client := do
  let client : Client :=
    ⟨!config.allowInsecureHttp, .fromSecs config.httpTimeoutSeconds.toNat⟩
  withContext "could not construct OIDC HTTP client" (env.buildClient client)
  return client

def parseUrl (env : Environment K) (value field : String) : Except AnyhowError Url :=
  withContext (field ++ " must be a valid URL") (env.parseUrl value)

def validateUrlScheme (env : Environment K) (value : String) (allowInsecureHttp : Bool)
    (field : String) : Except AnyhowError Unit := do
  let url ← parseUrl env value field
  .ensure (url.scheme = "https" ∨ (allowInsecureHttp ∧ url.scheme = "http"))
    [field ++ " must use https" ++ (if allowInsecureHttp then " or http" else "")]

def validateIssuerUrl (env : Environment K) (value : String) (allowInsecureHttp : Bool)
    (field : String) : Except AnyhowError Unit := do
  let url ← parseUrl env value field
  .ensure (url.query = none ∧ url.fragment = none)
    [field ++ " must not contain a query or fragment"]
  validateUrlScheme env value allowInsecureHttp field

/-- `Context::context`. -/
def context {α : Type} (message : String) (x : Except AnyhowError α) : Except AnyhowError α :=
  x.mapError (message :: ·)

/-- Where the discovery document of an issuer is. -/
def discoveryUrl (configuredIssuer : String) : String :=
  configuredIssuer ++ "/.well-known/openid-configuration"

/-- `OidcAccessTokenVerifier::discover`; `now` is the instant the first key set is stamped with. -/
def discover (env : Environment K) (config : OidcConfig) (now : Instant) :
    Except AnyhowError (OidcAccessTokenVerifier × CachedKeys K) := do
  config.validate
  let client ← metadataClient env config
  let allowedAlgorithms ← parseAlgorithms config.allowedAlgorithms
  validateIssuerUrl env config.issuerUrl config.allowInsecureHttp "OIDC_ISSUER_URL"
  let configuredIssuer := Text.trimEndMatches '/' config.issuerUrl
  let metadata ← context "could not load OIDC discovery metadata"
    (fetchJson env.metadataFromSlice (env.send client (discoveryUrl configuredIssuer)))
  validateIssuerUrl env metadata.issuer config.allowInsecureHttp "OIDC discovery issuer"
  .ensure (Text.trimEndMatches '/' metadata.issuer = configuredIssuer)
    ["OIDC discovery issuer does not match OIDC_ISSUER_URL"]
  .ensure (Text.trim metadata.jwksUri ≠ "")
    ["OIDC discovery metadata contains an empty jwks_uri"]
  validateUrlScheme env metadata.jwksUri config.allowInsecureHttp "OIDC jwks_uri"
  let keys ← context "could not load initial OIDC JWKS"
    (fetchJson env.jwksFromSlice (env.send client metadata.jwksUri))
  let index ← indexKeys env.fromJwk keys allowedAlgorithms
  return (
    { client := client
      issuer := metadata.issuer
      audience := config.audience
      allowedAlgorithms := allowedAlgorithms
      jwksUri := metadata.jwksUri
      refreshInterval := config.jwksRefreshInterval
      jwksMaxAge := config.jwksMaxAge
      clockSkewSeconds := config.clockSkewSeconds
      maxTokenLifetimeSeconds := config.maxTokenLifetimeSeconds },
    ⟨index, now⟩)

/-! ## What discovery establishes

The checks of `discover`, and the fields of the verifier. -/

/-- The verifier that discovery builds from a configuration and the metadata document of its
issuer. -/
structure Discovered (env : Environment K) (config : OidcConfig) (metadata : DiscoveryMetadata)
    (v : OidcAccessTokenVerifier) : Prop where
  validated : config.validate = .ok ()
  fetched : ∃ client, fetchJson env.metadataFromSlice (env.send client
    (discoveryUrl (Text.trimEndMatches '/' config.issuerUrl))) = .ok metadata
  issuer_matches : Text.trimEndMatches '/' metadata.issuer =
    Text.trimEndMatches '/' config.issuerUrl
  issuer : v.issuer = metadata.issuer
  audience : v.audience = config.audience
  allowed : parseAlgorithms config.allowedAlgorithms = .ok v.allowedAlgorithms
  refreshInterval : v.refreshInterval = config.jwksRefreshInterval
  jwksMaxAge : v.jwksMaxAge = config.jwksMaxAge
  clockSkew : v.clockSkewSeconds = config.clockSkewSeconds
  maxTokenLifetime : v.maxTokenLifetimeSeconds = config.maxTokenLifetimeSeconds

/-- **Inversion of `discover`.** -/
theorem discover_ok {env : Environment K} {config : OidcConfig} {now : Instant}
    {v : OidcAccessTokenVerifier} {keys : CachedKeys K}
    (h : discover env config now = .ok (v, keys)) :
    ∃ metadata, Discovered env config metadata v := by
  simp only [discover, context, Except.bind_eq_ok, Except.mapError_eq_ok, Except.ensure_eq_ok,
    Except.pure_eq_ok, Prod.mk.injEq] at h
  obtain ⟨_, hvalid, client, _, algorithms, halgorithms, _, _, metadata, hfetched, _, _, _,
    hissuer, _, _, _, _, _, _, _, _, rfl, _⟩ := h
  exact ⟨metadata, hvalid, ⟨client, hfetched⟩, hissuer, rfl, rfl, halgorithms, rfl, rfl, rfl, rfl⟩

/-! ## A provider and its verifier -/

/-- A provider with one RSA key, under the `kid` `initial`. -/
def sampleEnvironment : Environment String where
  buildClient _ := .ok ()
  send _ _ := some ⟨true, none, [some []]⟩
  parseUrl _ := .ok ⟨"https", none, none⟩
  metadataFromSlice _ := some ⟨"https://issuer", "https://issuer/jwks"⟩
  jwksFromSlice _ :=
    some ⟨[⟨⟨some .signature, none, some (.signature .RS256), some "initial"⟩, .rsa "n" "AQAB"⟩]⟩
  fromJwk _ := some "public key"

def sampleConfig : OidcConfig where
  issuerUrl := "https://issuer/"
  audience := "users-api"
  allowedAlgorithms := ["RS256"]
  httpTimeoutSeconds := 5
  clockSkewSeconds := 30
  jwksRefreshIntervalSeconds := 60
  jwksMaxAgeSeconds := 300
  maxTokenLifetimeSeconds := 3600
  allowInsecureHttp := false

/-- What `discover` makes of the two. -/
def sampleVerifier : OidcAccessTokenVerifier where
  client := ⟨true, .fromSecs 5⟩
  issuer := "https://issuer"
  audience := "users-api"
  allowedAlgorithms := ⟨[.RS256], List.nodup_singleton _⟩
  jwksUri := "https://issuer/jwks"
  refreshInterval := .fromSecs 60
  jwksMaxAge := .fromSecs 300
  clockSkewSeconds := 30
  maxTokenLifetimeSeconds := 3600

def sampleKeys : CachedKeys String :=
  ⟨KeyIndex.put ∅ .RS256 "initial" "public key", 0⟩

theorem discover_sample :
    discover sampleEnvironment sampleConfig 0 = .ok (sampleVerifier, sampleKeys) := rfl

end BaseSkeleton.Oidc
