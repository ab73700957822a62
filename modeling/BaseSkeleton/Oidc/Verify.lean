import Mathlib.Data.Finset.Insert
import BaseSkeleton.Auth
import BaseSkeleton.Oidc.Metadata

/-!
# Verification of an access token

`verify` decodes a token twice: once without looking at the signature, to reject what no key could
make valid, and once with the key its header names. The checks on `iat`, the lifetime and `sub`
are made on the first copy only, and the principal is built from the second one.

`jsonwebtoken` is a parameter, `JsonWebToken`; `Documented` is what its documentation promises of
`decode`. The clock is read three times, by both calls of `decode` and in between.

* `verify_ok_iff` — what each step of a successful verification has checked.
* `verify_exact` — the tokens a discovered verifier accepts, and the principal it makes of them.
-/

namespace BaseSkeleton.Oidc

/-! ## `jsonwebtoken`

What is documented of `decode`: it succeeds exactly on the payloads that pass the validation, and
checks the signature if it is asked to. -/

structure Header where
  alg : Algorithm
  kid : Option String

structure AccessTokenClaims where
  sub : String
  exp : UInt64
  iat : UInt64
  /-- empty where the claim is missing -/
  scope : String

/-- `jsonwebtoken::Validation`, without the options that are never set. -/
structure Validation where
  algorithms : List Algorithm
  leeway : UInt64
  validateExp : Bool
  validateNbf : Bool
  aud : Option (List String)
  iss : Option (List String)
  requiredSpecClaims : List String
  validateSignature : Bool

/-- `Validation::new`. -/
def Validation.new (alg : Algorithm) : Validation where
  algorithms := [alg]
  leeway := 60
  validateExp := true
  validateNbf := false
  aud := none
  iss := none
  requiredSpecClaims := ["exp"]
  validateSignature := true

/-- The functions of `jsonwebtoken` the verifier calls; `K` is `DecodingKey`. -/
structure JsonWebToken (K : Type) where
  decodeHeader : String → Option Header
  /-- `decode::<AccessTokenClaims>` at a Unix time -/
  decode : String → K → Validation → UInt64 → Option AccessTokenClaims
  /-- `DecodingKey::from_secret` -/
  fromSecret : List UInt8 → K

/-- The payload of a well-formed token. -/
structure Payload where
  /-- what it deserializes into, if it does -/
  claims : Option AccessTokenClaims
  nbf : Option Nat
  /-- the issuers: usually one -/
  iss : List String
  aud : List String
  /-- the registered claims that are present -/
  present : List String

/-- The registered claims of a payload pass a validation at `now`. -/
structure Payload.Passes (body : Payload) (claims : AccessTokenClaims) (validation : Validation)
    (now : UInt64) : Prop where
  required : ∀ claim ∈ validation.requiredSpecClaims, claim ∈ body.present
  exp : validation.validateExp = true → now.toNat ≤ claims.exp.toNat + validation.leeway.toNat
  nbf : validation.validateNbf = true →
    ∀ nbf ∈ body.nbf, nbf ≤ now.toNat + validation.leeway.toNat
  iss : ∀ allowed ∈ validation.iss, ∃ iss ∈ body.iss, iss ∈ allowed
  aud : ∀ allowed ∈ validation.aud, ∃ aud ∈ body.aud, aud ∈ allowed

instance (body : Payload) (claims : AccessTokenClaims) (validation : Validation) (now : UInt64) :
    Decidable (body.Passes claims validation now) :=
  decidable_of_iff
    ((∀ claim ∈ validation.requiredSpecClaims, claim ∈ body.present) ∧
      (validation.validateExp = true →
        now.toNat ≤ claims.exp.toNat + validation.leeway.toNat) ∧
      (validation.validateNbf = true →
        ∀ nbf ∈ body.nbf, nbf ≤ now.toNat + validation.leeway.toNat) ∧
      (∀ allowed ∈ validation.iss, ∃ iss ∈ body.iss, iss ∈ allowed) ∧
      ∀ allowed ∈ validation.aud, ∃ aud ∈ body.aud, aud ∈ allowed)
    ⟨fun ⟨required, exp, nbf, iss, aud⟩ => ⟨required, exp, nbf, iss, aud⟩,
      fun ⟨required, exp, nbf, iss, aud⟩ => ⟨required, exp, nbf, iss, aud⟩⟩

variable {K : Type}

/-- `decode` accepts exactly the well-formed tokens that deserialize, whose registered claims pass,
and whose signature verifies under an allowed algorithm unless that check is disabled. -/
def JsonWebToken.Documented (jwt : JsonWebToken K) (payload : String → Option Payload)
    (verifies : String → Algorithm → K → Prop) : Prop :=
  ∀ token key validation now claims, jwt.decode token key validation now = some claims ↔
    ∃ header body, jwt.decodeHeader token = some header ∧ payload token = some body ∧
      body.claims = some claims ∧ body.Passes claims validation now ∧
      (validation.validateSignature = true →
        header.alg ∈ validation.algorithms ∧ verifies token header.alg key)

/-! ## `verify`

The steps in their order. The key is a parameter here; `key_for` is in `KeyCache`. -/

/-- `u64::saturating_add`. -/
def saturatingAdd (a b : UInt64) : UInt64 :=
  .ofNat (min (a.toNat + b.toNat) (2 ^ 64 - 1))

namespace OidcAccessTokenVerifier

variable (v : OidcAccessTokenVerifier)

/-- The validation `verify` sets up for the algorithm of the header. -/
def validation (alg : Algorithm) : Validation :=
  { Validation.new alg with
    leeway := v.clockSkewSeconds
    validateNbf := true
    aud := some [v.audience]
    iss := some [v.issuer]
    requiredSpecClaims := ["exp", "iat", "iss", "aud", "sub"] }

/-- The manual check on the unverified claims. -/
def rejects (claims : AccessTokenClaims) (now : UInt64) : Prop :=
  Text.trim claims.sub = "" ∨ claims.iat > saturatingAdd now v.clockSkewSeconds ∨
    claims.exp < claims.iat ∨ claims.exp - claims.iat > v.maxTokenLifetimeSeconds

instance (claims : AccessTokenClaims) (now : UInt64) : Decidable (v.rejects claims now) :=
  inferInstanceAs (Decidable (_ ∨ _))

/-- `verify`. The clock reads `precheckNow` and `decodeNow` for the two calls of `decode` and
`wallClock` in between, where `none` is a time before the epoch; `keyFor` is the answer of
`key_for` in this call. -/
def verify (jwt : JsonWebToken K) (accessToken : String) (precheckNow : UInt64)
    (wallClock : Option UInt64)
    (keyFor : String → Algorithm → Except AccessTokenVerificationError K) (decodeNow : UInt64) :
    Except AccessTokenVerificationError AuthenticatedPrincipal := do
  let header ← .ofOption .invalidToken (jwt.decodeHeader accessToken)
  .ensure (header.alg ∈ v.allowedAlgorithms) .invalidToken
  let kid ← .ofOption .invalidToken (header.kid.filter (· ≠ ""))
  let validation := v.validation header.alg
  let precheck := { validation with validateSignature := false }
  let unverified ← .ofOption .invalidToken
    (jwt.decode accessToken (jwt.fromSecret []) precheck precheckNow)
  let now ← .ofOption .authenticationUnavailable wallClock
  .ensure (¬ v.rejects unverified now) .invalidToken
  let decodingKey ← keyFor kid header.alg
  let token ← .ofOption .invalidToken (jwt.decode accessToken decodingKey validation decodeNow)
  let scopes := (Text.splitAsciiWhitespace token.scope).toFinset
  return ⟨token.sub, scopes⟩

end OidcAccessTokenVerifier

/-! ## The checks

The machine arithmetic of the checks on `iat` and `exp` is the one of natural numbers: the sum
saturates, and the difference is taken after the comparison. -/

theorem toNat_saturatingAdd (a b : UInt64) :
    (saturatingAdd a b).toNat = min (a.toNat + b.toNat) (2 ^ 64 - 1) := by
  rw [saturatingAdd, UInt64.toNat_ofNat']
  exact Nat.mod_eq_of_lt (by omega)

variable {v : OidcAccessTokenVerifier} {jwt : JsonWebToken K} {accessToken : String}
  {precheckNow decodeNow : UInt64} {wallClock : Option UInt64}
  {keyFor : String → Algorithm → Except AccessTokenVerificationError K}
  {p : AuthenticatedPrincipal}

/-- The checks on `iat` and the lifetime are checks on numbers: no `u64` wraps or saturates in a
way that would matter. -/
theorem not_rejects_iff {claims : AccessTokenClaims} {now : UInt64} :
    ¬ v.rejects claims now ↔
      ¬ Text.IsBlank claims.sub ∧
        claims.iat.toNat ≤ now.toNat + v.clockSkewSeconds.toNat ∧
        claims.iat.toNat ≤ claims.exp.toNat ∧
        claims.exp.toNat - claims.iat.toNat ≤ v.maxTokenLifetimeSeconds.toNat := by
  have hiat := claims.iat.toNat_lt
  unfold OidcAccessTokenVerifier.rejects
  rw [Text.trim_eq_empty, not_or, not_or, not_or, gt_iff_lt, gt_iff_lt, UInt64.lt_iff_toNat_lt,
    UInt64.lt_iff_toNat_lt, UInt64.lt_iff_toNat_lt, toNat_saturatingAdd]
  constructor
  · rintro ⟨hsub, hnow, hexp, hlifetime⟩
    have hle : claims.iat ≤ claims.exp := UInt64.le_iff_toNat_le.mpr (by omega)
    rw [UInt64.toNat_sub_of_le _ _ hle] at hlifetime
    exact ⟨hsub, by omega, by omega, by omega⟩
  · rintro ⟨hsub, hnow, hexp, hlifetime⟩
    have hle : claims.iat ≤ claims.exp := UInt64.le_iff_toNat_le.mpr hexp
    rw [UInt64.toNat_sub_of_le _ _ hle]
    exact ⟨hsub, by omega, by omega, by omega⟩

/-- **What a successful verification has checked**, step by step. -/
theorem verify_ok_iff :
    v.verify jwt accessToken precheckNow wallClock keyFor decodeNow = .ok p ↔
      ∃ header kid unverified now key token, jwt.decodeHeader accessToken = some header ∧
        header.alg ∈ v.allowedAlgorithms ∧ header.kid = some kid ∧ kid ≠ "" ∧
        jwt.decode accessToken (jwt.fromSecret [])
          { v.validation header.alg with validateSignature := false } precheckNow =
            some unverified ∧
        wallClock = some now ∧ ¬ v.rejects unverified now ∧ keyFor kid header.alg = .ok key ∧
        jwt.decode accessToken key (v.validation header.alg) decodeNow = some token ∧
        p = ⟨token.sub, (Text.splitAsciiWhitespace token.scope).toFinset⟩ := by
  simp only [OidcAccessTokenVerifier.verify, Except.bind_eq_ok, Except.ofOption_eq_ok,
    Except.ensure_eq_ok, Except.pure_eq_ok, Option.filter_eq_some_iff, decide_eq_true_eq]
  constructor
  · rintro ⟨header, hheader, _, halg, kid, ⟨hkid, hne⟩, unverified, hprecheck, now, hnow, _,
      haccepted, key, hkey, token, hdecode, rfl⟩
    exact ⟨header, kid, unverified, now, key, token, hheader, halg, hkid, hne, hprecheck, hnow,
      haccepted, hkey, hdecode, rfl⟩
  · rintro ⟨header, kid, unverified, now, key, token, hheader, halg, hkid, hne, hprecheck, hnow,
      haccepted, hkey, hdecode, rfl⟩
    exact ⟨header, hheader, (), halg, kid, ⟨hkid, hne⟩, unverified, hprecheck, now, hnow, (),
      haccepted, key, hkey, token, hdecode, rfl⟩

/-! ## The theorem -/

/-- A token that the verifier `v` of `config` accepts, with what it reads out of it: the header and
its `kid`, the payload and the claims, and the `key` that `key_for` answers. -/
structure Accepted (config : OidcConfig) (metadata : DiscoveryMetadata)
    (v : OidcAccessTokenVerifier) (verifies : String → Algorithm → K → Prop)
    (keyFor : String → Algorithm → Except AccessTokenVerificationError K)
    (precheckNow now decodeNow : UInt64) (accessToken : String) (header : Header) (kid : String)
    (body : Payload) (claims : AccessTokenClaims) (key : K) : Prop where
  allowed : header.alg ∈ v.allowedAlgorithms
  asymmetric : header.alg.isHmac = false
  kid_eq : header.kid = some kid
  kid_nonempty : kid ≠ ""
  key_eq : keyFor kid header.alg = .ok key
  signature : verifies accessToken header.alg key
  issuer : metadata.issuer ∈ body.iss
  audience : config.audience ∈ body.aud
  required : ∀ claim ∈ ["exp", "iat", "iss", "aud", "sub"], claim ∈ body.present
  /-- at both readings of the clock that `decode` makes -/
  exp : ∀ t ∈ [precheckNow, decodeNow],
    t.toNat ≤ claims.exp.toNat + config.clockSkewSeconds.toNat
  nbf : ∀ t ∈ [precheckNow, decodeNow], ∀ nbf ∈ body.nbf,
    nbf ≤ t.toNat + config.clockSkewSeconds.toNat
  iat : claims.iat.toNat ≤ now.toNat + config.clockSkewSeconds.toNat
  iat_le_exp : claims.iat.toNat ≤ claims.exp.toNat
  lifetime : claims.exp.toNat - claims.iat.toNat ≤ config.maxTokenLifetimeSeconds.toNat
  subject : ¬ Text.IsBlank claims.sub

/-- An accepted token passes both validations that `verify` sets up for it. -/
theorem Accepted.passes {config : OidcConfig} {metadata : DiscoveryMetadata}
    {verifies : String → Algorithm → K → Prop} {env : Environment K} {now t : UInt64}
    {header : Header} {kid : String} {body : Payload} {claims : AccessTokenClaims} {key : K}
    (h : Accepted config metadata v verifies keyFor precheckNow now decodeNow accessToken header
      kid body claims key)
    (hd : Discovered env config metadata v) (ht : t ∈ [precheckNow, decodeNow])
    (validateSignature : Bool) :
    body.Passes claims { v.validation header.alg with validateSignature := validateSignature }
      t where
  required := h.required
  exp _ := by
    show t.toNat ≤ claims.exp.toNat + v.clockSkewSeconds.toNat
    rw [hd.clockSkew]
    exact h.exp t ht
  nbf _ := by
    show ∀ nbf ∈ body.nbf, nbf ≤ t.toNat + v.clockSkewSeconds.toNat
    rw [hd.clockSkew]
    exact h.nbf t ht
  iss := by
    rintro _ ⟨⟩
    exact ⟨metadata.issuer, h.issuer, List.mem_singleton.mpr hd.issuer.symm⟩
  aud := by
    rintro _ ⟨⟩
    exact ⟨config.audience, h.audience, List.mem_singleton.mpr hd.audience.symm⟩

/-- The principal made of a token is the one with its subject and the words of its `scope`. -/
theorem principal_eq_iff {token : AccessTokenClaims} :
    p = ⟨token.sub, (Text.splitAsciiWhitespace token.scope).toFinset⟩ ↔
      p.subject = token.sub ∧
        ∀ scope, p.hasScope scope = true ↔ Text.IsWordOf scope token.scope := by
  constructor
  · rintro rfl
    refine ⟨rfl, fun scope => ?_⟩
    simp [AuthenticatedPrincipal.hasScope, Text.mem_splitAsciiWhitespace]
  · rintro ⟨hsub, hscope⟩
    obtain ⟨subject, scopes⟩ := p
    have hscopes : scopes = (Text.splitAsciiWhitespace token.scope).toFinset := by
      ext scope
      have hword := hscope scope
      rw [List.mem_toFinset, Text.mem_splitAsciiWhitespace, ← hword]
      simp [AuthenticatedPrincipal.hasScope]
    rw [hscopes, show subject = token.sub from hsub]

/-- **Verification is exact.** A verifier built by `discover` accepts exactly the tokens that are
`Accepted`; the principal has the subject of the token and the words of its `scope` claim. -/
theorem verify_exact {payload : String → Option Payload} {verifies : String → Algorithm → K → Prop}
    (hjwt : jwt.Documented payload verifies) {env : Environment K} {config : OidcConfig}
    {discovered : Instant} {keys : CachedKeys K}
    (hv : discover env config discovered = .ok (v, keys)) (now : UInt64) :
    (∀ algorithm ∈ v.allowedAlgorithms.iter, algorithm.isHmac = false) ∧
    (v.verify jwt accessToken precheckNow (some now) keyFor decodeNow = .ok p ↔
      ∃ metadata header kid body claims key, Discovered env config metadata v ∧
        jwt.decodeHeader accessToken = some header ∧ payload accessToken = some body ∧
        body.claims = some claims ∧
        Accepted config metadata v verifies keyFor precheckNow now decodeNow accessToken header
          kid body claims key ∧
        p.subject = claims.sub ∧
        ∀ scope, p.hasScope scope = true ↔ Text.IsWordOf scope claims.scope) := by
  obtain ⟨metadata, hd⟩ := discover_ok hv
  have hasymmetric : ∀ algorithm ∈ v.allowedAlgorithms.iter, algorithm.isHmac = false :=
    fun algorithm hmem => isHmac_of_mem_parseAlgorithms hd.allowed hmem
  refine ⟨hasymmetric, ?_⟩
  rw [verify_ok_iff]
  constructor
  · rintro ⟨header, kid, unverified, now', key, token, hheader, halg, hkid, hne, hprecheck, hnow,
      haccepted, hkey, hdecode, rfl⟩
    cases hnow
    -- both calls of `decode` read the same header and the same claims
    obtain ⟨header₁, body₁, hheader₁, hbody₁, hclaims₁, hpasses₁, _⟩ :=
      (hjwt _ _ _ _ _).mp hprecheck
    obtain ⟨header₂, body, hheader₂, hbody, hclaims, hpasses, hsignature⟩ :=
      (hjwt _ _ _ _ _).mp hdecode
    cases hheader.symm.trans hheader₁
    cases hheader.symm.trans hheader₂
    cases hbody.symm.trans hbody₁
    cases hclaims.symm.trans hclaims₁
    obtain ⟨hsub, hiat, hiat_le, hlifetime⟩ := not_rejects_iff.mp haccepted
    rw [hd.clockSkew] at hiat
    rw [hd.maxTokenLifetime] at hlifetime
    refine ⟨metadata, header, kid, _, _, key, hd, hheader, hbody, hclaims, ?_,
      principal_eq_iff.mp rfl⟩
    refine ⟨halg, hasymmetric _ halg, hkid, hne, hkey, (hsignature rfl).2, ?_, ?_,
      hpasses.required, ?_, ?_, hiat, hiat_le, hlifetime, hsub⟩
    · obtain ⟨iss, hiss, hallowed⟩ := hpasses.iss [v.issuer] rfl
      rwa [List.mem_singleton.mp hallowed, hd.issuer] at hiss
    · obtain ⟨aud, haud, hallowed⟩ := hpasses.aud [v.audience] rfl
      rwa [List.mem_singleton.mp hallowed, hd.audience] at haud
    · rw [← hd.clockSkew]
      simpa using ⟨hpasses₁.exp rfl, hpasses.exp rfl⟩
    · rw [← hd.clockSkew]
      simpa using ⟨hpasses₁.nbf rfl, hpasses.nbf rfl⟩
  · rintro ⟨metadata', header, kid, body, claims, key, hd', hheader, hbody, hclaims, hacc,
      hprincipal⟩
    -- The first call of `decode` verifies no signature, and the second one verifies it with the
    -- key.
    have hprecheck := (hjwt accessToken (jwt.fromSecret []) _ precheckNow claims).mpr
      ⟨header, body, hheader, hbody, hclaims, hacc.passes hd' (by simp) false, nofun⟩
    have hdecode := (hjwt accessToken key _ decodeNow claims).mpr
      ⟨header, body, hheader, hbody, hclaims, hacc.passes hd' (by simp) true,
        fun _ => ⟨List.mem_singleton_self _, hacc.signature⟩⟩
    have haccepted : ¬ v.rejects claims now := by
      rw [not_rejects_iff, hd.clockSkew, hd.maxTokenLifetime]
      exact ⟨hacc.subject, hacc.iat, hacc.iat_le_exp, hacc.lifetime⟩
    exact ⟨header, kid, claims, now, key, claims, hheader, hacc.allowed, hacc.kid_eq,
      hacc.kid_nonempty, hprecheck, rfl, haccepted, hacc.key_eq, hdecode,
      principal_eq_iff.mpr hprincipal⟩

/-! ## A token -/

/-- The claims of a token for `sampleVerifier`. -/
def sampleClaims : AccessTokenClaims :=
  ⟨"operator-123", 1300, 1000, "users:read users:write"⟩

/-- The payload of the one token there is. -/
def samplePayload (token : String) : Option Payload :=
  if token = "token" then
    some ⟨some sampleClaims, some 999, ["https://issuer"], ["users-api"],
      ["exp", "iat", "iss", "aud", "sub", "nbf"]⟩
  else none

/-- The token is signed with the key of `sampleEnvironment`. -/
def sampleVerifies (token : String) (algorithm : Algorithm) (key : String) : Prop :=
  token = "token" ∧ algorithm = .RS256 ∧ key = "public key"

instance (token : String) (algorithm : Algorithm) (key : String) :
    Decidable (sampleVerifies token algorithm key) :=
  inferInstanceAs (Decidable (_ ∧ _))

/-- `jsonwebtoken` on that token. -/
def sampleJwt : JsonWebToken String where
  decodeHeader token := if token = "token" then some ⟨.RS256, some "initial"⟩ else none
  decode token key validation now :=
    (samplePayload token).bind fun body => body.claims.filter fun claims =>
      body.Passes claims validation now ∧
        (validation.validateSignature = true →
          .RS256 ∈ validation.algorithms ∧ sampleVerifies token .RS256 key)
  fromSecret _ := "secret"

theorem sampleJwt_documented : sampleJwt.Documented samplePayload sampleVerifies := by
  intro token key validation now claims
  simp only [sampleJwt, Option.bind_eq_some_iff, Option.filter_eq_some_iff, decide_eq_true_eq]
  constructor
  · rintro ⟨body, hbody, hclaims, hpasses, hsignature⟩
    have htoken : token = "token" := by
      by_contra hne
      rw [samplePayload, if_neg hne] at hbody
      cases hbody
    exact ⟨⟨.RS256, some "initial"⟩, body, if_pos htoken, hbody, hclaims, hpasses, hsignature⟩
  · rintro ⟨header, body, hheader, hbody, hclaims, hpasses, hsignature⟩
    split at hheader <;> cases hheader
    exact ⟨body, hbody, hclaims, hpasses, hsignature⟩

/-- The sample verifier accepts the sample token, ten seconds after it was issued. -/
theorem verify_exact_sample :
    sampleVerifier.verify sampleJwt "token" 1010 (some 1010)
      (fun kid algorithm => .ofOption .invalidToken (sampleKeys.key kid algorithm)) 1011 =
        .ok ⟨"operator-123", {"users:read", "users:write"}⟩ := by
  refine (verify_exact sampleJwt_documented discover_sample 1010).2.mpr ?_
  refine ⟨⟨"https://issuer", "https://issuer/jwks"⟩, ⟨.RS256, some "initial"⟩, "initial", _,
    sampleClaims, "public key", ?_, rfl, rfl, rfl, ?_, rfl, ?_⟩
  · exact ⟨rfl, ⟨⟨true, 0⟩, rfl⟩, rfl, rfl, rfl, rfl, rfl, rfl, rfl, rfl⟩
  · have hsubject : ¬ Text.IsBlank sampleClaims.sub := mt Text.trim_eq_empty.mpr (by decide)
    exact ⟨by decide, by decide, rfl, by decide, rfl, by decide, by decide, by decide, by decide,
      by simp [sampleClaims, sampleConfig], by simp [sampleConfig], by decide, by decide,
      by decide, hsubject⟩
  · intro scope
    rw [← Text.mem_splitAsciiWhitespace, ← List.mem_toFinset, AuthenticatedPrincipal.hasScope,
      decide_eq_true_eq]
    have hscopes : (Text.splitAsciiWhitespace sampleClaims.scope).toFinset =
        {"users:read", "users:write"} := by decide
    rw [hscopes]

end BaseSkeleton.Oidc
