import BaseSkeleton.Basic
import BaseSkeleton.Lib.Fallible

/-!
# Configuration

The part of the configuration the access token verifier is built from, and the check it must pass.
-/

namespace BaseSkeleton

/-- `anyhow::Error`: its messages, the outermost context first. -/
abbrev AnyhowError := List String

/-- `Context::context` of an error that is no `anyhow::Error` yet. -/
def withContext {α : Type} (context : String) (result : Except String α) :
    Except AnyhowError α :=
  result.mapError fun error => [context, error]

theorem withContext_eq_ok {α : Type} {context : String} {result : Except String α} {a : α} :
    withContext context result = .ok a ↔ result = .ok a :=
  Except.mapError_eq_ok

structure OidcConfig where
  issuerUrl : String
  audience : String
  allowedAlgorithms : List String
  httpTimeoutSeconds : UInt64
  clockSkewSeconds : UInt64
  jwksRefreshIntervalSeconds : UInt64
  jwksMaxAgeSeconds : UInt64
  maxTokenLifetimeSeconds : UInt64
  allowInsecureHttp : Bool

namespace OidcConfig

def validate (config : OidcConfig) : Except AnyhowError Unit := do
  .ensure (config.jwksRefreshIntervalSeconds > 0)
    ["OIDC_JWKS_REFRESH_INTERVAL_SECONDS must be greater than zero"]
  .ensure (config.jwksMaxAgeSeconds > 0)
    ["OIDC_JWKS_MAX_AGE_SECONDS must be greater than zero"]
  .ensure (config.jwksMaxAgeSeconds ≥ config.jwksRefreshIntervalSeconds)
    ["OIDC_JWKS_MAX_AGE_SECONDS must be greater than or equal to OIDC_JWKS_REFRESH_INTERVAL_SECONDS"]

def jwksRefreshInterval (config : OidcConfig) : Duration :=
  .fromSecs config.jwksRefreshIntervalSeconds.toNat

def jwksMaxAge (config : OidcConfig) : Duration :=
  .fromSecs config.jwksMaxAgeSeconds.toNat

/-- A configuration that passed the check keeps keys at least as long as it waits between two
attempts to fetch new ones. -/
theorem interval_le_maxAge {config : OidcConfig} (h : config.validate = .ok ()) :
    config.jwksRefreshInterval ≤ config.jwksMaxAge := by
  simp only [validate, Except.bind_eq_ok, Except.ensure_eq_ok] at h
  obtain ⟨_, _, _, _, hle⟩ := h
  exact Nat.mul_le_mul_right _ (UInt64.le_iff_toNat_le.mp hle)

end OidcConfig

end BaseSkeleton
